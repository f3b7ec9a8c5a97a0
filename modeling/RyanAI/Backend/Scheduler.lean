import Mathlib.Data.List.Sort
import Mathlib.Data.String.Basic
import RyanAI.Lib.NumericText
import RyanAI.Lib.OrderedMap
import RyanAI.Lib.Placement

/-!
# The load-aware scheduler of bot gateway connections

`connection_can_move`, `_next_shard` and `build_rebalance_plan` of `utils/bot_gateway_scheduler.py`, in three passes
over the enabled connections: those that cannot move keep their shard, healthy ones keep it up to its capacity, and the
rest is packed by best fit. `Tracks` reads the five tables of the planner as one placement of connections on shards, and
`buildRebalancePlan_spec` says how it grows in the three passes.
-/

namespace RyanAI.Backend.Scheduler

open RyanAI.Lib

/-! ## Connections -/

/-- `MOVE_COOLDOWN_SECONDS`. -/
def moveCooldownSeconds : ℤ := 30 * 60

/-- The counters are `int(config.get(key, 0) or 0)`; `lastShardMoveAt` is `none` unless finite. -/
structure Config where
  lastShardMoveAt : Option ℤ := some 0
  halfOpen : Bool := false
  credentialMigrationInProgress : Bool := false
  controlOperationInProgress : Bool := false
  accountErrorStreak : ℤ := 0
  overloadedWindows : ℤ := 0
  underloadedWindows : ℤ := 0
  deriving DecidableEq

structure SchedulingConnection where
  id : String
  channel : String
  shardId : Option String
  enabled : Bool
  status : String
  loadUnits : ℤ
  config : Config := {}
  deriving DecidableEq

/-- The shard of `if item.shard_id`: an empty id counts as none. -/
def SchedulingConnection.shard (item : SchedulingConnection) : Option String := item.shardId.filter fun s => s ≠ ""

variable {s : String} {x y : SchedulingConnection}

theorem SchedulingConnection.shard_eq_some {item : SchedulingConnection} :
    item.shard = some s ↔ item.shardId = some s ∧ s ≠ "" := by
  simp [SchedulingConnection.shard]

def connectionCanMove (now : ℤ) (connection : SchedulingConnection) : Bool :=
  let config := connection.config
  let inCooldown : Bool :=
    match config.lastShardMoveAt with
    | none => false
    | some lastMoveAt => lastMoveAt > now - moveCooldownSeconds
  !(connection.status == "awaiting_scan"
    || config.halfOpen
    || config.credentialMigrationInProgress
    || config.controlOperationInProgress
    || inCooldown)

/-- `item.load_units >= 8 or account_error_streak >= 3`. -/
def SchedulingConnection.isolate (item : SchedulingConnection) : Bool :=
  item.loadUnits ≥ 8 || item.config.accountErrorStreak ≥ 3

/-- `f'{index:03d}'`. -/
def pad3 (index : ℕ) : String :=
  String.ofList (List.replicate (3 - (Nat.toDigits 10 index).length) '0' ++ Nat.toDigits 10 index)

/-- `_shard_id`. -/
def shardName (channel : String) (index : ℕ) : String := channel ++ "-shard-" ++ pad3 index

/-- The loop of `_next_shard` from an index on; `fuel` bounds its rounds. -/
def nextShardFrom (channel : String) (known : List String) : ℕ → ℕ → String
  | 0, index => shardName channel index
  | fuel + 1, index =>
    if shardName channel index ∈ known then nextShardFrom channel known fuel (index + 1)
    else shardName channel index

/-- `_next_shard`: one of the first `known.length + 1` names is free. -/
def nextShard (channel : String) (known : List String) : String := nextShardFrom channel known known.length 0

/-! ## The tables of the planner -/

structure Tables where
  assignments : OrderedMap String String := []
  shardAccounts : OrderedMap String ℤ := []
  shardLoad : OrderedMap String ℤ := []
  shardChannel : OrderedMap String String := []
  dedicatedShards : List String := []

/-- `shard_accounts.get(shard_id, 0)`. -/
def Tables.accounts (t : Tables) (shardId : String) : ℤ := (OrderedMap.get shardId t.shardAccounts).getD 0

/-- `shard_load.get(shard_id, 0)`. -/
def Tables.load (t : Tables) (shardId : String) : ℤ := (OrderedMap.get shardId t.shardLoad).getD 0

/-- The updates that `retain` and the last pass share. -/
def Tables.place (t : Tables) (item : SchedulingConnection) (shardId : String) : Tables where
  assignments := OrderedMap.set item.id shardId t.assignments
  shardAccounts := OrderedMap.set shardId (t.accounts shardId + 1) t.shardAccounts
  shardLoad := OrderedMap.set shardId (t.load shardId + item.loadUnits) t.shardLoad
  shardChannel := OrderedMap.set shardId item.channel t.shardChannel
  dedicatedShards := if item.isolate then shardId :: t.dedicatedShards else t.dedicatedShards

def retain (t : Tables) (item : SchedulingConnection) : Tables :=
  match item.shard with
  | none => t
  | some shardId => t.place item shardId

/-- `sorted(items, key=lambda value: value.id)`. -/
def sortedById (items : List SchedulingConnection) : List SchedulingConnection :=
  items.insertionSort fun a b => a.id ≤ b.id

/-- `existing_shard_accounts.get(shard_id, 0)`. -/
def existingShardAccounts (items : List SchedulingConnection) (shardId : String) : ℕ :=
  items.countP fun item => item.shard = some shardId

section Passes

variable (accountCapacity loadCapacity now : ℤ)

def retainFixed (t : Tables) (item : SchedulingConnection) : Tables :=
  if item.shard.isSome && !connectionCanMove now item then retain t item else t

/-- `math.floor(load_capacity * 1.2)`. -/
def stickyLimit : ℤ := 6 * loadCapacity / 5

/-- The condition of the sticky pass for a connection on `shardId`. -/
def sticky (items : List SchedulingConnection) (t : Tables) (item : SchedulingConnection) (shardId : String) : Bool :=
  let projectedAccounts := t.accounts shardId + 1
  let projectedLoad := t.load shardId + item.loadUnits
  let requiresIsolation := item.isolate && existingShardAccounts items shardId > 1
  !requiresIsolation
    && projectedAccounts ≤ accountCapacity
    && (projectedLoad ≤ stickyLimit loadCapacity || item.config.overloadedWindows < 3)
    && item.config.underloadedWindows < 30

def retainSticky (items : List SchedulingConnection) (t : Tables) (item : SchedulingConnection) : Tables :=
  match item.shard with
  | none => t
  | some shardId =>
    if (OrderedMap.get item.id t.assignments).isSome then t
    else if sticky accountCapacity loadCapacity items t item shardId then retain t item
    else t

def Tables.known (t : Tables) (channel : String) : List String :=
  (t.shardChannel.filter fun entry => entry.2 = channel).map Prod.fst

def Tables.candidates (t : Tables) (item : SchedulingConnection) : List String :=
  (t.known item.channel).filter fun shard =>
    shard ∉ t.dedicatedShards
      && t.accounts shard < accountCapacity
      && t.load shard + item.loadUnits ≤ loadCapacity

/-- The order of `(load, accounts, shard)`. -/
def Tables.keyLt (t : Tables) (a b : String) : Bool :=
  t.load a < t.load b
    || (t.load a = t.load b
      && (t.accounts a < t.accounts b || (t.accounts a = t.accounts b && a < b)))

/-- `max(candidates, key=...)`. -/
def Tables.bestFit (t : Tables) : List String → Option String
  | [] => none
  | shard :: rest => some (rest.foldl (fun best s => if t.keyLt best s then s else best) shard)

def Tables.target (t : Tables) (item : SchedulingConnection) : String :=
  match t.bestFit (t.candidates accountCapacity loadCapacity item) with
  | none => nextShard item.channel (t.known item.channel)
  | some shard => if item.isolate then nextShard item.channel (t.known item.channel) else shard

def assign (t : Tables) (item : SchedulingConnection) : Tables :=
  t.place item (t.target accountCapacity loadCapacity item)

/-- The order of `(-value.load_units, value.id)`. -/
def LoadLe (a b : SchedulingConnection) : Prop := b.loadUnits < a.loadUnits ∨ b.loadUnits = a.loadUnits ∧ a.id ≤ b.id

instance : DecidableRel LoadLe := fun a b =>
  inferInstanceAs (Decidable (b.loadUnits < a.loadUnits ∨ b.loadUnits = a.loadUnits ∧ a.id ≤ b.id))

/-- `unassigned.sort(key=lambda value: (-value.load_units, value.id))`. -/
def sortedByLoad (items : List SchedulingConnection) : List SchedulingConnection := items.insertionSort LoadLe

def retained (items : List SchedulingConnection) : Tables :=
  (sortedById items).foldl (retainSticky accountCapacity loadCapacity items)
    ((sortedById items).foldl (retainFixed now) {})

def unassigned (items : List SchedulingConnection) : List SchedulingConnection :=
  sortedByLoad (items.filter fun item =>
    !(OrderedMap.get item.id (retained accountCapacity loadCapacity now items).assignments).isSome)

def packed (items : List SchedulingConnection) : Tables :=
  (unassigned accountCapacity loadCapacity now items).foldl (assign accountCapacity loadCapacity)
    (retained accountCapacity loadCapacity now items)

end Passes

/-! ## The plan -/

inductive MoveReason where
  | newAssignment
  | capacityRebalance
  deriving DecidableEq

structure Move where
  connectionId : String
  channel : String
  fromShardId : Option String
  toShardId : String
  loadUnits : ℤ
  reason : MoveReason
  deriving DecidableEq

structure ShardTotals where
  id : String
  channel : String
  accounts : ℤ
  loadUnits : ℤ
  accountCapacity : ℤ
  loadCapacity : ℤ
  deriving DecidableEq

structure Plan where
  moves : List Move
  shards : List ShardTotals
  assignments : OrderedMap String String
  deriving DecidableEq

/-- `{item.id: item for item in items}`. -/
def byId (items : List SchedulingConnection) : OrderedMap String SchedulingConnection :=
  items.foldl (fun m item => OrderedMap.set item.id item m) []

def pairLe (a b : String × String) : Prop := a.1 < b.1 ∨ a.1 = b.1 ∧ a.2 ≤ b.2

instance : DecidableRel pairLe := fun a b => inferInstanceAs (Decidable (a.1 < b.1 ∨ a.1 = b.1 ∧ a.2 ≤ b.2))

/-- The entry of `moves` for a connection that changes its shard. -/
def SchedulingConnection.moveTo (item : SchedulingConnection) (target : String) : Move where
  connectionId := item.id
  channel := item.channel
  fromShardId := item.shardId
  toShardId := target
  loadUnits := item.loadUnits
  reason := if item.shardId = none then .newAssignment else .capacityRebalance

def moveOf (now : ℤ) (item : SchedulingConnection) (target : String) : Option Move :=
  if some target = item.shardId || !connectionCanMove now item then none else some (item.moveTo target)

/-- The totals of a shard of `shard_channel`. -/
def Tables.totals (t : Tables) (accountCapacity loadCapacity : ℤ) (shardId : String) : ShardTotals where
  id := shardId
  channel := (OrderedMap.get shardId t.shardChannel).getD ""
  accounts := t.accounts shardId
  loadUnits := t.load shardId
  accountCapacity := accountCapacity
  loadCapacity := loadCapacity

def enabledItems (connections : List SchedulingConnection) : List SchedulingConnection :=
  connections.filter fun item => item.enabled

def buildRebalancePlan (accountCapacity loadCapacity now : ℤ) (connections : List SchedulingConnection) : Plan :=
  let items := enabledItems connections
  let t := packed accountCapacity loadCapacity now items
  { moves := (t.assignments.insertionSort pairLe).filterMap fun entry =>
      (OrderedMap.get entry.1 (byId items)).bind fun item => moveOf now item entry.2
    shards := ((OrderedMap.keys t.shardChannel).insertionSort fun a b => a ≤ b).map
      (t.totals accountCapacity loadCapacity)
    assignments := t.assignments }

theorem ofDigitChars_pad (k : ℕ) (cs : List Char) :
    Nat.ofDigitChars 10 (List.replicate k '0' ++ cs) 0 = Nat.ofDigitChars 10 cs 0 := by
  induction k with
  | zero => rfl
  | succ k ih => simpa [List.replicate_succ, Nat.ofDigitChars_cons] using ih

theorem pad3_injective (h : pad3 i = pad3 j) : i = j := by
  have hchars := congrArg (fun s => Nat.ofDigitChars 10 s.toList 0) h
  simpa [pad3, ofDigitChars_pad, Nat.ofDigitChars_ten_toDigits] using hchars

theorem dash_notMem_pad3 (i : ℕ) : '-' ∉ (pad3 i).toList := by
  intro h
  simp only [pad3, String.toList_ofList, List.mem_append] at h
  rcases h with hzero | hdigit
  · have := List.eq_of_mem_replicate hzero
    revert this
    decide
  · have := Nat.isDigit_of_mem_toDigits (by decide) (by decide) hdigit
    revert this
    decide

theorem shardName_inj (h : shardName c i = shardName d j) : c = d ∧ i = j := by
  have hrev : (pad3 i).toList.reverse ++ ('-' :: ("-shard".toList.reverse ++ c.toList.reverse)) =
      (pad3 j).toList.reverse ++ ('-' :: ("-shard".toList.reverse ++ d.toList.reverse)) := by
    simpa [shardName] using congrArg (fun s => s.toList.reverse) h
  have hdigits : ∀ k, ∀ a ∈ (pad3 k).toList.reverse, a ≠ '-' := by
    rintro k a ha rfl
    exact dash_notMem_pad3 k (List.mem_reverse.1 ha)
  obtain ⟨hindex, hchannel⟩ :=
    NumericText.span_unique (p := fun a => a ≠ '-') (hdigits i) (hdigits j) (by simp) (by simp) hrev
  constructor
  · have hrest := List.append_cancel_left (List.cons.inj hchannel).2
    exact String.toList_injective (List.reverse_injective hrest)
  · exact pad3_injective (String.toList_injective (List.reverse_injective hindex))

theorem nextShardFrom_spec {channel : String} {known : List String} :
    ∀ {fuel index : ℕ}, (∃ k ≤ fuel, shardName channel (index + k) ∉ known) →
      ∃ k, nextShardFrom channel known fuel index = shardName channel (index + k) ∧
        shardName channel (index + k) ∉ known ∧ ∀ j < k, shardName channel (index + j) ∈ known := by
  intro fuel
  induction fuel with
  | zero =>
    rintro index ⟨k, hk, hfree⟩
    obtain rfl : k = 0 := by omega
    exact ⟨0, rfl, hfree, by simp⟩
  | succ fuel ih =>
    rintro index ⟨k, hk, hfree⟩
    by_cases hknown : shardName channel index ∈ known
    · -- the free name lies beyond this one
      cases k with
      | zero => exact absurd hknown hfree
      | succ k =>
        obtain ⟨m, hm, hfree', hbefore⟩ := @ih (index + 1) ⟨k, by omega, by rwa [Nat.add_right_comm, Nat.add_assoc]⟩
        refine ⟨m + 1, ?_, ?_, ?_⟩
        · rw [nextShardFrom, if_pos hknown, hm, Nat.add_right_comm, Nat.add_assoc]
        · rwa [← Nat.add_assoc, Nat.add_right_comm]
        intro j hj
        cases j with
        | zero => exact hknown
        | succ j =>
          rw [← Nat.add_assoc, Nat.add_right_comm]
          exact hbefore j (by omega)
    · refine ⟨0, ?_, hknown, by simp⟩
      rw [nextShardFrom, if_neg hknown]
      rfl

theorem exists_free_name (channel : String) (known : List String) :
    ∃ k ≤ known.length, shardName channel k ∉ known := by
  by_contra hall
  simp only [not_exists, not_and, not_not] at hall
  have hnames : ((List.range (known.length + 1)).map (shardName channel)).Nodup := by
    apply List.Nodup.map _ List.nodup_range
    intro i j h
    exact (shardName_inj h).2
  have hsub : (List.range (known.length + 1)).map (shardName channel) ⊆ known := by
    intro s hs
    obtain ⟨k, hk, rfl⟩ := List.mem_map.1 hs
    exact hall k (by simpa [Nat.lt_succ_iff] using hk)
  have hle := (List.subperm_of_subset hnames hsub).length_le
  simp only [List.length_map, List.length_range] at hle
  omega

/-- `_next_shard` returns the first name that is not known. -/
theorem nextShard_spec (channel : String) (known : List String) :
    ∃ k, nextShard channel known = shardName channel k ∧ shardName channel k ∉ known ∧
      ∀ j < k, shardName channel j ∈ known := by
  obtain ⟨k, hk, hfree⟩ := exists_free_name channel known
  have hspec := @nextShardFrom_spec channel known known.length 0 ⟨k, hk, by simpa using hfree⟩
  simpa [nextShard] using hspec

/-! ## The tables as a placement -/

abbrev Shards := Placement SchedulingConnection String

open Placement

/-- The tables are those of a placement; the latest connection gives the channel. -/
structure Tracks (p : Shards) (t : Tables) : Prop where
  assignments : t.assignments = p.map fun e => (e.1.id, e.2)
  accounts : ∀ s, t.accounts s = (bin s p).length
  load : ∀ s, t.load s = weight SchedulingConnection.loadUnits s p
  channel : ∀ s, OrderedMap.get s t.shardChannel = (bin s p).getLast?.map SchedulingConnection.channel
  distinct : OrderedMap.Distinct t.shardChannel
  dedicated : ∀ s, s ∈ t.dedicatedShards ↔ ∃ x ∈ bin s p, x.isolate = true

def Placed (p : Shards) (x : SchedulingConnection) : Prop := ∃ s, (x, s) ∈ p

def Known (p : Shards) (channel s : String) : Prop := ∃ y, (bin s p).getLast? = some y ∧ y.channel = channel

theorem tracks_nil : Tracks [] {} := by
  constructor
  case assignments => rfl
  case accounts =>
    intro s
    rfl
  case load =>
    intro s
    rfl
  case channel =>
    intro s
    rfl
  case distinct => exact List.nodup_nil
  case dedicated =>
    intro s
    simp

variable {q p : Shards} {t : Tables}

theorem placed_append : Placed (p ++ q) x ↔ Placed p x ∨ Placed q x := by
  simp [Placed, exists_or]

theorem Tracks.mem_assignments (h : Tracks p t) {id : String} :
    (OrderedMap.get id t.assignments).isSome = true ↔ ∃ e ∈ p, e.1.id = id := by
  rw [← OrderedMap.mem_keys_iff, h.assignments]
  simp [OrderedMap.keys]

theorem Tracks.known (h : Tracks p t) {channel : String} : s ∈ t.known channel ↔ Known p channel s := by
  have hget : s ∈ t.known channel ↔ OrderedMap.get s t.shardChannel = some channel := by
    simp only [Tables.known, List.mem_map, List.mem_filter, decide_eq_true_eq]
    constructor
    · rintro ⟨⟨s', c⟩, ⟨hmem, rfl⟩, rfl⟩
      exact OrderedMap.get_of_mem h.distinct hmem
    · intro hget
      exact ⟨(s, channel), ⟨OrderedMap.mem_of_get hget, rfl⟩, rfl⟩
  rw [hget, h.channel, Option.map_eq_some_iff]
  rfl

theorem Tracks.place (h : Tracks p t) (s : String) (hx : ∀ e ∈ p, e.1.id ≠ x.id) :
    Tracks (p ++ [(x, s)]) (t.place x s) := by
  have hnew : x.id ∉ OrderedMap.keys t.assignments := by
    rw [h.assignments]
    simp only [OrderedMap.keys, List.map_map, List.mem_map, not_exists, not_and]
    intro e he
    exact hx e he
  constructor
  case assignments =>
    change OrderedMap.set x.id s t.assignments = _
    rw [OrderedMap.set_of_not_mem s hnew, h.assignments, List.map_append]
    rfl
  case accounts =>
    intro s'
    simp only [Tables.place, Tables.accounts, OrderedMap.get_set]
    have hold := h.accounts s'
    simp only [Tables.accounts] at hold
    by_cases hs : s' = s
    · subst hs
      simp [hold]
    · simp [hs, Ne.symm hs, hold]
  case load =>
    intro s'
    simp only [Tables.place, Tables.load, OrderedMap.get_set, weight_place]
    have hold := h.load s'
    simp only [Tables.load] at hold
    by_cases hs : s' = s
    · subst hs
      simp [hold]
    · simp [hs, Ne.symm hs, hold]
  case channel =>
    intro s'
    simp only [Tables.place, OrderedMap.get_set, bin_append, bin_singleton]
    by_cases hs : s' = s
    · subst hs
      simp
    · simp [hs, Ne.symm hs, h.channel]
  case distinct => exact h.distinct.set s x.channel
  case dedicated =>
    intro s'
    have hold := h.dedicated s'
    simp only [Tables.place, bin_append, bin_singleton, List.mem_append]
    by_cases hs : s = s'
    · subst hs
      by_cases hiso : x.isolate = true
      · simp [hiso]
      · simp [hiso, hold, or_and_right, exists_or]
    · by_cases hiso : x.isolate = true
      · simp [hiso, hs, Ne.symm hs, hold]
      · simp [hiso, hs, hold]

/-! ## The rules of the passes -/

def Before (y x : SchedulingConnection) : Prop := x.loadUnits < y.loadUnits ∨ x.loadUnits = y.loadUnits ∧ y.id < x.id

section Rules

variable (accountCapacity loadCapacity now : ℤ) (items : List SchedulingConnection)

structure StickyAt (q : Shards) (x : SchedulingConnection) (s : String) : Prop where
  isolated : x.isolate = true → existingShardAccounts items s ≤ 1
  accounts : ((bin s q).length : ℤ) + 1 ≤ accountCapacity
  load : weight SchedulingConnection.loadUnits s q + x.loadUnits ≤ stickyLimit loadCapacity ∨
    x.config.overloadedWindows < 3
  underloaded : x.config.underloadedWindows < 30

structure Keeps (q : Shards) (x : SchedulingConnection) (s : String) : Prop where
  mem : x ∈ items
  shard : x.shard = some s
  canMove : connectionCanMove now x = true
  free : ¬ Placed q x
  sticky : StickyAt accountCapacity loadCapacity items q x s

def Fresh (q : Shards) (x : SchedulingConnection) (s : String) : Prop :=
  ∃ k, s = shardName x.channel k ∧ ¬ Known q x.channel s ∧ ∀ j < k, Known q x.channel (shardName x.channel j)

structure Joins (q : Shards) (x : SchedulingConnection) (s : String) : Prop where
  shared : x.isolate = false
  known : Known q x.channel s
  open_ : ∀ y ∈ bin s q, y.isolate = false
  accounts : ((bin s q).length : ℤ) + 1 ≤ accountCapacity
  load : weight SchedulingConnection.loadUnits s q + x.loadUnits ≤ loadCapacity

/-- The last pass places a connection of the list `rest`. -/
structure Assigns (rest : List SchedulingConnection) (q : Shards) (x : SchedulingConnection) (s : String) :
    Prop where
  mem : x ∈ rest
  free : ¬ Placed q x
  choice : Fresh q x s ∨ Joins accountCapacity loadCapacity q x s
  order : ∀ y ∈ rest, Placed q y ↔ Before y x

def Left (fixed kept : Shards) (x : SchedulingConnection) (s : String) : Prop :=
  ∃ q, Grows (Keeps accountCapacity loadCapacity now items) fixed q ∧ q <+: kept ∧ ¬ Placed q x ∧
    ¬ StickyAt accountCapacity loadCapacity items q x s

structure Passes (fixed kept final : Shards) : Prop where
  fixed_iff : ∀ x s, (x, s) ∈ fixed ↔ x ∈ items ∧ x.shard = some s ∧ connectionCanMove now x = false
  fixed_nodup : (fixed.map Prod.fst).Nodup
  keeps : Grows (Keeps accountCapacity loadCapacity now items) fixed kept
  left : ∀ x ∈ items, ∀ s, x.shard = some s → Placed kept x ∨ Left accountCapacity loadCapacity now items fixed kept x s
  rest_iff : ∀ x, x ∈ unassigned accountCapacity loadCapacity now items ↔ x ∈ items ∧ ¬ Placed kept x
  assigns : Grows (Assigns accountCapacity loadCapacity (unassigned accountCapacity loadCapacity now items))
    kept final
  covers : ∀ x, Placed final x ↔ x ∈ items

variable {accountCapacity loadCapacity now items}

theorem Tracks.sticky_iff (h : Tracks q t) : sticky accountCapacity loadCapacity items t x s = true ↔
      StickyAt accountCapacity loadCapacity items q x s := by
  constructor
  · intro hs
    simp only [sticky, h.accounts, h.load, Bool.and_eq_true, Bool.not_eq_true', Bool.and_eq_false_iff,
      decide_eq_true_eq, decide_eq_false_iff_not, Bool.or_eq_true, not_lt] at hs
    obtain ⟨⟨⟨hiso, hacc⟩, hload⟩, hunder⟩ := hs
    refine ⟨?_, hacc, hload, hunder⟩
    intro hx
    rcases hiso with hfalse | hle
    · rw [hx] at hfalse
      cases hfalse
    · exact hle
  · rintro ⟨hiso, hacc, hload, hunder⟩
    simp only [sticky, h.accounts, h.load, Bool.and_eq_true, Bool.not_eq_true', Bool.and_eq_false_iff,
      decide_eq_true_eq, decide_eq_false_iff_not, Bool.or_eq_true, not_lt]
    refine ⟨⟨⟨?_, hacc⟩, hload⟩, hunder⟩
    cases hx : x.isolate with
    | false => exact .inl rfl
    | true => exact .inr (hiso hx)

theorem Tracks.candidates (h : Tracks q t) : s ∈ t.candidates accountCapacity loadCapacity x ↔
      Known q x.channel s ∧ (∀ y ∈ bin s q, y.isolate = false) ∧
        ((bin s q).length : ℤ) + 1 ≤ accountCapacity ∧
        weight SchedulingConnection.loadUnits s q + x.loadUnits ≤ loadCapacity := by
  have hopen : s ∉ t.dedicatedShards ↔ ∀ y ∈ bin s q, y.isolate = false := by
    simp [h.dedicated]
  simp only [Tables.candidates, List.mem_filter, h.known, h.accounts, h.load, Bool.and_eq_true,
    decide_eq_true_eq, hopen, Int.add_one_le_iff, and_assoc]

theorem mem_of_bestFit (h : t.bestFit shards = some s) : s ∈ shards := by
  have hfold : ∀ (rest : List String) (best : String),
      rest.foldl (fun best s => if t.keyLt best s then s else best) best ∈ best :: rest := by
    intro rest
    induction rest with
    | nil => simp
    | cons a rest ih =>
      intro best
      simp only [List.foldl_cons]
      split
      · exact List.mem_cons_of_mem _ (ih a)
      · rcases List.mem_cons.1 (ih best) with heq | hmem
        · rw [heq]
          exact List.mem_cons_self
        · exact List.mem_cons_of_mem _ (List.mem_cons_of_mem _ hmem)
  cases shards with
  | nil => cases h
  | cons a rest =>
    cases h
    exact hfold rest a

theorem Tracks.target (h : Tracks q t) (x : SchedulingConnection) :
    Fresh q x (t.target accountCapacity loadCapacity x) ∨
      Joins accountCapacity loadCapacity q x (t.target accountCapacity loadCapacity x) := by
  have hfresh : Fresh q x (nextShard x.channel (t.known x.channel)) := by
    obtain ⟨k, hk, hfree, hbefore⟩ := nextShard_spec x.channel (t.known x.channel)
    rw [hk]
    refine ⟨k, rfl, ?_, ?_⟩
    · rwa [← h.known]
    · intro j hj
      exact h.known.1 (hbefore j hj)
  unfold Tables.target
  cases hbest : t.bestFit (t.candidates accountCapacity loadCapacity x) with
  | none => exact .inl hfresh
  | some s =>
    cases hiso : x.isolate with
    | true => exact .inl hfresh
    | false =>
      obtain ⟨hknown, hopen, hacc, hload⟩ := h.candidates.1 (mem_of_bestFit hbest)
      exact .inr ⟨hiso, hknown, hopen, hacc, hload⟩

/-! ## The passes -/

theorem mem_sortedById : x ∈ sortedById items ↔ x ∈ items := (List.perm_insertionSort _ items).mem_iff

def DistinctIds (items : List SchedulingConnection) : Prop := (items.map SchedulingConnection.id).Nodup

instance (items : List SchedulingConnection) : Decidable (DistinctIds items) :=
  inferInstanceAs (Decidable (items.map SchedulingConnection.id).Nodup)

theorem DistinctIds.eq (h : DistinctIds items) (hx : x ∈ items) (hy : y ∈ items) (hid : x.id = y.id) : x = y :=
  List.inj_on_of_nodup_map h hx hy hid

structure Represents (items : List SchedulingConnection) (q : Shards) (t : Tables) : Prop where
  tracks : Tracks q t
  within : ∀ e ∈ q, e.1 ∈ items
  nodup : (q.map Prod.fst).Nodup

theorem represents_nil : Represents items [] {} := ⟨tracks_nil, by simp, List.nodup_nil⟩

theorem Represents.mem_assignments (hids : DistinctIds items) (h : Represents items q t) (hx : x ∈ items) :
    (OrderedMap.get x.id t.assignments).isSome = true ↔ Placed q x := by
  rw [h.tracks.mem_assignments]
  constructor
  · rintro ⟨e, he, hid⟩
    have heq := hids.eq (h.within e he) hx hid
    exact ⟨e.2, heq ▸ he⟩
  · rintro ⟨s, hs⟩
    exact ⟨(x, s), hs, rfl⟩

theorem Represents.place (hids : DistinctIds items) (h : Represents items q t) (hx : x ∈ items) (hfree : ¬ Placed q x)
    (s : String) :
    Represents items (q ++ [(x, s)]) (t.place x s) := by
  constructor
  case tracks =>
    apply h.tracks.place
    intro e he hid
    have heq := hids.eq (h.within e he) hx hid
    exact hfree ⟨e.2, heq ▸ he⟩
  case within =>
    intro e he
    rcases List.mem_append.1 he with he | he
    · exact h.within e he
    · rw [List.mem_singleton.1 he]
      exact hx
  case nodup =>
    rw [List.map_append, List.nodup_append]
    refine ⟨h.nodup, by simp, ?_⟩
    rintro a ha b hb rfl
    obtain ⟨e, he, rfl⟩ := List.mem_map.1 ha
    simp only [List.map_cons, List.map_nil, List.mem_singleton] at hb
    exact hfree ⟨e.2, hb ▸ he⟩

theorem not_placed_place (hne : x ≠ y) (hfree : ¬ Placed q x) : ¬ Placed (q ++ [(y, s)]) x := by
  rintro ⟨s', hmem⟩
  rcases List.mem_append.1 hmem with hold | hnew
  · exact hfree ⟨s', hold⟩
  · rw [List.mem_singleton, Prod.mk.injEq] at hnew
    exact hne hnew.1

theorem retainFixed_pass (hids : DistinctIds items) {l : List SchedulingConnection} (hl : l ⊆ items)
    (hnodup : l.Nodup) {p : Shards} {t : Tables} (h : Represents items p t)
    (hfree : ∀ x ∈ l, ¬ Placed p x) :
    ∃ q, Represents items q (l.foldl (retainFixed now) t) ∧
      ∀ x s, (x, s) ∈ q ↔ (x, s) ∈ p ∨ x ∈ l ∧ x.shard = some s ∧ connectionCanMove now x = false := by
  induction l generalizing p t with
  | nil => exact ⟨p, h, by simp⟩
  | cons y l ih =>
    obtain ⟨hy, hl⟩ := List.cons_subset.1 hl
    obtain ⟨hyl, hnodup⟩ := List.nodup_cons.1 hnodup
    have hyfree := hfree y List.mem_cons_self
    have hfree' : ∀ x ∈ l, ¬ Placed p x := fun x hx => hfree x (List.mem_cons_of_mem _ hx)
    by_cases hfixed : y.shard.isSome && !connectionCanMove now y
    · -- it keeps its shard
      have hstep : retainFixed now t y = retain t y := by rw [retainFixed, if_pos hfixed]
      simp only [Bool.and_eq_true, Bool.not_eq_true', Option.isSome_iff_exists] at hfixed
      obtain ⟨⟨s, hs⟩, hmove⟩ := hfixed
      have hplace : retain t y = t.place y s := by rw [retain, hs]
      have hnext : ∀ x ∈ l, ¬ Placed (p ++ [(y, s)]) x := by
        intro x hx
        exact not_placed_place (fun heq => hyl (heq ▸ hx)) (hfree' x hx)
      obtain ⟨q, hq, hmem⟩ := ih hl hnodup (h.place hids hy hyfree s) hnext
      refine ⟨q, ?_, ?_⟩
      · rw [List.foldl_cons, hstep, hplace]
        exact hq
      intro x s'
      rw [hmem, List.mem_append, List.mem_singleton, Prod.mk.injEq, List.mem_cons, or_assoc]
      apply or_congr_right
      constructor
      · rintro (⟨rfl, rfl⟩ | hx)
        · exact ⟨.inl rfl, hs, hmove⟩
        · exact ⟨.inr hx.1, hx.2⟩
      · rintro ⟨rfl | hx, hs', hmove'⟩
        · rw [hs, Option.some.injEq] at hs'
          exact .inl ⟨rfl, hs'.symm⟩
        · exact .inr ⟨hx, hs', hmove'⟩
    · have hstep : retainFixed now t y = t := by rw [retainFixed, if_neg hfixed]
      obtain ⟨q, hq, hmem⟩ := ih hl hnodup h hfree'
      refine ⟨q, ?_, ?_⟩
      · rw [List.foldl_cons, hstep]
        exact hq
      intro x s'
      rw [hmem, List.mem_cons]
      apply or_congr_right
      constructor
      · rintro ⟨hx, hrest⟩
        exact ⟨.inr hx, hrest⟩
      · rintro ⟨rfl | hx, hs', hmove'⟩
        · simp [hs', hmove'] at hfixed
        · exact ⟨hx, hs', hmove'⟩

theorem retainSticky_pass (hids : DistinctIds items) {l : List SchedulingConnection} (hl : l ⊆ items)
    {p q : Shards} {t : Tables} (h : Represents items q t)
    (hgrows : Grows (Keeps accountCapacity loadCapacity now items) p q)
    (hfixed : ∀ x ∈ items, ∀ s, x.shard = some s → connectionCanMove now x = false → Placed q x) :
    ∃ r, Represents items r (l.foldl (retainSticky accountCapacity loadCapacity items) t) ∧
      Grows (Keeps accountCapacity loadCapacity now items) p r ∧ q <+: r ∧
      ∀ x ∈ l, ∀ s, x.shard = some s → Placed r x ∨ Left accountCapacity loadCapacity now items p r x s := by
  induction l generalizing q t with
  | nil => exact ⟨q, h, hgrows, List.prefix_rfl, by simp⟩
  | cons y l ih =>
    obtain ⟨hy, hl⟩ := List.cons_subset.1 hl
    -- a connection that is passed over needs its own reason, the others have theirs
    have hskip : retainSticky accountCapacity loadCapacity items t y = t →
        (∀ s, y.shard = some s → Placed q y ∨ ¬ StickyAt accountCapacity loadCapacity items q y s) →
        ∃ r, Represents items r ((y :: l).foldl (retainSticky accountCapacity loadCapacity items) t) ∧
          Grows (Keeps accountCapacity loadCapacity now items) p r ∧ q <+: r ∧
          ∀ x ∈ y :: l, ∀ s, x.shard = some s → Placed r x ∨ Left accountCapacity loadCapacity now items p r x s := by
      intro hstep hwhy
      obtain ⟨r, hr, hgr, hpre, hleft⟩ := ih hl h hgrows hfixed
      refine ⟨r, ?_, hgr, hpre, ?_⟩
      · rw [List.foldl_cons, hstep]
        exact hr
      intro x hx s hs
      rcases List.mem_cons.1 hx with rfl | hx
      · by_cases hplaced : Placed q x
        · obtain ⟨s', hs'⟩ := hplaced
          exact .inl ⟨s', hpre.subset hs'⟩
        · rcases hwhy s hs with hplaced' | hnot
          · exact absurd hplaced' hplaced
          · exact .inr ⟨q, hgrows, hpre, hplaced, hnot⟩
      · exact hleft x hx s hs
    cases hs : y.shard with
    | none =>
      refine hskip (by rw [retainSticky, hs]) ?_
      intro s hs'
      rw [hs] at hs'
      cases hs'
    | some s =>
      by_cases hplaced : Placed q y
      · have hget := (h.mem_assignments hids hy).2 hplaced
        refine hskip (by simp only [retainSticky, hs, hget, if_true]) ?_
        intro s' _
        exact .inl hplaced
      have hget : ¬ (OrderedMap.get y.id t.assignments).isSome = true :=
        fun hget => hplaced ((h.mem_assignments hids hy).1 hget)
      by_cases hsticky : sticky accountCapacity loadCapacity items t y s = true
      · have hstep : retainSticky accountCapacity loadCapacity items t y = t.place y s := by
          simp only [retainSticky, retain, hs, if_neg hget, if_pos hsticky]
        have hmove : connectionCanMove now y = true := by
          by_contra hcannot
          exact hplaced (hfixed y hy s hs (Bool.not_eq_true _ ▸ hcannot))
        have hkeeps : Keeps accountCapacity loadCapacity now items q y s :=
          ⟨hy, hs, hmove, hplaced, h.tracks.sticky_iff.1 hsticky⟩
        have hfixed' : ∀ x ∈ items, ∀ s', x.shard = some s' → connectionCanMove now x = false →
            Placed (q ++ [(y, s)]) x := by
          intro x hx s' hs' hcannot
          exact placed_append.2 (.inl (hfixed x hx s' hs' hcannot))
        obtain ⟨r, hr, hgr, hpre, hleft⟩ := ih hl (h.place hids hy hplaced s) (hgrows.place hkeeps) hfixed'
        refine ⟨r, ?_, hgr, (List.prefix_append _ _).trans hpre, ?_⟩
        · rw [List.foldl_cons, hstep]
          exact hr
        · intro x hx s' hs'
          rcases List.mem_cons.1 hx with rfl | hx
          · exact .inl ⟨s, hpre.subset (by simp)⟩
          · exact hleft x hx s' hs'
      · refine hskip (by simp only [retainSticky, hs, if_neg hget, if_neg hsticky]) ?_
        intro s' hs'
        rw [hs] at hs'
        cases hs'
        exact .inr fun hat => hsticky (h.tracks.sticky_iff.2 hat)

theorem before_irrefl (x : SchedulingConnection) : ¬ Before x x := by
  rintro (h | ⟨-, h⟩)
  · exact lt_irrefl _ h
  · exact lt_irrefl _ h

theorem before_asymm (h : Before x y) : ¬ Before y x := by
  rintro (h' | ⟨heq, h'⟩)
  · rcases h with h | ⟨heq, -⟩
    · exact lt_asymm h h'
    · exact absurd h' (by omega)
  · rcases h with h | ⟨-, h⟩
    · exact absurd h (by omega)
    · exact lt_asymm h h'

/-- The last pass, over the connections that remain of `rest`. -/
theorem assign_pass (hids : DistinctIds items) {rest : List SchedulingConnection} (hrest : rest ⊆ items)
    (horder : rest.Pairwise Before) {done l : List SchedulingConnection} (hsplit : rest = done ++ l)
    {p q : Shards} {t : Tables} (h : Represents items q t)
    (hgrows : Grows (Assigns accountCapacity loadCapacity rest) p q)
    (hplaced : ∀ x, Placed q x ↔ Placed p x ∨ x ∈ done) (hfree : ∀ x ∈ rest, ¬ Placed p x) :
    ∃ r, Represents items r (l.foldl (assign accountCapacity loadCapacity) t) ∧
      Grows (Assigns accountCapacity loadCapacity rest) p r ∧
      ∀ x, Placed r x ↔ Placed p x ∨ x ∈ rest := by
  induction l generalizing done q t with
  | nil =>
    rw [List.append_nil] at hsplit
    subst hsplit
    exact ⟨q, h, hgrows, hplaced⟩
  | cons y l ih =>
    have hy : y ∈ rest := by simp [hsplit]
    rw [hsplit, List.pairwise_append] at horder
    obtain ⟨-, hright, hacross⟩ := horder
    have hafter := List.pairwise_cons.1 hright
    have hyfree : ¬ Placed q y := by
      intro hin
      rcases (hplaced y).1 hin with hp | hd
      · exact hfree y hy hp
      · exact before_irrefl y (hacross y hd y List.mem_cons_self)
    -- placed so far is what comes earlier in the order
    have hearlier : ∀ x ∈ rest, Placed q x ↔ Before x y := by
      intro x hx
      constructor
      · intro hin
        rcases (hplaced x).1 hin with hp | hd
        · exact absurd hp (hfree x hx)
        · exact hacross x hd y List.mem_cons_self
      · intro hlt
        rw [hsplit, List.mem_append, List.mem_cons] at hx
        rcases hx with hd | rfl | hl
        · exact (hplaced x).2 (.inr hd)
        · exact absurd hlt (before_irrefl x)
        · exact absurd hlt (before_asymm (hafter.1 x hl))
    have hassigns : Assigns accountCapacity loadCapacity rest q y
        (t.target accountCapacity loadCapacity y) :=
      ⟨hy, hyfree, h.tracks.target y, hearlier⟩
    refine @ih (done ++ [y]) (by simp [hsplit]) _ _ (h.place hids (hrest hy) hyfree _)
      (hgrows.place hassigns) ?_
    intro x
    rw [placed_append, hplaced, List.mem_append, List.mem_singleton, or_assoc]
    apply or_congr_right
    apply or_congr_right
    constructor
    · rintro ⟨s, hs⟩
      exact (Prod.mk.inj (List.mem_singleton.1 hs)).1
    · rintro rfl
      exact ⟨_, List.mem_singleton.2 rfl⟩

instance : Std.Total LoadLe where
  total a b := by
    rcases lt_trichotomy a.loadUnits b.loadUnits with hlt | heq | hgt
    · exact .inr (.inl hlt)
    · rcases le_total a.id b.id with hid | hid
      · exact .inl (.inr ⟨heq.symm, hid⟩)
      · exact .inr (.inr ⟨heq, hid⟩)
    · exact .inl (.inl hgt)

instance : IsTrans SchedulingConnection LoadLe where
  trans a b c := by
    rintro (hab | ⟨hab, hid⟩) (hbc | ⟨hbc, hid'⟩)
    · exact .inl (hbc.trans hab)
    · exact .inl (hbc ▸ hab)
    · exact .inl (hab ▸ hbc)
    · exact .inr ⟨hbc.trans hab, hid.trans hid'⟩

theorem pairwise_unassigned (hids : DistinctIds items) :
    (unassigned accountCapacity loadCapacity now items).Pairwise Before := by
  unfold unassigned sortedByLoad
  set kept := items.filter fun item =>
    !(OrderedMap.get item.id (retained accountCapacity loadCapacity now items).assignments).isSome
  have hnodup : (kept.insertionSort LoadLe).Nodup := by
    rw [(List.perm_insertionSort LoadLe kept).nodup_iff]
    exact (List.Nodup.of_map _ hids).filter _
  have hsorted := (List.pairwise_insertionSort LoadLe kept).and hnodup
  refine hsorted.imp_of_mem ?_
  intro a b ha hb hab
  have hmem : ∀ {c}, c ∈ kept.insertionSort LoadLe → c ∈ items := fun hc =>
    (List.mem_filter.1 ((List.perm_insertionSort LoadLe kept).mem_iff.1 hc)).1
  rcases hab.1 with hlt | ⟨heq, hle⟩
  · exact .inl hlt
  · exact .inr ⟨heq, lt_of_le_of_ne hle fun hid => hab.2 (hids.eq (hmem ha) (hmem hb) hid)⟩

theorem packed_passes (accountCapacity loadCapacity now : ℤ) (hids : DistinctIds items) :
    ∃ fixed kept final, Passes accountCapacity loadCapacity now items fixed kept final ∧
      Represents items final (packed accountCapacity loadCapacity now items) := by
  have hsub : sortedById items ⊆ items := fun x hx => mem_sortedById.1 hx
  have hnodup : (sortedById items).Nodup := by
    rw [sortedById, (List.perm_insertionSort _ items).nodup_iff]
    exact List.Nodup.of_map _ hids
  obtain ⟨fixed, hfixed, hmem⟩ := @retainFixed_pass now items hids _ hsub hnodup _ _ represents_nil (by simp [Placed])
  simp only [List.not_mem_nil, false_or, mem_sortedById] at hmem
  obtain ⟨kept, hkept, hkeeps, -, hleft⟩ :=
    @retainSticky_pass accountCapacity loadCapacity now items hids _ hsub _ _ _ hfixed .refl
      fun x hx s hs hcannot => ⟨s, (hmem x s).2 ⟨hx, hs, hcannot⟩⟩
  have hrest : ∀ x, x ∈ unassigned accountCapacity loadCapacity now items ↔ x ∈ items ∧ ¬ Placed kept x := by
    intro x
    rw [unassigned, sortedByLoad, (List.perm_insertionSort _ _).mem_iff, List.mem_filter]
    apply and_congr_right
    intro hx
    rw [← hkept.mem_assignments hids hx, retained, Bool.not_eq_true', Bool.not_eq_true]
  obtain ⟨final, hfinal, hassigns, hcovers⟩ :=
    @assign_pass _ _ items hids _ (fun x hx => ((hrest x).1 hx).1) (pairwise_unassigned hids) [] _ rfl
      _ _ _ hkept .refl (by simp) fun x hx => ((hrest x).1 hx).2
  refine ⟨fixed, kept, final, ?_, hfinal⟩
  constructor
  case fixed_iff => exact hmem
  case fixed_nodup => exact hfixed.nodup
  case keeps => exact hkeeps
  case left => exact fun x hx => hleft x (mem_sortedById.2 hx)
  case rest_iff => exact hrest
  case assigns => exact hassigns
  case covers =>
    intro x
    rw [hcovers, hrest]
    constructor
    · rintro (⟨s, hs⟩ | hx)
      · exact hkept.within _ hs
      · exact hx.1
    · intro hx
      by_cases hplaced : Placed kept x
      · exact .inl hplaced
      · exact .inr ⟨hx, hplaced⟩

end Rules

end RyanAI.Backend.Scheduler
