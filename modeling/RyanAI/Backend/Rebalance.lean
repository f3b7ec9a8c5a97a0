import RyanAI.Backend.SingleMove
import RyanAI.Lib.Interleaving

/-!
# The rate limit of rebalancing

`apply_rebalance` of `routers/bot_gateway.py`. A request reads the connections and plans, reads the recorded operations
and checks the limits, moves the connection, and records the operation, each in a step of its own.

`applied` is the log of the moves, each with the budget its request has computed, and `holder` the request between its
check and its record. `rate_limited` derives `Limited` of the log for every run in which no request reads the
operations while another one is in between.
-/

namespace RyanAI.Backend.Rebalance

open RyanAI.Lib RyanAI.Lib.Interleaving RyanAI.Backend.Scheduler

/-- `BOT_GATEWAY_REBALANCE_MIN_INTERVAL_SECONDS`. -/
def minIntervalSeconds : ℤ := 2 * 60

/-- `BOT_GATEWAY_REBALANCE_HOURLY_WINDOW_SECONDS`. -/
def hourlyWindowSeconds : ℤ := 60 * 60

inductive SchedulerMode where
  | static
  | shadow
  | auto
  deriving DecidableEq

/-- A `rebalance_apply` row; moves are pairs of connection and shard. -/
structure Operation where
  createdAt : ℤ
  moves : List (String × String)
  deriving DecidableEq

structure Applied where
  time : ℤ
  budget : ℤ
  deriving DecidableEq

structure Shared where
  clock : ℤ
  rows : KeyedTable String ConnectionRow
  operations : List Operation
  applied : List Applied
  holder : Option ℕ

/-! ## The request -/

/-- `list_control_operations` with its default limit. -/
def listControlOperations (since : ℤ) (operations : List Operation) : List Operation :=
  ((operations.filter fun op => since ≤ op.createdAt).insertionSort fun a b => b.createdAt ≤ a.createdAt).take
    100

def activeShards (rows : List ConnectionRow) : ℕ :=
  (((rows.filter fun row => row.enabled).filterMap fun row => row.scheduled.shard).dedup).length

def hourlyBudget (rows : List ConnectionRow) : ℤ := max 1 ((activeShards rows + 9 : ℤ) / 10)

/-- `moves_in_window`. -/
def movesIn (operations : List Operation) : ℕ := (operations.map fun op => op.moves.length).sum

inductive Rejection where
  | notAuto
  | tooMany
  | tooSoon
  | exhausted
  | stale
  deriving DecidableEq

def check (now budget : ℤ) (recent : List Operation) (requested allowed : List (String × String)) : Option Rejection :=
  if recent.head?.any fun op => op.createdAt > now - minIntervalSeconds then some .tooSoon
  else if requested ≠ [] ∧ (movesIn recent : ℤ) ≥ budget then some .exhausted
  else if requested.all fun move => allowed.contains move then none
  else some .stale

inductive Phase where
  | received
  | loaded (rows : List ConnectionRow)
  | planned (now : ℤ) (rows : List ConnectionRow) (requested allowed : List (String × String))
  | admitted (requested : List (String × String)) (budget : ℤ)
  | selected (requested : List (String × String)) (budget now : ℤ) (items : List (ConnectionRow × String))
  | moved (requested : List (String × String))
  | rejected (reason : Rejection)
  | recorded

structure Request where
  /-- `form_data.moves`. -/
  moves : Option (List (String × String))
  phase : Phase

structure Choice where
  delay : ℕ
  rows : Option (KeyedTable String ConnectionRow) := none

def Shared.after (s : Shared) (k : Choice) : Shared := { s with clock := s.clock + k.delay, rows := k.rows.getD s.rows }

/-- The rows that `apply_shard_assignments` loads, with their targets. -/
def selectItems (rows : KeyedTable String ConnectionRow) (requested : List (String × String)) :
    List (ConnectionRow × String) :=
  requested.filterMap fun move => (rows.get move.1).map fun row => (row, move.2)

def changes (items : List (ConnectionRow × String)) : List (ConnectionRow × String) :=
  items.filter fun item => item.1.shardId ≠ some item.2

/-- The commit of `apply_shard_assignments`. -/
def writeShards (now : ℤ) (items : List (ConnectionRow × String)) (rows : KeyedTable String ConnectionRow) :
    KeyedTable String ConnectionRow :=
  (changes items).foldl (fun t item =>
    t.set item.1.id
      { item.1 with
        shardId := some item.2
        config := { item.1.config with lastShardMoveAt := some now } }) rows

section Steps

variable (mode : SchedulerMode) (accountCapacity loadCapacity : ℤ)

def planMoves (now : ℤ) (rows : List ConnectionRow) : List (String × String) :=
  (rebalancePlan accountCapacity loadCapacity now rows).moves.map fun m => (m.connectionId, m.toShardId)

def step (i : ℕ) (s : Shared) (r : Request) : Option (Shared × Request) :=
  match r.phase with
  | .received =>
    if mode ≠ .auto then some (s, { r with phase := .rejected .notAuto })
    else some (s, { r with phase := .loaded (s.rows.entries.map Prod.snd) })
  | .loaded rows =>
    let allowed := planMoves accountCapacity loadCapacity s.clock rows
    let requested := r.moves.getD allowed
    if requested.length > 1 then some (s, { r with phase := .rejected .tooMany })
    else some (s, { r with phase := .planned s.clock rows requested allowed })
  | .planned now rows requested allowed =>
    let recent := listControlOperations (now - hourlyWindowSeconds) s.operations
    let budget := hourlyBudget rows
    match check now budget recent requested allowed with
    | some reason => some (s, { r with phase := .rejected reason })
    | none => some ({ s with holder := some i }, { r with phase := .admitted requested budget })
  | .admitted requested budget =>
    -- nothing is loaded for an empty list of assignments
    if requested = [] then some (s, { r with phase := .moved requested })
    else some (s, { r with phase := .selected requested budget s.clock (selectItems s.rows requested) })
  | .selected requested budget now items =>
    some ({ s with
        rows := writeShards now items s.rows
        applied := (changes items).map (fun _ => ⟨s.clock, budget⟩) ++ s.applied },
      { r with phase := .moved requested })
  | .moved requested =>
    some ({ s with
        operations := ⟨s.clock, requested⟩ :: s.operations
        holder := if s.holder = some i then none else s.holder },
      { r with phase := .recorded })
  | .rejected _ => none
  | .recorded => none

def next (i : ℕ) (s : Shared) (r : Request) (k : Choice) : Option (Shared × Request) :=
  step mode accountCapacity loadCapacity i (s.after k) r

end Steps

def appliedSince (a : ℤ) (applied : List Applied) : ℕ := applied.countP fun e => a ≤ e.time

structure Limited (applied : List Applied) : Prop where
  interval : applied.Pairwise fun later earlier => earlier.time + minIntervalSeconds ≤ later.time
  budget : ∀ e before, e :: before <:+ applied →
    (appliedSince (e.time - hourlyWindowSeconds) (e :: before) : ℤ) ≤ e.budget

/-! ## What the requests keep -/

def recordedSince (a : ℤ) (operations : List Operation) : ℕ := movesIn (operations.filter fun op => a ≤ op.createdAt)

def Accounted (s : Shared) : Prop := ∀ a, appliedSince a s.applied ≤ recordedSince a s.operations

structure Clear (s : Shared) : Prop where
  applied : ∀ e ∈ s.applied, e.time + minIntervalSeconds ≤ s.clock
  operations : ∀ op ∈ s.operations, op.createdAt + minIntervalSeconds ≤ s.clock
  accounted : Accounted s

def HasRoom (s : Shared) (requested : List (String × String)) (budget : ℤ) : Prop :=
  requested ≠ [] → (appliedSince (s.clock - hourlyWindowSeconds) s.applied : ℤ) + 1 ≤ budget

structure Sound (s : Shared) : Prop where
  spaced : s.operations.Pairwise fun later earlier =>
    earlier.createdAt + minIntervalSeconds ≤ later.createdAt
  operations : ∀ op ∈ s.operations, op.createdAt ≤ s.clock
  applied : ∀ e ∈ s.applied, e.time ≤ s.clock
  limited : Limited s.applied
  accounted : s.holder = none → Accounted s

def Local (i : ℕ) (r : Request) (s : Shared) : Prop :=
  match r.phase with
  | .planned now _ requested _ => now ≤ s.clock ∧ requested.length ≤ 1
  | .admitted requested budget =>
    s.holder = some i ∧ requested.length ≤ 1 ∧ Clear s ∧ HasRoom s requested budget
  | .selected requested budget _ items =>
    s.holder = some i ∧ items.length ≤ requested.length ∧ requested.length ≤ 1 ∧ Clear s ∧ HasRoom s requested budget
  | .moved requested =>
    s.holder = some i ∧ (∀ op ∈ s.operations, op.createdAt + minIntervalSeconds ≤ s.clock) ∧
      ∀ a, appliedSince a s.applied ≤ recordedSince a s.operations + requested.length
  | _ => True

structure Shared.Initial (s : Shared) : Prop where
  operations : s.operations = []
  applied : s.applied = []
  holder : s.holder = none

def CheckAlone (_ : ℕ) (s : Shared) (r : Request) : Prop :=
  ∀ now rows requested allowed, r.phase = .planned now rows requested allowed → s.holder = none

instance (i : ℕ) (s : Shared) (r : Request) : Decidable (CheckAlone i s r) :=
  match r with
  | ⟨_, .planned _ _ _ _⟩ =>
    if h : s.holder = none then isTrue fun _ _ _ _ _ => h
    else isFalse fun hall => h (hall _ _ _ _ rfl)
  | ⟨_, .received⟩ => isTrue fun _ _ _ _ h => nomatch h
  | ⟨_, .loaded _⟩ => isTrue fun _ _ _ _ h => nomatch h
  | ⟨_, .admitted _ _⟩ => isTrue fun _ _ _ _ h => nomatch h
  | ⟨_, .selected _ _ _ _⟩ => isTrue fun _ _ _ _ h => nomatch h
  | ⟨_, .moved _⟩ => isTrue fun _ _ _ _ h => nomatch h
  | ⟨_, .rejected _⟩ => isTrue fun _ _ _ _ h => nomatch h
  | ⟨_, .recorded⟩ => isTrue fun _ _ _ _ h => nomatch h

/-! ## Time passes -/

theorem appliedSince_anti (hab : a ≤ b) (applied : List Applied) : appliedSince b applied ≤ appliedSince a applied := by
  apply List.countP_mono_left
  intro e _ he
  simp only [decide_eq_true_eq] at he ⊢
  exact hab.trans he

theorem le_clock_after (s : Shared) (k : Choice) : s.clock ≤ (s.after k).clock := by
  simp [Shared.after]

variable {s : Shared} {budget : ℤ} {requested : List (String × String)} {i : ℕ} {r : Request}

theorem Clear.after (h : Clear s) (k : Choice) : Clear (s.after k) := by
  have hclock := le_clock_after s k
  constructor
  case applied =>
    intro e he
    exact (h.applied e he).trans hclock
  case operations =>
    intro op hop
    exact (h.operations op hop).trans hclock
  case accounted => exact h.accounted

theorem HasRoom.after (h : HasRoom s requested budget) (k : Choice) : HasRoom (s.after k) requested budget := by
  intro hne
  have hclock := le_clock_after s k
  have hle : appliedSince ((s.after k).clock - hourlyWindowSeconds) s.applied ≤
      appliedSince (s.clock - hourlyWindowSeconds) s.applied := appliedSince_anti (by omega) _
  have hroom := h hne
  change (appliedSince ((s.after k).clock - hourlyWindowSeconds) s.applied : ℤ) + 1 ≤ budget
  omega

theorem Sound.after (h : Sound s) (k : Choice) : Sound (s.after k) := by
  have hclock := le_clock_after s k
  constructor
  case spaced => exact h.spaced
  case operations =>
    intro op hop
    exact (h.operations op hop).trans hclock
  case applied =>
    intro e he
    exact (h.applied e he).trans hclock
  case limited => exact h.limited
  case accounted => exact h.accounted

theorem Local.after (h : Local i r s) (k : Choice) : Local i r (s.after k) := by
  have hclock := le_clock_after s k
  obtain ⟨moves, phase⟩ := r
  cases phase with
  | planned now rows requested allowed => exact ⟨h.1.trans hclock, h.2⟩
  | admitted requested budget =>
    obtain ⟨hholder, hlen, hclear, hroom⟩ := h
    exact ⟨hholder, hlen, hclear.after k, hroom.after k⟩
  | selected requested budget now items =>
    obtain ⟨hholder, hitems, hlen, hclear, hroom⟩ := h
    exact ⟨hholder, hitems, hlen, hclear.after k, hroom.after k⟩
  | moved requested =>
    obtain ⟨hholder, hops, hcount⟩ := h
    exact ⟨hholder, fun op hop => (hops op hop).trans hclock, hcount⟩
  | received => trivial
  | loaded rows => trivial
  | rejected reason => trivial
  | recorded => trivial

theorem length_of_spaced {ops : List Operation} {lo hi : ℤ}
    (hspaced : ops.Pairwise fun later earlier => earlier.createdAt + minIntervalSeconds ≤ later.createdAt)
    (hlo : ∀ op ∈ ops, lo ≤ op.createdAt) (hhi : ∀ op ∈ ops, op.createdAt ≤ hi) (hle : lo ≤ hi + minIntervalSeconds) :
    minIntervalSeconds * ops.length ≤ hi - lo + minIntervalSeconds := by
  induction ops generalizing hi with
  | nil =>
    simp only [List.length_nil, Nat.cast_zero, mul_zero]
    omega
  | cons op ops ih =>
    obtain ⟨hfirst, hspaced⟩ := List.pairwise_cons.1 hspaced
    have hop := hlo op List.mem_cons_self
    have hop' := hhi op List.mem_cons_self
    have hrest := @ih (op.createdAt - minIntervalSeconds) hspaced
      (List.forall_mem_of_forall_mem_cons hlo) (fun o ho => by have := hfirst o ho; omega) (by omega)
    rw [List.length_cons]
    push_cast
    rw [mul_add]
    omega

theorem movesIn_pos (h : 0 < movesIn ops) : ops ≠ [] := by
  rintro rfl
  simp [movesIn] at h

theorem check_spec (h : Sound s)
    (hcheck : check now budget (listControlOperations (now - hourlyWindowSeconds) s.operations) requested
      allowed = none) :
    (∀ op ∈ s.operations, op.createdAt + minIntervalSeconds ≤ now) ∧
      (requested ≠ [] → (recordedSince (now - hourlyWindowSeconds) s.operations : ℤ) < budget) := by
  have hsorted : (s.operations.filter fun op => now - hourlyWindowSeconds ≤ op.createdAt).Pairwise
      fun later earlier => earlier.createdAt + minIntervalSeconds ≤ later.createdAt := h.spaced.filter _
  set window := s.operations.filter fun op => now - hourlyWindowSeconds ≤ op.createdAt with hwindow
  have hlist : listControlOperations (now - hourlyWindowSeconds) s.operations = window.take 100 := by
    rw [listControlOperations, ← hwindow, List.Pairwise.insertionSort_eq]
    refine hsorted.imp ?_
    intro a b hab
    simp only [minIntervalSeconds] at hab
    omega
  rw [hlist] at hcheck
  unfold check at hcheck
  split at hcheck
  · cases hcheck
  rename_i hrecent
  -- the first operation of the window is the latest one
  have hold : ∀ op ∈ window, op.createdAt + minIntervalSeconds ≤ now := by
    cases hcases : window with
    | nil => simp
    | cons op ops =>
      rw [hcases] at hsorted hrecent
      have hfirst : op.createdAt + minIntervalSeconds ≤ now := by
        simp only [List.take_succ_cons, List.head?_cons, Option.any_some, gt_iff_lt, decide_eq_true_eq,
          not_lt] at hrecent
        omega
      intro o ho
      rcases List.mem_cons.1 ho with rfl | ho
      · exact hfirst
      · have hspace := (List.pairwise_cons.1 hsorted).1 o ho
        simp only [minIntervalSeconds] at hspace hfirst ⊢
        omega
  refine ⟨?_, ?_⟩
  · intro op hop
    by_cases hin : now - hourlyWindowSeconds ≤ op.createdAt
    · exact hold op (List.mem_filter.2 ⟨hop, by simpa using hin⟩)
    · simp only [minIntervalSeconds, hourlyWindowSeconds] at hin ⊢
      omega
  intro hne
  have hfew : window.length ≤ 100 := by
    have hlen := @length_of_spaced window (now - hourlyWindowSeconds) (now - minIntervalSeconds) hsorted
      (fun op hop => by simpa using (List.mem_filter.1 hop).2)
      (fun op hop => by have := hold op hop; omega)
      (by simp only [minIntervalSeconds, hourlyWindowSeconds]; omega)
    simp only [minIntervalSeconds, hourlyWindowSeconds] at hlen
    omega
  rw [List.take_of_length_le hfew] at hcheck
  split at hcheck
  · cases hcheck
  · rename_i hbudget
    simp only [not_and, ge_iff_le, not_le] at hbudget
    exact hbudget hne

theorem clear_of_check (h : Sound s) (hholder : s.holder = none) (hnow : now ≤ s.clock)
    (hcheck : check now budget (listControlOperations (now - hourlyWindowSeconds) s.operations) requested
      allowed = none) : Clear s ∧ HasRoom s requested budget := by
  obtain ⟨hops, hbudget⟩ := check_spec h hcheck
  have haccounted := h.accounted hholder
  refine ⟨⟨?_, fun op hop => (hops op hop).trans hnow, haccounted⟩, ?_⟩
  · intro e he
    by_contra hlate
    -- a later move would have a later record
    have hpos : 0 < appliedSince (now - minIntervalSeconds + 1) s.applied := by
      apply List.countP_pos_iff.2
      exact ⟨e, he, by simp only [decide_eq_true_eq]; omega⟩
    have hrecorded := movesIn_pos (lt_of_lt_of_le hpos (haccounted _))
    obtain ⟨op, hop⟩ := List.exists_mem_of_ne_nil _ hrecorded
    obtain ⟨hmem, hsince⟩ := List.mem_filter.1 hop
    have hop' := hops op hmem
    simp only [decide_eq_true_eq] at hsince
    omega
  · intro hne
    have hlt := hbudget hne
    have hle := haccounted (now - hourlyWindowSeconds)
    have hanti : appliedSince (s.clock - hourlyWindowSeconds) s.applied ≤
        appliedSince (now - hourlyWindowSeconds) s.applied := appliedSince_anti (by omega) _
    omega

theorem Limited.cons {applied : List Applied} (h : Limited applied) {time : ℤ}
    (hinterval : ∀ e ∈ applied, e.time + minIntervalSeconds ≤ time)
    (hbudget : (appliedSince (time - hourlyWindowSeconds) applied : ℤ) + 1 ≤ budget) :
    Limited (⟨time, budget⟩ :: applied) := by
  constructor
  case interval => exact List.pairwise_cons.2 ⟨hinterval, h.interval⟩
  case budget =>
    intro e before hsuffix
    rcases List.suffix_cons_iff.1 hsuffix with heq | hold
    · obtain ⟨rfl, rfl⟩ := List.cons.inj heq
      have hself : appliedSince (time - hourlyWindowSeconds) (⟨time, budget⟩ :: before) =
          appliedSince (time - hourlyWindowSeconds) before + 1 := by
        simp [appliedSince, hourlyWindowSeconds]
      rw [hself]
      push_cast
      exact hbudget
    · exact h.budget e before hold

theorem appliedSince_append_le (a : ℤ) (new old : List Applied) :
    appliedSince a (new ++ old) ≤ appliedSince a old + new.length := by
  have hle : new.countP (fun e => decide (a ≤ e.time)) ≤ new.length := List.countP_le_length
  simp only [appliedSince, List.countP_append]
  omega

variable {mode : SchedulerMode} {accountCapacity loadCapacity : ℤ}

theorem own_step (hok : CheckAlone i s r) (h : Sound s) (hr : Local i r s)
    (hn : step mode accountCapacity loadCapacity i s r = some (s', r')) : Sound s' ∧ Local i r' s' := by
  obtain ⟨moves, phase⟩ := r
  cases phase with
  | received =>
    simp only [step] at hn
    split at hn
    · cases hn
      exact ⟨h, trivial⟩
    · cases hn
      exact ⟨h, trivial⟩
  | loaded rows =>
    simp only [step] at hn
    split at hn
    · cases hn
      exact ⟨h, trivial⟩
    · rename_i hlen
      cases hn
      exact ⟨h, le_refl _, Nat.le_of_not_lt hlen⟩
  | planned now rows requested allowed =>
    simp only [step] at hn
    split at hn
    · cases hn
      exact ⟨h, trivial⟩
    rename_i hcheck
    cases hn
    have hholder := hok now rows requested allowed rfl
    obtain ⟨hclear, hroom⟩ := clear_of_check h hholder hr.1 hcheck
    refine ⟨⟨h.spaced, h.operations, h.applied, h.limited, ?_⟩, rfl, hr.2, ?_, hroom⟩
    · intro hnone
      cases hnone
    · exact ⟨hclear.applied, hclear.operations, hclear.accounted⟩
  | admitted requested budget =>
    obtain ⟨hholder, hlen, hclear, hroom⟩ := hr
    simp only [step] at hn
    split at hn
    · cases hn
      refine ⟨h, hholder, hclear.operations, ?_⟩
      intro a
      exact (hclear.accounted a).trans (Nat.le_add_right _ _)
    · cases hn
      exact ⟨h, hholder, List.length_filterMap_le _ _, hlen, hclear, hroom⟩
  | selected requested budget now items =>
    obtain ⟨hholder, hitems, hlen, hclear, hroom⟩ := hr
    simp only [step] at hn
    cases hn
    have hchanges : (changes items).length ≤ requested.length := (List.length_filter_le _ _).trans hitems
    refine ⟨⟨h.spaced, h.operations, ?_, ?_, ?_⟩, hholder, hclear.operations, ?_⟩
    · intro e he
      rcases List.mem_append.1 he with hnew | hold
      · obtain ⟨item, -, rfl⟩ := List.mem_map.1 hnew
        exact le_refl _
      · exact h.applied e hold
    · -- at most one connection has moved
      cases hcases : changes items with
      | nil => exact h.limited
      | cons item rest =>
        rw [hcases] at hchanges
        have hrest : rest = [] := by
          rw [← List.length_eq_zero_iff]
          simp only [List.length_cons] at hchanges
          omega
        subst hrest
        have hne : requested ≠ [] := by
          rintro rfl
          simp at hchanges
        exact h.limited.cons hclear.applied (hroom hne)
    · intro hnone
      rw [hholder] at hnone
      cases hnone
    · intro a
      have hle := appliedSince_append_le a ((changes items).map fun _ => ⟨s.clock, budget⟩) s.applied
      have hold := hclear.accounted a
      rw [List.length_map] at hle
      exact hle.trans (Nat.add_le_add hold hchanges)
  | moved requested =>
    obtain ⟨hholder, hops, hcount⟩ := hr
    simp only [step, hholder, if_true] at hn
    cases hn
    refine ⟨⟨?_, ?_, h.applied, h.limited, ?_⟩, trivial⟩
    · exact List.pairwise_cons.2 ⟨hops, h.spaced⟩
    · intro op hop
      rcases List.mem_cons.1 hop with rfl | hold
      · exact le_refl _
      · exact h.operations op hold
    intro _ a
    have hold := hcount a
    by_cases ha : a ≤ s.clock
    · have hnew : recordedSince a (⟨s.clock, requested⟩ :: s.operations) =
          requested.length + recordedSince a s.operations := by
        simp [recordedSince, movesIn, ha]
      change appliedSince a s.applied ≤ recordedSince a (⟨s.clock, requested⟩ :: s.operations)
      omega
    · -- no move lies in the future
      have hzero : appliedSince a s.applied = 0 := by
        apply List.countP_eq_zero.2
        intro e he
        have := h.applied e he
        simp only [decide_eq_true_eq]
        omega
      change appliedSince a s.applied ≤ _
      omega
  | rejected reason => cases hn
  | recorded => cases hn

theorem frame_step (hij : i ≠ j) (hok : CheckAlone i s r) (hr : Local i r s)
    (hq : Local j q s) (hn : step mode accountCapacity loadCapacity i s r = some (s', r')) : Local j q s' := by
  -- what a request between check and record knows needs the holder to stay
  have hkeep : s'.clock = s.clock ∧ (s.holder = some j → s' = s) := by
    obtain ⟨moves, phase⟩ := r
    have hother : s.holder = some i → s.holder = some j → s' = s := by
      intro hi hj
      rw [hi, Option.some.injEq] at hj
      exact absurd hj hij
    cases phase with
    | received =>
      simp only [step] at hn
      split at hn
      · cases hn
        exact ⟨rfl, fun _ => rfl⟩
      · cases hn
        exact ⟨rfl, fun _ => rfl⟩
    | loaded rows =>
      simp only [step] at hn
      split at hn
      · cases hn
        exact ⟨rfl, fun _ => rfl⟩
      · cases hn
        exact ⟨rfl, fun _ => rfl⟩
    | planned now rows requested allowed =>
      have hnone := hok now rows requested allowed rfl
      simp only [step] at hn
      split at hn
      · cases hn
        exact ⟨rfl, fun _ => rfl⟩
      · cases hn
        refine ⟨rfl, fun hj => ?_⟩
        rw [hnone] at hj
        cases hj
    | admitted requested budget =>
      simp only [step] at hn
      split at hn
      · cases hn
        exact ⟨rfl, fun _ => rfl⟩
      · cases hn
        exact ⟨rfl, fun _ => rfl⟩
    | selected requested budget now items =>
      have hclock : s'.clock = s.clock := by
        cases hn
        rfl
      exact ⟨hclock, hother hr.1⟩
    | moved requested =>
      have hclock : s'.clock = s.clock := by
        cases hn
        rfl
      exact ⟨hclock, hother hr.1⟩
    | rejected reason => cases hn
    | recorded => cases hn
  obtain ⟨hclock, hsame⟩ := hkeep
  obtain ⟨moves, phase⟩ := q
  cases phase with
  | planned now rows requested allowed => exact ⟨hclock.symm ▸ hq.1, hq.2⟩
  | admitted requested budget => exact hsame hq.1 ▸ hq
  | selected requested budget now items => exact hsame hq.1 ▸ hq
  | moved requested => exact hsame hq.1 ▸ hq
  | received => trivial
  | loaded rows => trivial
  | rejected reason => trivial
  | recorded => trivial

/-- The limits hold when no two requests overlap between check and record. -/
theorem rate_limited {c c' : Conf Shared Request} (hinit : c.shared.Initial)
    (hprocs : ∀ r ∈ c.procs, r.phase = .received)
    (hrun : ReachesWhere (next mode accountCapacity loadCapacity) CheckAlone c c') :
    Limited c'.shared.applied := by
  have hsound : Sound c.shared := by
    obtain ⟨hops, happlied, -⟩ := hinit
    constructor
    case spaced => simp [hops]
    case operations => simp [hops]
    case applied => simp [happlied]
    case limited =>
      rw [happlied]
      exact ⟨List.Pairwise.nil, fun e before h => by simpa using h.length_le⟩
    case accounted =>
      intro _ a
      simp [happlied, appliedSince]
  have hlocal : ∀ i r, c.procs[i]? = some r → Local i r c.shared := by
    intro i r hr
    have hphase := hprocs r (List.mem_of_getElem? hr)
    obtain ⟨moves, phase⟩ := r
    cases hphase
    trivial
  have hown : ∀ i k s r s' r', CheckAlone i s r → Sound s → Local i r s →
      next mode accountCapacity loadCapacity i s r k = some (s', r') → Sound s' ∧ Local i r' s' := by
    intro i k s r s' r' hok hs hr hn
    have hok' : CheckAlone i (s.after k) r := hok
    exact own_step hok' (hs.after k) (hr.after k) hn
  have hframe : ∀ i j k s r s' r' q, i ≠ j → CheckAlone i s r → Sound s → Local i r s → Local j q s →
      next mode accountCapacity loadCapacity i s r k = some (s', r') → Local j q s' := by
    intro i j k s r s' r' q hij hok _ hr hq hn
    have hok' : CheckAlone i (s.after k) r := hok
    exact frame_step hij hok' (hr.after k) (hq.after k) hn
  exact (invariant_of_frame hown hframe hrun ⟨hsound, hlocal⟩).1.limited

def sampleTable : KeyedTable String ConnectionRow :=
  (KeyedTable.empty.set "n1" ⟨"n1", "qq", none, true, "connected", 1, {}⟩).set "n2"
    ⟨"n2", "qq", none, true, "connected", 1, {}⟩

def sampleConf : Conf Shared Request where
  shared := ⟨10000, sampleTable, [], [], none⟩
  procs := [⟨some [("n1", "qq-shard-000")], .received⟩, ⟨some [("n2", "qq-shard-000")], .received⟩]

def atOnce (i steps : ℕ) : List (ℕ × Choice) := List.replicate steps (i, ⟨0, none⟩)

theorem rate_limited_sample : ∃ c', ReachesWhere (next .auto 12 12) CheckAlone sampleConf c' ∧
      c'.shared.applied = [⟨13700, 1⟩, ⟨10000, 1⟩] ∧ Limited c'.shared.applied := by
  have hlog : (runSchedule
      (fun i s r k => if CheckAlone i s r then next .auto 12 12 i s r k else none) sampleConf
      (atOnce 0 6 ++ (1, ⟨3700, none⟩) :: atOnce 1 5)).map (fun c => c.shared.applied) =
        some [⟨13700, 1⟩, ⟨10000, 1⟩] := by
    decide +kernel
  obtain ⟨c', hrun, happlied⟩ := Option.map_eq_some_iff.1 hlog
  have hreach := reachesWhere_of_guarded (reaches_of_runSchedule hrun)
  exact ⟨c', hreach, happlied, rate_limited ⟨rfl, rfl, rfl⟩ (by simp [sampleConf]) hreach⟩

/-- Both read before one has recorded. -/
theorem concurrent_requests_exceed : sampleConf.shared.Initial ∧ (∀ r ∈ sampleConf.procs, r.phase = .received) ∧
      ∃ c', Reaches (next .auto 12 12) sampleConf c' ∧ ¬ Limited c'.shared.applied := by
  refine ⟨⟨rfl, rfl, rfl⟩, by simp [sampleConf], ?_⟩
  have hlog : (runSchedule (next .auto 12 12) sampleConf (atOnce 0 3 ++ atOnce 1 3 ++ atOnce 0 3 ++ atOnce 1 3)).map
      (fun c => c.shared.applied) = some [⟨10000, 1⟩, ⟨10000, 1⟩] := by
    decide +kernel
  obtain ⟨c', hrun, happlied⟩ := Option.map_eq_some_iff.1 hlog
  refine ⟨c', reaches_of_runSchedule hrun, ?_⟩
  intro hlimited
  have hinterval := hlimited.interval
  rw [happlied] at hinterval
  revert hinterval
  decide

end RyanAI.Backend.Rebalance
