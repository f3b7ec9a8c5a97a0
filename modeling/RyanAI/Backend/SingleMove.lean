import RyanAI.Backend.SchedulerConvergence

/-!
# One move of a plan

`apply_rebalance` of `routers/bot_gateway.py` applies one move of a plan at a time, while the planner checks the plan as
a whole and counts on a target shard what the plan leaves there. `_rebalance_plan` feeds it with the rows of the
connections; a load is between 1 and 12 (`calculate_load_units`). A single move is safe as long as nothing else is on
the target, or the target has room for it anyway (`single_move_safe_iff`).
-/

namespace RyanAI.Backend.Scheduler

open RyanAI.Lib Placement

/-- The end of `calculate_load_units`, after the `math.ceil` of its sum of floats. -/
def calculateLoadUnits (raw : ℤ) : ℤ := min 12 (max 1 raw)

theorem one_le_calculateLoadUnits (raw : ℤ) : 1 ≤ calculateLoadUnits raw := by
  simp [calculateLoadUnits]

/-- What `_rebalance_plan` reads of a row of `bot_gateway_connection`; `rawLoad` is the rounded sum of
its metrics. -/
structure ConnectionRow where
  id : String
  channel : String
  shardId : Option String
  enabled : Bool
  status : String
  rawLoad : ℤ
  config : Config := {}

def ConnectionRow.scheduled (row : ConnectionRow) : SchedulingConnection where
  id := row.id
  channel := row.channel
  shardId := row.shardId
  enabled := row.enabled
  status := row.status
  loadUnits := calculateLoadUnits row.rawLoad
  config := row.config

/-- `_rebalance_plan`. -/
def rebalancePlan (accountCapacity loadCapacity now : ℤ) (rows : List ConnectionRow) : Plan :=
  buildRebalancePlan accountCapacity loadCapacity now (rows.map ConnectionRow.scheduled)

/-! ## A single move -/

def occupants (connections : List SchedulingConnection) (s : String) : List SchedulingConnection :=
  (enabledItems connections).filter fun x => x.shard = some s

def applyMove (m : Move) (connections : List SchedulingConnection) : List SchedulingConnection :=
  connections.map fun x => if x.id = m.connectionId then { x with shardId := some m.toShardId } else x

structure SafeMove (accountCapacity loadCapacity : ℤ) (connections : List SchedulingConnection) (m : Move) :
    Prop where
  isolated : ∀ x ∈ occupants (applyMove m connections) m.toShardId, x.id = m.connectionId →
    x.isolate = true → occupants (applyMove m connections) m.toShardId = [x]
  capacity : (∃ x, x.id = m.connectionId ∧ occupants (applyMove m connections) m.toShardId = [x]) ∨
    ((occupants (applyMove m connections) m.toShardId).length : ℤ) ≤ accountCapacity ∧
      totalLoad (occupants (applyMove m connections) m.toShardId) ≤ loadCapacity

variable {x : SchedulingConnection} {s : String}

section SingleMove

variable {accountCapacity loadCapacity now : ℤ} {connections : List SchedulingConnection}

theorem occupants_applyMove (hids : DistinctIds connections) (hx : x ∈ enabledItems connections) (hs : s ≠ "")
    (hnot : x.shard ≠ some s) :
    (occupants (applyMove (x.moveTo s) connections) s).Perm
      ({ x with shardId := some s } :: occupants connections s) := by
  have henabled : enabledItems (applyMove (x.moveTo s) connections) =
      (enabledItems connections).map fun y => if y.id = x.id then { y with shardId := some s } else y := by
    rw [enabledItems, applyMove, List.filter_map, enabledItems]
    congr 1
    apply List.filter_congr
    intro y _
    simp only [Function.comp]
    split <;> rfl
  obtain ⟨before, after, hsplit⟩ := List.append_of_mem hx
  have hothers : ∀ y, y ∈ before ∨ y ∈ after → y.id ≠ x.id := by
    have hnodup := hids.enabled
    rw [DistinctIds, hsplit, List.map_append, List.map_cons, List.nodup_middle, List.nodup_cons,
      ← List.map_append] at hnodup
    intro y hy hid
    exact hnodup.1 (hid ▸ List.mem_map_of_mem (List.mem_append.2 hy))
  have hkeep : ∀ l : List SchedulingConnection, (∀ y ∈ l, y.id ≠ x.id) →
      (l.map fun y => if y.id = x.id then { y with shardId := some s } else y) = l := by
    intro l hl
    conv_rhs => rw [← List.map_id l]
    apply List.map_congr_left
    intro y hy
    rw [if_neg (hl y hy)]
    rfl
  have hmoved : ({ x with shardId := some s } : SchedulingConnection).shard = some s :=
    SchedulingConnection.shard_eq_some.2 ⟨rfl, hs⟩
  rw [occupants, henabled, hsplit, List.map_append, List.map_cons, if_pos rfl,
    hkeep before fun y hy => hothers y (.inl hy), hkeep after fun y hy => hothers y (.inr hy),
    occupants, hsplit, List.filter_append, List.filter_append, List.filter_cons, List.filter_cons]
  simp only [hmoved, decide_true, if_true, hnot, decide_false, Bool.false_eq_true, if_false]
  exact List.perm_middle

def here (x : SchedulingConnection) (s : String) (y : SchedulingConnection) : Bool := y = x || y.shard = some s

theorem totalLoad_filter_le (hl : ∀ y ∈ l, 0 ≤ y.loadUnits)
    (p : SchedulingConnection → Bool) : totalLoad (l.filter p) ≤ totalLoad l := by
  induction l with
  | nil => simp [totalLoad]
  | cons y l ih =>
    have hy := hl y List.mem_cons_self
    have ih' := ih fun z hz => hl z (List.mem_cons_of_mem y hz)
    simp only [totalLoad] at ih' ⊢
    by_cases hp : p y = true
    · simp [hp, ih']
    · simp only [List.filter_cons_of_neg hp, List.map_cons, List.sum_cons]
      omega

/-- What the last pass keeps of the shard `s` of a moved connection `x`: its channel, and its
capacity. -/
structure Target (accountCapacity loadCapacity : ℤ) (x : SchedulingConnection) (s : String) (q : Shards) :
    Prop where
  channel : ∀ k, s = shardName x.channel k → ∀ y, (y, s) ∈ q → y.channel = x.channel
  loads : ∀ y, (y, s) ∈ q → 0 ≤ y.loadUnits
  room : (x, s) ∈ q → (bin s q).filter (here x s) = [x] ∨
    x.isolate = false ∧ (((bin s q).filter (here x s)).length : ℤ) ≤ accountCapacity ∧
      totalLoad ((bin s q).filter (here x s)) ≤ loadCapacity

theorem Target.fresh_empty (h : Target accountCapacity loadCapacity x s q)
    (hy : y.channel = x.channel) (hfresh : Fresh q y s) : bin s q = [] := by
  obtain ⟨k, hs, hunknown, -⟩ := hfresh
  by_contra hne
  apply hunknown
  refine ⟨_, List.getLast?_eq_some_getLast hne, ?_⟩
  rw [hy]
  exact h.channel k (hy ▸ hs) _ (mem_bin.1 (List.getLast_mem hne))

theorem Target.assign
    (h : Target accountCapacity loadCapacity x s q) (hz : Assigns accountCapacity loadCapacity rest q z t)
    (hload : 0 ≤ z.loadUnits) (hhere : here x s z = true → z.channel = x.channel) :
    Target accountCapacity loadCapacity x s (q ++ [(z, t)]) := by
  by_cases hts : t = s
  swap
  · -- another shard
    have hbin : bin s (q ++ [(z, t)]) = bin s q := by simp [hts]
    have hmem : ∀ y, (y, s) ∈ q ++ [(z, t)] ↔ (y, s) ∈ q := by
      intro y
      rw [← mem_bin, hbin, mem_bin]
    constructor
    case channel =>
      intro k hk y hy
      exact h.channel k hk y ((hmem y).1 hy)
    case loads =>
      intro y hy
      exact h.loads y ((hmem y).1 hy)
    case room =>
      intro hx
      rw [hbin]
      exact h.room ((hmem x).1 hx)
  subst hts
  have hbin : bin t (q ++ [(z, t)]) = bin t q ++ [z] := by simp
  constructor
  case channel =>
    intro k hk y hy
    rcases List.mem_append.1 hy with hold | hnew
    · exact h.channel k hk y hold
    cases List.mem_singleton.1 hnew
    rcases hz.choice with ⟨k', hk', -⟩ | hjoins
    · exact (shardName_inj (hk'.symm.trans hk)).1
    · obtain ⟨w, hlast, hw⟩ := hjoins.known
      rw [← hw]
      exact h.channel k hk w (mem_bin.1 (List.mem_of_getLast? hlast))
  case loads =>
    intro y hy
    rcases List.mem_append.1 hy with hold | hnew
    · exact h.loads y hold
    · cases List.mem_singleton.1 hnew
      exact hload
  case room =>
    intro hx
    rw [hbin, List.filter_append]
    by_cases hcounts : here x t z = true
    · have hone : [z].filter (here x t) = [z] := by simp [hcounts]
      rw [hone]
      rcases hz.choice with hfresh | hjoins
      · -- an empty shard, so the connection is the moved one
        have hempty := h.fresh_empty (hhere hcounts) hfresh
        rw [hempty] at hbin
        have hmem := mem_bin.2 hx
        rw [hbin, List.nil_append, List.mem_singleton] at hmem
        left
        rw [hempty, hmem]
        rfl
      right
      have hisolate : x.isolate = false := by
        rcases List.mem_append.1 hx with hold | hnew
        · exact hjoins.open_ x (mem_bin.2 hold)
        · cases List.mem_singleton.1 hnew
          exact hjoins.shared
      have hle := List.length_filter_le (here x t) (bin t q)
      have hsum := totalLoad_filter_le (fun y hy => h.loads y (mem_bin.1 hy)) (here x t)
      have haccounts := hjoins.accounts
      have hjoinsLoad := hjoins.load
      simp only [totalLoad, weight] at hsum hjoinsLoad ⊢
      rw [List.length_append, List.length_singleton, List.map_append, List.sum_append, List.map_cons,
        List.map_nil, List.sum_singleton]
      refine ⟨hisolate, ?_, ?_⟩
      · push_cast
        omega
      · omega
    · have hne : z ≠ x := by
        rintro rfl
        simp [here] at hcounts
      have hnone : [z].filter (here x t) = [] := by simp [hcounts]
      rw [hnone, List.append_nil]
      apply h.room
      rcases List.mem_append.1 hx with hold | hnew
      · exact hold
      · exact absurd (Prod.mk.inj (List.mem_singleton.1 hnew)).1.symm hne

theorem move_has_room (h : PlannedBy accountCapacity loadCapacity now connections plan fixed kept final)
    (hloads : ∀ y ∈ enabledItems connections, 0 ≤ y.loadUnits) (hx : (x, s) ∈ final) (hnot : x.shard ≠ some s)
    (hcounted : ∀ y ∈ occupants connections s, (y, s) ∈ final ∧ y.channel = x.channel) :
    occupants connections s = [] ∨ x.isolate = false ∧ ((occupants connections s).length : ℤ) + 1 ≤ accountCapacity ∧
      totalLoad (occupants connections s) + x.loadUnits ≤ loadCapacity := by
  have hmem : ∀ y, y ∈ occupants connections s ↔ y ∈ enabledItems connections ∧ y.shard = some s := by
    intro y
    rw [occupants, List.mem_filter, decide_eq_true_eq]
  have hxitem := h.rep.within _ hx
  have hkept : Target accountCapacity loadCapacity x s kept := by
    constructor
    case channel =>
      intro k _ y hy
      exact (hcounted y ((hmem y).2 (h.passes.shard_of_kept hy))).2
    case loads =>
      intro y hy
      exact hloads y (h.passes.shard_of_kept hy).1
    case room =>
      intro hold
      exact absurd (h.passes.shard_of_kept hold).2 hnot
  have hfinal : Target accountCapacity loadCapacity x s final := by
    apply h.passes.assigns.invariant _ hkept
    intro q z t hq hz
    have hzitem := ((h.passes.rest_iff z).1 hz.mem).1
    apply hq.assign hz (hloads z hzitem)
    intro hhere
    simp only [here, Bool.or_eq_true, decide_eq_true_eq] at hhere
    rcases hhere with rfl | hshard
    · rfl
    · exact (hcounted z ((hmem z).2 ⟨hzitem, hshard⟩)).2
  -- what counts in the end is the moved connection with the occupants
  have hxocc : x ∉ occupants connections s := fun hocc => hnot ((hmem x).1 hocc).2
  have hperm : ((bin s final).filter (here x s)).Perm (x :: occupants connections s) := by
    rw [List.perm_ext_iff_of_nodup ((nodup_bin h.rep.nodup s).filter _)
      (List.nodup_cons.2 ⟨hxocc, ((List.Nodup.of_map _ h.ids.enabled).filter _)⟩)]
    intro y
    rw [List.mem_filter, mem_bin, List.mem_cons, hmem]
    simp only [here, Bool.or_eq_true, decide_eq_true_eq]
    constructor
    · rintro ⟨hy, rfl | hshard⟩
      · exact .inl rfl
      · exact .inr ⟨h.rep.within _ hy, hshard⟩
    · rintro (rfl | hy)
      · exact ⟨hx, .inl rfl⟩
      · exact ⟨(hcounted y ((hmem y).2 hy)).1, .inr hy.2⟩
  rcases hfinal.room hx with halone | ⟨hisolate, haccounts, hload⟩
  · left
    rw [halone] at hperm
    exact (List.cons.inj (List.singleton_perm.1 hperm).symm).2
  right
  have hsum := (hperm.map SchedulingConnection.loadUnits).sum_eq
  simp only [totalLoad] at hload ⊢
  rw [hsum, List.map_cons, List.sum_cons] at hload
  rw [hperm.length_eq, List.length_cons] at haccounts
  refine ⟨hisolate, ?_, ?_⟩
  · push_cast at haccounts
    exact haccounts
  · omega

theorem safeMove_iff (hids : DistinctIds connections) (hx : x ∈ enabledItems connections) (hs : s ≠ "")
    (hnot : x.shard ≠ some s) :
    SafeMove accountCapacity loadCapacity connections (x.moveTo s) ↔
      occupants connections s = [] ∨ x.isolate = false ∧
        ((occupants connections s).length : ℤ) + 1 ≤ accountCapacity ∧
        totalLoad (occupants connections s) + x.loadUnits ≤ loadCapacity := by
  have hperm := occupants_applyMove hids hx hs hnot
  have hlen := hperm.length_eq
  have hsum := (hperm.map SchedulingConnection.loadUnits).sum_eq
  rw [List.length_cons] at hlen
  rw [List.map_cons, List.sum_cons] at hsum
  constructor
  · rintro ⟨hisolated, hcapacity⟩
    by_cases hempty : occupants connections s = []
    · exact .inl hempty
    right
    have hpos : 0 < (occupants connections s).length := List.length_pos_of_ne_nil hempty
    have hmany : ∀ y, occupants (applyMove (x.moveTo s) connections) s ≠ [y] := by
      intro y hy
      rw [hy, List.length_singleton] at hlen
      omega
    refine ⟨?_, ?_⟩
    · by_contra hiso
      rw [Bool.not_eq_false] at hiso
      exact hmany _ (hisolated { x with shardId := some s } (hperm.mem_iff.2 List.mem_cons_self) rfl hiso)
    rcases hcapacity with ⟨y, -, hy⟩ | ⟨haccounts, hload⟩
    · exact absurd hy (hmany y)
    change ((occupants (applyMove (x.moveTo s) connections) s).length : ℤ) ≤ accountCapacity at haccounts
    change totalLoad (occupants (applyMove (x.moveTo s) connections) s) ≤ loadCapacity at hload
    simp only [totalLoad] at hload ⊢
    rw [hsum] at hload
    rw [hlen] at haccounts
    push_cast at haccounts
    exact ⟨haccounts, by rw [add_comm]; exact hload⟩
  · intro hroom
    have hother : occupants connections s = [] →
        occupants (applyMove (x.moveTo s) connections) s = [{ x with shardId := some s }] := by
      intro hempty
      rw [hempty] at hperm
      exact List.perm_singleton.1 hperm
    constructor
    · intro y hy hid hiso
      rcases hroom with hempty | ⟨hisolate, -⟩
      · change occupants (applyMove (x.moveTo s) connections) s = [y]
        have hy' : y ∈ occupants (applyMove (x.moveTo s) connections) s := hy
        rw [hother hempty] at hy' ⊢
        rw [List.mem_singleton.1 hy']
      exfalso
      have hy' := hperm.mem_iff.1 hy
      rcases List.mem_cons.1 hy' with rfl | hocc
      · rw [show ({ x with shardId := some s } : SchedulingConnection).isolate = x.isolate from rfl,
          hisolate] at hiso
        cases hiso
      · rw [occupants, List.mem_filter, decide_eq_true_eq] at hocc
        exact hnot (hids.enabled.eq hocc.1 hx hid ▸ hocc.2)
    · rcases hroom with hempty | ⟨-, haccounts, hload⟩
      · exact .inl ⟨{ x with shardId := some s }, rfl, hother hempty⟩
      · right
        change ((occupants (applyMove (x.moveTo s) connections) s).length : ℤ) ≤ accountCapacity ∧
          totalLoad (occupants (applyMove (x.moveTo s) connections) s) ≤ loadCapacity
        simp only [totalLoad] at hload ⊢
        rw [hsum, hlen]
        push_cast
        exact ⟨haccounts, by rw [add_comm] at hload; exact hload⟩

end SingleMove

/-! ## When a single move is safe -/

def Counted (plan : Plan) (m : Move) (y : SchedulingConnection) : Prop :=
  plan.shardOf y = some m.toShardId ∧ y.channel = m.channel

instance (plan : Plan) (m : Move) (y : SchedulingConnection) : Decidable (Counted plan m y) :=
  inferInstanceAs (Decidable (_ ∧ _))

theorem single_move_safe_iff (accountCapacity loadCapacity now : ℤ) (rows : List ConnectionRow)
    (hids : DistinctIds (rows.map ConnectionRow.scheduled)) (m : Move)
    (hm : m ∈ (rebalancePlan accountCapacity loadCapacity now rows).moves) :
    SafeMove accountCapacity loadCapacity (rows.map ConnectionRow.scheduled) m ↔
      (∀ y ∈ occupants (rows.map ConnectionRow.scheduled) m.toShardId,
        Counted (rebalancePlan accountCapacity loadCapacity now rows) m y) ∨
      (∀ x ∈ enabledItems (rows.map ConnectionRow.scheduled), x.id = m.connectionId → x.isolate = false) ∧
        ((occupants (rows.map ConnectionRow.scheduled) m.toShardId).length : ℤ) + 1 ≤ accountCapacity ∧
        totalLoad (occupants (rows.map ConnectionRow.scheduled) m.toShardId) + m.loadUnits ≤ loadCapacity := by
  obtain ⟨fixed, kept, final, h⟩ := exists_plannedBy accountCapacity loadCapacity now hids
  obtain ⟨x, hx, s, hs, hne, hcan, rfl⟩ := (mem_moves hids).1 hm
  have hfinal := (h.shardOf x hx s).1 hs
  have hsne := shard_ne_empty h.passes hfinal
  have hnot : x.shard ≠ some s := fun hshard => hne (SchedulingConnection.shard_eq_some.1 hshard).1.symm
  have hloads : ∀ y ∈ enabledItems (rows.map ConnectionRow.scheduled), 0 ≤ y.loadUnits := by
    intro y hy
    obtain ⟨row, -, rfl⟩ := List.mem_map.1 (List.mem_filter.1 hy).1
    exact zero_le_one.trans (one_le_calculateLoadUnits row.rawLoad)
  have hisolate : (∀ y ∈ enabledItems (rows.map ConnectionRow.scheduled), y.id = x.id → y.isolate = false) ↔
      x.isolate = false := by
    constructor
    · intro hall
      exact hall x hx rfl
    · intro hiso y hy hid
      rwa [hids.enabled.eq hy hx hid]
  rw [safeMove_iff hids hx hsne hnot]
  change occupants (rows.map ConnectionRow.scheduled) s = [] ∨ _ ↔
    (∀ y ∈ occupants (rows.map ConnectionRow.scheduled) s, Counted _ (x.moveTo s) y) ∨
      (∀ y ∈ enabledItems (rows.map ConnectionRow.scheduled), y.id = x.id → y.isolate = false) ∧ _
  rw [hisolate]
  constructor
  · rintro (hempty | hroom)
    · left
      intro y hy
      rw [hempty] at hy
      cases hy
    · exact .inr hroom
  · rintro (hcounted | hroom)
    · apply move_has_room h hloads hfinal hnot
      intro y hy
      obtain ⟨hplan, hchannel⟩ := hcounted y hy
      exact ⟨(h.shardOf y (List.mem_filter.1 hy).1 s).1 hplan, hchannel⟩
    · exact .inr hroom

def sampleRows : List ConnectionRow :=
  [⟨"x", "qq", some "qq-shard-005", true, "connected", 9, {}⟩,
    ⟨"y", "qq", some "qq-shard-005", true, "connected", 1, {}⟩,
    ⟨"z", "qq", some "qq-shard-000", true, "connected", 1, { underloadedWindows := 30 }⟩]

def sampleScheduled : List SchedulingConnection :=
  [sampleConnection "x" "qq" (some "qq-shard-005") 9, sampleConnection "y" "qq" (some "qq-shard-005") 1,
    { sampleConnection "z" "qq" (some "qq-shard-000") 1 with config := { underloadedWindows := 30 } }]

theorem sampleRows_scheduled : sampleRows.map ConnectionRow.scheduled = sampleScheduled := rfl

def sampleMove (id source target : String) (loadUnits : ℤ) : Move :=
  ⟨id, "qq", some source, target, loadUnits, .capacityRebalance⟩

theorem single_move_safe_sample : SafeMove 12 12 (sampleRows.map ConnectionRow.scheduled)
      (sampleMove "z" "qq-shard-000" "qq-shard-005" 1) := by
  apply (single_move_safe_iff 12 12 10000 sampleRows ?_ _ ?_).2 (.inr ?_)
  · rw [sampleRows_scheduled]
    decide
  · rw [rebalancePlan, sampleRows_scheduled]
    decide
  · rw [sampleRows_scheduled]
    decide

/-- The target is not left yet. -/
theorem single_move_unsafe :
    sampleMove "x" "qq-shard-005" "qq-shard-000" 9 ∈ (rebalancePlan 12 12 10000 sampleRows).moves ∧
      ¬ SafeMove 12 12 (sampleRows.map ConnectionRow.scheduled)
        (sampleMove "x" "qq-shard-005" "qq-shard-000" 9) := by
  rw [rebalancePlan, sampleRows_scheduled]
  refine ⟨by decide, ?_⟩
  intro hsafe
  have hmoved : ∃ x ∈ occupants (applyMove (sampleMove "x" "qq-shard-005" "qq-shard-000" 9)
      sampleScheduled) "qq-shard-000", x.id = "x" ∧ x.isolate = true := by
    decide
  have htwo : (occupants (applyMove (sampleMove "x" "qq-shard-005" "qq-shard-000" 9)
      sampleScheduled) "qq-shard-000").length = 2 := by
    decide
  obtain ⟨x, hx, hid, hiso⟩ := hmoved
  have halone : occupants (applyMove (sampleMove "x" "qq-shard-005" "qq-shard-000" 9)
      sampleScheduled) "qq-shard-000" = [x] := hsafe.isolated x hx hid hiso
  rw [halone] at htwo
  cases htwo

end RyanAI.Backend.Scheduler
