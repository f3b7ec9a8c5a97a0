import RyanAI.Backend.SchedulerPlan

/-!
# Planning again after a plan was applied

`applyMoves` is the state after all moves of a plan: a moved connection is on its target and in its cooldown, and the
window counters are back at zero. The second run finds every connection where the first run placed it
(`settled_shard`). With room for at least one account on a shard, its sticky pass keeps everything; with no room at all
both runs take new names only, and take the same ones.
-/

namespace RyanAI.Backend.Scheduler

open RyanAI.Lib Placement

/-! ## The state after a plan -/

def settle (now : ℤ) (plan : Plan) (x : SchedulingConnection) : SchedulingConnection :=
  let counted := { x.config with overloadedWindows := 0, underloadedWindows := 0 }
  match plan.moves.find? fun m => m.connectionId = x.id with
  | none => { x with config := counted }
  | some m => { x with shardId := some m.toShardId, config := { counted with lastShardMoveAt := some now } }

def applyMoves (now : ℤ) (plan : Plan) (connections : List SchedulingConnection) : List SchedulingConnection :=
  connections.map (settle now plan)

section Settle

variable {now : ℤ} {plan : Plan} {x : SchedulingConnection}

@[simp]
theorem settle_id : (settle now plan x).id = x.id := by
  unfold settle
  split <;> rfl

@[simp]
theorem settle_channel : (settle now plan x).channel = x.channel := by
  unfold settle
  split <;> rfl

@[simp]
theorem settle_enabled : (settle now plan x).enabled = x.enabled := by
  unfold settle
  split <;> rfl

@[simp]
theorem settle_loadUnits : (settle now plan x).loadUnits = x.loadUnits := by
  unfold settle
  split <;> rfl

@[simp]
theorem settle_isolate : (settle now plan x).isolate = x.isolate := by
  unfold settle SchedulingConnection.isolate
  split <;> rfl

@[simp]
theorem settle_overloadedWindows : (settle now plan x).config.overloadedWindows = 0 := by
  unfold settle
  split <;> rfl

@[simp]
theorem settle_underloadedWindows : (settle now plan x).config.underloadedWindows = 0 := by
  unfold settle
  split <;> rfl

theorem settle_unmoved (h : plan.moves.find? (fun m => m.connectionId = x.id) = none) :
    (settle now plan x).shardId = x.shardId ∧ connectionCanMove now (settle now plan x) = connectionCanMove now x := by
  simp [settle, h, connectionCanMove]

theorem settle_moved {m : Move} (h : plan.moves.find? (fun m => m.connectionId = x.id) = some m) :
    (settle now plan x).shardId = some m.toShardId ∧ connectionCanMove now (settle now plan x) = false := by
  simp [settle, h, connectionCanMove, moveCooldownSeconds]

end Settle

theorem enabledItems_applyMoves (now : ℤ) (plan : Plan) (connections : List SchedulingConnection) :
    enabledItems (applyMoves now plan connections) = (enabledItems connections).map (settle now plan) := by
  rw [enabledItems, applyMoves, List.filter_map, enabledItems]
  congr 1
  apply List.filter_congr
  intro x _
  exact settle_enabled

variable {connections items : List SchedulingConnection} {s' : String} {y : SchedulingConnection}

theorem DistinctIds.applyMoves (h : DistinctIds connections) (now : ℤ) (plan : Plan) :
    DistinctIds (applyMoves now plan connections) := by
  have hids : (Scheduler.applyMoves now plan connections).map SchedulingConnection.id =
      connections.map SchedulingConnection.id := by
    rw [Scheduler.applyMoves, List.map_map]
    apply List.map_congr_left
    intro x _
    exact settle_id
  rw [DistinctIds, hids]
  exact h

section Settled

variable {accountCapacity loadCapacity now : ℤ} {connections : List SchedulingConnection}
  {fixed kept final : Shards}

theorem eq_of_mem_final (h : Represents items final t) (hs : (x, s) ∈ final) (hs' : (x, s') ∈ final) : s = s' :=
  (Prod.mk.inj (List.inj_on_of_nodup_map h.nodup hs hs' rfl)).2

theorem shard_ne_empty (h : Passes accountCapacity loadCapacity now items fixed kept final)
    (hs : (x, s) ∈ final) : s ≠ "" := by
  have hkept : ∀ y s', (y, s') ∈ kept → s' ≠ "" := by
    intro y s' hy
    exact (SchedulingConnection.shard_eq_some.1 (h.shard_of_kept hy).2).2
  have hname : ∀ channel k, shardName channel k ≠ "" := by
    intro channel k hempty
    have hlen := congrArg String.length hempty
    simp [shardName] at hlen
  have hall : ∀ y s', (y, s') ∈ final → s' ≠ "" := by
    apply h.assigns.invariant _ hkept
    intro q z s₀ hq hz y s' hy
    rcases List.mem_append.1 hy with hold | hnew
    · exact hq y s' hold
    cases List.mem_singleton.1 hnew
    rcases hz.choice with ⟨k, rfl, -⟩ | hjoins
    · exact hname _ _
    · obtain ⟨w, hlast, -⟩ := hjoins.known
      exact hq w _ (mem_bin.1 (List.mem_of_getLast? hlast))
  exact hall x s hs

structure PlannedBy (accountCapacity loadCapacity now : ℤ) (connections : List SchedulingConnection)
    (plan : Plan) (fixed kept final : Shards) : Prop where
  plan_eq : plan = buildRebalancePlan accountCapacity loadCapacity now connections
  ids : DistinctIds connections
  passes : Passes accountCapacity loadCapacity now (enabledItems connections) fixed kept final
  rep : Represents (enabledItems connections) final
    (packed accountCapacity loadCapacity now (enabledItems connections))
  shardOf : ∀ x ∈ enabledItems connections, ∀ s, plan.shardOf x = some s ↔ (x, s) ∈ final

theorem exists_plannedBy (accountCapacity loadCapacity now : ℤ) (hids : DistinctIds connections) :
    ∃ fixed kept final, PlannedBy accountCapacity loadCapacity now connections
      (buildRebalancePlan accountCapacity loadCapacity now connections) fixed kept final := by
  obtain ⟨fixed, kept, final, hpasses, hrep, hshard⟩ := plan_placement accountCapacity loadCapacity now hids
  exact ⟨fixed, kept, final, rfl, hids, hpasses, hrep, hshard⟩

variable {plan : Plan} (h : PlannedBy accountCapacity loadCapacity now connections plan fixed kept final)
  {x : SchedulingConnection} {s : String}

include h

theorem settle_cases (hs : (x, s) ∈ final) :
    ((settle now plan x).shardId = some s ∧ connectionCanMove now (settle now plan x) = false) ∨
    ((connectionCanMove now x = true → x.shardId = some s) ∧ (settle now plan x).shardId = x.shardId ∧
      connectionCanMove now (settle now plan x) = connectionCanMove now x) := by
  have hx : x ∈ enabledItems connections := h.rep.within _ hs
  have hshard := (h.shardOf x hx s).2 hs
  have hmoves := @mem_moves accountCapacity loadCapacity now connections h.ids
  rw [← h.plan_eq] at hmoves
  cases hfind : plan.moves.find? fun m => m.connectionId = x.id with
  | none =>
    obtain ⟨hid, hmove⟩ := @settle_unmoved now plan x hfind
    refine .inr ⟨?_, hid, hmove⟩
    intro hcan
    by_contra hne
    have hmem := hmoves.2 ⟨x, hx, s, hshard, fun heq => hne heq.symm, hcan, rfl⟩
    have hno := List.find?_eq_none.1 hfind _ hmem
    simp [SchedulingConnection.moveTo] at hno
  | some m =>
    obtain ⟨hid, hmove⟩ := @settle_moved now plan x m hfind
    have hsame := List.find?_some hfind
    obtain ⟨y, hy, s', hs', -, -, rfl⟩ := hmoves.1 (List.mem_of_find?_eq_some hfind)
    have heq : y = x := h.ids.enabled.eq hy hx (of_decide_eq_true hsame)
    subst heq
    rw [hshard, Option.some.injEq] at hs'
    exact .inl ⟨by rw [hid, hs']; rfl, hmove⟩

theorem settled_shard (hs : (x, s) ∈ final) (hs' : (settle now plan x).shard = some s') : s' = s := by
  obtain ⟨hid, hne⟩ := SchedulingConnection.shard_eq_some.1 hs'
  rcases settle_cases h hs with ⟨hmoved, -⟩ | ⟨hsame, hunmoved, -⟩
  · rw [hmoved, Option.some.injEq] at hid
    exact hid.symm
  rw [hunmoved] at hid
  cases hcan : connectionCanMove now x with
  | true =>
    rw [hsame hcan, Option.some.injEq] at hid
    exact hid.symm
  | false =>
    -- it could not move, so the first pass kept it
    have hshard := SchedulingConnection.shard_eq_some.2 ⟨hid, hne⟩
    have hfixed := (h.passes.fixed_iff x s').2 ⟨h.rep.within _ hs, hshard, hcan⟩
    exact eq_of_mem_final h.rep (h.passes.assigns.mem (h.passes.keeps.mem hfixed)) hs

theorem shard_of_settled_movable (hs : (x, s) ∈ final) (hcan : connectionCanMove now (settle now plan x) = true) :
    connectionCanMove now x = true ∧ (settle now plan x).shardId = some s := by
  rcases settle_cases h hs with ⟨-, hcannot⟩ | ⟨hsame, hunmoved, hmove⟩
  · rw [hcan] at hcannot
    cases hcannot
  · rw [hmove] at hcan
    exact ⟨hcan, hunmoved.trans (hsame hcan)⟩

theorem settled_placed (hy : y ∈ enabledItems (applyMoves now plan connections)) :
    ∃ x s, (x, s) ∈ final ∧ y = settle now plan x := by
  rw [enabledItems_applyMoves] at hy
  obtain ⟨x, hx, rfl⟩ := List.mem_map.1 hy
  obtain ⟨s, hs⟩ := (h.passes.covers x).2 hx
  exact ⟨x, s, hs, rfl⟩

theorem existing_settled_le (s : String) :
    existingShardAccounts (enabledItems (applyMoves now plan connections)) s ≤ (bin s final).length := by
  have hon := on_perm_bin h.ids.enabled h.rep.nodup h.rep.within h.shardOf s
  rw [← hon.length_eq, existingShardAccounts, enabledItems_applyMoves, List.countP_map, Plan.on,
    ← List.countP_eq_length_filter]
  apply List.countP_mono_left
  intro x hx hshard
  obtain ⟨s', hs'⟩ := (h.passes.covers x).2 hx
  have heq := settled_shard h hs' (by simpa using hshard)
  subst heq
  simpa using (h.shardOf x hx s).2 hs'

theorem accounts_le_capacity (hone : OneChannel (enabledItems connections))
    (hown : OwnNames (enabledItems connections)) (hcap : 1 ≤ accountCapacity) (hs : (x, s) ∈ final)
    (hcan : connectionCanMove now x = true) : ((bin s final).length : ℤ) ≤ accountCapacity := by
  rcases h.passes.assigns.bin_cases s with hsame | ⟨q, y, hq, hy, hbin⟩
  · rcases h.passes.keeps.bin_cases s with hsame' | ⟨q, y, hq, hy, hbin⟩
    · -- only the first pass has placed anything there
      have hmem := mem_bin.2 hs
      rw [hsame, hsame'] at hmem
      obtain ⟨-, -, hcannot⟩ := (h.passes.fixed_iff x s).1 (mem_bin.1 hmem)
      rw [hcan] at hcannot
      cases hcannot
    · rw [hsame, hbin]
      simpa using hy.sticky.accounts
  · rcases hy.choice with hfresh | hjoins
    · rw [hbin, (h.passes.sound_of_grows hone hown hq).fresh_empty hfresh]
      simpa using hcap
    · rw [hbin]
      simpa using hjoins.accounts

section SecondRun

variable {fixed' kept' final' : Shards}
  (h' : PlannedBy accountCapacity loadCapacity now (applyMoves now plan connections)
    (buildRebalancePlan accountCapacity loadCapacity now (applyMoves now plan connections)) fixed' kept' final')

include h'

theorem kept_agrees (hs : (x, s) ∈ final) (hkept : (settle now plan x, s') ∈ kept') : s' = s :=
  settled_shard h hs (h'.passes.shard_of_kept hkept).2

theorem movable_kept (hone : OneChannel (enabledItems connections))
    (hown : OwnNames (enabledItems connections)) (hcap : 1 ≤ accountCapacity) (hs : (x, s) ∈ final)
    (hcan : connectionCanMove now (settle now plan x) = true) : (settle now plan x, s) ∈ kept' := by
  obtain ⟨hcanx, hid⟩ := shard_of_settled_movable h hs hcan
  have hshard := SchedulingConnection.shard_eq_some.2 ⟨hid, shard_ne_empty h.passes hs⟩
  have hmem : settle now plan x ∈ enabledItems (applyMoves now plan connections) := by
    rw [enabledItems_applyMoves]
    exact List.mem_map.2 ⟨x, h.rep.within _ hs, rfl⟩
  have hexisting := existing_settled_le h s
  rcases h'.passes.left _ hmem s hshard with ⟨s', hs'⟩ | ⟨q, hq, -, hfree, hnot⟩
  · exact kept_agrees h h' hs hs' ▸ hs'
  exfalso
  apply hnot
  constructor
  case isolated =>
    intro hiso
    rw [settle_isolate] at hiso
    have halone := (h.passes.sound_final hone hown).alone x s hs hcanx hiso
    rw [halone] at hexisting
    exact hexisting
  case accounts =>
    -- whatever is on the shard has it already, and the connection is not among it
    have hinv : (q.map Prod.fst).Nodup ∧ ∀ y s', (y, s') ∈ q →
        y ∈ enabledItems (applyMoves now plan connections) ∧ y.shard = some s' := by
      constructor
      · exact h'.passes.nodup_of_grows hq
      · intro y s' hy
        exact h'.passes.shard_of_grows hq hy
    have hsub : settle now plan x :: bin s q ⊆
        (enabledItems (applyMoves now plan connections)).filter fun item => item.shard = some s := by
      intro y hy
      rw [List.mem_filter, decide_eq_true_eq]
      rcases List.mem_cons.1 hy with rfl | hy
      · exact ⟨hmem, hshard⟩
      · exact hinv.2 y s (mem_bin.1 hy)
    have hnodup : (settle now plan x :: bin s q).Nodup :=
      List.nodup_cons.2 ⟨fun hin => hfree ⟨s, mem_bin.1 hin⟩, nodup_bin hinv.1 s⟩
    have hle := (List.subperm_of_subset hnodup hsub).length_le
    rw [← List.countP_eq_length_filter, List.length_cons] at hle
    have hcapacity := accounts_le_capacity h hone hown hcap hs hcanx
    have hexisting' : (bin s q).length + 1 ≤ (bin s final).length := hle.trans hexisting
    omega
  case load =>
    right
    rw [settle_overloadedWindows]
    decide
  case underloaded =>
    rw [settle_underloadedWindows]
    decide

/-! ## Without room on any shard -/

omit h h' in
theorem kept_eq_fixed (hcap : accountCapacity < 1) (hp : Passes accountCapacity loadCapacity now items fixed kept final) :
    kept = fixed := by
  have hall : ∀ q, Grows (Keeps accountCapacity loadCapacity now items) fixed q → q = fixed := by
    intro q hq
    induction hq with
    | refl => rfl
    | place _ hkeeps _ =>
      have haccounts := hkeeps.sticky.accounts
      omega
  exact hall kept hp.keeps

omit h h' in
theorem fresh_of_assigns (hcap : accountCapacity < 1)
    (hx : Assigns accountCapacity loadCapacity rest q x s) : Fresh q x s := by
  rcases hx.choice with hfresh | hjoins
  · exact hfresh
  · have haccounts := hjoins.accounts
    omega

omit h h' in
theorem before_settle (hyx : Before y x) : Before (settle now plan y) (settle now plan x) := by
  simpa [Before] using hyx

omit h' in
theorem mem_settled (hs : (x, s) ∈ final) : settle now plan x ∈ enabledItems (applyMoves now plan connections) := by
  rw [enabledItems_applyMoves]
  exact List.mem_map.2 ⟨x, h.rep.within _ hs, rfl⟩

theorem placed_settled (hcap : accountCapacity < 1) (hx : Placed kept x) : Placed kept' (settle now plan x) := by
  obtain ⟨s, hs⟩ := hx
  have hfinal := h.passes.assigns.mem hs
  rw [kept_eq_fixed hcap h.passes] at hs
  obtain ⟨-, hshard, hcannot⟩ := (h.passes.fixed_iff x s).1 hs
  have hsame : (settle now plan x).shard = some s ∧ connectionCanMove now (settle now plan x) = false := by
    rcases settle_cases h hfinal with ⟨hmoved, hcan⟩ | ⟨-, hunmoved, hcan⟩
    · exact ⟨SchedulingConnection.shard_eq_some.2 ⟨hmoved, shard_ne_empty h.passes hfinal⟩, hcan⟩
    · refine ⟨?_, hcan.trans hcannot⟩
      rw [SchedulingConnection.shard, hunmoved]
      exact hshard
  rw [kept_eq_fixed hcap h'.passes]
  exact ⟨s, (h'.passes.fixed_iff _ s).2 ⟨mem_settled h hfinal, hsame⟩⟩

/-- The names of the first run are in use when the second comes to `x`. -/
theorem known_of_earlier (hcap : accountCapacity < 1) (hx : Assigns accountCapacity loadCapacity
      (unassigned accountCapacity loadCapacity now (enabledItems connections)) q x s) (hpre : q <+: final)
    (hq' : kept' <+: q')
    (hx' : ∀ y ∈ unassigned accountCapacity loadCapacity now (enabledItems (applyMoves now plan connections)),
      Placed q' y ↔ Before y (settle now plan x))
    (hagrees : ∀ z s, z ∈ enabledItems connections → (settle now plan z, s) ∈ q' → (z, s) ∈ final) (hy : (y, s') ∈ q) :
    (settle now plan y, s') ∈ q' := by
  have hyfinal : (y, s') ∈ final := hpre.subset hy
  have hyitem := h.rep.within _ hyfinal
  by_cases hplaced : Placed kept' (settle now plan y)
  · -- the first passes of the second run keep it on its shard
    obtain ⟨s₁, hs₁⟩ := hplaced
    have heq := kept_agrees h h' hyfinal hs₁
    exact heq ▸ hq'.subset hs₁
  · have hrest := (h.passes.rest_iff y).2 ⟨hyitem, fun hkept => hplaced (placed_settled h h' hcap hkept)⟩
    have hrest' := (h'.passes.rest_iff _).2 ⟨mem_settled h hyfinal, hplaced⟩
    have hbefore : Before (settle now plan y) (settle now plan x) := before_settle ((hx.order y hrest).1 ⟨s', hy⟩)
    obtain ⟨s₁, hs₁⟩ := (hx' _ hrest').2 hbefore
    have heq := eq_of_mem_final h.rep (hagrees y s₁ hyitem hs₁) hyfinal
    exact heq ▸ hs₁

theorem names_agree (hone : OneChannel (enabledItems connections))
    (hown : OwnNames (enabledItems connections)) (hcap : accountCapacity < 1)
    (hq' : Grows (Assigns accountCapacity loadCapacity (unassigned accountCapacity loadCapacity now
      (enabledItems (applyMoves now plan connections)))) kept' q') :
    ∀ x s, x ∈ enabledItems connections → (settle now plan x, s) ∈ q' → (x, s) ∈ final := by
  have hsound := h.passes.sound_final hone hown
  induction hq' with
  | refl =>
    intro x s hx hs
    obtain ⟨s₀, hs₀⟩ := (h.passes.covers x).2 hx
    exact kept_agrees h h' hs₀ hs ▸ hs₀
  | @place q' x' s' hq' hx' ih =>
    intro x s hx hs
    rcases List.mem_append.1 hs with hold | hnew
    · exact ih x s hx hold
    obtain ⟨rfl, rfl⟩ := Prod.mk.inj (List.mem_singleton.1 hnew)
    obtain ⟨s₀, hs₀⟩ := (h.passes.covers x).2 hx
    have hleft : ¬ Placed kept x := by
      intro hkept
      obtain ⟨s₁, hs₁⟩ := placed_settled h h' hcap hkept
      exact hx'.free ⟨s₁, hq'.mem hs₁⟩
    rcases h.passes.assigns.mem_cases hs₀ with hkept | ⟨q, hq, hassigns, hpre⟩
    · exact absurd ⟨s₀, hkept⟩ hleft
    obtain ⟨k, rfl, hunknown, hbefore⟩ := fresh_of_assigns hcap hassigns
    obtain ⟨k', rfl, hunknown', hbefore'⟩ := fresh_of_assigns hcap hx'
    rw [settle_channel] at hunknown' hbefore' ⊢
    have hpre' : q <+: final := (List.prefix_append _ _).trans hpre
    rcases lt_trichotomy k' k with hlt | heq | hgt
    · -- the first run found the name in use, and so does the second
      exfalso
      obtain ⟨y, hy, hchannel⟩ := (known_iff (h.passes.sound_of_grows hone hown hq)).1 (hbefore k' hlt)
      have hmem := known_of_earlier h h' hcap hassigns hpre' hq'.starts_with hx'.order ih hy
      apply hunknown'
      have hne : bin (shardName x.channel k') q' ≠ [] := List.ne_nil_of_mem (mem_bin.2 hmem)
      refine ⟨_, List.getLast?_eq_some_getLast hne, ?_⟩
      have hlast := mem_bin.1 (List.getLast_mem hne)
      obtain ⟨z, hz, hzeq⟩ : ∃ z ∈ enabledItems connections,
          (bin (shardName x.channel k') q').getLast hne = settle now plan z := by
        have hwithin := h'.passes.within_of_grows hq' hlast
        obtain ⟨z, s₁, hz, hzeq⟩ := settled_placed h hwithin
        exact ⟨z, h.rep.within _ hz, hzeq⟩
      rw [hzeq] at hlast ⊢
      rw [settle_channel, ← hchannel]
      exact hsound.one z y _ (ih z _ hz hlast) (hpre'.subset hy)
    · rw [heq]
      exact hs₀
    · -- the connection would share the name it has to itself
      exfalso
      obtain ⟨y', hlast, -⟩ := hbefore' k hgt
      have hmem := mem_bin.1 (List.mem_of_getLast? hlast)
      obtain ⟨z, s₁, hz, rfl⟩ := settled_placed h (h'.passes.within_of_grows hq' hmem)
      have hzfinal := ih z _ (h.rep.within _ hz) hmem
      have hbin := mem_bin.2 hzfinal
      rcases h.passes.within_capacity hone hown hs₀ hleft with hsingle | ⟨haccounts, -⟩
      · rw [hsingle, List.mem_singleton] at hbin
        exact hx'.free ⟨_, hbin ▸ hmem⟩
      · have hpos := List.length_pos_of_mem hbin
        omega

theorem movable_agrees (hone : OneChannel (enabledItems connections)) (hown : OwnNames (enabledItems connections))
    (hs : (x, s) ∈ final) (hcan : connectionCanMove now (settle now plan x) = true)
    (hs' : (settle now plan x, s') ∈ final') : s' = s := by
  rcases lt_or_ge accountCapacity 1 with hcap | hcap
  · have hagrees := names_agree h h' hone hown hcap h'.passes.assigns x s' (h.rep.within _ hs) hs'
    exact eq_of_mem_final h.rep hagrees hs
  · have hkept := movable_kept h h' hone hown hcap hs hcan
    exact eq_of_mem_final h'.rep hs' (h'.passes.assigns.mem hkept)

end SecondRun

end Settled

theorem no_moves_after (accountCapacity loadCapacity now : ℤ) (hids : DistinctIds connections)
    (hone : OneChannel (enabledItems connections)) (hown : OwnNames (enabledItems connections)) :
    (buildRebalancePlan accountCapacity loadCapacity now (applyMoves now
      (buildRebalancePlan accountCapacity loadCapacity now connections) connections)).moves = [] := by
  obtain ⟨fixed, kept, final, h⟩ := exists_plannedBy accountCapacity loadCapacity now hids
  obtain ⟨fixed', kept', final', h'⟩ :=
    exists_plannedBy accountCapacity loadCapacity now (hids.applyMoves now
      (buildRebalancePlan accountCapacity loadCapacity now connections))
  rw [List.eq_nil_iff_forall_not_mem]
  intro m hm
  obtain ⟨y, hy, s', hs', hne, hcan, -⟩ := (mem_moves h'.ids).1 hm
  obtain ⟨x, s, hs, rfl⟩ := settled_placed h hy
  have hfinal := (h'.shardOf _ hy s').1 hs'
  have heq := movable_agrees h h' hone hown hs hcan hfinal
  exact hne (heq ▸ (shard_of_settled_movable h hs hcan).2.symm)

section Order

variable {accountCapacity loadCapacity now : ℤ} {items items' : List SchedulingConnection}

section

variable (hids : DistinctIds items) (hperm : items.Perm items')

include hids hperm

theorem sortedById_perm : sortedById items = sortedById items' := by
  have hsorted : ∀ l : List SchedulingConnection, (sortedById l).Pairwise fun a b => a.id ≤ b.id := by
    intro l
    have htotal : Std.Total fun a b : SchedulingConnection => a.id ≤ b.id := ⟨fun a b => le_total a.id b.id⟩
    have htrans : IsTrans SchedulingConnection fun a b => a.id ≤ b.id := ⟨fun _ _ _ => le_trans⟩
    exact List.pairwise_insertionSort _ l
  refine List.Perm.eq_of_pairwise ?_ (hsorted items) (hsorted items') ?_
  · intro a b ha hb hab hba
    exact hids.eq (mem_sortedById.1 ha) (hperm.mem_iff.2 (mem_sortedById.1 hb)) (le_antisymm hab hba)
  · exact (List.perm_insertionSort _ items).trans (hperm.trans (List.perm_insertionSort _ items').symm)

theorem sortedByLoad_perm : sortedByLoad items = sortedByLoad items' := by
  refine List.Perm.eq_of_pairwise ?_ (List.pairwise_insertionSort LoadLe items)
    (List.pairwise_insertionSort LoadLe items') ?_
  · intro a b ha hb hab hba
    have hmem : a ∈ items := (List.perm_insertionSort _ items).mem_iff.1 ha
    have hmem' : b ∈ items := hperm.mem_iff.2 ((List.perm_insertionSort _ items').mem_iff.1 hb)
    apply hids.eq hmem hmem'
    rcases hab with hlt | ⟨heq', hle⟩
    · rcases hba with hgt | ⟨heq, -⟩
      · exact absurd hgt (lt_asymm hlt)
      · exact absurd hlt (by omega)
    · rcases hba with hgt | ⟨-, hge⟩
      · exact absurd hgt (by omega)
      · exact le_antisymm hle hge
  · exact (List.perm_insertionSort _ items).trans (hperm.trans (List.perm_insertionSort _ items').symm)

theorem retained_perm :
    retained accountCapacity loadCapacity now items = retained accountCapacity loadCapacity now items' := by
  have hexisting : existingShardAccounts items = existingShardAccounts items' := by
    funext s
    exact hperm.countP_eq _
  have hstep : retainSticky accountCapacity loadCapacity items =
      retainSticky accountCapacity loadCapacity items' := by
    have hsticky : sticky accountCapacity loadCapacity items =
        sticky accountCapacity loadCapacity items' := by
      funext t item s
      simp only [sticky, hexisting]
    funext t item
    unfold retainSticky
    rw [hsticky]
  rw [retained, retained, sortedById_perm hids hperm, hstep]

theorem packed_perm :
    packed accountCapacity loadCapacity now items = packed accountCapacity loadCapacity now items' := by
  have hrest : unassigned accountCapacity loadCapacity now items =
      unassigned accountCapacity loadCapacity now items' := by
    rw [unassigned, unassigned, retained_perm hids hperm]
    exact sortedByLoad_perm (hids.sublist (List.filter_sublist.map _)) (hperm.filter _)
  rw [packed, packed, hrest, retained_perm hids hperm]

end

theorem plan_perm (accountCapacity loadCapacity now : ℤ)
    (hids : DistinctIds connections) (hperm : connections.Perm connections') :
    buildRebalancePlan accountCapacity loadCapacity now connections =
      buildRebalancePlan accountCapacity loadCapacity now connections' := by
  have hitems : (enabledItems connections).Perm (enabledItems connections') := hperm.filter _
  have hids' : DistinctIds connections' := (hperm.map _).nodup_iff.1 hids
  have hbyId : ∀ id, OrderedMap.get id (byId (enabledItems connections)) =
      OrderedMap.get id (byId (enabledItems connections')) := by
    intro id
    apply Option.ext
    intro x
    rw [get_byId hids.enabled, get_byId hids'.enabled, hitems.mem_iff]
  simp only [buildRebalancePlan, packed_perm hids.enabled hitems, hbyId]

end Order

theorem plan_converges (accountCapacity loadCapacity now : ℤ) (connections : List SchedulingConnection)
    (hids : DistinctIds connections) (hone : OneChannel (enabledItems connections))
    (hown : OwnNames (enabledItems connections)) :
    (buildRebalancePlan accountCapacity loadCapacity now (applyMoves now
      (buildRebalancePlan accountCapacity loadCapacity now connections) connections)).moves = [] ∧
    ∀ connections', connections.Perm connections' →
      buildRebalancePlan accountCapacity loadCapacity now connections' =
        buildRebalancePlan accountCapacity loadCapacity now connections := by
  constructor
  · exact no_moves_after accountCapacity loadCapacity now hids hone hown
  · intro connections' hperm
    exact (plan_perm accountCapacity loadCapacity now hids hperm).symm

theorem plan_converges_sample : (buildRebalancePlan 12 12 10000 sampleConnections).moves ≠ [] ∧
      (buildRebalancePlan 12 12 10000
        (applyMoves 10000 (buildRebalancePlan 12 12 10000 sampleConnections) sampleConnections)).moves = [] :=
  ⟨by decide, (plan_converges 12 12 10000 sampleConnections (by decide) sample_oneChannel
    sample_ownNames).1⟩

/-- The foreign name is left in the next run. -/
theorem foreign_not_settled : DistinctIds sampleForeign ∧ OneChannel sampleForeign ∧
      (buildRebalancePlan 12 12 10000
        (applyMoves 10000 (buildRebalancePlan 12 12 10000 sampleForeign) sampleForeign)).moves ≠ [] :=
  ⟨by decide, foreign_oneChannel, by decide⟩

end RyanAI.Backend.Scheduler
