import RyanAI.Backend.Scheduler

/-!
# What a rebalance plan promises

A shard name carries its channel, and `OwnNames` says that no connection of another channel sits on such a name; then a
new name is an empty shard (`Sound.fresh_empty`), and the placement of the planner stays `Sound` through its last pass.
`plan_valid` collects what holds of every plan.
-/

namespace RyanAI.Backend.Scheduler

open RyanAI.Lib Placement

/-! ## Channels and names -/

def OneChannel (items : List SchedulingConnection) : Prop :=
  ∀ x ∈ items, ∀ y ∈ items, ∀ s, x.shard = some s → y.shard = some s → x.channel = y.channel

def OwnNames (items : List SchedulingConnection) : Prop :=
  ∀ x ∈ items, ∀ channel k, x.shard = some (shardName channel k) → channel = x.channel

structure Sound (now : ℤ) (q : Shards) : Prop where
  one : ∀ x y s, (x, s) ∈ q → (y, s) ∈ q → x.channel = y.channel
  own : ∀ x channel k, (x, shardName channel k) ∈ q → channel = x.channel
  alone : ∀ x s, (x, s) ∈ q → connectionCanMove now x = true → x.isolate = true → bin s q = [x]

variable {s : String} {q : Shards} {x : SchedulingConnection}

theorem known_iff (h : Sound now q) : Known q channel s ↔ ∃ y, (y, s) ∈ q ∧ y.channel = channel := by
  constructor
  · rintro ⟨y, hlast, hchannel⟩
    exact ⟨y, mem_bin.1 (List.mem_of_getLast? hlast), hchannel⟩
  rintro ⟨y, hy, hchannel⟩
  have hne : bin s q ≠ [] := List.ne_nil_of_mem (mem_bin.2 hy)
  refine ⟨(bin s q).getLast hne, List.getLast?_eq_some_getLast hne, ?_⟩
  rw [← hchannel]
  exact h.one _ _ s (mem_bin.1 (List.getLast_mem hne)) hy

theorem Sound.fresh_empty (h : Sound now q) (hfresh : Fresh q x s) : bin s q = [] := by
  obtain ⟨k, rfl, hunknown, -⟩ := hfresh
  rw [List.eq_nil_iff_forall_not_mem]
  intro y hy
  have hmem := mem_bin.1 hy
  exact hunknown ((known_iff h).2 ⟨y, hmem, (h.own y _ _ hmem).symm⟩)

section Placements

variable {accountCapacity loadCapacity now : ℤ} {items rest : List SchedulingConnection}
  {fixed kept final q : Shards}

section

variable (h : Sound now q) (hx : Assigns accountCapacity loadCapacity rest q x s)

include h hx

theorem Sound.not_isolated (hy : (y, s) ∈ q) : y.isolate = false := by
  rcases hx.choice with hfresh | hjoins
  · have hempty := h.fresh_empty hfresh
    have hmem := mem_bin.2 hy
    rw [hempty] at hmem
    cases hmem
  · exact hjoins.open_ y (mem_bin.2 hy)

theorem Sound.same_channel (hy : (y, s) ∈ q) : y.channel = x.channel := by
  rcases hx.choice with hfresh | hjoins
  · have hempty := h.fresh_empty hfresh
    have hmem := mem_bin.2 hy
    rw [hempty] at hmem
    cases hmem
  · obtain ⟨z, hz, hchannel⟩ := (known_iff h).1 hjoins.known
    rw [← hchannel]
    exact h.one y z s hy hz

theorem Sound.assign : Sound now (q ++ [(x, s)]) := by
  constructor
  case one =>
    intro a b s' ha hb
    rcases List.mem_append.1 ha with ha | ha
    · rcases List.mem_append.1 hb with hb | hb
      · exact h.one a b s' ha hb
      · cases List.mem_singleton.1 hb
        exact h.same_channel hx ha
    · cases List.mem_singleton.1 ha
      rcases List.mem_append.1 hb with hb | hb
      · exact (h.same_channel hx hb).symm
      · cases List.mem_singleton.1 hb
        rfl
  case own =>
    intro a channel k ha
    rcases List.mem_append.1 ha with ha | ha
    · exact h.own a channel k ha
    obtain ⟨rfl, hname⟩ := Prod.mk.inj (List.mem_singleton.1 ha)
    rcases hx.choice with ⟨k', hs, -⟩ | hjoins
    · exact (shardName_inj (hname.trans hs)).1
    · obtain ⟨z, hz, hchannel⟩ := (known_iff h).1 hjoins.known
      rw [← hchannel]
      exact h.own z channel k (hname ▸ hz)
  case alone =>
    intro a s' ha hmove hiso
    rcases List.mem_append.1 ha with ha | ha
    · have hne : s ≠ s' := by
        rintro rfl
        rw [h.not_isolated hx ha] at hiso
        cases hiso
      rw [bin_append, bin_singleton, if_neg hne, List.append_nil]
      exact h.alone a s' ha hmove hiso
    · cases List.mem_singleton.1 ha
      rcases hx.choice with hfresh | hjoins
      · simp [h.fresh_empty hfresh]
      · rw [hjoins.shared] at hiso
        cases hiso

end

theorem nodup_bin (h : (q.map Prod.fst).Nodup) (s : String) : (bin s q).Nodup :=
  h.sublist (List.filter_sublist.map Prod.fst)

variable (h : Passes accountCapacity loadCapacity now items fixed kept final)

include h

theorem Passes.shard_of_grows (hq : Grows (Keeps accountCapacity loadCapacity now items) fixed q) (hx : (x, s) ∈ q) :
    x ∈ items ∧ x.shard = some s := by
  rcases hq.mem_cases hx with hfixed | ⟨q, -, hkeeps, -⟩
  · obtain ⟨hmem, hs, -⟩ := (h.fixed_iff x s).1 hfixed
    exact ⟨hmem, hs⟩
  · exact ⟨hkeeps.mem, hkeeps.shard⟩

theorem Passes.shard_of_kept (hx : (x, s) ∈ kept) : x ∈ items ∧ x.shard = some s := h.shard_of_grows h.keeps hx

theorem Passes.nodup_of_grows
    (hq : Grows (Keeps accountCapacity loadCapacity now items) fixed q) : (q.map Prod.fst).Nodup := by
  apply hq.invariant _ h.fixed_nodup
  intro q x s hq hkeeps
  rw [List.map_append, List.nodup_append]
  refine ⟨hq, by simp, ?_⟩
  rintro a ha b hb rfl
  obtain ⟨e, he, rfl⟩ := List.mem_map.1 ha
  simp only [List.map_cons, List.map_nil, List.mem_singleton] at hb
  exact hkeeps.free ⟨e.2, hb ▸ he⟩

section

variable (hone : OneChannel items) (hown : OwnNames items)

include hone hown

theorem Passes.sound_kept : Sound now kept := by
  constructor
  case one =>
    intro x y s hx hy
    obtain ⟨hxi, hxs⟩ := h.shard_of_kept hx
    obtain ⟨hyi, hys⟩ := h.shard_of_kept hy
    exact hone x hxi y hyi s hxs hys
  case own =>
    intro x channel k hx
    obtain ⟨hxi, hxs⟩ := h.shard_of_kept hx
    exact hown x hxi channel k hxs
  case alone =>
    intro x s hx hmove hiso
    have hexisting : existingShardAccounts items s ≤ 1 := by
      rcases h.keeps.mem_cases hx with hfixed | ⟨q, -, hkeeps, -⟩
      · obtain ⟨-, -, hcannot⟩ := (h.fixed_iff x s).1 hfixed
        rw [hmove] at hcannot
        cases hcannot
      · exact hkeeps.sticky.isolated hiso
    -- everything on the shard has the shard already, and that is one connection
    have hsub : bin s kept ⊆ items.filter fun item => item.shard = some s := by
      intro y hy
      obtain ⟨hyi, hys⟩ := h.shard_of_kept (mem_bin.1 hy)
      exact List.mem_filter.2 ⟨hyi, by simpa using hys⟩
    have hlen : (bin s kept).length ≤ 1 := by
      have hle := (List.subperm_of_subset (nodup_bin (h.nodup_of_grows h.keeps) s) hsub).length_le
      rw [← List.countP_eq_length_filter] at hle
      exact hle.trans hexisting
    have hmem := mem_bin.2 hx
    obtain ⟨y, hy⟩ := List.length_eq_one_iff.1
      (le_antisymm hlen (List.length_pos_of_mem hmem))
    rw [hy] at hmem ⊢
    rw [List.mem_singleton.1 hmem]

theorem Passes.sound_final : Sound now final :=
  h.assigns.invariant (fun _ _ _ hq hx => hq.assign hx) (h.sound_kept hone hown)

theorem Passes.sound_of_grows (hq : Grows (Assigns accountCapacity loadCapacity
      (unassigned accountCapacity loadCapacity now items)) kept q) : Sound now q :=
  hq.invariant (fun _ _ _ hq hx => hq.assign hx) (h.sound_kept hone hown)

end

theorem Passes.within_of_grows (hq : Grows (Assigns accountCapacity loadCapacity
      (unassigned accountCapacity loadCapacity now items)) kept q) (hx : (x, s) ∈ q) : x ∈ items := by
  rcases hq.mem_cases hx with hkept | ⟨q, -, hassigns, -⟩
  · exact (h.shard_of_kept hkept).1
  · exact ((h.rest_iff x).1 hassigns.mem).1

theorem Passes.within_capacity
    (hone : OneChannel items) (hown : OwnNames items) (hx : (x, s) ∈ final) (hnot : ¬ Placed kept x) :
    bin s final = [x] ∨ ((bin s final).length : ℤ) ≤ accountCapacity ∧
      weight SchedulingConnection.loadUnits s final ≤ loadCapacity := by
  rcases h.assigns.bin_cases s with hsame | ⟨q, y, hq, hy, hbin⟩
  · -- nothing was added, so the connection was there before
    have hmem := mem_bin.2 hx
    rw [hsame] at hmem
    exact absurd ⟨s, mem_bin.1 hmem⟩ hnot
  have hsound := h.sound_of_grows hone hown hq
  rcases hy.choice with hfresh | hjoins
  · rw [hsound.fresh_empty hfresh, List.nil_append] at hbin
    have hmem := mem_bin.2 hx
    rw [hbin, List.mem_singleton] at hmem
    exact .inl (hmem ▸ hbin)
  right
  have haccounts := hjoins.accounts
  have hload := hjoins.load
  simp only [weight] at hload ⊢
  rw [hbin]
  simp only [List.length_append, List.length_singleton, List.map_append, List.map_cons, List.map_nil,
    List.sum_append, List.sum_singleton]
  exact ⟨by push_cast; exact haccounts, hload⟩

end Placements

/-! ## Reading a plan -/

def Plan.shardOf (plan : Plan) (x : SchedulingConnection) : Option String := OrderedMap.get x.id plan.assignments

def Plan.on (plan : Plan) (items : List SchedulingConnection) (s : String) : List SchedulingConnection :=
  items.filter fun x => plan.shardOf x = some s

def totalLoad (items : List SchedulingConnection) : ℤ := (items.map SchedulingConnection.loadUnits).sum

section Reading

variable {accountCapacity loadCapacity now : ℤ} {connections items : List SchedulingConnection}

theorem get_byId (hids : DistinctIds items) {id : String} :
    OrderedMap.get id (byId items) = some x ↔ x ∈ items ∧ x.id = id := by
  have hmap : ∀ (l : List SchedulingConnection) (m : OrderedMap String SchedulingConnection),
      (OrderedMap.keys m ++ l.map SchedulingConnection.id).Nodup →
      l.foldl (fun m item => OrderedMap.set item.id item m) m = m ++ l.map fun x => (x.id, x) := by
    intro l
    induction l with
    | nil => simp
    | cons y l ih =>
      intro m hnodup
      have hnew : y.id ∉ OrderedMap.keys m := by
        rw [List.nodup_append] at hnodup
        intro hmem
        exact hnodup.2.2 _ hmem _ List.mem_cons_self rfl
      rw [List.foldl_cons, OrderedMap.set_of_not_mem _ hnew, ih]
      · simp
      · simpa [OrderedMap.keys] using hnodup
  have heq : byId items = items.map fun x => (x.id, x) := by
    rw [byId, hmap items [] hids, List.nil_append]
  have hdistinct : OrderedMap.Distinct (byId items) := by
    rw [heq, OrderedMap.Distinct, OrderedMap.keys, List.map_map]
    exact hids
  constructor
  · intro hget
    have hmem := OrderedMap.mem_of_get hget
    rw [heq] at hmem
    obtain ⟨y, hy, hpair⟩ := List.mem_map.1 hmem
    cases hpair
    exact ⟨hy, rfl⟩
  · rintro ⟨hx, rfl⟩
    apply OrderedMap.get_of_mem hdistinct
    rw [heq]
    exact List.mem_map.2 ⟨x, hx, rfl⟩

variable {q : Shards} {t : Tables}

theorem Represents.distinct_assignments (hids : DistinctIds items) (h : Represents items q t) :
    OrderedMap.Distinct t.assignments := by
  rw [OrderedMap.Distinct, h.tracks.assignments, OrderedMap.keys, List.map_map]
  have hmap : (q.map Prod.fst).map SchedulingConnection.id = q.map (Prod.fst ∘ fun e => (e.1.id, e.2)) := by
    rw [List.map_map]
    rfl
  rw [← hmap]
  apply List.Nodup.map_on _ h.nodup
  intro x hx y hy hid
  obtain ⟨e, he, rfl⟩ := List.mem_map.1 hx
  obtain ⟨e', he', rfl⟩ := List.mem_map.1 hy
  exact hids.eq (h.within e he) (h.within e' he') hid

theorem Represents.get_iff (hids : DistinctIds items) (h : Represents items q t) (hx : x ∈ items) :
    OrderedMap.get x.id t.assignments = some s ↔ (x, s) ∈ q := by
  constructor
  · intro hget
    have hmem := OrderedMap.mem_of_get hget
    rw [h.tracks.assignments] at hmem
    obtain ⟨e, he, hpair⟩ := List.mem_map.1 hmem
    obtain ⟨hid, rfl⟩ := Prod.mk.inj hpair
    have heq := hids.eq (h.within e he) hx hid
    exact heq ▸ he
  · intro hmem
    apply OrderedMap.get_of_mem (h.distinct_assignments hids)
    rw [h.tracks.assignments]
    exact List.mem_map.2 ⟨(x, s), hmem, rfl⟩

theorem DistinctIds.enabled (h : DistinctIds connections) : DistinctIds (enabledItems connections) :=
  h.sublist (List.filter_sublist.map _)

theorem plan_placement (accountCapacity loadCapacity now : ℤ) (hids : DistinctIds connections) :
    ∃ fixed kept final, Passes accountCapacity loadCapacity now (enabledItems connections) fixed kept final ∧
      Represents (enabledItems connections) final
        (packed accountCapacity loadCapacity now (enabledItems connections)) ∧
      ∀ x ∈ enabledItems connections, ∀ s,
        (buildRebalancePlan accountCapacity loadCapacity now connections).shardOf x = some s ↔ (x, s) ∈ final := by
  obtain ⟨fixed, kept, final, hpasses, hrep⟩ := packed_passes accountCapacity loadCapacity now hids.enabled
  refine ⟨fixed, kept, final, hpasses, hrep, ?_⟩
  intro x hx s
  exact hrep.get_iff hids.enabled hx

theorem mem_moves (hids : DistinctIds connections) {m : Move} :
    m ∈ (buildRebalancePlan accountCapacity loadCapacity now connections).moves ↔
      ∃ x ∈ enabledItems connections, ∃ s,
        (buildRebalancePlan accountCapacity loadCapacity now connections).shardOf x = some s ∧
          some s ≠ x.shardId ∧ connectionCanMove now x = true ∧ m = x.moveTo s := by
  have hmoveOf : ∀ x s, moveOf now x s = some m ↔
      some s ≠ x.shardId ∧ connectionCanMove now x = true ∧ m = x.moveTo s := by
    intro x s
    rw [moveOf]
    by_cases hs : some s = x.shardId
    · simp [hs]
    · cases hmove : connectionCanMove now x with
      | false => simp
      | true => simp [hs, eq_comm]
  simp only [← hmoveOf]
  obtain ⟨fixed, kept, final, hpasses, hrep, hshard⟩ := plan_placement accountCapacity loadCapacity now hids
  have hdistinct := hrep.distinct_assignments hids.enabled
  simp only [buildRebalancePlan, List.mem_filterMap, (List.perm_insertionSort _ _).mem_iff,
    Option.bind_eq_some_iff, get_byId hids.enabled]
  constructor
  · rintro ⟨⟨id, s⟩, hmem, x, ⟨hx, rfl⟩, hm⟩
    exact ⟨x, hx, s, OrderedMap.get_of_mem hdistinct hmem, hm⟩
  · rintro ⟨x, hx, s, hs, hm⟩
    exact ⟨(x.id, s), OrderedMap.mem_of_get hs, x, ⟨hx, rfl⟩, hm⟩

theorem on_perm_bin {plan : Plan} (hids : DistinctIds items) (hq : (q.map Prod.fst).Nodup)
    (hwithin : ∀ e ∈ q, e.1 ∈ items)
    (hshard : ∀ x ∈ items, ∀ s, plan.shardOf x = some s ↔ (x, s) ∈ q) (s : String) :
    (plan.on items s).Perm (bin s q) := by
  unfold Plan.on
  rw [List.perm_ext_iff_of_nodup ((List.Nodup.of_map _ hids).filter _) (nodup_bin hq s)]
  intro x
  rw [mem_bin, List.mem_filter, decide_eq_true_eq]
  constructor
  · rintro ⟨hx, hs⟩
    exact (hshard x hx s).1 hs
  · intro hmem
    have hx := hwithin _ hmem
    exact ⟨hx, (hshard x hx s).2 hmem⟩

end Reading

/-! ## Every plan is valid -/

/-- What a plan promises; the changes of `reported` appear in `moves`. -/
structure Valid (accountCapacity loadCapacity now : ℤ) (reported : SchedulingConnection → Prop)
    (items : List SchedulingConnection) (plan : Plan) : Prop where
  covers : (OrderedMap.keys plan.assignments).Perm (items.map SchedulingConnection.id)
  oneChannel : ∀ x ∈ items, ∀ y ∈ items, plan.shardOf x = plan.shardOf y → x.channel = y.channel
  keeps : ∀ x ∈ items, connectionCanMove now x = false → ∀ s, x.shard = some s → plan.shardOf x = some s
  isolated : ∀ x ∈ items, connectionCanMove now x = true → x.isolate = true → ∀ y ∈ items,
    plan.shardOf y = plan.shardOf x → y = x
  capacity : ∀ x ∈ items, ∀ s, plan.shardOf x = some s → some s ≠ x.shard →
    plan.on items s = [x] ∨
      ((plan.on items s).length : ℤ) ≤ accountCapacity ∧ totalLoad (plan.on items s) ≤ loadCapacity
  moves : ∀ m, m ∈ plan.moves ↔ ∃ x ∈ items, ∃ s, plan.shardOf x = some s ∧ some s ≠ x.shardId ∧
    reported x ∧ m = x.moveTo s
  shards : (plan.shards.map ShardTotals.id).Nodup ∧ ∀ s, s ∈ plan.shards.map ShardTotals.id ↔ plan.on items s ≠ []
  totals : ∀ row ∈ plan.shards, row.accounts = (plan.on items row.id).length ∧
    row.loadUnits = totalLoad (plan.on items row.id)

theorem plan_valid (accountCapacity loadCapacity now : ℤ) (connections : List SchedulingConnection)
    (hids : DistinctIds connections) (hone : OneChannel (enabledItems connections))
    (hown : OwnNames (enabledItems connections)) :
    Valid accountCapacity loadCapacity now (fun x => connectionCanMove now x = true)
      (enabledItems connections) (buildRebalancePlan accountCapacity loadCapacity now connections) := by
  obtain ⟨fixed, kept, final, hpasses, hrep, hshard⟩ := plan_placement accountCapacity loadCapacity now hids
  have hsound := hpasses.sound_final hone hown
  have hon := on_perm_bin hids.enabled hrep.nodup hrep.within hshard
  have hplaced : ∀ x ∈ enabledItems connections, ∃ s, (x, s) ∈ final := fun x hx => (hpasses.covers x).2 hx
  constructor
  case covers =>
    have hkeys : OrderedMap.keys (buildRebalancePlan accountCapacity loadCapacity now connections).assignments =
        (final.map Prod.fst).map SchedulingConnection.id := by
      rw [buildRebalancePlan, hrep.tracks.assignments, OrderedMap.keys, List.map_map, List.map_map]
      rfl
    rw [hkeys]
    apply List.Perm.map
    rw [List.perm_ext_iff_of_nodup hrep.nodup (List.Nodup.of_map _ hids.enabled)]
    intro x
    rw [← hpasses.covers x]
    simp [Placed]
  case oneChannel =>
    intro x hx y hy heq
    obtain ⟨s, hs⟩ := hplaced x hx
    have hs' := (hshard y hy s).1 (heq ▸ (hshard x hx s).2 hs)
    exact hsound.one x y s hs hs'
  case keeps =>
    intro x hx hcannot s hs
    have hfixed := (hpasses.fixed_iff x s).2 ⟨hx, hs, hcannot⟩
    exact (hshard x hx s).2 (hpasses.assigns.mem (hpasses.keeps.mem hfixed))
  case isolated =>
    intro x hx hmove hiso y hy heq
    obtain ⟨s, hs⟩ := hplaced x hx
    have hs' := (hshard y hy s).1 (heq ▸ (hshard x hx s).2 hs)
    have hmem := mem_bin.2 hs'
    rw [hsound.alone x s hs hmove hiso] at hmem
    exact List.mem_singleton.1 hmem
  case capacity =>
    intro x hx s hs hnew
    have hmem := (hshard x hx s).1 hs
    have hnot : ¬ Placed kept x := by
      rintro ⟨s', hs'⟩
      -- what the first passes place stays on its shard
      have hsame := (hshard x hx s').2 (hpasses.assigns.mem hs')
      rw [hs, Option.some.injEq] at hsame
      exact hnew (hsame ▸ (hpasses.shard_of_kept hs').2.symm)
    have hload : totalLoad ((buildRebalancePlan accountCapacity loadCapacity now connections).on
        (enabledItems connections) s) = weight SchedulingConnection.loadUnits s final :=
      ((hon s).map _).sum_eq
    rcases hpasses.within_capacity hone hown hmem hnot with hsingle | ⟨haccounts, hweight⟩
    · left
      exact List.perm_singleton.1 (hsingle ▸ hon s)
    · right
      rw [(hon s).length_eq, hload]
      exact ⟨haccounts, hweight⟩
  case moves =>
    intro m
    exact mem_moves hids
  case shards =>
    have hlist : ((buildRebalancePlan accountCapacity loadCapacity now connections).shards.map
        ShardTotals.id).Perm (OrderedMap.keys
          (packed accountCapacity loadCapacity now (enabledItems connections)).shardChannel) := by
      have hid : ∀ t : Tables, ShardTotals.id ∘ t.totals accountCapacity loadCapacity = id := fun _ => rfl
      rw [buildRebalancePlan, List.map_map, hid, List.map_id]
      exact List.perm_insertionSort _ _
    refine ⟨hlist.nodup_iff.2 hrep.tracks.distinct, ?_⟩
    intro s
    rw [hlist.mem_iff, OrderedMap.mem_keys_iff, hrep.tracks.channel, Option.isSome_map,
      Option.isSome_iff_ne_none, ne_eq, ne_eq, List.getLast?_eq_none_iff]
    apply not_congr
    constructor
    · intro hempty
      exact List.perm_nil.1 (hempty ▸ hon s)
    · intro hempty
      exact List.nil_perm.1 (hempty ▸ hon s)
  case totals =>
    intro row hrow
    obtain ⟨s, -, rfl⟩ := List.mem_map.1 hrow
    constructor
    · rw [Tables.totals, hrep.tracks.accounts, (hon s).length_eq]
    · rw [Tables.totals, hrep.tracks.load]
      exact (((hon s).map _).sum_eq).symm

theorem ownNames_of_named
    (h : ∀ x ∈ items, ∀ s, x.shard = some s → ∃ k, s = shardName x.channel k) : OwnNames items := by
  intro x hx channel k hs
  obtain ⟨k', heq⟩ := h x hx _ hs
  exact (shardName_inj heq).1

def sampleConnection (id channel : String) (shardId : Option String) (loadUnits : ℤ) : SchedulingConnection where
  id := id
  channel := channel
  shardId := shardId
  enabled := true
  status := "connected"
  loadUnits := loadUnits

def sampleConnections : List SchedulingConnection :=
  [sampleConnection "busy" "qq" (some "qq-shard-000") 8, sampleConnection "quiet" "qq" (some "qq-shard-000") 1]

theorem sample_oneChannel : OneChannel (enabledItems sampleConnections) := by
  intro x hx y hy s _ _
  have hchannel : ∀ z ∈ enabledItems sampleConnections, z.channel = "qq" := by decide
  rw [hchannel x hx, hchannel y hy]

theorem sample_ownNames : OwnNames (enabledItems sampleConnections) := by
  apply ownNames_of_named
  intro x hx s hs
  have hshard : ∀ z ∈ enabledItems sampleConnections, z.shard = some (shardName z.channel 0) := by decide
  rw [hshard x hx, Option.some.injEq] at hs
  exact ⟨0, hs.symm⟩

theorem plan_valid_sample : DistinctIds sampleConnections ∧
      (buildRebalancePlan 12 12 10000 sampleConnections).assignments =
        [("quiet", "qq-shard-000"), ("busy", "qq-shard-001")] ∧
      Valid 12 12 10000 (fun x => connectionCanMove 10000 x = true) (enabledItems sampleConnections)
        (buildRebalancePlan 12 12 10000 sampleConnections) :=
  ⟨by decide, by decide,
    plan_valid 12 12 10000 sampleConnections (by decide) sample_oneChannel sample_ownNames⟩

def sampleScanning : SchedulingConnection := { sampleConnection "a" "qq" none 1 with status := "awaiting_scan" }

def sampleForeign : List SchedulingConnection :=
  [sampleConnection "m" "wechat" (some "qq-shard-000") 9, sampleConnection "n" "qq" none 1]

theorem foreign_oneChannel : OneChannel sampleForeign := by
  intro x hx y hy s hxs hys
  have hchannel : ∀ z ∈ sampleForeign, z.shard.isSome = true → z.channel = "wechat" := by decide
  rw [hchannel x hx (by simp [hxs]), hchannel y hy (by simp [hys])]

/-- A waiting connection is assigned without a move; a used name is not seen. -/
theorem plan_not_valid : (DistinctIds [sampleScanning] ∧ OneChannel [sampleScanning] ∧
      ¬ Valid 12 12 10000 (fun _ => True) [sampleScanning] (buildRebalancePlan 12 12 10000 [sampleScanning])) ∧
    DistinctIds sampleForeign ∧ OneChannel sampleForeign ∧
      ¬ Valid 12 12 10000 (fun _ => True) sampleForeign (buildRebalancePlan 12 12 10000 sampleForeign) := by
  refine ⟨⟨by decide, by simp [OneChannel], ?_⟩, by decide, foreign_oneChannel, ?_⟩
  · intro hvalid
    have hmove := (hvalid.moves (sampleScanning.moveTo "qq-shard-000")).2
      ⟨sampleScanning, by simp, "qq-shard-000", by decide, by decide, trivial, rfl⟩
    have hnone : (buildRebalancePlan 12 12 10000 [sampleScanning]).moves = [] := by decide
    rw [hnone] at hmove
    cases hmove
  · intro hvalid
    have hchannel := hvalid.oneChannel (sampleConnection "m" "wechat" (some "qq-shard-000") 9) (by decide)
      (sampleConnection "n" "qq" none 1) (by decide) (by decide)
    revert hchannel
    decide

end RyanAI.Backend.Scheduler
