import RyanAI.Gateway.FairQueueInvariant

/-!
# Turns in the fair queue

While a connection waits, no other one should be dispatched twice. The rotation gives this as long as a connection that
comes back to it is placed after those it has bypassed. `run` appends to `rotation`, and the connections behind
`rotationIndex` come after the appended one, so this fails when one of them waits. `EntersBehind` excludes this, and
then nobody is bypassed twice. The tasks of one connection are dispatched in the order of their admission in every run.
-/

namespace RyanAI.Gateway.FairQueue

open RyanAI.Lib
open RyanAI.Lib.Machine

/-! ## The property -/

def Moment.served (m : Moment) : Option String := m.dispatched.map FairTask.connectionId

/-- Nobody is dispatched twice while `a` waits; the latest moment comes first. -/
def BoundedBypass (moments : List Moment) : Prop :=
  ∀ (a : String) (before : List Moment) (m : Moment) (during after : List Moment),
    moments = after ++ during ++ m :: before → a ∈ m.waiting →
    (∀ m' ∈ during, a ∈ m'.waiting ∧ m'.served ≠ some a) →
    ∀ b, during.countP (fun m' => m'.served = some b) ≤ 1

def dispatchedOf (k : String) (moments : List Moment) : List FairTask :=
  (moments.filterMap Moment.dispatched).filter fun e => e.connectionId = k

def ArrivalOrder (moments : List Moment) : Prop :=
  ∀ k, (dispatchedOf k moments).Pairwise fun later earlier => earlier.id < later.id

def lastWaiting : List Moment → List String
  | [] => []
  | m :: _ => m.waiting

/-- Dispatched in the present wait of `a`, the latest first. -/
def bypassers (a : String) : List Moment → List String
  | [] => []
  | m :: ms =>
    if a ∈ m.waiting ∧ a ∈ lastWaiting ms ∧ m.served ≠ some a then
      m.served.toList ++ bypassers a ms
    else []

def EntersBehind (lim : Limits) (s : State) : Event → Prop
  | .run k bytes => admits lim s k bytes = true → (OrderedMap.get k s.core.queues).isNone = true →
      ∀ a ∈ s.core.rotation.items.take s.core.rotation.index, k ∉ bypassers a s.core.moments
  | _ => True

instance (lim : Limits) (s : State) (ev : Event) : Decidable (EntersBehind lim s ev) :=
  match ev with
  | .run k bytes =>
    inferInstanceAs (Decidable (admits lim s k bytes = true →
      (OrderedMap.get k s.core.queues).isNone = true →
      ∀ a ∈ s.core.rotation.items.take s.core.rotation.index, k ∉ bypassers a s.core.moments))
  | .settle _ | .finish _ | .expire _ | .cancelQueued | .stopAccepting | .waitForIdle _
  | .idleTimeout _ => inferInstanceAs (Decidable True)

variable {a b k : String} {ms : List Moment} {m : Moment} {c c' : Core} {lim : Limits}
    {q : List FairTask} {e : FairTask}

theorem lastWaiting_of_mem_bypassers (h : b ∈ bypassers a ms) : a ∈ lastWaiting ms := by
  cases ms with
  | nil => cases h
  | cons m ms =>
    simp only [bypassers] at h
    split at h
    · rename_i hwait
      exact hwait.1
    · cases h

theorem mem_bypassers_cons (h : b ∈ bypassers a (m :: ms)) :
    a ∈ lastWaiting ms ∧ m.served ≠ some a ∧ (m.served = some b ∨ b ∈ bypassers a ms) := by
  simp only [bypassers] at h
  split at h
  · rename_i hwait
    refine ⟨hwait.2.1, hwait.2.2, ?_⟩
    rcases List.mem_append.1 h with hserved | hold
    · exact Or.inl (Option.mem_toList.1 hserved)
    · exact Or.inr hold
  · cases h

theorem bypassers_of_during (hm : a ∈ m.waiting) (before : List Moment)
    (h : ∀ m' ∈ during, a ∈ m'.waiting ∧ m'.served ≠ some a) :
    bypassers a (during ++ m :: before) = during.filterMap Moment.served ++ bypassers a (m :: before) := by
  induction during with
  | nil => rfl
  | cons m' during ih =>
    have hrest := ih fun m'' hm'' => h m'' (List.mem_cons_of_mem m' hm'')
    obtain ⟨hwait, hserved⟩ := h m' List.mem_cons_self
    -- `a` also waits at the moment before
    have hlast : a ∈ lastWaiting (during ++ m :: before) := by
      cases during with
      | nil => exact hm
      | cons m'' during => exact (h m'' (by simp)).1
    rw [List.cons_append, bypassers, if_pos ⟨hwait, hlast, hserved⟩, hrest, List.filterMap_cons]
    cases m'.served <;> rfl

def NoneTwice (moments : List Moment) : Prop := ∀ ms, ms <:+ moments → ∀ a, (bypassers a ms).Nodup

theorem NoneTwice.cons (h : NoneTwice ms) (hm : ∀ a, (bypassers a (m :: ms)).Nodup) : NoneTwice (m :: ms) := by
  intro ms' hsuffix a
  rcases List.suffix_cons_iff.1 hsuffix with rfl | hsuffix
  · exact hm a
  · exact h ms' hsuffix a

theorem boundedBypass_of_noneTwice (h : NoneTwice moments) : BoundedBypass moments := by
  intro a before m during after hsplit hm hduring b
  have hsuffix : during ++ m :: before <:+ moments := ⟨after, by rw [hsplit, List.append_assoc]⟩
  have hnodup := h _ hsuffix a
  -- everything dispatched in the segment is a bypasser, and no bypasser occurs twice
  rw [bypassers_of_during hm before hduring] at hnodup
  have hserved := (List.nodup_append.1 hnodup).1
  have hcount : during.countP (fun m' => m'.served = some b) =
      (during.filterMap Moment.served).count b := by
    rw [List.count_filterMap]
    apply List.countP_congr
    intro m' _
    simp
  rw [hcount]
  exact List.nodup_iff_count_le_one.1 hserved b

/-! ## Turns -/

structure Turns (lim : Limits) (c : Core) : Prop where
  waiting : ∀ a ∈ lastWaiting c.moments, c.isWaiting lim a = true
  ahead : ∀ a b, b ∈ bypassers a c.moments → b ∈ c.rotation.order → [a, b].Sublist c.rotation.order
  noneTwice : NoneTwice c.moments

theorem Turns.rotate (h : Turns lim c) (horder : r.order = c.rotation.order) : Turns lim { c with rotation := r } where
  waiting := h.waiting
  ahead := by
    intro a b hb hmem
    rw [horder]
    exact h.ahead a b hb (horder ▸ hmem)
  noneTwice := h.noneTwice

theorem isWaiting_of_mem_mark (h : a ∈ lastWaiting (c.mark lim dispatched).moments) : c.isWaiting lim a = true :=
  (List.mem_filter.1 h).2

theorem not_atLimit_of_isWaiting (h : c.isWaiting lim a = true) : ¬ AtLimit lim c a := by
  simp only [Core.isWaiting, Bool.and_eq_true, decide_eq_true_eq] at h
  exact not_le.2 h.2

theorem mem_order_of_isWaiting (hq : Queues c) (h : c.isWaiting lim a = true) : a ∈ c.rotation.order := by
  rw [Cursor.mem_order, hq.mem]
  simp only [Core.isWaiting, Bool.and_eq_true] at h
  obtain ⟨q, hget, -⟩ := (Option.any_eq_true _ _).1 h.1
  rw [hget]
  rfl

theorem Turns.mark (h : Turns lim c) (hmoments : c'.moments = c.moments)
    (hahead : ∀ a b, a ∈ lastWaiting c.moments → c'.isWaiting lim a = true →
      b ∈ bypassers a c.moments → b ∈ c'.rotation.order → [a, b].Sublist c'.rotation.order) :
    Turns lim (c'.mark lim none) := by
  refine ⟨fun a ha => isWaiting_of_mem_mark ha, ?_, NoneTwice.cons (hmoments ▸ h.noneTwice) ?_⟩
  · intro a b hb
    have hwait := isWaiting_of_mem_mark (lastWaiting_of_mem_bypassers hb)
    obtain ⟨hlast, -, hserved | hold⟩ := mem_bypassers_cons hb
    · cases hserved
    · rw [hmoments] at hlast hold
      exact hahead a b hlast hwait hold
  · intro a
    simp only [bypassers]
    split
    · rw [hmoments]
      exact h.noneTwice _ List.suffix_rfl a
    · exact List.nodup_nil

theorem pair_setQueue (h : Queues c) (hk : k ∈ c.rotation.items) (ha : q.isEmpty = true → a ≠ k)
    (hsub : b ∈ c.rotation.order → [a, b].Sublist c.rotation.order)
    (hb : b ∈ (c.setQueue k q).rotation.order) :
    [a, b].Sublist (c.setQueue k q).rotation.order := by
  rw [setQueue_order h hk q] at hb ⊢
  split at hb
  · rename_i hempty
    rw [if_pos hempty]
    have hmem := (Cursor.nodup_order.2 h.nodup).mem_erase_iff.1 hb
    have hpair : [a, b].erase k = [a, b] := by
      apply List.erase_of_not_mem
      simp only [List.mem_cons, List.not_mem_nil, or_false, not_or]
      exact ⟨(ha hempty).symm, hmem.1.symm⟩
    rw [← hpair]
    exact (hsub hmem.2).erase k
  · rename_i hempty
    rw [if_neg hempty]
    exact hsub hb

section

variable (hq : Queues c) (h : Turns lim c)

include hq h

theorem Turns.behind (horder : c.rotation.order = pre ++ k :: post) (hpre : ∀ k' ∈ pre, AtLimit lim c k')
    (ha : a ∈ lastWaiting c.moments) (hak : a ≠ k) : a ∉ pre ++ [k] ∧ a ∈ post := by
  have hwait := h.waiting a ha
  have hnot : a ∉ pre := fun hmem => not_atLimit_of_isWaiting hwait (hpre a hmem)
  have hmem := mem_order_of_isWaiting hq hwait
  rw [horder] at hmem
  simp only [List.mem_append, List.mem_cons] at hmem ⊢
  tauto

theorem Turns.pair_behind (horder : c.rotation.order = pre ++ k :: post) (hpre : ∀ k' ∈ pre, AtLimit lim c k')
    (ha : a ∈ lastWaiting c.moments) (hak : a ≠ k) (hb : b ∈ bypassers a c.moments) (hmem : b ∈ c.rotation.order) :
    [a, b].Sublist post := by
  have hsub := h.ahead a b hb hmem
  have hsplit : c.rotation.order = (pre ++ [k]) ++ post := by rw [horder, List.append_assoc]; rfl
  rw [hsplit] at hsub
  exact Cursor.pair_sublist_of_append hsub (h.behind hq horder hpre ha hak).1

theorem turns_of_dispatch (hd : Dispatch lim c e c') : Turns lim c' := by
  cases hd with
  | @mk r pre post k _ rest _ _ horder hpre _ hget hr hr' =>
    have howner : e.connectionId = k := hq.owner k _ hget e List.mem_cons_self
    obtain ⟨hvisited, hk⟩ := queues_visited hq horder hr hr'
    obtain ⟨w, hmoments⟩ : ∃ w, ((({ c with rotation := r } : Core).setQueue k rest).dispatch
        lim e).moments = ⟨some e, w⟩ :: c.moments := by
      rw [setQueue_eq]
      exact ⟨_, rfl⟩
    have hserved : (⟨some e, w⟩ : Moment).served = some k := congrArg some howner
    have hkpost : k ∉ post := by
      have hnodup : (pre ++ k :: post).Nodup := horder ▸ Cursor.nodup_order.2 hq.nodup
      exact (List.nodup_cons.1 (List.nodup_append.1 hnodup).2.1).1
    -- `k` is served: it goes to the end of the order, or out of it
    refine ⟨fun a ha => isWaiting_of_mem_mark ha, ?_, ?_⟩
    · -- `a` is behind `k` in the old order, so it is in front of everything it has to be
      intro a b hb hmem
      rw [hmoments] at hb
      obtain ⟨hlast, hnot, hcases⟩ := mem_bypassers_cons hb
      rw [hserved] at hnot hcases
      have hak : a ≠ k := fun hak => hnot (congrArg some hak.symm)
      have hapost := (h.behind hq horder hpre hlast hak).2
      refine pair_setQueue hvisited hk (fun _ => hak) ?_ hmem
      intro hbr
      change b ∈ r.order at hbr
      rw [hr', List.append_assoc] at hbr ⊢
      rcases hcases with hbk | hold
      · cases hbk
        exact (List.singleton_sublist.2 hapost).append
          (List.singleton_sublist.2 (List.mem_append_right pre (List.mem_singleton_self k)))
      have hbc : b ∈ c.rotation.order := by
        rw [horder]
        simp only [List.mem_append, List.mem_cons] at hbr ⊢
        tauto
      exact (h.pair_behind hq horder hpre hlast hak hold hbc).trans
        (List.sublist_append_left _ _)
    · rw [hmoments]
      apply h.noneTwice.cons
      intro a
      simp only [bypassers]
      split
      · rename_i hwait
        rw [hserved] at hwait ⊢
        have hak : a ≠ k := fun hak => hwait.2.2 (congrArg some hak.symm)
        refine List.nodup_cons.2 ⟨?_, h.noneTwice _ List.suffix_rfl a⟩
        intro hmem
        -- if `k` had bypassed `a`, then `a` would come before it, but everything before `k` is at its limit
        have hsub := h.pair_behind hq horder hpre hwait.2.1 hak hmem (by rw [horder]; simp)
        exact hkpost (hsub.subset (by simp))
      · exact List.nodup_nil

theorem turns_drain : Turns lim (c.drain lim) := by
  have hboth := (drains_drain lim hq).invariant (I := fun c => Queues c ∧ Turns lim c)
    (fun _ _ _ hc hd => ⟨queues_of_dispatch hc.1 hd, turns_of_dispatch hc.1 hc.2 hd⟩)
    (fun _ _ hc hr horder => ⟨hc.1.rotate hr (horder ▸ List.Perm.refl _), hc.2.rotate horder⟩)
    ⟨hq, h⟩
  exact hboth.2

theorem turns_enqueue (hbehind : (OrderedMap.get k c.queues).isNone = true →
      ∀ a ∈ c.rotation.items.take c.rotation.index, k ∉ bypassers a c.moments) :
    Turns lim (c.enqueue lim k bytes) := by
  rw [Core.enqueue]
  cases hget : OrderedMap.get k c.queues with
  | some q =>
    refine h.mark rfl ?_
    intro a b _ _ hb hmem
    exact h.ahead a b hb hmem
  | none =>
    refine h.mark rfl ?_
    intro a b hlast _ hb hmem
    change [a, b].Sublist (c.rotation.push k).order
    rw [Cursor.order_push hq.inRange] at hmem ⊢
    -- the other connections keep their order
    have hold : c.rotation.order.Sublist
        (c.rotation.items.drop c.rotation.index ++ k :: c.rotation.items.take c.rotation.index) :=
      (List.sublist_cons_self k _).append_left _
    by_cases hbk : b = k
    · -- `a` was not passed over by `k`, or lies from the index on
      subst hbk
      have hnot : a ∉ c.rotation.items.take c.rotation.index := fun hmem =>
        hbehind (by rw [hget]; rfl) a hmem hb
      have ha := mem_order_of_isWaiting hq (h.waiting a hlast)
      have hdrop : a ∈ c.rotation.items.drop c.rotation.index := (List.mem_append.1 ha).resolve_right hnot
      exact (List.singleton_sublist.2 hdrop).append (List.singleton_sublist.2 List.mem_cons_self)
    · have hbold : b ∈ c.rotation.order := by
        simp only [List.mem_append, List.mem_cons] at hmem
        simp only [Cursor.order, List.mem_append]
        tauto
      exact (h.ahead a b hb hbold).trans hold

theorem turns_expire (hget : OrderedMap.get e.connectionId c.queues = some q) : Turns lim (c.expire lim e q) := by
  have hk : e.connectionId ∈ c.rotation.items := by
    rw [hq.mem, hget]
    rfl
  rw [expire_eq]
  refine h.mark rfl ?_
  intro a b _ hwait hb hmem
  refine pair_setQueue hq hk ?_ (h.ahead a b hb) hmem
  -- the connection of an expired task does not wait unless it has another one
  rintro hempty rfl
  simp only [Core.isWaiting, setQueue_queues, if_true, hempty, Option.any_none, Bool.false_and] at hwait
  cases hwait

end

theorem turns_of_step (hinv : Inv lim s.core) (h : Turns lim s.core)
    (hok : EntersBehind lim s ev) (hs : step lim s ev = some s') : Turns lim s'.core := by
  have hcore := coreStep_of_step hs
  generalize s'.core = c' at hcore
  cases hcore with
  | same => exact h
  | @admitted k bytes hadmits =>
    exact turns_drain (queues_enqueue hinv.queues k bytes)
      (turns_enqueue hinv.queues h (hok hadmits))
  | settled _ => exact ⟨h.waiting, h.ahead, h.noneTwice⟩
  | finished he =>
    refine turns_drain (inv_release hinv he).queues (h.mark rfl ?_)
    intro a b _ _ hb hmem
    exact h.ahead a b hb hmem
  | expired hget _ => exact turns_expire hinv.queues h hget
  | cancelled =>
    refine h.mark rfl ?_
    intro a b _ _ _ hmem
    cases hmem

/-! ## Order of arrival -/

def Core.line (c : Core) (k : String) : List FairTask :=
  (dispatchedOf k c.moments).reverse ++ (OrderedMap.get k c.queues).getD []

structure Arrival (c : Core) : Prop where
  sorted : ∀ k, (c.line k).Pairwise fun e e' => e.id < e'.id
  below : ∀ k, ∀ e ∈ c.line k, e.id < c.nextId

theorem Arrival.sublist (h : Arrival c) (hline : ∀ k, (c'.line k).Sublist (c.line k))
    (hnext : c'.nextId = c.nextId) : Arrival c' where
  sorted := fun k => (h.sorted k).sublist (hline k)
  below := fun k e he => hnext ▸ h.below k e ((hline k).subset he)

theorem dispatchedOf_cons (k : String) (e : FairTask) (waiting : List String) (ms : List Moment) :
    dispatchedOf k (⟨some e, waiting⟩ :: ms) =
      if e.connectionId = k then e :: dispatchedOf k ms else dispatchedOf k ms := by
  simp only [dispatchedOf, List.filterMap_cons, List.filter_cons, decide_eq_true_eq]

theorem line_of_dispatch (hq : Queues c) (hd : Dispatch lim c e c') (k : String) : c'.line k = c.line k := by
  cases hd with
  | @mk r pre post k₀ _ rest _ _ _ _ _ hget _ _ =>
    have howner : e.connectionId = k₀ := hq.owner k₀ _ hget e List.mem_cons_self
    have hqueue := setQueue_queues { c with rotation := r } k₀ rest k
    rw [setQueue_eq]
    simp only [Core.line, Core.dispatch, Core.mark, dispatchedOf_cons, howner, hqueue]
    by_cases hk : k = k₀
    · subst hk
      -- the head of the queue becomes the last of those dispatched
      rw [if_pos rfl, if_pos rfl, hget, List.reverse_cons, List.append_assoc]
      cases rest <;> rfl
    · rw [if_neg hk, if_neg (Ne.symm hk)]

theorem line_enqueue (lim : Limits) (c : Core) (k : String) (bytes : Nat) (k' : String) :
    (c.enqueue lim k bytes).line k' = if k' = k then c.line k ++ [c.newTask k bytes] else c.line k' := by
  have hmoments : dispatchedOf k' (c.enqueue lim k bytes).moments = dispatchedOf k' c.moments := by
    simp only [Core.enqueue, Core.mark]
    cases OrderedMap.get k c.queues <;> rfl
  rw [Core.line, hmoments, get_enqueue]
  split
  · rename_i hk
    rw [hk, Core.line, List.append_assoc]
    rfl
  · rfl

theorem arrival_enqueue (h : Arrival c) (k : String) (bytes : Nat) : Arrival (c.enqueue lim k bytes) := by
  obtain ⟨-, -, hnext, -⟩ := enqueue_fields lim c k bytes
  have hnew : (c.newTask k bytes).id = c.nextId := rfl
  refine ⟨?_, ?_⟩
  · intro k'
    rw [line_enqueue]
    split
    · refine List.pairwise_append.2 ⟨h.sorted k, List.pairwise_singleton _ _, ?_⟩
      intro e he e' he'
      rw [List.mem_singleton.1 he', hnew]
      exact h.below k e he
    · exact h.sorted k'
  · intro k' e he
    rw [hnext]
    rw [line_enqueue] at he
    split at he
    · rcases List.mem_append.1 he with he | he
      · exact Nat.lt_succ_of_lt (h.below k e he)
      · rw [List.mem_singleton.1 he, hnew]
        exact Nat.lt_succ_self _
    · exact Nat.lt_succ_of_lt (h.below k' e he)

theorem nextId_of_dispatch (hd : Dispatch lim c e c') : c'.nextId = c.nextId := by
  cases hd with
  | mk =>
    rw [setQueue_eq]
    rfl

theorem arrival_drain (hq : Queues c) (h : Arrival c) : Arrival (c.drain lim) := by
  have hboth := (drains_drain lim hq).invariant (I := fun c => Queues c ∧ Arrival c)
    (fun _ _ _ hc hd => ⟨queues_of_dispatch hc.1 hd, hc.2.sublist
      (fun k => line_of_dispatch hc.1 hd k ▸ List.Sublist.refl _) (nextId_of_dispatch hd)⟩)
    (fun _ _ hc hr horder => ⟨hc.1.rotate hr (horder ▸ List.Perm.refl _), hc.2.sorted, hc.2.below⟩)
    ⟨hq, h⟩
  exact hboth.2

theorem line_expire (lim : Limits) (hget : OrderedMap.get e.connectionId c.queues = some q) (k : String) :
    ((c.expire lim e q).line k).Sublist (c.line k) := by
  rw [expire_eq]
  change ((dispatchedOf k c.moments).reverse ++
    (OrderedMap.get k (c.setQueue e.connectionId (q.erase e)).queues).getD []).Sublist _
  refine List.Sublist.append_left ?_ _
  rw [setQueue_queues]
  split
  · rename_i hk
    rw [hk, hget]
    split
    · exact List.nil_sublist _
    · exact List.erase_sublist
  · exact List.Sublist.refl _

theorem arrival_of_coreStep (hinv : Inv lim s.core) (h : Arrival s.core) (hs : CoreStep lim s ev c') : Arrival c' := by
  cases hs with
  | same => exact h
  | admitted _ => exact arrival_drain (queues_enqueue hinv.queues _ _) (arrival_enqueue h _ _)
  | settled _ => exact ⟨h.sorted, h.below⟩
  | finished he => exact arrival_drain (inv_release hinv he).queues ⟨h.sorted, h.below⟩
  | expired hget _ => exact h.sublist (line_expire lim hget) (by rw [expire_eq]; rfl)
  | cancelled =>
    refine h.sublist (fun k => ?_) rfl
    exact List.Sublist.append_left (List.nil_sublist _) _

theorem arrivalOrder_of_arrival (h : Arrival c) : ArrivalOrder c.moments := by
  intro k
  have hsorted := (List.pairwise_append.1 (h.sorted k)).1
  exact List.pairwise_reverse.1 hsorted

/-- Nobody is bypassed twice, and the order of arrival is kept, if none returns ahead of those it
has bypassed. -/
theorem bounded_bypass (lim : Limits) {es : List Event} {s : State} (h : Run (step lim) (EntersBehind lim) init es s) :
    BoundedBypass s.core.moments ∧ ArrivalOrder s.core.moments := by
  have hkept : Inv lim s.core ∧ Turns lim s.core ∧ Arrival s.core := by
    apply h.invariant (I := fun s => Inv lim s.core ∧ Turns lim s.core ∧ Arrival s.core)
    · rintro s ev s' ⟨hinv, hturns, harrival⟩ hok hstep
      have hcore := coreStep_of_step hstep
      exact ⟨inv_of_coreStep hinv hcore, turns_of_step hinv hturns hok hstep,
        arrival_of_coreStep hinv harrival hcore⟩
    -- nothing has happened yet
    refine ⟨inv_init lim, ⟨?_, ?_, ?_⟩, ⟨?_, ?_⟩⟩
    · intro a ha
      cases ha
    · intro a b hb
      cases hb
    · intro ms hms a
      rw [List.suffix_nil.1 hms]
      exact List.nodup_nil
    · intro k
      exact List.Pairwise.nil
    · intro k e he
      cases he
  exact ⟨boundedBypass_of_noneTwice hkept.2.1.noneTwice, arrivalOrder_of_arrival hkept.2.2⟩

/-- One slot, taken by `x` while `a`, `b` and `c` queue up, `a` with two tasks. -/
def turnLimits : Limits := ⟨1, 1, 9, 9, 99⟩

def turnEvents : List Event :=
  [.run "x" 1, .run "a" 1, .run "a" 1, .run "b" 1, .run "c" 1,
    .settle ⟨0, "x", 1⟩, .finish ⟨0, "x", 1⟩, .settle ⟨1, "a", 1⟩, .finish ⟨1, "a", 1⟩]

theorem bounded_bypass_sample : ∃ s, Run (step turnLimits) (EntersBehind turnLimits) init
        (turnEvents ++ [.settle ⟨3, "b", 1⟩, .finish ⟨3, "b", 1⟩]) s ∧
      s.core.executing = [⟨4, "c", 1⟩] ∧ BoundedBypass s.core.moments := by
  have hexec : ∃ s, exec (fun s e => if EntersBehind turnLimits s e then step turnLimits s e else none)
      init (turnEvents ++ [.settle ⟨3, "b", 1⟩, .finish ⟨3, "b", 1⟩]) = some s ∧
      s.core.executing = [⟨4, "c", 1⟩] := by
    refine ⟨_, rfl, ?_⟩
    decide
  obtain ⟨s, hs, hexecuting⟩ := hexec
  have hrun := run_of_exec hs
  exact ⟨s, hrun, hexecuting, (bounded_bypass turnLimits hrun).1⟩

/-- `b` comes back behind `c` while the index is there, and has its second turn before `a`. -/
def returnEvents : List Event :=
  turnEvents ++ [.run "b" 1, .settle ⟨3, "b", 1⟩, .finish ⟨3, "b", 1⟩, .settle ⟨4, "c", 1⟩, .finish ⟨4, "c", 1⟩]

/-- The moments from the end of the first task of `a` on, the latest first. -/
def passedOver : List Moment :=
  [⟨some ⟨5, "b", 1⟩, ["a"]⟩, ⟨none, ["a", "b"]⟩, ⟨some ⟨4, "c", 1⟩, ["a", "b"]⟩,
    ⟨none, ["a", "c", "b"]⟩, ⟨none, ["a", "c"]⟩, ⟨some ⟨3, "b", 1⟩, ["a", "c"]⟩]

/-- `a` waits while `b`, `c` and again `b` are dispatched. -/
theorem bypassed_twice : ∃ s, AnyRun (step turnLimits) init returnEvents s ∧ ¬ BoundedBypass s.core.moments := by
  have hexec : ∃ s, exec (step turnLimits) init returnEvents = some s ∧
      ∃ before, s.core.moments = [] ++ passedOver ++ ⟨none, ["a", "b", "c"]⟩ :: before :=
    ⟨_, rfl, _, rfl⟩
  obtain ⟨s, hs, before, hmoments⟩ := hexec
  refine ⟨s, anyRun_of_exec hs, ?_⟩
  intro hbounded
  have hduring : ∀ m ∈ passedOver, "a" ∈ m.waiting ∧ m.served ≠ some "a" := by decide
  have hle := hbounded "a" before _ passedOver [] hmoments (by decide) hduring "b"
  have hcount : passedOver.countP (fun m => m.served = some "b") = 2 := by decide
  omega

end RyanAI.Gateway.FairQueue
