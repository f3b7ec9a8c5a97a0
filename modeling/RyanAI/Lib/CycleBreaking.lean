import RyanAI.Lib.Chain
import Mathlib.Logic.Function.Basic

/-!
# Breaking the cycles of links

Every node has at most one link. `breakCycles` goes through a list of nodes and takes the link away from each node that
is on a cycle of the links left by then. Of each cycle with a node in the list exactly one node loses its link, whatever
the order (`Broken.existsUnique_cut`). A node is on a cycle exactly if following the links comes back to it before any
other node comes up again (`endsAt_iff`).
-/

namespace RyanAI.Lib.CycleBreaking

open Relation

universe u

variable {α : Type u}

def Links (link : α → Option α) (a b : α) : Prop := link a = some b

def Reaches (link : α → Option α) : α → α → Prop := ReflTransGen (Links link)

def OnCycle (link : α → Option α) (a : α) : Prop := TransGen (Links link) a a

variable {link link' : α → Option α} {a b x y : α}

/-! ## Cycles -/

/-- What a cycle reaches reaches back. -/
theorem OnCycle.back (h : OnCycle link a) (hab : Reaches link a b) : Reaches link b a := by
  induction hab with
  | refl => exact .refl
  | @tail b c _ hstep ih =>
    rcases ReflTransGen.cases_head ih with rfl | ⟨c', hstep', hrest⟩
    · obtain ⟨c', hstep', hrest⟩ := TransGen.head'_iff.1 h
      obtain rfl : c = c' := Option.some.inj (hstep.symm.trans hstep')
      exact hrest
    · obtain rfl : c = c' := Option.some.inj (hstep.symm.trans hstep')
      exact hrest

theorem OnCycle.isSome (h : OnCycle link a) : (link a).isSome = true := by
  obtain ⟨b, hstep, -⟩ := TransGen.head'_iff.1 h
  rw [show link a = some b from hstep]
  rfl

theorem OnCycle.mono (hle : ∀ a b, link' a = some b → link a = some b) (h : OnCycle link' a) : OnCycle link a :=
  TransGen.mono hle _ _ h

theorem reaches_congr (h : ∀ b, Reaches link a b → link' b = link b) : Reaches link' a b ↔ Reaches link a b := by
  constructor
  · intro hab
    induction hab with
    | refl => exact .refl
    | @tail b c _ hstep ih => exact ih.tail ((h b ih).symm.trans hstep)
  · intro hab
    induction hab with
    | refl => exact .refl
    | @tail b c hab hstep ih => exact ih.tail ((h b hab).trans hstep)

theorem onCycle_congr (h : ∀ b, Reaches link a b → link' b = link b) : OnCycle link' a ↔ OnCycle link a := by
  have hfirst : link' a = link a := h a .refl
  rw [OnCycle, OnCycle, TransGen.head'_iff, TransGen.head'_iff]
  apply exists_congr
  intro b
  rw [Links, Links, hfirst]
  apply and_congr_right
  intro hstep
  exact reaches_congr fun c hc => h c (.head hstep hc)

/-! ## Breaking them -/

section Breaking

open Classical

variable [DecidableEq α]

noncomputable def breakCycle (link : α → Option α) (x : α) : α → Option α :=
  if OnCycle link x then Function.update link x none else link

noncomputable def breakCycles (xs : List α) (link : α → Option α) : α → Option α := xs.foldl breakCycle link

/-- The links that are left when the nodes of `done` have been gone through: some nodes on cycles have lost theirs,
no two of them on the same cycle. -/
structure Broken (link : α → Option α) (done : List α) (left : α → Option α) : Prop where
  kept : ∀ x, left x = link x ∨ left x = none ∧ OnCycle link x ∧ x ∈ done
  done : ∀ x ∈ done, ¬ OnCycle left x
  once : ∀ x y, OnCycle link x → Reaches link x y → left x ≠ link x → left y ≠ link y → x = y

variable {left : α → Option α} {done : List α}

omit [DecidableEq α] in
theorem Broken.le (h : Broken link done left) (a b : α) (hab : left a = some b) : link a = some b := by
  rcases h.kept a with heq | ⟨hnone, -⟩
  · rw [← heq, hab]
  · rw [hnone] at hab
    cases hab

omit [DecidableEq α] in
/-- A cycle that is left has lost no link. -/
theorem Broken.intact (h : Broken link done left) (hx : OnCycle left x) (hxy : Reaches link x y) : left y = link y := by
  have hsame : ∀ z, Reaches left x z → link z = left z := by
    intro z hz
    obtain ⟨w, hw⟩ := Option.isSome_iff_exists.1 (show (left z).isSome = true from by
      rcases ReflTransGen.cases_head (hx.back hz) with rfl | ⟨w, hstep, -⟩
      · exact hx.isSome
      · rw [show left z = some w from hstep]
        rfl)
    rw [hw]
    exact h.le z w hw
  exact (hsame y ((reaches_congr hsame).1 hxy)).symm

theorem Broken.step (h : Broken link done left) (x : α) : Broken link (x :: done) (breakCycle left x) := by
  rw [breakCycle]
  by_cases hx : OnCycle left x
  · rw [if_pos hx]
    have hcycle : OnCycle link x := hx.mono h.le
    have hle : ∀ a b, Function.update left x none a = some b → left a = some b := by
      intro a b hab
      by_cases hax : a = x
      · rw [hax, Function.update_self] at hab
        cases hab
      · rwa [Function.update_of_ne hax] at hab
    refine ⟨?_, ?_, ?_⟩
    · intro y
      by_cases hy : y = x
      · subst hy
        exact .inr ⟨Function.update_self .., hcycle, List.mem_cons_self⟩
      · rw [Function.update_of_ne hy]
        rcases h.kept y with hsame | ⟨hnone, hon, hdone⟩
        · exact .inl hsame
        · exact .inr ⟨hnone, hon, List.mem_cons_of_mem _ hdone⟩
    · intro y hy hon
      rcases List.mem_cons.1 hy with rfl | hy
      · have hsome := hon.isSome
        rw [Function.update_self] at hsome
        cases hsome
      · exact h.done y hy (hon.mono hle)
    · intro a b ha hab hcut hcut'
      -- the cycle through `x` was whole, so that only `x` can have lost its link
      by_cases hax : a = x
      · by_cases hbx : b = x
        · rw [hax, hbx]
        · rw [Function.update_of_ne hbx] at hcut'
          exact absurd (h.intact hx (hax ▸ hab)) hcut'
      · rw [Function.update_of_ne hax] at hcut
        by_cases hbx : b = x
        · exact absurd (h.intact hx (hbx ▸ ha.back hab)) hcut
        · rw [Function.update_of_ne hbx] at hcut'
          exact h.once a b ha hab hcut hcut'
  · rw [if_neg hx]
    refine ⟨?_, ?_, h.once⟩
    · intro y
      rcases h.kept y with hsame | ⟨hnone, hon, hdone⟩
      · exact .inl hsame
      · exact .inr ⟨hnone, hon, List.mem_cons_of_mem _ hdone⟩
    · intro y hy
      rcases List.mem_cons.1 hy with rfl | hy
      · exact hx
      · exact h.done y hy

theorem Broken.run (xs : List α) (h : Broken link done left) :
    ∃ done', Broken link done' (breakCycles xs left) ∧ ∀ x, x ∈ done' ↔ x ∈ done ∨ x ∈ xs := by
  induction xs generalizing left done with
  | nil => exact ⟨done, h, by simp⟩
  | cons x rest ih =>
    obtain ⟨done', hbroken, hmem⟩ := ih (h.step x)
    refine ⟨done', hbroken, ?_⟩
    intro y
    rw [hmem, List.mem_cons, List.mem_cons]
    tauto

theorem broken_breakCycles (xs : List α) (link : α → Option α) : Broken link xs (breakCycles xs link) := by
  have hstart : Broken link [] link := ⟨fun _ => .inl rfl, by simp, fun x _ _ _ hcut _ => absurd rfl hcut⟩
  obtain ⟨done, h, hmem⟩ := hstart.run xs
  have hsame : ∀ x, x ∈ done ↔ x ∈ xs := by
    intro x
    rw [hmem]
    simp
  refine ⟨?_, fun x hx => h.done x ((hsame x).2 hx), h.once⟩
  intro x
  rcases h.kept x with heq | ⟨hnone, hon, hdone⟩
  · exact .inl heq
  · exact .inr ⟨hnone, hon, (hsame x).1 hdone⟩

omit [DecidableEq α] in
/-- A cycle of which some node has been gone through has lost one link. -/
theorem Broken.existsUnique_cut (h : Broken link done left) (hx : OnCycle link x) (hxy : Reaches link x y)
    (hy : y ∈ done) : ∃! z, Reaches link x z ∧ left z ≠ link z := by
  have hon : OnCycle link y := TransGen.trans_right (hx.back hxy) (TransGen.trans_left hx hxy)
  have hcut : ∃ z, Reaches link y z ∧ left z ≠ link z := by
    by_contra hnone
    refine h.done y hy ((onCycle_congr ?_).2 hon)
    intro z hz
    by_contra hne
    exact hnone ⟨z, hz, hne⟩
  obtain ⟨z, hz, hne⟩ := hcut
  refine ⟨z, ⟨hxy.trans hz, hne⟩, ?_⟩
  rintro z' ⟨hz', hne'⟩
  have hzx : Reaches link z x := hx.back (hxy.trans hz)
  have hzcycle : OnCycle link z := TransGen.trans_right hzx (TransGen.trans_left hx (hxy.trans hz))
  exact (h.once z z' hzcycle (hzx.trans hz') hne hne').symm

end Breaking

/-! ## Finding out -/

section Following

variable [DecidableEq α]

/-- Follow the links from `current` until there is none, or a node was seen; `true` if that node is `a`. -/
def endsAt (link : α → Option α) (a : α) : ℕ → List α → Option α → Bool
  | _, _, none => false
  | 0, seen, some b => decide (b ∈ seen ∧ b = a)
  | n + 1, seen, some b => if b ∈ seen then decide (b = a) else endsAt link a n (b :: seen) (link b)

open Chain (Walk)

omit [DecidableEq α] in
theorem exists_walk_of_reaches (h : Reaches link a b) : ∃ n, Walk link n a b := by
  induction h using ReflTransGen.head_induction_on with
  | refl => exact ⟨0, rfl⟩
  | @head a c hstep _ ih =>
    obtain ⟨n, hn⟩ := ih
    exact ⟨n + 1, c, hstep, hn⟩

omit [DecidableEq α] in
theorem walk_append (h : Walk link n a b) (h' : Walk link k b c) : Walk link (n + k) a c := by
  induction n generalizing a with
  | zero =>
    obtain rfl : a = b := h
    rwa [Nat.zero_add]
  | succ n ih =>
    obtain ⟨d, hd, hrest⟩ := h
    rw [Nat.succ_add]
    exact ⟨d, hd, ih hrest⟩

omit [DecidableEq α] in
/-- Two visits of one node on a cycle are a whole number of rounds apart. -/
theorem OnCycle.round (h : OnCycle link a) (hj : Walk link j a x) (hm : Walk link (j + q) a x) : Walk link q a a := by
  obtain ⟨r, hr⟩ := exists_walk_of_reaches (h.back hj.reflTransGen)
  have hround : Walk link (j + r) a a := walk_append hj hr
  have hlonger : Walk link (j + r + q) a a := by
    rw [Nat.add_right_comm]
    exact walk_append hm hr
  obtain ⟨c, hc, hca⟩ := hlonger.split
  rwa [hc.unique hround] at hca

/-- What the walk from `a` knows after `m` nodes. -/
structure Following (link : α → Option α) (a : α) (ids seen : List α) (current : Option α) (m : ℕ) : Prop where
  length : seen.length = m + 1
  nodup : seen.Nodup
  start : a ∈ seen
  visited : ∀ y ∈ seen, ∃ i ≤ m, Walk link i a y
  never : ∀ i, 0 < i → i ≤ m → ¬ Walk link i a a
  last : ∃ y, Walk link m a y ∧ link y = current
  known : current.isSome = true → seen ⊆ ids

omit [DecidableEq α] in
/-- A walk that has come to an end is not on a cycle. -/
theorem Following.not_onCycle (h : Following link a ids seen none m) : ¬ OnCycle link a := by
  intro hcycle
  obtain ⟨y, hy, hlast⟩ := h.last
  obtain ⟨z, hz⟩ := Chain.ReachesCycle.exists_walk ⟨a, .refl, hcycle⟩ (m + 1)
  obtain ⟨y', hy', w, hw, -⟩ := hz.split
  rw [hy'.unique hy, hlast] at hw
  cases hw

theorem Following.endsAt_iff {ids : List α} (hids : ∀ x y, link x = some y → x ∈ ids) {n : ℕ}
    (h : Following link a ids seen current m) (hn : ids.length ≤ n + m) :
    endsAt link a n seen current = true ↔ OnCycle link a := by
  induction n generalizing seen current m with
  | zero =>
    cases current with
    | none => exact ⟨fun hends => absurd hends Bool.false_ne_true, fun hcycle => absurd hcycle h.not_onCycle⟩
    | some b =>
      have hle := (h.nodup.subperm (h.known rfl)).length_le
      rw [h.length] at hle
      omega
  | succ n ih =>
    obtain ⟨y, hy, hlast⟩ := h.last
    cases current with
    | none => exact ⟨fun hends => absurd hends Bool.false_ne_true, fun hcycle => absurd hcycle h.not_onCycle⟩
    | some b =>
      have hb : Walk link (m + 1) a b := walk_append hy ⟨b, hlast, rfl⟩
      rw [endsAt]
      by_cases hseen : b ∈ seen
      · rw [if_pos hseen, decide_eq_true_eq]
        constructor
        · rintro rfl
          exact TransGen.tail' hy.reflTransGen hlast
        · intro hcycle
          obtain ⟨j, hj, hwalk⟩ := h.visited b hseen
          have hround : Walk link (m + 1 - j) a a := by
            refine hcycle.round hwalk ?_
            rwa [Nat.add_sub_cancel' (by omega)]
          by_cases hzero : j = 0
          · subst hzero
            exact (show a = b from hwalk).symm
          · exact absurd hround (h.never _ (by omega) (by omega))
      rw [if_neg hseen]
      refine ih (m := m + 1) ⟨?_, ?_, ?_, ?_, ?_, ?_, ?_⟩ (by omega)
      · rw [List.length_cons, h.length]
      · exact List.nodup_cons.2 ⟨hseen, h.nodup⟩
      · exact List.mem_cons_of_mem _ h.start
      · intro z hz
        rcases List.mem_cons.1 hz with rfl | hz
        · exact ⟨m + 1, le_rfl, hb⟩
        · obtain ⟨i, hi, hwalk⟩ := h.visited z hz
          exact ⟨i, by omega, hwalk⟩
      · intro i hpos hi hwalk
        rcases Nat.lt_or_ge i (m + 1) with hlt | hge
        · exact h.never i hpos (by omega) hwalk
        · obtain rfl : i = m + 1 := by omega
          exact hseen (hb.unique hwalk ▸ h.start)
      · exact ⟨b, hb, rfl⟩
      · intro hsome
        obtain ⟨c, hc⟩ := Option.isSome_iff_exists.1 hsome
        exact List.cons_subset.2 ⟨hids b c hc, h.known rfl⟩

theorem endsAt_iff (ids : List α) (hids : ∀ x y, link x = some y → x ∈ ids) (a : α) {n : ℕ} (hn : ids.length ≤ n) :
    endsAt link a n [a] (link a) = true ↔ OnCycle link a := by
  suffices hstart : Following link a ids [a] (link a) 0 from hstart.endsAt_iff hids hn
  refine ⟨rfl, List.nodup_singleton a, List.mem_singleton_self a, ?_, ?_, ⟨a, rfl, rfl⟩, ?_⟩
  · intro y hy
    exact ⟨0, le_rfl, (List.mem_singleton.1 hy).symm⟩
  · intro i hpos hi
    omega
  · intro hsome
    obtain ⟨b, hb⟩ := Option.isSome_iff_exists.1 hsome
    intro y hy
    rw [List.mem_singleton.1 hy]
    exact hids a b hb

end Following

end RyanAI.Lib.CycleBreaking
