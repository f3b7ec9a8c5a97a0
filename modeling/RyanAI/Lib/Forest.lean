import Mathlib.Logic.Relation
import Mathlib.Logic.Function.Basic
import Mathlib.Tactic.Common

/-!
# Forests under edits

A hierarchy gives each member its parent, if it has one. It is a forest if every parent is a member and
nobody is above itself. Hanging a member under a parent keeps a forest if the parent is not below the member
(`Forest.hang`), and taking a member out keeps one if its children go to its parent; that changes nothing of
who is above whom among the others (`splice_above_iff`).
-/

namespace RyanAI.Lib

universe u

variable {α : Type u}

/-- The parent of each member; `none` for those that are not there. -/
abbrev Hierarchy (α : Type u) := α → Option (Option α)

variable {h : Hierarchy α} {b a x : α} {parent : Option α}

namespace Hierarchy

/-- `y` is the parent of `x`. -/
def Under (h : Hierarchy α) (x y : α) : Prop := h x = some (some y)

/-- `y` is above `x`. -/
def Above (h : Hierarchy α) : α → α → Prop := Relation.TransGen (Under h)

/-- `y` is `x` or above it. -/
def Reaches (h : Hierarchy α) : α → α → Prop := Relation.ReflTransGen (Under h)

structure Forest (h : Hierarchy α) : Prop where
  resolved : ∀ x y, Under h x y → (h y).isSome
  acyclic : ∀ x, ¬ Above h x x

theorem forest_empty : Forest (fun _ : α => none) where
  resolved := by
    intro x y hxy
    cases hxy
  acyclic := by
    intro x hx
    obtain ⟨y, hxy, _⟩ := Relation.TransGen.head'_iff.1 hx
    cases hxy

theorem reaches_congr {h' : Hierarchy α} (hagree : ∀ b, Reaches h a b → h' b = h b) :
    Reaches h' a b ↔ Reaches h a b := by
  constructor
  · intro hreach
    induction hreach with
    | refl => exact .refl
    | @tail b c _ hedge ih =>
      refine ih.tail ?_
      rw [Under, hagree b ih] at hedge
      exact hedge
  · intro hreach
    induction hreach with
    | refl => exact .refl
    | @tail b c hab hedge ih =>
      refine ih.tail ?_
      rw [Under, hagree b hab]
      exact hedge

variable [DecidableEq α]

/-- Put `x` under `parent`. -/
def hang (x : α) (parent : Option α) (h : Hierarchy α) : Hierarchy α := Function.update h x (some parent)

theorem under_hang_of_ne (hne : a ≠ x) : Under (hang x parent h) a b ↔ Under h a b := by
  rw [Under, hang, Function.update_of_ne hne]
  rfl

theorem under_hang_self : Under (hang x parent h) x b ↔ parent = some b := by
  rw [Under, hang, Function.update_self, Option.some.injEq]

/-- A way up in the new hierarchy is one in the old, or goes once through `x`. -/
theorem above_hang (hbelow : ∀ y, parent = some y → ¬ Reaches h y x) (hab : Above (hang x parent h) a b) :
    Above h a b ∨ ∃ y, parent = some y ∧ Reaches h a x ∧ Reaches h y b := by
  induction hab with
  | @single b hedge =>
    by_cases hx : a = x
    · subst hx
      exact .inr ⟨b, under_hang_self.1 hedge, .refl, .refl⟩
    · exact .inl (.single ((under_hang_of_ne hx).1 hedge))
  | @tail b c _ hedge ih =>
    by_cases hx : b = x
    · subst hx
      have hparent := under_hang_self.1 hedge
      rcases ih with hold | ⟨y, hy, _, hreach⟩
      · exact .inr ⟨c, hparent, hold.to_reflTransGen, .refl⟩
      · exact absurd hreach (hbelow y hy)
    · have hold := (under_hang_of_ne hx).1 hedge
      rcases ih with habove | ⟨y, hy, hax, hreach⟩
      · exact .inl (habove.tail hold)
      · exact .inr ⟨y, hy, hax, hreach.tail hold⟩

theorem isSome_hang {y : α} (hy : (h y).isSome) : (hang x parent h y).isSome := by
  by_cases hyx : y = x
  · subst hyx
    simp [hang]
  · rwa [hang, Function.update_of_ne hyx]

theorem Forest.hang (hforest : Forest h) (hparent : ∀ y, parent = some y → (h y).isSome ∧ ¬ Reaches h y x) :
    Forest (hang x parent h) where
  resolved := by
    intro a b hab
    apply isSome_hang
    by_cases hx : a = x
    · subst hx
      exact (hparent b (under_hang_self.1 hab)).1
    · exact hforest.resolved a b ((under_hang_of_ne hx).1 hab)
  acyclic := by
    intro a ha
    rcases above_hang (fun y hy => (hparent y hy).2) ha with hold | ⟨y, hy, hax, hya⟩
    · exact hforest.acyclic a hold
    · exact (hparent y hy).2 (hya.trans hax)

omit [DecidableEq α] in
theorem Forest.not_reaches_of_none (hforest : Forest h) {y : α} (hx : h x = none)
    (hy : (h y).isSome) : ¬ Reaches h y x := by
  intro hreach
  rcases Relation.ReflTransGen.cases_tail hreach with rfl | ⟨z, _, hzx⟩
  · rw [hx] at hy
    cases hy
  · have hsome := hforest.resolved z x hzx
    rw [hx] at hsome
    cases hsome

/-- Take `x` out; its children go to `parent`. -/
def splice (x : α) (parent : Option α) (h : Hierarchy α) : Hierarchy α := fun z =>
  if z = x then none
  else (h z).map fun p => if p = some x then parent else p

theorem under_splice_iff (hax : a ≠ x) :
    Under (splice x parent h) a b ↔ (Under h a b ∧ b ≠ x) ∨ (Under h a x ∧ parent = some b) := by
  simp only [Under, splice, if_neg hax, Option.map_eq_some_iff]
  constructor
  · rintro ⟨p, hp, hpb⟩
    split at hpb
    · rename_i hpx
      subst hpx
      exact .inr ⟨hp, hpb⟩
    · rename_i hpx
      subst hpb
      exact .inl ⟨hp, fun hbx => hpx (congrArg some hbx)⟩
  · rintro (⟨hab, hbx⟩ | ⟨hax', rfl⟩)
    · exact ⟨some b, hab, if_neg fun h => hbx (Option.some.inj h)⟩
    · exact ⟨some x, hax', if_pos rfl⟩

section Splice

variable {h : Hierarchy α} {x : α} {parent : Option α}

/-- An edge of the new is one of the old, or two through `x`. -/
theorem above_of_above_splice (hx : h x = some parent) (hab : Above (splice x parent h) a b) : Above h a b := by
  have hedge : ∀ c d, Under (splice x parent h) c d → Above h c d := by
    intro c d hcd
    have hcx : c ≠ x := by
      rintro rfl
      simp [Under, splice] at hcd
    rcases (under_splice_iff hcx).1 hcd with ⟨hcd', _⟩ | ⟨hcx', rfl⟩
    · exact .single hcd'
    · exact (Relation.TransGen.single hcx').tail hx
  induction hab with
  | single hstep => exact hedge _ _ hstep
  | tail _ hstep ih => exact ih.trans (hedge _ _ hstep)

section

variable (hforest : Forest h) (hx : h x = some parent)

include hforest hx

/-- A way up stays one; from `x` it goes on to the parent. -/
theorem above_splice_of_above (hax : a ≠ x) (hab : Above h a b) :
    (b ≠ x → Above (splice x parent h) a b) ∧ (b = x → ∀ y, parent = some y → Above (splice x parent h) a y) := by
  have hself : ∀ y, parent = some y → y ≠ x := by
    rintro y hy rfl
    exact hforest.acyclic y (.single (hx.trans (congrArg some hy)))
  induction hab with
  | @single b hedge =>
    refine ⟨fun hbx => .single ((under_splice_iff hax).2 (.inl ⟨hedge, hbx⟩)), ?_⟩
    rintro rfl y hy
    exact .single ((under_splice_iff hax).2 (.inr ⟨hedge, hy⟩))
  | @tail b c hab hedge ih =>
    by_cases hbx : b = x
    · subst hbx
      have hparent : parent = some c := Option.some.inj (hx.symm.trans hedge)
      refine ⟨fun _ => ih.2 rfl c hparent, ?_⟩
      rintro rfl
      exact absurd rfl (hself c hparent)
    · have hup := ih.1 hbx
      refine ⟨fun hcx => hup.tail ((under_splice_iff hbx).2 (.inl ⟨hedge, hcx⟩)), ?_⟩
      rintro rfl y hy
      exact hup.tail ((under_splice_iff hbx).2 (.inr ⟨hedge, hy⟩))

theorem splice_above_iff (hax : a ≠ x) (hbx : b ≠ x) : Above (splice x parent h) a b ↔ Above h a b :=
  ⟨above_of_above_splice hx, fun hab => (above_splice_of_above hforest hx hax hab).1 hbx⟩

theorem Forest.splice : Forest (splice x parent h) where
  resolved := by
    intro a b hab
    have hax : a ≠ x := by
      rintro rfl
      simp [Under, Hierarchy.splice] at hab
    have hsome : ∀ y, y ≠ x → (h y).isSome → (Hierarchy.splice x parent h y).isSome := by
      intro y hyx hy
      rw [Hierarchy.splice, if_neg hyx, Option.isSome_map]
      exact hy
    rcases (under_splice_iff hax).1 hab with ⟨hedge, hbx⟩ | ⟨_, rfl⟩
    · exact hsome b hbx (hforest.resolved a b hedge)
    · refine hsome b ?_ (hforest.resolved x b hx)
      rintro rfl
      exact hforest.acyclic b (.single hx)
  acyclic := by
    intro a ha
    exact hforest.acyclic a (above_of_above_splice hx ha)

end

end Splice

end Hierarchy

end RyanAI.Lib
