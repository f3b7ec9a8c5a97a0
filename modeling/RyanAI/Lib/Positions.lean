import Mathlib.Data.List.Basic
import Mathlib.Tactic.Common

/-!
# Elements of a list with what stands around them

`Everywhere P before xs` says `P` of each element of `xs`, together with the elements in front of it,
nearest first, and the elements behind it. The elements of `before` stand in front of the whole list.
-/

namespace RyanAI.Lib.Positions

universe u

variable {α : Type u}

/-- `P` holds of every element and its surroundings. -/
def Everywhere (P : List α → α → List α → Prop) : List α → List α → Prop
  | _, [] => True
  | before, x :: after => P before x after ∧ Everywhere P (x :: before) after

theorem everywhere_iff {P : List α → α → List α → Prop} {before xs : List α} : Everywhere P before xs ↔
      ∀ pre x after, xs = pre ++ x :: after → P (pre.reverse ++ before) x after := by
  induction xs generalizing before with
  | nil =>
    refine iff_of_true trivial fun pre x after h => ?_
    simp at h
  | cons y ys ih =>
    constructor
    · rintro ⟨hy, hys⟩ pre x after h
      cases pre with
      | nil =>
        simp only [List.nil_append, List.cons.injEq] at h
        obtain ⟨rfl, rfl⟩ := h
        exact hy
      | cons z pre =>
        simp only [List.cons_append, List.cons.injEq] at h
        obtain ⟨rfl, h⟩ := h
        have := ih.1 hys pre x after h
        simpa using this
    · intro h
      refine ⟨h [] y ys rfl, ih.2 fun pre x after hsplit => ?_⟩
      have := h (y :: pre) x after (by rw [hsplit]; rfl)
      simpa using this

end RyanAI.Lib.Positions
