import Mathlib.Tactic
import Mathlib.Algebra.BigOperators.Group.List.Basic

/-!
# Placing items into bins

A placement lists items with the bins they were put in, the first placed first. `bin b` are the items
of a bin and `weight` adds up their weights. `Grows R p q` says that `q` comes from `p` by placing one
item after the other, each where the rule `R` allows it for the placement at that time. What the last
item of a bin met is what is known of the whole bin (`Grows.bin_cases`).
-/

namespace RyanAI.Lib

universe u v

abbrev Placement (ι : Type u) (β : Type v) := List (ι × β)

namespace Placement

variable {ι : Type u} {β : Type v} [DecidableEq β]

def bin (b : β) (p : Placement ι β) : List ι := (p.filter fun e => e.2 = b).map Prod.fst

def weight (w : ι → ℤ) (b : β) (p : Placement ι β) : ℤ := ((bin b p).map w).sum

@[simp]
theorem bin_nil (b : β) : bin b ([] : Placement ι β) = [] := rfl

@[simp]
theorem bin_append (b : β) (p q : Placement ι β) : bin b (p ++ q) = bin b p ++ bin b q := by
  simp [bin]

@[simp]
theorem bin_singleton (b : β) (x : ι) (t : β) : bin b [(x, t)] = if t = b then [x] else [] := by
  by_cases h : t = b <;> simp [bin, h]

theorem mem_bin {p : Placement ι β} {x : ι} : x ∈ bin b p ↔ (x, b) ∈ p := by
  simp [bin]

@[simp]
theorem weight_nil (w : ι → ℤ) (b : β) : weight w b ([] : Placement ι β) = 0 := rfl

theorem weight_place (w : ι → ℤ) (b : β) (p : Placement ι β) (x : ι) (t : β) :
    weight w b (p ++ [(x, t)]) = weight w b p + if t = b then w x else 0 := by
  by_cases h : t = b <;> simp [weight, h]

inductive Grows (R : Placement ι β → ι → β → Prop) (p : Placement ι β) : Placement ι β → Prop
  | refl : Grows R p p
  | place {q : Placement ι β} {x : ι} {b : β} :
      Grows R p q → R q x b → Grows R p (q ++ [(x, b)])

section Rules

variable {R : Placement ι β → ι → β → Prop} {p q : Placement ι β}

omit [DecidableEq β] in
theorem Grows.invariant {I : Placement ι β → Prop}
    (hstep : ∀ q x b, I q → R q x b → I (q ++ [(x, b)])) (h : Grows R p q) (hp : I p) : I q := by
  induction h with
  | refl => exact hp
  | place _ hR ih => exact hstep _ _ _ ih hR

omit [DecidableEq β] in
omit [DecidableEq β] in
theorem Grows.starts_with (h : Grows R p q) : p <+: q := by
  induction h with
  | refl => exact List.prefix_rfl
  | place _ _ ih => exact ih.trans (List.prefix_append _ _)

omit [DecidableEq β] in
theorem Grows.mem (h : Grows R p q) (he : e ∈ p) : e ∈ q := h.starts_with.subset he

omit [DecidableEq β] in
theorem Grows.mem_cases (h : Grows R p q) (hx : (x, b) ∈ q) :
    (x, b) ∈ p ∨ ∃ q₁, Grows R p q₁ ∧ R q₁ x b ∧ q₁ ++ [(x, b)] <+: q := by
  induction h with
  | refl => exact .inl hx
  | @place q y c hq hR ih =>
    rcases List.mem_append.1 hx with hold | hnew
    · rcases ih hold with hp | ⟨q₁, hq₁, hR₁, hpre⟩
      · exact .inl hp
      · exact .inr ⟨q₁, hq₁, hR₁, hpre.trans (List.prefix_append _ _)⟩
    · obtain ⟨rfl, rfl⟩ := Prod.mk.inj (List.mem_singleton.1 hnew)
      exact .inr ⟨q, hq, hR, List.prefix_rfl⟩

theorem Grows.bin_cases (h : Grows R p q) (b : β) :
    bin b q = bin b p ∨ ∃ q₁ x, Grows R p q₁ ∧ R q₁ x b ∧ bin b q = bin b q₁ ++ [x] := by
  induction h with
  | refl => exact .inl rfl
  | @place q y c hq hR ih =>
    by_cases hc : c = b
    · subst hc
      exact .inr ⟨q, y, hq, hR, by simp⟩
    · rw [bin_append, bin_singleton, if_neg hc, List.append_nil]
      exact ih

end Rules

end Placement

end RyanAI.Lib
