import Mathlib.Tactic
import Mathlib.Data.Rat.Floor
import Mathlib.Algebra.Order.Floor.Ring

/-!
# Decimal fixed point columns

`roundTo d` rounds a rational to `d` decimals, ties away from zero, as an SQL `NUMERIC(p, d)` column
does on assignment. `IsScale d` holds of the values such a column can store; they are closed under
addition and negation, and rounding leaves them alone.
-/

namespace RyanAI.Lib.FixedPoint

def roundHalfAway (x : ℚ) : ℤ := if 0 ≤ x then ⌊x + 1 / 2⌋ else -⌊-x + 1 / 2⌋

/-- The nearest multiple of `10 ^ -d`, ties away from zero. -/
def roundTo (d : Nat) (x : ℚ) : ℚ := roundHalfAway (x * 10 ^ d) / 10 ^ d

/-- `x` has at most `d` decimals. -/
def IsScale (d : Nat) (x : ℚ) : Prop := ∃ n : ℤ, x = n / 10 ^ d

/-- What a `NUMERIC(p, d)` column stores; `none` when it overflows. -/
def toColumn (p d : Nat) (x : ℚ) : Option ℚ := if |roundTo d x| < 10 ^ (p - d) then some (roundTo d x) else none

theorem roundHalfAway_intCast (n : ℤ) : roundHalfAway n = n := by
  have hfloor : ∀ m : ℤ, ⌊(m : ℚ) + 1 / 2⌋ = m := by
    intro m
    rw [Int.floor_eq_iff]
    constructor <;> norm_num
  rw [roundHalfAway]
  split
  · exact hfloor n
  · have h := hfloor (-n)
    push_cast at h
    rw [h, neg_neg]

variable {x y : ℚ} {d p : Nat}

theorem roundHalfAway_nonneg (hx : 0 ≤ x) : 0 ≤ roundHalfAway x := by
  rw [roundHalfAway, if_pos hx]
  exact Int.floor_nonneg.2 (by linarith)

theorem roundTo_nonneg (d : Nat) (hx : 0 ≤ x) : 0 ≤ roundTo d x := by
  have h : 0 ≤ roundHalfAway (x * 10 ^ d) := roundHalfAway_nonneg (by positivity)
  have h' : (0 : ℚ) ≤ roundHalfAway (x * 10 ^ d) := by exact_mod_cast h
  rw [roundTo]
  positivity

theorem roundTo_of_isScale (h : IsScale d x) : roundTo d x = x := by
  obtain ⟨n, rfl⟩ := h
  have hd : (10 : ℚ) ^ d ≠ 0 := by positivity
  rw [roundTo, div_mul_cancel₀ _ hd, roundHalfAway_intCast]

theorem isScale_roundTo (d : Nat) (x : ℚ) : IsScale d (roundTo d x) := ⟨_, rfl⟩

theorem IsScale.add (hx : IsScale d x) (hy : IsScale d y) : IsScale d (x + y) := by
  obtain ⟨m, rfl⟩ := hx
  obtain ⟨n, rfl⟩ := hy
  exact ⟨m + n, by push_cast; ring⟩

theorem toColumn_eq_some (h : toColumn p d x = some y) : y = roundTo d x := by
  rw [toColumn] at h
  split at h
  · simpa using h.symm
  · cases h

theorem toColumn_nonneg (hx : 0 ≤ x) (h : toColumn p d x = some y) : 0 ≤ y := toColumn_eq_some h ▸ roundTo_nonneg d hx

theorem toColumn_of_isScale (hx : IsScale d x) (h : toColumn p d x = some y) : y = x := by
  rw [toColumn_eq_some h, roundTo_of_isScale hx]

theorem isScale_of_toColumn (h : toColumn p d x = some y) : IsScale d y := toColumn_eq_some h ▸ isScale_roundTo d x

end RyanAI.Lib.FixedPoint
