import Mathlib.Data.Nat.Log
import Mathlib.Tactic.Ring

/-!
# Integers as doubles

The integer next to a given one that a double with a significand of 53 bits can hold. A tie goes to the even
significand.
-/

namespace RyanAI.Lib.Double

/-- A number that is rounded to a multiple of `2 ^ e`. -/
def roundTo (e n : Nat) : Nat :=
  let rest := n % 2 ^ e
  if 2 * rest < 2 ^ e ∨ 2 * rest = 2 ^ e ∧ n / 2 ^ e % 2 = 0 then n / 2 ^ e * 2 ^ e
  else (n / 2 ^ e + 1) * 2 ^ e

def roundNat (n : Nat) : Nat := roundTo (n.log2 - 52) n

def round (n : Int) : Int := if n < 0 then -(roundNat n.natAbs : Int) else roundNat n.natAbs

theorem roundTo_error (e n : Nat) : 2 * roundTo e n ≤ 2 * n + 2 ^ e ∧ 2 * n ≤ 2 * roundTo e n + 2 ^ e := by
  have hdiv := Nat.div_add_mod' n (2 ^ e)
  have hmod := Nat.mod_lt n (Nat.two_pow_pos e)
  simp only [roundTo]
  split
  · omega
  · rw [Nat.add_mul]
    omega

/-- A multiple of `2 ^ e` below a number stays below it when it is rounded. -/
theorem le_roundTo (h : k * 2 ^ e ≤ n) : k * 2 ^ e ≤ roundTo e n := by
  have hk : k ≤ n / 2 ^ e := (Nat.le_div_iff_mul_le (Nat.two_pow_pos e)).2 h
  have hle : k * 2 ^ e ≤ n / 2 ^ e * 2 ^ e := Nat.mul_le_mul_right _ hk
  simp only [roundTo]
  split
  · exact hle
  · rw [Nat.add_mul]
    omega

/-- A number below `2 ^ (53 + b)` moves by less than `2 ^ b`. -/
theorem roundNat_error (h : n < 2 ^ (53 + b)) : 2 * roundNat n ≤ 2 * n + 2 ^ b ∧ 2 * n ≤ 2 * roundNat n + 2 ^ b := by
  obtain ⟨hle, hge⟩ := roundTo_error (n.log2 - 52) n
  have hlog : n.log2 - 52 ≤ b := by
    by_cases hn : n = 0
    · rw [hn]
      exact Nat.zero_le b
    · have hlt := (Nat.log2_lt hn).2 h
      omega
  have hpow : 2 ^ (n.log2 - 52) ≤ 2 ^ b := Nat.pow_le_pow_right (by decide) hlog
  exact ⟨hle.trans (by omega), hge.trans (by rw [roundNat]; omega)⟩

theorem pow_le_roundNat (h : 2 ^ (52 + b) ≤ n) : 2 ^ (52 + b) ≤ roundNat n := by
  have hn : n ≠ 0 := fun h0 => absurd (Nat.two_pow_pos (52 + b)) (by omega)
  have hlog := (Nat.le_log2 hn).2 h
  have hsplit : 2 ^ (52 + b) ≤ 2 ^ 52 * 2 ^ (n.log2 - 52) := by
    rw [← Nat.pow_add]
    exact Nat.pow_le_pow_right (by decide) (by omega)
  have hbelow : 2 ^ 52 * 2 ^ (n.log2 - 52) ≤ n := by
    rw [← Nat.pow_add, Nat.add_sub_cancel' (by omega)]
    exact Nat.log2_self_le hn
  exact hsplit.trans (le_roundTo hbelow)

theorem lt_round (hm : m < 2 ^ 63) (hm' : -2 ^ 63 ≤ m) (h : m + 512 < n) : m < round n := by
  rw [round]
  by_cases hn : n < 0
  · rw [if_pos hn]
    have herror := (roundNat_error (b := 10) (n := n.natAbs) (by omega)).1
    omega
  rw [if_neg hn]
  by_cases hsmall : n.natAbs < 2 ^ 63
  · have herror := (roundNat_error (b := 10) hsmall).2
    omega
  · have hpow := pow_le_roundNat (b := 11) (n := n.natAbs) (by omega)
    omega

theorem round_le (hm : m < 2 ^ 63) (hm' : -2 ^ 63 ≤ m) (h : n + 512 ≤ m) : round n ≤ m := by
  rw [round]
  by_cases hn : n < 0
  · rw [if_pos hn]
    by_cases hsmall : n.natAbs < 2 ^ 63
    · have herror := (roundNat_error (b := 10) hsmall).2
      omega
    · have hpow := pow_le_roundNat (b := 11) (n := n.natAbs) (by omega)
      omega
  · rw [if_neg hn]
    have herror := (roundNat_error (b := 10) (n := n.natAbs) (by omega)).1
    omega

end RyanAI.Lib.Double
