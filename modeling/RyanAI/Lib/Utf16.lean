import Mathlib.Tactic

/-!
# Texts of UTF-16 code units

A text is a list of code units, well formed or not. `points` is how a text is iterated: a high
surrogate followed by a low one is one point, and every other unit is a point by itself. A text cut
between two of its points is read as the two lists of points, and the cut is not inside a surrogate
pair (`points_cut`).
-/

namespace RyanAI.Lib.Utf16

def isHigh (u : UInt16) : Bool := 0xD800 ≤ u && u ≤ 0xDBFF

def isLow (u : UInt16) : Bool := 0xDC00 ≤ u && u ≤ 0xDFFF

def points : List UInt16 → List (List UInt16)
  | [] => []
  | [u] => [[u]]
  | u :: v :: rest =>
    if isHigh u && isLow v then [u, v] :: points rest else [u] :: points (v :: rest)

def Splits (a b : List UInt16) : Prop := ∃ u v, a.getLast? = some u ∧ b.head? = some v ∧ (isHigh u && isLow v) = true

theorem not_isHigh_of_isLow (h : isLow u = true) : isHigh u = false := by
  simp only [isLow, isHigh, Bool.and_eq_true, Bool.and_eq_false_iff, decide_eq_true_eq,
    decide_eq_false_iff_not, UInt16.le_iff_toNat_le] at h ⊢
  simp only [UInt16.reduceToNat] at h ⊢
  omega

@[simp]
theorem points_nil : points [] = [] := rfl

@[simp]
theorem points_singleton (u : UInt16) : points [u] = [[u]] := rfl

theorem points_pair (h : (isHigh u && isLow v) = true) (rest : List UInt16) :
    points (u :: v :: rest) = [u, v] :: points rest := by rw [points, if_pos h]

theorem points_unit (h : ¬ (isHigh u && isLow v) = true) (rest : List UInt16) :
    points (u :: v :: rest) = [u] :: points (v :: rest) := by rw [points, if_neg h]

@[simp]
theorem flatten_points (s : List UInt16) : (points s).flatten = s := by
  induction s using points.induct with
  | case1 => rfl
  | case2 u => rfl
  | case3 u v rest h ih => rw [points_pair h, List.flatten_cons, ih]; rfl
  | case4 u v rest h ih => rw [points_unit h, List.flatten_cons, ih]; rfl

@[simp]
theorem points_eq_nil : points s = [] ↔ s = [] := by
  constructor
  · intro h
    rw [← flatten_points s, h, List.flatten_nil]
  · rintro rfl
    rfl

theorem length_points_le_length (s : List UInt16) : (points s).length ≤ s.length := by
  induction s using points.induct with
  | case1 => simp
  | case2 u => simp
  | case3 u v rest h ih =>
    rw [points_pair h]
    simp only [List.length_cons]
    omega
  | case4 u v rest h ih =>
    rw [points_unit h]
    simpa using ih

theorem length_points_le (a b : List UInt16) : (points a).length ≤ (points (a ++ b)).length := by
  induction a using points.induct with
  | case1 => simp
  | case2 u =>
    have hne : points ([u] ++ b) ≠ [] := by simp
    rw [points_singleton, List.length_singleton]
    exact List.length_pos_iff.2 hne
  | case3 u v rest h ih =>
    rw [List.cons_append, List.cons_append, points_pair h, points_pair h]
    simpa using ih
  | case4 u v rest h ih =>
    rw [List.cons_append, List.cons_append, points_unit h, points_unit h]
    simpa using ih

theorem not_splits_nil_left (b : List UInt16) : ¬ Splits [] b := by
  rintro ⟨u, v, hu, -, -⟩
  simp at hu

theorem splits_cons : Splits (u :: v :: a) b ↔ Splits (v :: a) b := by
  simp [Splits]

theorem points_cut (s : List UInt16) (k : Nat) : points ((points s).take k).flatten = (points s).take k ∧
      points ((points s).drop k).flatten = (points s).drop k ∧
        ¬ Splits ((points s).take k).flatten ((points s).drop k).flatten := by
  induction s using points.induct generalizing k with
  | case1 => simp [not_splits_nil_left]
  | case2 u =>
    cases k with
    | zero => simp [not_splits_nil_left]
    | succ k => simp [Splits]
  | case3 u v rest h ih =>
    cases k with
    | zero => simp [not_splits_nil_left]
    | succ k =>
      obtain ⟨htake, hdrop, hsplit⟩ := ih k
      simp only [points_pair h, List.take_succ_cons, List.drop_succ_cons, List.flatten_cons,
        List.cons_append, List.nil_append]
      refine ⟨by rw [htake], hdrop, ?_⟩
      rw [splits_cons]
      cases hfront : ((points rest).take k).flatten with
      | nil =>
        -- The pair is the end of the front, and its second unit is not a high surrogate.
        rintro ⟨x, y, hx, -, hxy⟩
        obtain rfl : v = x := by simpa using hx
        rw [Bool.and_eq_true] at h hxy
        simp [not_isHigh_of_isLow h.2] at hxy
      | cons w front =>
        rw [splits_cons, ← hfront]
        exact hsplit
  | case4 u v rest h ih =>
    cases k with
    | zero => simp [not_splits_nil_left]
    | succ k =>
      obtain ⟨htake, hdrop, hsplit⟩ := ih k
      simp only [points_unit h, List.take_succ_cons, List.drop_succ_cons, List.flatten_cons,
        List.cons_append, List.nil_append]
      have hwhole : ((points (v :: rest)).take k).flatten ++ ((points (v :: rest)).drop k).flatten =
          v :: rest := by
        rw [← List.flatten_append, List.take_append_drop, flatten_points]
      cases hfront : ((points (v :: rest)).take k).flatten with
      | nil =>
        rw [hfront, points_nil] at htake
        rw [hfront, List.nil_append] at hwhole
        refine ⟨by rw [← htake, points_singleton], hdrop, ?_⟩
        rw [hwhole]
        rintro ⟨x, y, hx, hy, hxy⟩
        obtain rfl : u = x := by simpa using hx
        obtain rfl : v = y := by simpa using hy
        exact h hxy
      | cons w front =>
        obtain rfl : w = v := by
          rw [hfront] at hwhole
          exact (List.cons.inj hwhole).1
        rw [hfront] at htake hsplit
        exact ⟨by rw [points_unit h, htake], hdrop, by rw [splits_cons]; exact hsplit⟩

theorem points_segment {before segment after : List (List UInt16)}
    (h : points s = before ++ segment ++ after) : points segment.flatten = segment := by
  have hdrop := (points_cut s before.length).2.1
  rw [h, List.append_assoc, List.drop_left] at hdrop
  have htake := (points_cut (segment ++ after).flatten segment.length).1
  rwa [hdrop, List.take_left] at htake

end RyanAI.Lib.Utf16
