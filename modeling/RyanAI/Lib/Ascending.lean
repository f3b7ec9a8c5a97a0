import Mathlib

/-!
# Ascending lists

An ascending list is walked from any point by asking again and again for its first element behind the one
found last.
-/

namespace RyanAI.Lib.Ascending

variable {α : Type} [LinearOrder α]

/-- The elements behind `a`. -/
def beyond (a : α) (l : List α) : List α := l.filter (a < ·)

/-- The first element behind `a`. -/
def successor (l : List α) (a : α) : Option α := l.find? (a < ·)

/-- The next `n` elements, each the successor of the one before. -/
def walk (l : List α) : Nat → α → List α
  | 0, _ => []
  | n + 1, a =>
    match successor l a with
    | none => []
    | some b => b :: walk l n b

theorem mem_beyond {l : List α} : x ∈ beyond a l ↔ x ∈ l ∧ a < x := by
  simp [beyond]

theorem head?_beyond (a : α) (l : List α) : (beyond a l).head? = successor l a := List.head?_filter ..

/-- Behind the successor of `a` lies what lies behind `a`, less the successor. -/
theorem beyond_successor (h : l.Pairwise (· < ·)) {a b : α} (hb : successor l a = some b) :
    beyond a l = b :: beyond b l := by
  induction l with
  | nil => cases hb
  | cons x l ih =>
    obtain ⟨hx, hl⟩ := List.pairwise_cons.1 h
    by_cases hax : a < x
    · obtain rfl : x = b := by simpa [successor, hax] using hb
      have hall : beyond a l = l := List.filter_eq_self.2 fun y hy => by simpa using hax.trans (hx y hy)
      have hall' : beyond x l = l := List.filter_eq_self.2 fun y hy => by simpa using hx y hy
      simp only [beyond] at hall hall' ⊢
      simp [hax, hall, hall']
    · have hb' : successor l a = some b := by simpa [successor, hax] using hb
      have hbx : ¬b < x := fun hlt => by
        have hab : a < b := by simpa using List.find?_some hb'
        exact hax (hab.trans hlt)
      have ih := ih hl hb'
      simp only [beyond] at ih ⊢
      rw [List.filter_cons_of_neg (by simpa using hax), List.filter_cons_of_neg (by simpa using hbx), ih]

theorem walk_eq {l : List α} (h : l.Pairwise (· < ·)) (n : Nat) (a : α) : walk l n a = (beyond a l).take n := by
  induction n generalizing a with
  | zero => rfl
  | succ n ih =>
    rw [walk]
    cases hb : successor l a with
    | none =>
      have hnil : beyond a l = [] := by
        rw [← List.head?_eq_none_iff, head?_beyond, hb]
      rw [hnil]
      rfl
    | some b =>
      rw [beyond_successor h hb, List.take_succ_cons, ← ih b]

end RyanAI.Lib.Ascending
