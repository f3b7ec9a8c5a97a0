import Mathlib.Tactic

/-!
# Monitors

A monitor reads a history one entry at a time: it keeps a state and says which entries it allows
there. `Accepts` says that it allows every entry of a history. What holds of the state and is kept by
the entries of a part of the history holds along that part (`Accepts.keeps`), and each entry of the
part was allowed in a state in which it holds (`Accepts.allowed_of_mem`).
-/

namespace RyanAI.Lib

universe u v

structure Monitor (σ : Type u) (ω : Type v) where
  next : σ → ω → σ
  allowed : σ → ω → Prop

namespace Monitor

variable {σ : Type u} {ω : Type v}

def final (m : Monitor σ ω) (s : σ) (xs : List ω) : σ := xs.foldl m.next s

def Accepts (m : Monitor σ ω) : σ → List ω → Prop
  | _, [] => True
  | s, x :: xs => m.allowed s x ∧ Accepts m (m.next s x) xs

variable {m : Monitor σ ω} {s : σ}

@[simp]
theorem final_nil : m.final s [] = s := rfl

@[simp]
theorem final_cons (x : ω) (xs : List ω) : m.final s (x :: xs) = m.final (m.next s x) xs := rfl

@[simp]
theorem final_append (xs ys : List ω) : m.final s (xs ++ ys) = m.final (m.final s xs) ys := List.foldl_append

@[simp]
theorem accepts_nil : m.Accepts s [] := trivial

@[simp]
theorem accepts_cons : m.Accepts s (x :: xs) ↔ m.allowed s x ∧ m.Accepts (m.next s x) xs := Iff.rfl

@[simp]
theorem accepts_append : m.Accepts s (xs ++ ys) ↔ m.Accepts s xs ∧ m.Accepts (m.final s xs) ys := by
  induction xs generalizing s with
  | nil => simp
  | cons x xs ih => simp [ih, and_assoc]

theorem Accepts.keeps {I : σ → Prop} {Q : ω → Prop} (hstep : ∀ s x, I s → m.allowed s x → Q x → I (m.next s x))
    (h : m.Accepts s xs) (hxs : ∀ x ∈ xs, Q x) (hs : I s) : I (m.final s xs) := by
  induction xs generalizing s with
  | nil => exact hs
  | cons x xs ih =>
    have hnext : I (m.next s x) := hstep s x hs h.1 (hxs x List.mem_cons_self)
    apply ih h.2 _ hnext
    intro y hy
    exact hxs y (List.mem_cons_of_mem x hy)

theorem Accepts.allowed_of_mem {I : σ → Prop} {Q : ω → Prop} (hstep : ∀ s x, I s → m.allowed s x → Q x → I (m.next s x))
    (h : m.Accepts s xs) (hxs : ∀ x ∈ xs, Q x) (hs : I s) (hx : x ∈ xs) : ∃ t, I t ∧ m.allowed t x := by
  obtain ⟨before, after, rfl⟩ := List.append_of_mem hx
  obtain ⟨hbefore, hafter⟩ := accepts_append.1 h
  refine ⟨m.final s before, ?_, hafter.1⟩
  apply hbefore.keeps hstep _ hs
  intro y hy
  exact hxs y (List.mem_append_left _ hy)

end Monitor

end RyanAI.Lib
