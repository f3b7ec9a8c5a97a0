import RyanAI.Lib.Chain
import RyanAI.Lib.OrderedMap

/-!
# Nested rows

A table of rows each of which lies in the one before it, as deep as one likes (`get_nest`). The key of the last row
comes to the key of the first one by as many links (`arrivesAfter_key`).
-/

namespace RyanAI.Lib.Nesting

universe u

variable {β : Type u}

/-- The key of the row that is `n` levels deep. -/
def key (n : ℕ) : String := String.ofList (List.replicate (n + 1) 'x')

theorem key_injective : Function.Injective key := by
  intro m n h
  have hlength := congrArg (fun s : String => s.toList.length) h
  simpa [key] using hlength

theorem key_ne_empty (n : ℕ) : key n ≠ "" := by
  intro h
  have hlength := congrArg (fun s : String => s.toList.length) h
  simp [key] at hlength

/-- What the row that is `n` levels deep lies in. -/
def above : ℕ → Option String
  | 0 => none
  | n + 1 => some (key n)

/-- Rows that are up to `n` levels deep. -/
def nest (row : Option String → β) : ℕ → KeyedTable String β
  | 0 => KeyedTable.empty.set (key 0) (row none)
  | n + 1 => (nest row n).set (key (n + 1)) (row (some (key n)))

variable {row : Option String → β} {link : String → Option String} {n : ℕ}

theorem get_nest {id : String} {r : β} :
    (nest row n).get id = some r ↔ ∃ k ≤ n, id = key k ∧ r = row (above k) := by
  induction n with
  | zero =>
    rw [nest, KeyedTable.get_set, KeyedTable.get_empty]
    constructor
    · intro h
      split at h
      · cases h
        exact ⟨0, le_rfl, ‹_›, rfl⟩
      · cases h
    · rintro ⟨k, hk, rfl, rfl⟩
      obtain rfl : k = 0 := by omega
      exact if_pos rfl
  | succ n ih =>
    rw [nest, KeyedTable.get_set]
    constructor
    · intro h
      split at h
      · cases h
        exact ⟨n + 1, le_rfl, ‹_›, rfl⟩
      · obtain ⟨k, hk, hrow⟩ := ih.1 h
        exact ⟨k, by omega, hrow⟩
    · rintro ⟨k, hk, rfl, rfl⟩
      by_cases hlast : k = n + 1
      · rw [hlast]
        exact if_pos rfl
      · rw [if_neg fun h => hlast (key_injective h)]
        exact ih.2 ⟨k, by omega, rfl, rfl⟩

theorem arrivesAfter_key (hlink : ∀ k < n, link (key (k + 1)) = some (key k)) :
    Chain.ArrivesAfter link (key 0) n (key n) := by
  induction n with
  | zero => rfl
  | succ n ih =>
    refine ⟨fun h => absurd (key_injective h) (by omega), key n, hlink n (by omega), ih fun k hk => hlink k (by omega)⟩

end RyanAI.Lib.Nesting
