import Mathlib.Data.List.Infix
import Mathlib.Tactic.Common

/-!
# Backtracking patterns

A pattern is matched at the front of an input. `rests` lists what a match can leave of the input, in the
order in which a backtracking matcher tries the alternatives; `atomic` keeps the first of them. `Matches`
is the same in continuation style: some alternative leaves an input of which the rest of the match holds.

Committing to the first alternative loses nothing when it leaves the most and the rest of the match does
not mind more input (`matches_atomic_iff`); this is so for the first place at which a word is found
(`matches_first_word_iff`).
-/

namespace RyanAI.Lib.Backtracking

universe u v

inductive Pattern (A : Type u) where
  | empty
  | atom (a : A)
  | seq (first second : Pattern A)
  /-- any letters, as few as possible first -/
  | lazyAny
  /-- any letters, as many as possible first -/
  | greedyAny
  /-- the first alternative only -/
  | atomic (p : Pattern A)

def word {A : Type u} : List A → Pattern A
  | [] => .empty
  | a :: as => .seq (.atom a) (word as)

section Matching

variable {A : Type u} {α : Type v} (ok : A → α → Bool)

def rests : Pattern A → List α → List (List α)
  | .empty, s => [s]
  | .atom _, [] => []
  | .atom a, x :: s => if ok a x then [s] else []
  | .seq p q, s => (rests p s).flatMap (rests q)
  | .lazyAny, s => s.tails
  | .greedyAny, s => s.tails.reverse
  | .atomic p, s => (rests p s).head?.toList

def fullmatch (p : Pattern A) (s : List α) : Bool := (rests ok p s).any List.isEmpty

/-- Some alternative leaves an input of which `K` holds. -/
def Matches (p : Pattern A) (s : List α) (K : List α → Prop) : Prop := ∃ z ∈ rests ok p s, K z

theorem fullmatch_iff : fullmatch ok p s ↔ Matches ok p s (· = []) := by
  simp [fullmatch, Matches]

variable {K : List α → Prop}

theorem matches_empty : Matches ok .empty s K ↔ K s := by
  show (∃ z ∈ [s], K z) ↔ K s
  simp

theorem matches_seq : Matches ok (.seq p q) s K ↔ Matches ok p s fun z => Matches ok q z K := by
  show (∃ z ∈ (rests ok p s).flatMap (rests ok q), K z) ↔ ∃ y ∈ rests ok p s, ∃ z ∈ rests ok q y, K z
  simp only [List.mem_flatMap]
  constructor
  · rintro ⟨z, ⟨y, hy, hz⟩, hK⟩
    exact ⟨y, hy, z, hz, hK⟩
  · rintro ⟨y, hy, z, hz, hK⟩
    exact ⟨z, ⟨y, hy, hz⟩, hK⟩

theorem matches_greedyAny : Matches ok (.greedyAny : Pattern A) s K ↔ ∃ z ∈ s.tails, K z := by
  show (∃ z ∈ s.tails.reverse, K z) ↔ ∃ z ∈ s.tails, K z
  simp

theorem matches_lazyAny : Matches ok (.lazyAny : Pattern A) s K ↔ ∃ z ∈ s.tails, K z := Iff.rfl

/-- More input does no harm to `K`. -/
def Extensible (K : List α → Prop) : Prop := ∀ y z, z <:+ y → K z → K y

theorem matches_atomic_iff (hK : Extensible K)
    (hfirst : ∀ first others, rests ok p s = first :: others → ∀ z ∈ others, z <:+ first) :
    Matches ok (.atomic p) s K ↔ Matches ok p s K := by
  show (∃ z ∈ (rests ok p s).head?.toList, K z) ↔ ∃ z ∈ rests ok p s, K z
  cases hrests : rests ok p s with
  | nil => simp
  | cons first others =>
    constructor
    · rintro ⟨z, hz, h⟩
      obtain rfl : z = first := by simpa using hz
      exact ⟨z, List.mem_cons_self, h⟩
    · rintro ⟨z, hz, h⟩
      refine ⟨first, by simp, ?_⟩
      rcases List.mem_cons.1 hz with rfl | hz
      · exact h
      · exact hK first z (hfirst first others hrests z hz) h

theorem rests_word (as : List A) (s : List α) :
    rests ok (word as) s = [] ∨ rests ok (word as) s = [s.drop as.length] := by
  induction as generalizing s with
  | nil => exact .inr rfl
  | cons a as ih =>
    cases s with
    | nil => exact .inl rfl
    | cons x s =>
      simp only [word, rests]
      by_cases h : ok a x
      · rw [if_pos h, List.flatMap_singleton, List.length_cons, List.drop_succ_cons]
        exact ih s
      · rw [if_neg h]
        exact .inl rfl

theorem suffix_of_mem_rests_word (h : z ∈ rests ok (word as) s) : z = s.drop as.length := by
  rcases rests_word ok as s with hnone | hone
  · rw [hnone] at h
    cases h
  · rw [hone] at h
    exact List.mem_singleton.1 h

theorem drop_suffix_drop (h : t <:+ s) (n : ℕ) : t.drop n <:+ s.drop n := by
  obtain ⟨before, rfl⟩ := h
  rw [List.drop_append]
  exact (List.drop_suffix_drop_left t (Nat.sub_le n before.length)).trans (List.suffix_append _ _)

theorem matches_first_word_iff (hK : Extensible K) :
    Matches ok (.atomic (.seq .lazyAny (word as))) s K ↔ Matches ok (.seq .lazyAny (word as)) s K := by
  refine matches_atomic_iff ok hK ?_
  induction s with
  | nil =>
    intro first others h z hz
    simp only [rests, List.tails, List.flatMap_singleton] at h
    rcases rests_word ok as ([] : List α) with hnone | hone
    · rw [hnone] at h
      cases h
    · rw [hone, List.cons.injEq] at h
      rw [← h.2] at hz
      cases hz
  | cons x s ih =>
    intro first others h z hz
    simp only [rests, List.tails, List.flatMap_cons] at h ih
    -- either the word is not here, or here it leaves more than further back
    rcases rests_word ok as (x :: s) with hnone | hone
    · rw [hnone, List.nil_append] at h
      exact ih first others h z hz
    rw [hone, List.singleton_append, List.cons.injEq] at h
    obtain ⟨rfl, rfl⟩ := h
    obtain ⟨t, ht, hzt⟩ := List.mem_flatMap.1 hz
    rw [suffix_of_mem_rests_word ok hzt]
    exact drop_suffix_drop (((List.mem_tails _ _).1 ht).trans (List.suffix_cons x s)) _

end Matching

end RyanAI.Lib.Backtracking
