import Mathlib.Data.List.Nodup
import Mathlib.Data.List.Induction
import Mathlib.Order.Basic
import Mathlib.Tactic.Common

/-!
# Renaming what is there already

`renameRepeats` goes through a list of names and gives a new one to a name that is in the result already, made from the
name and its position. Names made at different positions differ, so that the result has a name twice in one case
only: a name made for a later position is there before it, as a name of the list (`nodup_renameRepeats_iff`).
-/

namespace RyanAI.Lib.RenameRepeats

universe u

variable {α : Type u} {rename : α → ℕ → α} {names : List α} {a d x : α} {i j k : ℕ}

/-- The names that are given a new one: a name that was there before, or that was made before. -/
inductive Renamed (rename : α → ℕ → α) (names : List α) : ℕ → Prop
  | repeated {i k : ℕ} {d : α} (hlt : k < i) (hk : names[k]? = some d) (hi : names[i]? = some d) :
      Renamed rename names i
  | taken {i k : ℕ} {d : α} (hk : Renamed rename names k) (hlt : k < i) (hname : names[k]? = some d)
      (hi : names[i]? = some (rename d k)) : Renamed rename names i

/-- A new name is a name of the list, at an earlier position. -/
def Clash (rename : α → ℕ → α) (names : List α) : Prop :=
  ∃ i j d, j < i ∧ Renamed rename names i ∧ names[i]? = some d ∧ names[j]? = some (rename d i)

theorem Renamed.lt_length (h : Renamed rename names i) : i < names.length := by
  cases h with
  | repeated _ _ hi => exact (List.getElem?_eq_some_iff.1 hi).1
  | taken _ _ _ hi => exact (List.getElem?_eq_some_iff.1 hi).1

/-- Whether a name is given a new one is settled by the names up to it. -/
theorem renamed_append_iff (rest : List α) (hi : i < names.length) :
    Renamed rename (names ++ rest) i ↔ Renamed rename names i := by
  have hget : ∀ {k : ℕ}, k < names.length → (names ++ rest)[k]? = names[k]? := fun hk => List.getElem?_append_left hk
  constructor
  · intro h
    induction h with
    | repeated hlt hk hi' =>
      rw [hget (Nat.lt_trans hlt hi)] at hk
      rw [hget hi] at hi'
      exact .repeated hlt hk hi'
    | taken _ hlt hname hi' ih =>
      rw [hget (Nat.lt_trans hlt hi)] at hname
      rw [hget hi] at hi'
      exact .taken (ih (Nat.lt_trans hlt hi)) hlt hname hi'
  · intro h
    induction h with
    | @repeated _ _ d hlt hk hi' =>
      refine .repeated (d := d) hlt ?_ ?_
      · rw [hget (Nat.lt_trans hlt hi)]
        exact hk
      · rw [hget hi]
        exact hi'
    | @taken _ _ d _ hlt hname hi' ih =>
      refine .taken (d := d) (ih (Nat.lt_trans hlt hi)) hlt ?_ ?_
      · rw [hget (Nat.lt_trans hlt hi)]
        exact hname
      · rw [hget hi]
        exact hi'

theorem getElem?_snoc (names : List α) (d : α) : (names ++ [d])[names.length]? = some d := by
  rw [List.getElem?_append_right (Nat.le_refl _), Nat.sub_self]
  rfl

/-- The names of the list, and those that are made. -/
def Present (rename : α → ℕ → α) (names : List α) (x : α) : Prop :=
  x ∈ names ∨ ∃ k d, Renamed rename names k ∧ names[k]? = some d ∧ x = rename d k

/-- The next name is given a new one if it is there by then. -/
theorem renamed_length_iff (names : List α) (d : α) :
    Renamed rename (names ++ [d]) names.length ↔ Present rename names d := by
  constructor
  · intro h
    cases h with
    | repeated hlt hk hi =>
      rw [getElem?_snoc, Option.some.injEq] at hi
      rw [List.getElem?_append_left hlt] at hk
      exact .inl (hi ▸ List.mem_of_getElem? hk)
    | @taken _ k d' hk hlt hname hi =>
      rw [getElem?_snoc, Option.some.injEq] at hi
      rw [List.getElem?_append_left hlt] at hname
      exact .inr ⟨k, d', (renamed_append_iff [d] hlt).1 hk, hname, hi⟩
  · rintro (hmem | ⟨k, d', hk, hname, rfl⟩)
    · obtain ⟨k, hk⟩ := List.mem_iff_getElem?.1 hmem
      have hlt : k < names.length := (List.getElem?_eq_some_iff.1 hk).1
      refine .repeated hlt ?_ (getElem?_snoc names d)
      rw [List.getElem?_append_left hlt]
      exact hk
    · have hlt := hk.lt_length
      refine .taken ((renamed_append_iff _ hlt).2 hk) hlt ?_ (getElem?_snoc names _)
      rw [List.getElem?_append_left hlt]
      exact hname

theorem present_snoc_iff (names : List α) (d x : α) : Present rename (names ++ [d]) x ↔
      Present rename names x ∨ x = d ∨ Present rename names d ∧ x = rename d names.length := by
  rw [Present, List.mem_append, List.mem_singleton]
  constructor
  · rintro ((hx | hx) | ⟨k, d', hk, hname, hx⟩)
    · exact .inl (.inl hx)
    · exact .inr (.inl hx)
    rcases Nat.lt_or_ge k names.length with hlt | hge
    · rw [List.getElem?_append_left hlt] at hname
      exact .inl (.inr ⟨k, d', (renamed_append_iff [d] hlt).1 hk, hname, hx⟩)
    · -- the name that was added
      have hlength := hk.lt_length
      rw [List.length_append, List.length_singleton] at hlength
      obtain rfl : k = names.length := by omega
      rw [getElem?_snoc, Option.some.injEq] at hname
      exact .inr (.inr ⟨(renamed_length_iff names d).1 hk, hname ▸ hx⟩)
  · rintro ((hx | ⟨k, d', hk, hname, hx⟩) | hx | ⟨hpresent, hx⟩)
    · exact .inl (.inl hx)
    · have hlt := hk.lt_length
      refine .inr ⟨k, d', (renamed_append_iff [d] hlt).2 hk, ?_, hx⟩
      rw [List.getElem?_append_left hlt]
      exact hname
    · exact .inl (.inr hx)
    · exact .inr ⟨names.length, d, (renamed_length_iff names d).2 hpresent, getElem?_snoc names d, hx⟩

theorem clash_snoc_iff (names : List α) (d : α) : Clash rename (names ++ [d]) ↔
      Clash rename names ∨ Present rename names d ∧ rename d names.length ∈ names := by
  constructor
  · rintro ⟨i, j, d', hlt, hi, hname, hj⟩
    have hlength := hi.lt_length
    rw [List.length_append, List.length_singleton] at hlength
    have hjlt : j < names.length := by omega
    rw [List.getElem?_append_left hjlt] at hj
    rcases Nat.lt_or_ge i names.length with hilt | hge
    · rw [List.getElem?_append_left hilt] at hname
      exact .inl ⟨i, j, d', hlt, (renamed_append_iff [d] hilt).1 hi, hname, hj⟩
    · obtain rfl : i = names.length := by omega
      rw [getElem?_snoc, Option.some.injEq] at hname
      subst hname
      exact .inr ⟨(renamed_length_iff names d).1 hi, List.mem_of_getElem? hj⟩
  · rintro (⟨i, j, d', hlt, hi, hname, hj⟩ | ⟨hpresent, hmem⟩)
    · have hilt := hi.lt_length
      refine ⟨i, j, d', hlt, (renamed_append_iff [d] hilt).2 hi, ?_, ?_⟩
      · rw [List.getElem?_append_left hilt]
        exact hname
      · rw [List.getElem?_append_left (Nat.lt_trans hlt hilt)]
        exact hj
    · obtain ⟨j, hj⟩ := List.mem_iff_getElem?.1 hmem
      have hlt : j < names.length := (List.getElem?_eq_some_iff.1 hj).1
      refine ⟨names.length, j, d, hlt, (renamed_length_iff names d).2 hpresent, getElem?_snoc names d, ?_⟩
      rw [List.getElem?_append_left hlt]
      exact hj

variable [DecidableEq α]

/-- The loop: `result` are the names so far. -/
def renameRepeats (rename : α → ℕ → α) (names : List α) : List α :=
  names.foldl (fun result d => result ++ [if d ∈ result then rename d result.length else d]) []

theorem renameRepeats_snoc (rename : α → ℕ → α) (names : List α) (d : α) :
    renameRepeats rename (names ++ [d]) = renameRepeats rename names ++
      [if d ∈ renameRepeats rename names then rename d (renameRepeats rename names).length else d] := by
  rw [renameRepeats, List.foldl_append]
  rfl

@[simp]
theorem length_renameRepeats (rename : α → ℕ → α) (names : List α) :
    (renameRepeats rename names).length = names.length := by
  induction names using List.reverseRecOn with
  | nil => rfl
  | append_singleton names d ih =>
    rw [renameRepeats_snoc, List.length_append, List.length_append, ih]
    rfl

/-- What is there afterwards. -/
theorem mem_renameRepeats_iff : x ∈ renameRepeats rename names ↔ Present rename names x := by
  induction names using List.reverseRecOn generalizing x with
  | nil =>
    simp only [renameRepeats, List.foldl_nil, List.not_mem_nil, false_iff]
    rintro (hx | ⟨k, d, -, hk, -⟩)
    · cases hx
    · cases hk
  | append_singleton names d ih =>
    rw [renameRepeats_snoc, List.mem_append, List.mem_singleton, length_renameRepeats, ih, present_snoc_iff]
    by_cases hmem : d ∈ renameRepeats rename names
    · have hpresent := ih.1 hmem
      rw [if_pos hmem]
      constructor
      · rintro (hx | hx)
        · exact .inl hx
        · exact .inr (.inr ⟨hpresent, hx⟩)
      · rintro (hx | rfl | ⟨-, hx⟩)
        · exact .inl hx
        · exact .inl hpresent
        · exact .inr hx
    · have hpresent : ¬ Present rename names d := fun h => hmem (ih.2 h)
      rw [if_neg hmem]
      apply or_congr_right
      exact (or_iff_left fun h => hpresent h.1).symm

/-- Names made at different positions differ; the result has no name twice exactly if no name that is made is a name of
the list at an earlier position. -/
theorem nodup_renameRepeats_iff (hrename : ∀ a b i j, rename a i = rename b j → i = j) :
    (renameRepeats rename names).Nodup ↔ ¬ Clash rename names := by
  induction names using List.reverseRecOn with
  | nil =>
    refine iff_of_true List.nodup_nil ?_
    rintro ⟨i, j, d, -, -, hi, -⟩
    cases hi
  | append_singleton names d ih =>
    rw [renameRepeats_snoc, List.nodup_append, clash_snoc_iff, not_or, ih, length_renameRepeats]
    apply and_congr_right
    intro _
    have hsingle : ∀ y, ([y].Nodup ∧ ∀ a ∈ renameRepeats rename names, ∀ b ∈ [y], a ≠ b) ↔
        ¬ Present rename names y := by
      intro y
      rw [← mem_renameRepeats_iff]
      constructor
      · rintro ⟨-, hne⟩ hmem
        exact hne y hmem y (List.mem_singleton_self y) rfl
      · intro hnot
        refine ⟨List.nodup_singleton y, ?_⟩
        rintro a ha b hb rfl
        exact hnot (List.mem_singleton.1 hb ▸ ha)
    rw [hsingle, not_iff_not]
    by_cases hmem : d ∈ renameRepeats rename names
    · rw [if_pos hmem, and_iff_right (mem_renameRepeats_iff.1 hmem)]
      -- a name made at an earlier position is another one
      refine or_iff_left ?_
      rintro ⟨k, d', hk, -, heq⟩
      have hlt := hk.lt_length
      have hsame := hrename d d' names.length k heq
      omega
    · have hpresent : ¬ Present rename names d := fun h => hmem (mem_renameRepeats_iff.2 h)
      rw [if_neg hmem]
      exact iff_of_false hpresent fun h => hpresent h.1

end RyanAI.Lib.RenameRepeats
