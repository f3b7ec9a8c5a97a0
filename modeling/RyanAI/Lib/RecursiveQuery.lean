import Mathlib.Logic.Relation
import Mathlib.Data.List.Dedup
import Mathlib.Data.List.ProdSigma
import Mathlib.Data.Finset.Card
import Mathlib.Tactic.Common

/-!
# Recursive queries

`WITH RECURSIVE` with `UNION`: the rows of the last round are expanded, rows that are there already are
dropped, and the query ends once a round adds none. The rows are those that the start reaches
(`mem_query_iff`), whether or not the links have cycles, as long as they stay in a finite table. A query may
carry the row it started from along (`mem_query_tagged_iff`).
-/

namespace RyanAI.Lib.RecursiveQuery

universe u v

variable {α : Type u} [DecidableEq α]

def rounds (next : α → List α) : ℕ → List α → List α → List α
  | 0, found, _ => found
  | n + 1, found, last =>
    let new := (last.flatMap next).dedup.filter (· ∉ found)
    if new = [] then found else rounds next n (found ++ new) new

/-- The query, for a table with `size` rows. -/
def query (next : α → List α) (size : ℕ) (start : List α) : List α := rounds next (size + 1) start.dedup start.dedup

def tagged {ρ : Type v} (next : α → List α) (row : ρ × α) : List (ρ × α) := (next row.2).map (row.1, ·)

def Leads (next : α → List α) (a b : α) : Prop := b ∈ next a

variable {next : α → List α} {b : α} {found last rows : List α}

theorem reach_of_mem_rounds {start : List α} (n : ℕ)
    (hfound : ∀ b ∈ found, ∃ a ∈ start, Relation.ReflTransGen (Leads next) a b) (hlast : ∀ b ∈ last, b ∈ found)
    (hb : b ∈ rounds next n found last) :
    ∃ a ∈ start, Relation.ReflTransGen (Leads next) a b := by
  induction n generalizing found last with
  | zero => exact hfound b hb
  | succ n ih =>
    rw [rounds] at hb
    split at hb
    · exact hfound b hb
    refine ih ?_ ?_ hb
    · intro c hc
      rcases List.mem_append.1 hc with hc | hc
      · exact hfound c hc
      · have hnext := List.mem_dedup.1 (List.mem_of_mem_filter hc)
        obtain ⟨d, hd, hdc⟩ := List.mem_flatMap.1 hnext
        obtain ⟨a, ha, hreach⟩ := hfound d (hlast d hd)
        exact ⟨a, ha, hreach.tail hdc⟩
    · intro c hc
      exact List.mem_append_right _ hc

theorem subset_rounds (n : ℕ) (found last : List α) (hb : b ∈ found) : b ∈ rounds next n found last := by
  induction n generalizing found last with
  | zero => exact hb
  | succ n ih =>
    rw [rounds]
    split
    · exact hb
    · exact ih _ _ (List.mem_append_left _ hb)

theorem nodup_rounds (n : ℕ) (hfound : found.Nodup) : (rounds next n found last).Nodup := by
  induction n generalizing found last with
  | zero => exact hfound
  | succ n ih =>
    rw [rounds]
    split
    · exact hfound
    · apply ih
      refine List.nodup_append.2 ⟨hfound, (List.nodup_dedup _).filter _, ?_⟩
      rintro a ha b hb rfl
      exact absurd ha (by simpa using (List.mem_filter.1 hb).2)

theorem nodup_query (next : α → List α) (size : ℕ) (start : List α) : (query next size start).Nodup :=
  nodup_rounds (size + 1) (List.nodup_dedup start)

theorem rounds_closed (n : ℕ) (hrows : ∀ a ∈ rows, ∀ b ∈ next a, b ∈ rows) (hfound : ∀ a ∈ found, a ∈ rows)
    (hdone : ∀ a ∈ found, a ∉ last → ∀ b ∈ next a, b ∈ found) (hlast : ∀ b ∈ last, b ∈ found)
    (hfuel : (rows.toFinset \ found.toFinset).card < n) (ha : a ∈ rounds next n found last) (hab : b ∈ next a) :
    b ∈ rounds next n found last := by
  induction n generalizing found last with
  | zero => omega
  | succ n ih =>
    rw [rounds] at ha ⊢
    split at ha
    · rename_i hnone
      rw [if_pos hnone]
      by_cases hmem : a ∈ last
      · by_contra hb
        have hnew : b ∈ (last.flatMap next).dedup.filter (· ∉ found) := by
          rw [List.mem_filter, List.mem_dedup]
          exact ⟨List.mem_flatMap.2 ⟨a, hmem, hab⟩, by simpa using hb⟩
        rw [hnone] at hnew
        cases hnew
      · exact hdone a ha hmem b hab
    · rename_i hsome
      rw [if_neg hsome]
      have hnewrows : ∀ c ∈ (last.flatMap next).dedup.filter (· ∉ found), c ∈ rows := by
        intro c hc
        obtain ⟨d, hd, hdc⟩ := List.mem_flatMap.1 (List.mem_dedup.1 (List.mem_of_mem_filter hc))
        exact hrows d (hfound d (hlast d hd)) c hdc
      refine ih ?_ ?_ ?_ ?_ ha
      · intro c hc
        rcases List.mem_append.1 hc with hc | hc
        · exact hfound c hc
        · exact hnewrows c hc
      · intro c hc hnot d hd
        rcases List.mem_append.1 hc with hc | hc
        · by_cases hlastc : c ∈ last
          · by_cases hfoundd : d ∈ found
            · exact List.mem_append_left _ hfoundd
            · apply List.mem_append_right
              rw [List.mem_filter, List.mem_dedup]
              exact ⟨List.mem_flatMap.2 ⟨c, hlastc, hd⟩, by simpa using hfoundd⟩
          · exact List.mem_append_left _ (hdone c hc hlastc d hd)
        · exact absurd hc hnot
      · intro c hc
        exact List.mem_append_right _ hc
      · -- a round that goes on finds a row that was not found
        obtain ⟨c, hc⟩ := List.exists_mem_of_ne_nil _ hsome
        have hcnot : c ∉ found := by simpa using (List.mem_filter.1 hc).2
        have hfewer : (rows.toFinset \ (found ++ (last.flatMap next).dedup.filter (· ∉ found)).toFinset).card <
            (rows.toFinset \ found.toFinset).card := by
          apply Finset.card_lt_card
          rw [Finset.ssubset_iff_of_subset]
          · refine ⟨c, ?_, ?_⟩
            · simp only [Finset.mem_sdiff, List.mem_toFinset]
              exact ⟨hnewrows c hc, hcnot⟩
            · simp only [Finset.mem_sdiff, List.mem_toFinset, not_and, not_not]
              intro _
              exact List.mem_append_right _ hc
          · intro e he
            simp only [Finset.mem_sdiff, List.mem_toFinset, List.mem_append, not_or] at he ⊢
            exact ⟨he.1, he.2.1⟩
        omega

theorem mem_query_iff (hrows : ∀ a ∈ rows, ∀ b ∈ next a, b ∈ rows) (hstart : ∀ a ∈ start, a ∈ rows)
    {size : ℕ} (hsize : rows.length ≤ size) :
    b ∈ query next size start ↔ ∃ a ∈ start, Relation.ReflTransGen (Leads next) a b := by
  constructor
  · intro hb
    refine reach_of_mem_rounds (size + 1) ?_ (fun _ hc => hc) hb
    intro c hc
    exact ⟨c, List.mem_dedup.1 hc, .refl⟩
  rintro ⟨a, ha, hreach⟩
  have hfuel : (rows.toFinset \ start.dedup.toFinset).card < size + 1 := by
    have hcard := Finset.card_le_card (@Finset.sdiff_subset _ _ rows.toFinset start.dedup.toFinset)
    have hlength := List.toFinset_card_le rows
    omega
  induction hreach with
  | refl => exact subset_rounds _ _ _ (List.mem_dedup.2 ha)
  | tail _ hstep ih =>
    refine rounds_closed (size + 1) hrows ?_ ?_ (fun _ hc => hc) hfuel ih hstep
    · intro c hc
      exact hstart c (List.mem_dedup.1 hc)
    · intro c hc hnot
      exact absurd hc hnot

section Tagged

variable {ρ : Type v} [DecidableEq ρ]

omit [DecidableEq α] [DecidableEq ρ] in
theorem reach_tagged (h : Relation.ReflTransGen (Leads (tagged next)) row row') :
    row.1 = row'.1 ∧ Relation.ReflTransGen (Leads next) row.2 row'.2 := by
  induction h with
  | refl => exact ⟨rfl, .refl⟩
  | tail _ hstep ih =>
    obtain ⟨b, hb, rfl⟩ := List.mem_map.1 hstep
    exact ⟨ih.1, ih.2.tail hb⟩

theorem mem_query_tagged_iff {tags : List ρ} {start : List (ρ × α)} (hrows : ∀ a, ∀ b ∈ next a, b ∈ rows)
    (htags : ∀ row ∈ start, row.1 ∈ tags) {size : ℕ} (hsize : start.length + tags.length * rows.length ≤ size) {r : ρ} :
    (r, b) ∈ query (tagged next) size start ↔ ∃ a, (r, a) ∈ start ∧ Relation.ReflTransGen (Leads next) a b := by
  have hclosed : ∀ row ∈ start ++ tags ×ˢ rows, ∀ row' ∈ tagged next row, row' ∈ start ++ tags ×ˢ rows := by
    intro row hrow row' hrow'
    obtain ⟨b, hb, rfl⟩ := List.mem_map.1 hrow'
    apply List.mem_append_right
    apply List.mem_product.2
    refine ⟨?_, hrows _ _ hb⟩
    rcases List.mem_append.1 hrow with hrow | hrow
    · exact htags row hrow
    · exact (List.mem_product.1 hrow).1
  have hlength : (start ++ tags ×ˢ rows).length ≤ size := by
    rw [List.length_append, List.length_product]
    exact hsize
  rw [mem_query_iff hclosed (fun row hrow => List.mem_append_left _ hrow) hlength]
  constructor
  · rintro ⟨⟨r', a⟩, hstart, hreach⟩
    obtain ⟨htag, hreach⟩ := reach_tagged hreach
    cases htag
    exact ⟨a, hstart, hreach⟩
  · rintro ⟨a, hstart, hreach⟩
    refine ⟨(r, a), hstart, hreach.lift (r, ·) ?_⟩
    intro c d hcd
    exact List.mem_map.2 ⟨d, hcd, rfl⟩

end Tagged

end RyanAI.Lib.RecursiveQuery
