import Mathlib.Tactic
import Mathlib.Algebra.Order.BigOperators.Group.List

/-!
# Sums over a dictionary

A dictionary as a list of keys with values, under any comparison of keys. Writing a value under a key
that is there replaces the value it had, so the sum of the values grows by less than what was written.
Positive values written one after another add up to the sum of the dictionary exactly when no key is
met again (`sum_writeAll_eq_iff`).
-/

namespace RyanAI.Lib.KeyedSum

universe u v

variable {κ : Type u} {ν : Type v} (same : κ → κ → Bool)

def write (key : κ) (value : ν) : List (κ × ν) → List (κ × ν)
  | [] => [(key, value)]
  | (key', value') :: rest =>
    if same key' key then (key', value) :: rest else (key', value') :: write key value rest

def writeAll (entries dict : List (κ × ν)) : List (κ × ν) :=
  entries.foldl (fun dict entry => write same entry.1 entry.2 dict) dict

def Fresh (dict : List (κ × ν)) (key : κ) : Prop := ∀ entry ∈ dict, same entry.1 key = false

variable {same}

@[simp]
theorem writeAll_nil (dict : List (κ × ν)) : writeAll same [] dict = dict := rfl

@[simp]
theorem writeAll_cons (entry : κ × ν) (rest dict : List (κ × ν)) :
    writeAll same (entry :: rest) dict = writeAll same rest (write same entry.1 entry.2 dict) := rfl

variable {dict entries : List (κ × ν)} {key : κ}

theorem fresh_concat {entry : κ × ν} :
    Fresh same (dict ++ [entry]) key ↔ Fresh same dict key ∧ same entry.1 key = false := by
  simp [Fresh, or_imp, forall_and]

theorem write_of_fresh (h : Fresh same dict key) (value : ν) : write same key value dict = dict ++ [(key, value)] := by
  induction dict with
  | nil => rfl
  | cons entry rest ih =>
    obtain ⟨hentry, hrest⟩ := List.forall_mem_cons.1 h
    obtain ⟨key', value'⟩ := entry
    rw [write, hentry, if_neg Bool.false_ne_true, ih hrest, List.cons_append]

theorem write_ne_nil (dict : List (κ × ν)) (key : κ) (value : ν) : write same key value dict ≠ [] := by
  cases dict with
  | nil => simp [write]
  | cons entry rest =>
    unfold write
    split <;> simp

theorem writeAll_eq_nil : writeAll same entries dict = [] ↔ entries = [] ∧ dict = [] := by
  induction entries generalizing dict with
  | nil => simp
  | cons entry rest ih => simp [ih, write_ne_nil]

section Sum

variable [AddCommGroup ν] [LinearOrder ν] [IsOrderedAddMonoid ν]

section

variable (h : ∀ entry ∈ dict, 0 < entry.2)

include h

omit [IsOrderedAddMonoid ν] in
theorem pos_write {value : ν} (hvalue : 0 < value) : ∀ entry ∈ write same key value dict, 0 < entry.2 := by
  induction dict with
  | nil => simpa [write] using hvalue
  | cons entry rest ih =>
    obtain ⟨hentry, hrest⟩ := List.forall_mem_cons.1 h
    obtain ⟨key', value'⟩ := entry
    unfold write
    split
    · exact List.forall_mem_cons.2 ⟨hvalue, hrest⟩
    · exact List.forall_mem_cons.2 ⟨hentry, ih hrest⟩

theorem sum_write_lt (value : ν) (hkey : ¬ Fresh same dict key) :
    ((write same key value dict).map Prod.snd).sum < (dict.map Prod.snd).sum + value := by
  induction dict with
  | nil => exact absurd (by simp [Fresh]) hkey
  | cons entry rest ih =>
    obtain ⟨hentry, hrest⟩ := List.forall_mem_cons.1 h
    obtain ⟨key', value'⟩ := entry
    unfold write
    by_cases hsame : same key' key = true
    · rw [if_pos hsame, List.map_cons, List.sum_cons, List.map_cons, List.sum_cons,
        add_comm value, add_assoc]
      exact lt_add_of_pos_left _ hentry
    · have hrest' : ¬ Fresh same rest key := by
        intro hfresh
        exact hkey (List.forall_mem_cons.2 ⟨by simpa using hsame, hfresh⟩)
      rw [if_neg hsame, List.map_cons, List.sum_cons, List.map_cons, List.sum_cons, add_assoc]
      exact add_lt_add_right (ih hrest hrest') _

theorem sum_write_le (key : κ) (value : ν) :
    ((write same key value dict).map Prod.snd).sum ≤ (dict.map Prod.snd).sum + value := by
  by_cases hkey : Fresh same dict key
  · rw [write_of_fresh hkey, List.map_append, List.sum_append]
    simp
  · exact (sum_write_lt h value hkey).le

section

variable (hentries : ∀ entry ∈ entries, 0 < entry.2)

include hentries

theorem sum_writeAll_le :
    ((writeAll same entries dict).map Prod.snd).sum ≤ (dict.map Prod.snd).sum + (entries.map Prod.snd).sum := by
  induction entries generalizing dict with
  | nil => simp
  | cons entry rest ih =>
    obtain ⟨hentry, hrest⟩ := List.forall_mem_cons.1 hentries
    calc ((writeAll same (entry :: rest) dict).map Prod.snd).sum
        ≤ ((write same entry.1 entry.2 dict).map Prod.snd).sum + (rest.map Prod.snd).sum :=
          ih (pos_write h hentry) hrest
      _ ≤ ((dict.map Prod.snd).sum + entry.2) + (rest.map Prod.snd).sum := add_le_add_left (sum_write_le h _ _) _
      _ = (dict.map Prod.snd).sum + ((entry :: rest).map Prod.snd).sum := by
          rw [List.map_cons, List.sum_cons, add_assoc]

theorem sum_writeAll_eq_iff : ((writeAll same entries dict).map Prod.snd).sum =
        (dict.map Prod.snd).sum + (entries.map Prod.snd).sum ↔
      (∀ entry ∈ entries, Fresh same dict entry.1) ∧ entries.Pairwise fun a b => same a.1 b.1 = false := by
  induction entries generalizing dict with
  | nil => simp
  | cons entry rest ih =>
    obtain ⟨hentry, hrest⟩ := List.forall_mem_cons.1 hentries
    have hpos : ∀ e ∈ write same entry.1 entry.2 dict, 0 < e.2 := pos_write h hentry
    rw [writeAll_cons, List.map_cons, List.sum_cons, ← add_assoc]
    by_cases hkey : Fresh same dict entry.1
    · have hsum : (dict.map Prod.snd).sum + entry.2 =
          ((write same entry.1 entry.2 dict).map Prod.snd).sum := by
        rw [write_of_fresh hkey]
        simp
      rw [hsum, ih hpos hrest, write_of_fresh hkey, List.pairwise_cons, List.forall_mem_cons]
      simp only [fresh_concat, forall_and]
      tauto
    · refine iff_of_false (fun heq => ?_) fun hfresh => hkey (hfresh.1 entry List.mem_cons_self)
      have hle : ((writeAll same rest (write same entry.1 entry.2 dict)).map Prod.snd).sum ≤ _ :=
        sum_writeAll_le hpos hrest
      exact absurd heq (hle.trans_lt (add_lt_add_left (sum_write_lt h entry.2 hkey) _)).ne

omit [IsOrderedAddMonoid ν] in
theorem pos_writeAll : ∀ entry ∈ writeAll same entries dict, 0 < entry.2 := by
  induction entries generalizing dict with
  | nil => exact h
  | cons entry rest ih =>
    obtain ⟨hentry, hrest⟩ := List.forall_mem_cons.1 hentries
    exact ih (pos_write h hentry) hrest

end

theorem sum_nonneg_of_pos : 0 ≤ (dict.map Prod.snd).sum := by
  apply List.sum_nonneg
  intro value hvalue
  obtain ⟨entry, hentry, rfl⟩ := List.mem_map.1 hvalue
  exact (h entry hentry).le

theorem sum_eq_zero_iff : (dict.map Prod.snd).sum = 0 ↔ dict = [] := by
  cases dict with
  | nil => simp
  | cons entry rest =>
    obtain ⟨hentry, hrest⟩ := List.forall_mem_cons.1 h
    rw [List.map_cons, List.sum_cons]
    refine iff_of_false (add_pos_of_pos_of_nonneg hentry (sum_nonneg_of_pos hrest)).ne' ?_
    exact List.cons_ne_nil _ _

end

theorem sum_filter_le_and_eq_iff (h : ∀ entry ∈ entries, 0 < entry.2) (p : κ × ν → Bool) :
    ((entries.filter p).map Prod.snd).sum ≤ (entries.map Prod.snd).sum ∧
      (((entries.filter p).map Prod.snd).sum = (entries.map Prod.snd).sum ↔ ∀ entry ∈ entries, p entry = true) := by
  induction entries with
  | nil => simp
  | cons entry rest ih =>
    obtain ⟨hentry, hrest⟩ := List.forall_mem_cons.1 h
    obtain ⟨hle, heq⟩ := ih hrest
    rw [List.forall_mem_cons, ← heq]
    by_cases hp : p entry = true
    · rw [List.filter_cons_of_pos hp]
      simp only [List.map_cons, List.sum_cons, add_right_inj, hp, true_and]
      exact ⟨add_le_add_right hle _, trivial⟩
    · rw [List.filter_cons_of_neg hp, List.map_cons, List.sum_cons]
      have hlt : ((rest.filter p).map Prod.snd).sum < entry.2 + (rest.map Prod.snd).sum :=
        hle.trans_lt (lt_add_of_pos_left _ hentry)
      exact ⟨hlt.le, iff_of_false hlt.ne fun hand => hp hand.1⟩

theorem sum_written_eq_iff (h : ∀ entry ∈ entries, 0 < entry.2) (p : κ × ν → Bool) :
    ((writeAll same (entries.filter p) []).map Prod.snd).sum = (entries.map Prod.snd).sum ↔
      (∀ entry ∈ entries, p entry = true) ∧ entries.Pairwise fun a b => same a.1 b.1 = false := by
  have hfilter : ∀ entry ∈ entries.filter p, 0 < entry.2 := fun e he => h e (List.mem_of_mem_filter he)
  have hnil : ∀ entry ∈ ([] : List (κ × ν)), 0 < entry.2 := by simp
  obtain ⟨hle, heq⟩ := sum_filter_le_and_eq_iff h p
  have hwrite : ((writeAll same (entries.filter p) []).map Prod.snd).sum ≤
      ((entries.filter p).map Prod.snd).sum := by
    simpa using sum_writeAll_le hnil hfilter
  have hiff : ((writeAll same (entries.filter p) []).map Prod.snd).sum =
      ((entries.filter p).map Prod.snd).sum ↔ (entries.filter p).Pairwise fun a b => same a.1 b.1 = false := by
    simpa [Fresh] using sum_writeAll_eq_iff hnil hfilter
  constructor
  · intro hsum
    have hall := heq.1 (le_antisymm hle (hsum ▸ hwrite))
    refine ⟨hall, ?_⟩
    rw [List.filter_eq_self.2 hall] at hiff hsum
    exact hiff.1 hsum
  · rintro ⟨hall, hpairwise⟩
    rw [List.filter_eq_self.2 hall] at hiff ⊢
    exact hiff.2 hpairwise

end Sum

end RyanAI.Lib.KeyedSum
