import Mathlib.Algebra.BigOperators.Group.Finset.Basic
import Mathlib.Tactic.Abel
import RyanAI.Lib.OrderedMap

/-!
# Tallies

A tally adds up amounts by key, as `defaultdict(int)` does with `tally[key] += amount`. The addition is that of
the numbers the program uses, which may round: the tally holds the running sum of each key (`Runs`). Where it is
exact, the values of the tally grow by every amount in total (`total_bump_add`).
-/

namespace RyanAI.Lib.Tally

universe u v

variable {κ : Type u} [DecidableEq κ] {M : Type v} [AddCommGroup M]

/-- `tally[key] += amount`. -/
def bump (add : M → M → M) (key : κ) (amount : M) (tally : OrderedMap κ M) : OrderedMap κ M :=
  OrderedMap.set key (add ((OrderedMap.get key tally).getD 0) amount) tally

def total (tally : OrderedMap κ M) : M := (tally.map Prod.snd).sum

/-- The amounts of a key, added up in their order. -/
def runOf (add : M → M → M) (key : κ) (entries : List (κ × M)) : M :=
  ((entries.filter fun entry => entry.1 = key).map Prod.snd).foldl add 0

theorem total_set (key : κ) (value : M) (tally : OrderedMap κ M) :
    total (OrderedMap.set key value tally) = total tally - (OrderedMap.get key tally).getD 0 + value := by
  induction tally with
  | nil => simp [total, OrderedMap.set, OrderedMap.get]
  | cons entry rest ih =>
    obtain ⟨key', value'⟩ := entry
    simp only [total] at ih
    rw [OrderedMap.set, OrderedMap.get]
    split
    · simp [total]
      abel
    · rw [total, total, List.map_cons, List.map_cons, List.sum_cons, List.sum_cons, ih]
      abel

theorem total_bump_add (key : κ) (amount : M) (tally : OrderedMap κ M) :
    total (bump (· + ·) key amount tally) = total tally + amount := by
  rw [bump, total_set]
  abel

/-- The tally of the entries. -/
structure Runs (add : M → M → M) (entries : List (κ × M)) (tally : OrderedMap κ M) : Prop where
  sums : ∀ key, (OrderedMap.get key tally).getD 0 = runOf add key entries
  total : total tally = ∑ key ∈ (entries.map Prod.fst).toFinset, runOf add key entries

variable {add : M → M → M} {key key' : κ} {entries : List (κ × M)} {tally : OrderedMap κ M}

theorem runs_nil : Runs add ([] : List (κ × M)) [] := ⟨fun _ => rfl, rfl⟩

theorem runOf_append_self (key : κ) (amount : M) (entries : List (κ × M)) :
    runOf add key (entries ++ [(key, amount)]) = add (runOf add key entries) amount := by
  simp [runOf]

theorem runOf_append_of_ne (hne : key' ≠ key) (amount : M) (entries : List (κ × M)) :
    runOf add key' (entries ++ [(key, amount)]) = runOf add key' entries := by
  simp [runOf, Ne.symm hne]

theorem runOf_of_not_mem (h : key ∉ entries.map Prod.fst) : runOf add key entries = 0 := by
  have hnone : (entries.filter fun entry => entry.1 = key) = [] := by
    rw [List.filter_eq_nil_iff]
    intro entry hentry hkey
    exact h (List.mem_map.2 ⟨entry, hentry, by simpa using hkey⟩)
  rw [runOf, hnone]
  rfl

theorem Runs.bump (h : Runs add entries tally) (key : κ) (amount : M) :
    Runs add (entries ++ [(key, amount)]) (bump add key amount tally) where
  sums := by
    intro key'
    rw [Tally.bump, OrderedMap.get_set]
    split
    · rename_i hkey
      subst hkey
      rw [Option.getD_some, h.sums, runOf_append_self]
    · rename_i hkey
      rw [h.sums, runOf_append_of_ne hkey]
  total := by
    have hothers : ∑ k ∈ (entries.map Prod.fst).toFinset, runOf add k entries =
        runOf add key entries + ∑ k ∈ (entries.map Prod.fst).toFinset.erase key, runOf add k entries := by
      by_cases hmem : key ∈ (entries.map Prod.fst).toFinset
      · exact (Finset.add_sum_erase _ _ hmem).symm
      · rw [Finset.erase_eq_of_notMem hmem, runOf_of_not_mem (by simpa using hmem), zero_add]
    have hkeys : ((entries ++ [(key, amount)]).map Prod.fst).toFinset =
        insert key ((entries.map Prod.fst).toFinset.erase key) := by
      ext k
      by_cases hk : k = key <;> simp [hk]
    -- only the running sum of the key changes
    rw [hkeys, Finset.sum_insert (Finset.notMem_erase _ _), runOf_append_self, Tally.bump, total_set, h.sums,
      h.total, hothers]
    have hsame : ∑ k ∈ (entries.map Prod.fst).toFinset.erase key, runOf add k (entries ++ [(key, amount)]) =
        ∑ k ∈ (entries.map Prod.fst).toFinset.erase key, runOf add k entries :=
      Finset.sum_congr rfl fun k hk => runOf_append_of_ne (Finset.ne_of_mem_erase hk) amount entries
    rw [hsame]
    abel

end RyanAI.Lib.Tally
