import Mathlib.Tactic
import Mathlib.Algebra.BigOperators.Group.List.Basic

/-!
# Maps in insertion order

A map is the list of its entries; a new key goes to the end, a key that is set again keeps its place.
`get` reads a map, and `get_set` and `get_delete` say what the two updates do to it. `total f` adds up
`f` over the values; an update changes it by the difference at its key (`total_set`, `total_delete`).

A `KeyedTable` is a map whose keys are distinct, as the primary key of a database table makes them.
-/

namespace RyanAI.Lib

universe u v w

abbrev OrderedMap (α : Type u) (β : Type v) := List (α × β)

namespace OrderedMap

variable {α : Type u} {β : Type v} [DecidableEq α]

/-- `map.get(k)`. -/
def get (k : α) : OrderedMap α β → Option β
  | [] => none
  | (k', v) :: rest => if k' = k then some v else get k rest

/-- `map.set(k, v)`. -/
def set (k : α) (v : β) : OrderedMap α β → OrderedMap α β
  | [] => [(k, v)]
  | (k', v') :: rest => if k' = k then (k, v) :: rest else (k', v') :: set k v rest

/-- `map.delete(k)`. -/
def delete (k : α) (m : OrderedMap α β) : OrderedMap α β := m.filter fun entry => entry.1 ≠ k

def keys (m : OrderedMap α β) : List α := m.map Prod.fst

def Distinct (m : OrderedMap α β) : Prop := (keys m).Nodup

/-- The sum of `f` over the values. -/
def total (f : β → ℤ) (m : OrderedMap α β) : ℤ := (m.map fun entry => f entry.2).sum

theorem get_set (k k' : α) (v : β) (m : OrderedMap α β) : get k' (set k v m) = if k' = k then some v else get k' m := by
  induction m with
  | nil =>
    by_cases hk : k' = k
    · simp [get, set, hk]
    · simp [get, set, hk, Ne.symm hk]
  | cons entry rest ih =>
    obtain ⟨k₀, v₀⟩ := entry
    simp only [set]
    by_cases h₀ : k₀ = k
    · rw [if_pos h₀]
      by_cases hk : k' = k
      · simp [get, hk]
      · have hk₀ : k₀ ≠ k' := fun h => hk (h.symm.trans h₀)
        simp [get, hk, Ne.symm hk, hk₀]
    · rw [if_neg h₀]
      by_cases hk : k₀ = k'
      · have hne : k' ≠ k := fun h => h₀ (hk.trans h)
        simp [get, hk, hne]
      · simp only [get, if_neg hk, ih]

theorem get_delete (k k' : α) (m : OrderedMap α β) : get k' (delete k m) = if k' = k then none else get k' m := by
  induction m with
  | nil => simp [get, delete]
  | cons entry rest ih =>
    obtain ⟨k₀, v₀⟩ := entry
    by_cases h₀ : k₀ = k
    · have hskip : delete k ((k₀, v₀) :: rest) = delete k rest := by simp [delete, h₀]
      rw [hskip, ih]
      by_cases hk : k' = k
      · simp [hk]
      · have hne : k₀ ≠ k' := fun h => hk (h.symm.trans h₀)
        simp [get, hk, hne]
    · have hkeep : delete k ((k₀, v₀) :: rest) = (k₀, v₀) :: delete k rest := by
        simp [delete, h₀]
      rw [hkeep]
      by_cases hk : k₀ = k'
      · have hne : k' ≠ k := fun h => h₀ (hk.trans h)
        simp [get, hk, hne]
      · simp only [get, if_neg hk, ih]

variable {m : OrderedMap α β}

theorem mem_keys_iff : k ∈ keys m ↔ (get k m).isSome = true := by
  induction m with
  | nil => simp [keys, get]
  | cons entry rest ih =>
    obtain ⟨k₀, v₀⟩ := entry
    by_cases hk : k₀ = k
    · simp [keys, get, hk]
    · have ih' : k ∈ rest.map Prod.fst ↔ (get k rest).isSome = true := ih
      simp only [keys, List.map_cons, List.mem_cons, get, if_neg hk, ih', Ne.symm hk, false_or]

theorem mem_of_get (h : get k m = some v) : (k, v) ∈ m := by
  induction m with
  | nil => cases h
  | cons entry rest ih =>
    obtain ⟨k₀, v₀⟩ := entry
    simp only [get] at h
    split at h
    · rename_i hk
      cases h
      exact hk ▸ List.mem_cons_self
    · exact List.mem_cons_of_mem _ (ih h)

theorem get_of_mem (hd : Distinct m) (h : (k, v) ∈ m) : get k m = some v := by
  induction m with
  | nil => cases h
  | cons entry rest ih =>
    obtain ⟨k₀, v₀⟩ := entry
    simp only [Distinct, keys, List.map_cons, List.nodup_cons] at hd
    rcases List.mem_cons.1 h with heq | hrest
    · cases heq
      simp [get]
    have hne : k₀ ≠ k := by
      rintro rfl
      exact hd.1 (List.mem_map.2 ⟨(k₀, v), hrest, rfl⟩)
    rw [get, if_neg hne]
    exact ih hd.2 hrest

/-! ## Distinct keys -/

theorem keys_set_of_mem (v : β) (h : k ∈ keys m) : keys (set k v m) = keys m := by
  induction m with
  | nil => cases h
  | cons entry rest ih =>
    obtain ⟨k₀, v₀⟩ := entry
    simp only [set]
    split
    · rename_i hk
      simp [keys, hk]
    rename_i hk
    have hrest : k ∈ keys rest := by
      rcases List.mem_cons.1 h with heq | hrest
      · exact absurd heq.symm hk
      · exact hrest
    have ih' : (set k v rest).map Prod.fst = rest.map Prod.fst := ih hrest
    simp [keys, ih']

theorem set_of_not_mem (v : β) (h : k ∉ keys m) : set k v m = m ++ [(k, v)] := by
  induction m with
  | nil => rfl
  | cons entry rest ih =>
    obtain ⟨k₀, v₀⟩ := entry
    simp only [keys, List.map_cons, List.mem_cons, not_or] at h
    rw [set, if_neg (Ne.symm h.1), ih h.2]
    rfl

theorem Distinct.set (hd : Distinct m) (k : α) (v : β) : Distinct (OrderedMap.set k v m) := by
  by_cases hk : k ∈ keys m
  · rw [Distinct, keys_set_of_mem v hk]
    exact hd
  have hkeys : keys (m ++ [(k, v)]) = keys m ++ [k] := by simp [keys]
  rw [Distinct, set_of_not_mem v hk, hkeys]
  refine List.nodup_append.2 ⟨hd, List.nodup_singleton k, ?_⟩
  rintro a ha b hb rfl
  rw [List.mem_singleton.1 hb] at ha
  exact hk ha

theorem Distinct.delete (hd : Distinct m) (k : α) : Distinct (OrderedMap.delete k m) := by
  refine List.Nodup.sublist ?_ hd
  exact List.Sublist.map Prod.fst List.filter_sublist

variable {p : α × β → Bool}

theorem set_set (k : α) (v w : β) (m : OrderedMap α β) : set k w (set k v m) = set k w m := by
  induction m with
  | nil => simp [set]
  | cons entry rest ih =>
    obtain ⟨k₀, v₀⟩ := entry
    by_cases hk : k₀ = k
    · simp [set, hk]
    · simp only [set, if_neg hk, ih]

theorem find?_set_of_not (hd : Distinct m) (hp : p (k, v) = false) :
    (set k v m).find? p = m.find? fun entry => entry.1 ≠ k && p entry := by
  induction m with
  | nil => simp [set, hp]
  | cons entry rest ih =>
    obtain ⟨k₀, v₀⟩ := entry
    simp only [Distinct, keys, List.map_cons, List.nodup_cons] at hd
    by_cases hk : k₀ = k
    · -- the key does not occur again
      subst hk
      have hrest : ∀ entry ∈ rest, (entry.1 ≠ k₀ && p entry) = p entry := by
        intro entry hentry
        have hne : entry.1 ≠ k₀ := fun heq => hd.1 (heq ▸ List.mem_map.2 ⟨entry, hentry, rfl⟩)
        simp [hne]
      rw [set, if_pos rfl, List.find?_cons_of_neg (by simp [hp]), List.find?_cons_of_neg (by simp)]
      exact (List.find?_congr hrest).symm
    · rw [set, if_neg hk, List.find?_cons, List.find?_cons, ih hd.2]
      simp [hk]

theorem find?_set_of_eq (hget : get k m = some w) (hp : p (k, v) = p (k, w)) :
    ((set k v m).find? p).map Prod.fst = (m.find? p).map Prod.fst := by
  induction m with
  | nil => cases hget
  | cons entry rest ih =>
    obtain ⟨k₀, v₀⟩ := entry
    by_cases hk : k₀ = k
    · subst hk
      rw [get, if_pos rfl, Option.some.injEq] at hget
      subst hget
      rw [set, if_pos rfl, List.find?_cons, List.find?_cons, hp]
      cases p (k₀, v₀) <;> rfl
    · rw [get, if_neg hk] at hget
      rw [set, if_neg hk, List.find?_cons, List.find?_cons]
      cases p (k₀, v₀) with
      | true => rfl
      | false => exact ih hget

/-! ## Totals -/

def valueAt (f : β → ℤ) (k : α) (m : OrderedMap α β) : ℤ := ((get k m).map f).getD 0

theorem total_set (f : β → ℤ) (k : α) (v : β) (m : OrderedMap α β) :
    total f (set k v m) = total f m - valueAt f k m + f v := by
  induction m with
  | nil => simp [total, set, valueAt, get]
  | cons entry rest ih =>
    obtain ⟨k₀, v₀⟩ := entry
    simp only [set]
    by_cases hk : k₀ = k
    · simp only [if_pos hk, total, List.map_cons, List.sum_cons, valueAt, get, Option.map_some,
        Option.getD_some]
      ring
    · have ih' : ((set k v rest).map fun entry => f entry.2).sum =
          (rest.map fun entry => f entry.2).sum - valueAt f k rest + f v := ih
      simp only [if_neg hk, total, List.map_cons, List.sum_cons, ih', valueAt, get]
      ring

theorem total_delete (f : β → ℤ) (k : α) (hd : Distinct m) : total f (delete k m) = total f m - valueAt f k m := by
  induction m with
  | nil => simp [total, delete, valueAt, get]
  | cons entry rest ih =>
    obtain ⟨k₀, v₀⟩ := entry
    simp only [Distinct, keys, List.map_cons, List.nodup_cons] at hd
    have ih' := ih hd.2
    -- the entry is the first one, and there is no other of its key
    by_cases hk : k₀ = k
    · have hnone : get k rest = none := by
        have hmem : k ∉ keys rest := hk ▸ hd.1
        rw [mem_keys_iff] at hmem
        simpa using hmem
      have hskip : delete k ((k₀, v₀) :: rest) = delete k rest := by simp [delete, hk]
      rw [hskip, ih']
      simp only [valueAt, hnone, total, List.map_cons, List.sum_cons, get, if_pos hk, Option.map_some,
        Option.map_none, Option.getD_some, Option.getD_none]
      ring
    · have hkeep : delete k ((k₀, v₀) :: rest) = (k₀, v₀) :: delete k rest := by
        simp [delete, hk]
      rw [hkeep]
      simp only [total, List.map_cons, List.sum_cons] at ih' ⊢
      rw [ih']
      simp only [valueAt, get, if_neg hk]
      ring

omit [DecidableEq α] in
theorem eq_nil_of_total_eq_zero {f : β → ℤ} (hpos : ∀ entry ∈ m, 0 < f entry.2) (h : total f m = 0) : m = [] := by
  cases m with
  | nil => rfl
  | cons entry rest =>
    have hrest : 0 ≤ total f rest := by
      apply List.sum_nonneg
      intro x hx
      obtain ⟨e, he, rfl⟩ := List.mem_map.1 hx
      exact (hpos e (List.mem_cons_of_mem _ he)).le
    have hhead := hpos entry List.mem_cons_self
    simp only [total, List.map_cons, List.sum_cons] at h hrest
    omega

end OrderedMap

structure KeyedTable (α : Type u) (β : Type v) where
  entries : OrderedMap α β
  distinct : OrderedMap.Distinct entries

namespace KeyedTable

variable {α : Type u} {β : Type v}

def empty : KeyedTable α β := ⟨[], List.nodup_nil⟩

def filter (p : α → β → Bool) (t : KeyedTable α β) : KeyedTable α β where
  entries := t.entries.filter fun entry => p entry.1 entry.2
  distinct := List.Nodup.sublist (List.Sublist.map Prod.fst List.filter_sublist) t.distinct

def find? (p : β → Bool) (t : KeyedTable α β) : Option (α × β) := t.entries.find? fun entry => p entry.2

variable [DecidableEq α]

def get (k : α) (t : KeyedTable α β) : Option β := OrderedMap.get k t.entries

def set (k : α) (v : β) (t : KeyedTable α β) : KeyedTable α β := ⟨OrderedMap.set k v t.entries, t.distinct.set k v⟩

def delete (k : α) (t : KeyedTable α β) : KeyedTable α β := ⟨OrderedMap.delete k t.entries, t.distinct.delete k⟩

@[simp]
theorem get_empty (k : α) : (empty : KeyedTable α β).get k = none := rfl

@[simp]
theorem get_set (k k' : α) (v : β) (t : KeyedTable α β) : (t.set k v).get k' = if k' = k then some v else t.get k' :=
  OrderedMap.get_set k k' v t.entries

@[simp]
theorem get_delete (k k' : α) (t : KeyedTable α β) : (t.delete k).get k' = if k' = k then none else t.get k' :=
  OrderedMap.get_delete k k' t.entries

variable {t : KeyedTable α β}

theorem get_of_find? {p : β → Bool} {k : α} {v : β} (h : t.find? p = some (k, v)) : t.get k = some v ∧ p v = true := by
  have hmem := List.mem_of_find?_eq_some h
  have hp := List.find?_some h
  exact ⟨OrderedMap.get_of_mem t.distinct hmem, hp⟩

theorem not_of_find?_eq_none {p : β → Bool} (h : t.find? p = none) {k : α} {v : β}
    (hget : t.get k = some v) : p v = false := by
  have hmem := OrderedMap.mem_of_get hget
  simpa using List.find?_eq_none.1 h _ hmem

@[simp]
theorem get_filter (p : α → β → Bool) (k : α) (t : KeyedTable α β) : (t.filter p).get k = (t.get k).filter (p k) := by
  cases hget : t.get k with
  | some v =>
    have hmem := OrderedMap.mem_of_get hget
    by_cases hp : p k v = true
    · have hkept : (k, v) ∈ (t.filter p).entries := List.mem_filter.2 ⟨hmem, hp⟩
      rw [Option.filter_some_pos hp]
      exact OrderedMap.get_of_mem (t.filter p).distinct hkept
    rw [Option.filter_some_neg (Bool.not_eq_true _ ▸ hp)]
    cases hkept : (t.filter p).get k with
    | none => rfl
    | some w =>
      -- the only row of the key is the one that was dropped
      have hmem' := List.mem_filter.1 (OrderedMap.mem_of_get hkept)
      have hw := (OrderedMap.get_of_mem t.distinct hmem'.1).symm.trans hget
      cases hw
      exact absurd hmem'.2 hp
  | none =>
    cases hkept : (t.filter p).get k with
    | none => rfl
    | some w =>
      have hmem' := List.mem_filter.1 (OrderedMap.mem_of_get hkept)
      have hw := (OrderedMap.get_of_mem t.distinct hmem'.1).symm.trans hget
      cases hw

/-! ## Whole tables -/

def keys (t : KeyedTable α β) : List α := OrderedMap.keys t.entries

omit [DecidableEq α] in
theorem nodup_keys (t : KeyedTable α β) : t.keys.Nodup := t.distinct

theorem mem_keys : k ∈ t.keys ↔ (t.get k).isSome = true := OrderedMap.mem_keys_iff

theorem get_eq_some : t.get k = some v ↔ (k, v) ∈ t.entries := ⟨OrderedMap.mem_of_get, OrderedMap.get_of_mem t.distinct⟩

def map {γ : Type v} (f : α → β → γ) (t : KeyedTable α β) : KeyedTable α γ where
  entries := t.entries.map fun entry => (entry.1, f entry.1 entry.2)
  distinct := by
    have hkeys : OrderedMap.keys (t.entries.map fun entry => (entry.1, f entry.1 entry.2)) =
        OrderedMap.keys t.entries := by
      simp only [OrderedMap.keys, List.map_map]
      rfl
    rw [OrderedMap.Distinct, hkeys]
    exact t.distinct

omit [DecidableEq α] in
@[simp]
theorem keys_map {γ : Type v} (f : α → β → γ) (t : KeyedTable α β) : (t.map f).keys = t.keys := by
  simp only [keys, map, OrderedMap.keys, List.map_map]
  rfl

@[simp]
theorem get_map {γ : Type v} (f : α → β → γ) (k : α) (t : KeyedTable α β) : (t.map f).get k = (t.get k).map (f k) := by
  cases hget : t.get k with
  | some v =>
    apply get_eq_some.2
    exact List.mem_map.2 ⟨(k, v), get_eq_some.1 hget, rfl⟩
  | none =>
    have hmem : k ∉ (t.map f).keys := by
      rw [keys_map, mem_keys, hget]
      simp
    rw [mem_keys] at hmem
    simpa using hmem

def filterMap {γ : Type v} (f : α → β → Option γ) (t : KeyedTable α β) : KeyedTable α γ where
  entries := t.entries.filterMap fun entry => (f entry.1 entry.2).map fun v => (entry.1, v)
  distinct := by
    refine List.Nodup.sublist ?_ t.distinct
    induction t.entries with
    | nil => exact List.Sublist.refl _
    | cons entry rest ih =>
      simp only [OrderedMap.keys, List.filterMap_cons, List.map_cons] at ih ⊢
      cases hf : f entry.1 entry.2 with
      | none => exact ih.cons _
      | some v => exact ih.cons_cons _

@[simp]
theorem get_filterMap {γ : Type v} (f : α → β → Option γ) (k : α) (t : KeyedTable α β) :
    (t.filterMap f).get k = (t.get k).bind (f k) := by
  have hmem : ∀ w, (k, w) ∈ (t.filterMap f).entries ↔ ∃ v, (k, v) ∈ t.entries ∧ f k v = some w := by
    intro w
    simp only [filterMap, List.mem_filterMap, Option.map_eq_some_iff, Prod.mk.injEq]
    constructor
    · rintro ⟨⟨k', v⟩, hv, w', hf, rfl, rfl⟩
      exact ⟨v, hv, hf⟩
    · rintro ⟨v, hv, hf⟩
      exact ⟨(k, v), hv, w, hf, rfl, rfl⟩
  ext w
  rw [get_eq_some, hmem, Option.bind_eq_some_iff]
  simp only [get_eq_some]

@[simp]
theorem set_set (k : α) (v w : β) (t : KeyedTable α β) : (t.set k v).set k w = t.set k w := by
  simp only [set, OrderedMap.set_set]

/-- `{**t, **other}`. -/
def update (t other : KeyedTable α β) : KeyedTable α β :=
  other.entries.foldl (fun acc entry => acc.set entry.1 entry.2) t

@[simp]
theorem get_update (k : α) (t other : KeyedTable α β) : (t.update other).get k = (other.get k).or (t.get k) := by
  have hfold : ∀ (entries : OrderedMap α β), OrderedMap.Distinct entries → ∀ t : KeyedTable α β,
      (entries.foldl (fun acc entry => acc.set entry.1 entry.2) t).get k =
        (OrderedMap.get k entries).or (t.get k) := by
    intro entries
    induction entries with
    | nil =>
      intro _ t
      rfl
    | cons entry rest ih =>
      obtain ⟨k₀, v₀⟩ := entry
      intro hd t
      simp only [OrderedMap.Distinct, OrderedMap.keys, List.map_cons, List.nodup_cons] at hd
      rw [List.foldl_cons, ih hd.2, get_set]
      by_cases hk : k = k₀
      · -- the key does not occur again
        subst hk
        have hnone : OrderedMap.get k rest = none := by
          have hmem : k ∉ OrderedMap.keys rest := hd.1
          rw [OrderedMap.mem_keys_iff] at hmem
          simpa using hmem
        simp [OrderedMap.get, hnone]
      · simp [OrderedMap.get, hk, Ne.symm hk]
  exact hfold other.entries other.distinct t

end KeyedTable

end RyanAI.Lib
