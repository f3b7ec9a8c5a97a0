import Mathlib

/-!
# Tables with a primary key

A table is the list of its rows. Its key may be NULL, and rows whose key is NULL never collide. A row can be inserted in
three ways, which differ in what they do when there is a row of the same key: fail, do nothing, or replace it.

A loop that inserts row after row makes the table longer by at most one row a round. If the table has grown by as many
rows as there were rounds, nothing has collided, and the new rows stand at the end in their order (`foldlM_grows`).
-/

namespace RyanAI.Lib

structure SqlTable {R K : Type} (key : R → Option K) where
  rows : List R
  unique : (rows.filterMap key).Nodup

namespace SqlTable

variable {R K : Type} {key : R → Option K}

def empty : SqlTable key := ⟨[], List.nodup_nil⟩

/-- `SELECT COUNT(*)`. -/
def count (t : SqlTable key) : ℕ := t.rows.length

/-- `DELETE … WHERE`, of the rows that do not meet a condition to be kept. -/
def keep (p : R → Bool) (t : SqlTable key) : SqlTable key where
  rows := t.rows.filter p
  unique := t.unique.sublist (List.filter_sublist.filterMap key)

/-- The table has a row of the key of `row`. -/
def Taken (t : SqlTable key) (row : R) : Prop := ∃ k, key row = some k ∧ k ∈ t.rows.filterMap key

variable [DecidableEq K]

instance (t : SqlTable key) (row : R) : Decidable (t.Taken row) :=
  match h : key row with
  | none => isFalse (by rintro ⟨k, hk, -⟩; rw [h] at hk; cases hk)
  | some k => decidable_of_iff (k ∈ t.rows.filterMap key) (by simp [Taken, h])

def add (t : SqlTable key) (row : R) (h : ¬t.Taken row) : SqlTable key where
  rows := t.rows ++ [row]
  unique := by
    rw [List.filterMap_append, List.nodup_append]
    refine ⟨t.unique, ?_, ?_⟩
    · cases hkey : key row <;> simp [hkey]
    intro k hk k' hk' heq
    cases hkey : key row with
    | none => simp [hkey] at hk'
    | some k₀ =>
      simp only [List.filterMap_cons, hkey, List.filterMap_nil, List.mem_singleton] at hk'
      exact h ⟨k₀, hkey, hk' ▸ heq ▸ hk⟩

def replace (t : SqlTable key) (row : R) : SqlTable key where
  rows := t.rows.map fun row' => if key row' = key row then row else row'
  unique := by
    have hsame : (t.rows.map fun row' => if key row' = key row then row else row').filterMap key =
        t.rows.filterMap key := by
      rw [List.filterMap_map]
      apply List.filterMap_congr
      intro row' _
      simp only [Function.comp_apply]
      split
      · rename_i heq
        exact heq.symm
      · rfl
    rw [hsame]
    exact t.unique

/-- `INSERT`; `none` where the constraint fails. -/
def insert? (t : SqlTable key) (row : R) : Option (SqlTable key) := if h : t.Taken row then none else some (t.add row h)

/-- `INSERT OR IGNORE`. -/
def insertOrIgnore (t : SqlTable key) (row : R) : SqlTable key := if h : t.Taken row then t else t.add row h

/-- `INSERT … ON CONFLICT DO UPDATE` of every column. -/
def upsert (t : SqlTable key) (row : R) : SqlTable key := if h : t.Taken row then t.replace row else t.add row h

def Grows (t : SqlTable key) (row : R) (t' : SqlTable key) : Prop := t'.rows = t.rows ++ [row] ∨ t'.count = t.count

theorem grows_insert? {t t' : SqlTable key} {row : R} (h : t.insert? row = some t') : t.Grows row t' := by
  rw [insert?] at h
  split at h
  · cases h
  · cases h
    exact .inl rfl

theorem grows_insertOrIgnore (t : SqlTable key) (row : R) : t.Grows row (t.insertOrIgnore row) := by
  rw [insertOrIgnore]
  split
  · exact .inr rfl
  · exact .inl rfl

theorem grows_upsert (t : SqlTable key) (row : R) : t.Grows row (t.upsert row) := by
  rw [upsert]
  split
  · exact .inr (List.length_map _)
  · exact .inl rfl

end SqlTable

/-- A table grows by at most one row a round, and the new rows are those of the rounds if each has
grown it. -/
theorem SqlTable.foldlM_grows {R K A ε : Type} {key : R → Option K} {image : A → R → Prop}
    {step : SqlTable key → A → Except ε (SqlTable key)}
    (hstep : ∀ t a t', step t a = .ok t' → (∃ row, image a row ∧ t'.rows = t.rows ++ [row]) ∨ t'.count = t.count)
    {as : List A} {t t' : SqlTable key} (h : as.foldlM step t = .ok t') :
    t'.count ≤ t.count + as.length ∧
      (t'.count = t.count + as.length → ∃ rows, List.Forall₂ image as rows ∧ t'.rows = t.rows ++ rows) := by
  induction as generalizing t with
  | nil =>
    cases h
    exact ⟨le_rfl, fun _ => ⟨[], .nil, (List.append_nil _).symm⟩⟩
  | cons a rest ih =>
    rw [List.foldlM_cons] at h
    cases hfirst : step t a with
    | error e =>
      rw [hfirst] at h
      cases h
    | ok t₁ =>
      rw [hfirst] at h
      obtain ⟨hle, hrows⟩ := ih h
      rw [List.length_cons]
      rcases hstep t a t₁ hfirst with ⟨row, himage, hrow⟩ | hsame
      · have hcount : t₁.count = t.count + 1 := by rw [count, hrow, List.length_append]; rfl
        refine ⟨by omega, fun heq => ?_⟩
        obtain ⟨rows, hall, htail⟩ := hrows (by omega)
        refine ⟨row :: rows, .cons himage hall, ?_⟩
        rw [htail, hrow, List.append_assoc, List.singleton_append]
      · -- a round that does not grow the table leaves it short for good
        exact ⟨by omega, fun heq => by omega⟩

end RyanAI.Lib
