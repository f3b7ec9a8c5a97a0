import Mathlib.Tactic
import Mathlib.Data.List.Nodup

/-!
# A uniquely keyed table under READ COMMITTED

Each row keeps its committed version and at most one uncommitted one, tagged with the transaction that wrote it; that
tag is the row lock. A transaction sees its own uncommitted version and otherwise the committed one. An `UPDATE` tests
its `WHERE` clause on the visible version and waits while another transaction holds the row; an `INSERT` waits for an
uncommitted row with the same key and conflicts with a committed one. Statements are atomic.

The table is a plain list, so that the unique constraint is a theorem (`UniqueKeys`). All reasoning goes through
`committedAt` and `pendingAt`; `Untouched j` says that what the locks of `j` cover is not changed by any other
transaction.
-/

namespace RyanAI.Lib.ReadCommitted

universe u v

variable {κ : Type u} {α : Type v}

structure Row (κ : Type u) (α : Type v) where
  key : κ
  committed : Option α
  pending : Option (Nat × α)
  deriving DecidableEq

abbrev Table (κ : Type u) (α : Type v) := List (Row κ α)

namespace Row

/-- Another transaction than `t` holds the row. -/
def locked (t : Nat) (r : Row κ α) : Bool :=
  match r.pending with
  | some (owner, _) => owner != t
  | none => false

/-- The version that transaction `t` reads. -/
def visible (t : Nat) (r : Row κ α) : Option α :=
  match r.pending with
  | some (owner, v) => if owner = t then some v else r.committed
  | none => r.committed

def commit (t : Nat) (r : Row κ α) : Row κ α :=
  match r.pending with
  | some (owner, v) => if owner = t then ⟨r.key, some v, none⟩ else r
  | none => r

def rollback (t : Nat) (r : Row κ α) : Row κ α :=
  match r.pending with
  | some (owner, _) => if owner = t then ⟨r.key, r.committed, none⟩ else r
  | none => r

def exists? (r : Row κ α) : Bool := r.committed.isSome || r.pending.isSome

@[simp] theorem key_commit (t : Nat) (r : Row κ α) : (r.commit t).key = r.key := by
  rw [commit]
  split
  · split <;> rfl
  · rfl

@[simp] theorem key_rollback (t : Nat) (r : Row κ α) : (r.rollback t).key = r.key := by
  rw [rollback]
  split
  · split <;> rfl
  · rfl

end Row

inductive Update (κ : Type u) (α : Type v) where
  | waits
  | fails
  | rows (count : Nat) (tbl : Table κ α)

/-- The result of an `INSERT`. -/
inductive Insert (κ : Type u) (α : Type v) where
  | waits
  | conflict
  | done (tbl : Table κ α)

/-- Write an uncommitted version of the row with key `k`. -/
def write [DecidableEq κ] (t : Nat) (k : κ) (v : α) (tbl : Table κ α) : Table κ α :=
  tbl.map fun r => if r.key = k then { r with pending := some (t, v) } else r

/-- The row with key `k`. -/
def row [DecidableEq κ] (tbl : Table κ α) (k : κ) : Option (Row κ α) := tbl.find? fun r => r.key = k

/-- The committed value of key `k`. -/
def committedAt [DecidableEq κ] (tbl : Table κ α) (k : κ) : Option α := (row tbl k).bind Row.committed

/-- The uncommitted value of key `k`, with its transaction. -/
def pendingAt [DecidableEq κ] (tbl : Table κ α) (k : κ) : Option (Nat × α) := (row tbl k).bind Row.pending

/-- `SELECT … WHERE key = k` in transaction `t`. -/
def select [DecidableEq κ] (t : Nat) (k : κ) (tbl : Table κ α) : Option α := (row tbl k).bind (Row.visible t)

/-- `UPDATE … SET value = set value WHERE key = k AND cond value` -/
def update [DecidableEq κ] (t : Nat) (k : κ) (cond : α → Bool) (set : α → Option α) (tbl : Table κ α) : Update κ α :=
  match row tbl k with
  | none => .rows 0 tbl
  | some r =>
    match r.visible t with
    | none => .rows 0 tbl
    | some v =>
      -- a statement that waits is tried again, and then reads the condition on the row as it is by then
      if cond v then
        if r.locked t then .waits
        else
          match set v with
          | none => .fails
          | some v' => .rows 1 (write t k v' tbl)
      else .rows 0 tbl

/-- `SELECT … FOR UPDATE SKIP LOCKED`: a held row is passed over, another one is locked by an
unchanged version. -/
def lockSkipLocked [DecidableEq κ] (t : Nat) (k : κ) (tbl : Table κ α) : Option (α × Table κ α) :=
  (row tbl k).bind fun r =>
    if r.locked t then none else (r.visible t).map fun v => (v, write t k v tbl)

/-- `UPDATE … SET value = v` over the whole table in transaction `t`. -/
def updateAll (t : Nat) (v : α) (tbl : Table κ α) : Update κ α :=
  if tbl.any fun r => (r.visible t).isSome && r.locked t then .waits
  else
    .rows (tbl.countP fun r => (r.visible t).isSome)
      (tbl.map fun r => if (r.visible t).isSome then { r with pending := some (t, v) } else r)

/-- `UPDATE … SET value = set value WHERE cond value` in transaction `t`. -/
def updateWhere (t : Nat) (cond : α → Bool) (set : α → α) (tbl : Table κ α) : Update κ α :=
  if tbl.any fun r => (r.visible t).any cond && r.locked t then .waits
  else
    .rows (tbl.countP fun r => (r.visible t).any cond)
      (tbl.map fun r =>
        match r.visible t with
        | some v => if cond v then { r with pending := some (t, set v) } else r
        | none => r)

/-- `INSERT` of a row with key `k` in transaction `t`. -/
def insert [DecidableEq κ] (t : Nat) (k : κ) (v : α) (tbl : Table κ α) : Insert κ α :=
  match row tbl k with
  | none => .done (tbl ++ [⟨k, none, some (t, v)⟩])
  -- a row that another transaction has inserted may still go away
  | some r => if r.committed.isSome || !r.locked t then .conflict else .waits

def commit (t : Nat) (tbl : Table κ α) : Table κ α := tbl.map (Row.commit t)

/-- Drop the versions of transaction `t`; a row it had inserted disappears. -/
def rollback (t : Nat) (tbl : Table κ α) : Table κ α := (tbl.map (Row.rollback t)).filter Row.exists?

def UniqueKeys (tbl : Table κ α) : Prop := (tbl.map Row.key).Nodup

/-- Transaction `t` holds no row. -/
def HoldsNone [DecidableEq κ] (t : Nat) (tbl : Table κ α) : Prop := ∀ k v, pendingAt tbl k ≠ some (t, v)

/-- Transaction `t` holds the row `k`, with value `v`, and no other. -/
def HoldsOnly [DecidableEq κ] (t : Nat) (k : κ) (v : α) (tbl : Table κ α) : Prop :=
  pendingAt tbl k = some (t, v) ∧ ∀ k' v', pendingAt tbl k' = some (t, v') → k' = k

/-- What transaction `j` holds is unchanged, and no committed row gone. -/
structure Untouched [DecidableEq κ] (j : Nat) (tbl tbl' : Table κ α) : Prop where
  pending : ∀ k v, pendingAt tbl' k = some (j, v) ↔ pendingAt tbl k = some (j, v)
  committed : ∀ k v, pendingAt tbl k = some (j, v) → committedAt tbl' k = committedAt tbl k
  kept : ∀ k, (committedAt tbl k).isSome → (committedAt tbl' k).isSome

/-! ## Rows of the changed table -/

variable {tbl tbl' : Table κ α} {k : κ} {r : Row κ α} {t n j : Nat} {v : α} {cond : α → Bool}

section Rows

variable [DecidableEq κ]

theorem row_map {f : Row κ α → Row κ α} (hf : ∀ r, (f r).key = r.key) (tbl : Table κ α) (k : κ) :
    row (tbl.map f) k = (row tbl k).map f := by
  simp only [row, List.find?_map]
  congr 2
  funext r
  simp [hf]

theorem key_of_row (h : row tbl k = some r) : r.key = k := by
  simpa using List.find?_some h

theorem mem_of_row (h : row tbl k = some r) : r ∈ tbl := List.mem_of_find?_eq_some h

theorem row_eq_none_iff : row tbl k = none ↔ k ∉ tbl.map Row.key := by
  simp only [row, List.find?_eq_none, decide_eq_true_eq, List.mem_map, not_exists, not_and]

theorem row_of_mem (hu : UniqueKeys tbl) (h : r ∈ tbl) : row tbl r.key = some r := by
  induction tbl with
  | nil => simp at h
  | cons q rest ih =>
    simp only [UniqueKeys, List.map_cons, List.nodup_cons] at hu
    rcases List.mem_cons.1 h with rfl | hr
    · simp [row]
    · have hne : q.key ≠ r.key := fun he => hu.1 (he ▸ List.mem_map_of_mem hr)
      simpa [row, hne] using ih hu.2 hr

theorem row_filter (hu : UniqueKeys tbl) (p : Row κ α → Bool) (k : κ) :
    row (tbl.filter p) k = (row tbl k).filter p := by
  have hsub : UniqueKeys (tbl.filter p) := hu.sublist (List.filter_sublist.map _)
  cases hr : row tbl k with
  | none =>
    rw [row_eq_none_iff] at hr
    simp only [Option.filter_none, row_eq_none_iff]
    exact fun hk => hr ((List.filter_sublist.map _).subset hk)
  | some r =>
    obtain rfl := key_of_row hr
    by_cases hp : p r = true
    · rw [Option.filter_some_pos hp]
      exact row_of_mem hsub (List.mem_filter.2 ⟨mem_of_row hr, hp⟩)
    rw [Option.filter_some_neg (by simpa using hp), row_eq_none_iff]
    -- another row with the key would be the row itself
    intro hk
    obtain ⟨q, hq, hqr⟩ := List.mem_map.1 hk
    obtain ⟨hqm, hqp⟩ := List.mem_filter.1 hq
    have hrow := row_of_mem hu hqm
    rw [hqr, hr, Option.some.injEq] at hrow
    exact hp (hrow ▸ hqp)

theorem row_write (t : Nat) (k : κ) (v : α) (tbl : Table κ α) (k' : κ) : row (write t k v tbl) k' =
      (row tbl k').map fun r => if r.key = k then { r with pending := some (t, v) } else r :=
  row_map (fun r => by split <;> rfl) tbl k'

@[simp] theorem committedAt_write (t : Nat) (k : κ) (v : α) (tbl : Table κ α) (k' : κ) :
    committedAt (write t k v tbl) k' = committedAt tbl k' := by
  simp only [committedAt, row_write]
  cases row tbl k' with
  | none => rfl
  | some r =>
    simp only [Option.map_some, Option.bind_some]
    split <;> rfl

theorem pendingAt_write_of_ne (t : Nat) {k' : κ} (hk : k' ≠ k) (v : α) (tbl : Table κ α) :
    pendingAt (write t k v tbl) k' = pendingAt tbl k' := by
  simp only [pendingAt, row_write]
  cases hr : row tbl k' with
  | none => rfl
  | some r =>
    have hne : r.key ≠ k := by rw [key_of_row hr]; exact hk
    simp [hne]

theorem pendingAt_write_self (t : Nat) (v : α) (hr : row tbl k = some r) :
    pendingAt (write t k v tbl) k = some (t, v) := by
  simp [pendingAt, row_write, hr, key_of_row hr]

theorem pendingAt_write_cases {k' : κ} {owner : Nat} {w : α} (h : pendingAt (write t k v tbl) k' = some (owner, w)) :
    (owner = t ∧ w = v) ∨ pendingAt tbl k' = some (owner, w) := by
  by_cases hk : k' = k
  · subst hk
    cases hr : row tbl k' with
    | none => simp [pendingAt, row_write, hr] at h
    | some r =>
      rw [pendingAt_write_self t v hr] at h
      cases h
      exact .inl ⟨rfl, rfl⟩
  · rw [pendingAt_write_of_ne t hk] at h
    exact .inr h

theorem row_append_fresh (hk : row tbl k = none) (r : Row κ α) (hr : r.key = k) (k' : κ) :
    row (tbl ++ [r]) k' = if k' = k then some r else row tbl k' := by
  by_cases h : k' = k
  · subst h
    simp only [row] at hk
    simp [row, List.find?_append, hk, hr]
  · have hne : ¬ r.key = k' := by rw [hr]; exact fun he => h he.symm
    simp [row, List.find?_append, h, hne]

theorem committedAt_commit (t : Nat) (tbl : Table κ α) (k : κ) : committedAt (commit t tbl) k =
      match pendingAt tbl k with
      | some (owner, v) => if owner = t then some v else committedAt tbl k
      | none => committedAt tbl k := by
  simp only [committedAt, pendingAt, commit, row_map (Row.key_commit t)]
  cases row tbl k with
  | none => rfl
  | some r =>
    obtain ⟨key, com, pen⟩ := r
    cases pen with
    | none => rfl
    | some p =>
      by_cases h : p.1 = t <;> simp [Row.commit, h]

theorem pendingAt_commit (t : Nat) (tbl : Table κ α) (k : κ) :
    pendingAt (commit t tbl) k = (pendingAt tbl k).filter fun p => p.1 != t := by
  simp only [pendingAt, commit, row_map (Row.key_commit t)]
  cases row tbl k with
  | none => rfl
  | some r =>
    obtain ⟨key, com, pen⟩ := r
    cases pen with
    | none => rfl
    | some p =>
      by_cases h : p.1 = t <;> simp [Row.commit, h, Option.filter]

omit [DecidableEq κ] in
theorem UniqueKeys.map_rollback (hu : UniqueKeys tbl) (t : Nat) : UniqueKeys (tbl.map (Row.rollback t)) := by
  have hkeys : (tbl.map (Row.rollback t)).map Row.key = tbl.map Row.key := by simp
  simpa only [UniqueKeys, hkeys] using hu

theorem row_rollback (hu : UniqueKeys tbl) (t : Nat) (k : κ) :
    row (rollback t tbl) k = ((row tbl k).map (Row.rollback t)).filter Row.exists? := by
  rw [rollback, row_filter (hu.map_rollback t), row_map (Row.key_rollback t)]

theorem committedAt_rollback (hu : UniqueKeys tbl) (t : Nat) (k : κ) :
    committedAt (rollback t tbl) k = committedAt tbl k := by
  simp only [committedAt, row_rollback hu]
  cases row tbl k with
  | none => rfl
  | some r =>
    obtain ⟨key, com, pen⟩ := r
    cases pen with
    | none => cases com <;> rfl
    | some p =>
      by_cases h : p.1 = t <;> cases com <;> simp [Row.rollback, Row.exists?, Option.filter, h]

theorem pendingAt_rollback (hu : UniqueKeys tbl) (t : Nat) (k : κ) :
    pendingAt (rollback t tbl) k = (pendingAt tbl k).filter fun p => p.1 != t := by
  simp only [pendingAt, row_rollback hu]
  cases row tbl k with
  | none => rfl
  | some r =>
    obtain ⟨key, com, pen⟩ := r
    cases pen with
    | none => cases com <;> rfl
    | some p =>
      by_cases h : p.1 = t <;> cases com <;> simp [Row.rollback, Row.exists?, Option.filter, h]

end Rows

/-! ## What a statement can do -/

section Statements

variable [DecidableEq κ]

theorem row_isSome_of_visible (h : select t k tbl = some v) : ∃ r, row tbl k = some r := by
  simp only [select, Option.bind_eq_some_iff] at h
  obtain ⟨r, hr, -⟩ := h
  exact ⟨r, hr⟩

theorem select_of_holdsNone (h : HoldsNone t tbl) (k : κ) : select t k tbl = committedAt tbl k := by
  have hk := h k
  simp only [select, committedAt, pendingAt] at hk ⊢
  cases hr : row tbl k with
  | none => rfl
  | some r =>
    simp only [hr, Option.bind_some] at hk ⊢
    rw [Row.visible]
    split
    · rename_i owner v hp
      rw [hp] at hk
      rw [if_neg]
      rintro rfl
      exact hk v rfl
    · rfl

theorem select_of_pendingAt (h : pendingAt tbl k = some (t, v)) : select t k tbl = some v := by
  simp only [pendingAt, Option.bind_eq_some_iff] at h
  obtain ⟨r, hr, hp⟩ := h
  simp [select, hr, Row.visible, hp]

theorem pendingAt_or_committedAt_of_select (h : select t k tbl = some v) :
    pendingAt tbl k = some (t, v) ∨ committedAt tbl k = some v := by
  simp only [select, Option.bind_eq_some_iff] at h
  obtain ⟨r, hr, hv⟩ := h
  simp only [pendingAt, committedAt, hr, Option.bind_some]
  rw [Row.visible] at hv
  split at hv
  · rename_i owner w hp
    split at hv
    · rename_i ho
      subst ho
      simp only [Option.some.injEq] at hv
      exact Or.inl (by rw [hp, hv])
    · exact Or.inr hv
  · exact Or.inr hv

theorem update_rows {set : α → Option α} (h : update t k cond set tbl = .rows n tbl') :
    (n = 0 ∧ tbl' = tbl ∧ ∀ v, select t k tbl = some v → cond v = false) ∨
      ∃ v v', n = 1 ∧ select t k tbl = some v ∧ cond v = true ∧ set v = some v' ∧
        (∀ owner w, pendingAt tbl k = some (owner, w) → owner = t) ∧ tbl' = write t k v' tbl := by
  rw [update] at h
  split at h
  · rename_i hr
    simp only [Update.rows.injEq] at h
    exact Or.inl ⟨h.1.symm, h.2.symm, fun v hv => by simp [select, hr] at hv⟩
  rename_i r hr
  split at h
  · rename_i hv
    simp only [Update.rows.injEq] at h
    exact Or.inl ⟨h.1.symm, h.2.symm, fun v hs => by simp [select, hr, hv] at hs⟩
  rename_i v hv
  split at h
  · rename_i hc
    split at h
    · cases h
    rename_i hl
    split at h
    · cases h
    rename_i v' hs
    simp only [Update.rows.injEq] at h
    refine Or.inr ⟨v, v', h.1.symm, by simp [select, hr, hv], hc, hs, ?_, h.2.symm⟩
    intro owner w hp
    simp only [pendingAt, hr, Option.bind_some] at hp
    simpa [Row.locked, hp] using hl
  · rename_i hc
    simp only [Update.rows.injEq] at h
    refine Or.inl ⟨h.1.symm, h.2.symm, fun w hs => ?_⟩
    simp only [select, hr, Option.bind_some, hv] at hs
    cases hs
    simpa using hc

theorem lockSkipLocked_eq_some (h : lockSkipLocked t k tbl = some (v, tbl')) :
    select t k tbl = some v ∧ (∀ owner w, pendingAt tbl k = some (owner, w) → owner = t) ∧ tbl' = write t k v tbl := by
  simp only [lockSkipLocked, Option.bind_eq_some_iff] at h
  obtain ⟨r, hr, h⟩ := h
  split at h
  · cases h
  rename_i hl
  simp only [Option.map_eq_some_iff, Prod.mk.injEq] at h
  obtain ⟨w, hv, rfl, rfl⟩ := h
  refine ⟨by simp [select, hr, hv], fun owner w hp => ?_, rfl⟩
  simp only [pendingAt, hr, Option.bind_some] at hp
  simpa [Row.locked, hp] using hl

section

variable (h : insert t k v tbl = .done tbl')

include h

theorem insert_done : row tbl k = none ∧ tbl' = tbl ++ [⟨k, none, some (t, v)⟩] := by
  rw [insert] at h
  split at h
  · rename_i hr
    simp only [Insert.done.injEq] at h
    exact ⟨hr, h.symm⟩
  · split at h <;> cases h

theorem pendingAt_insert (k' : κ) : pendingAt tbl' k' = if k' = k then some (t, v) else pendingAt tbl k' := by
  obtain ⟨hr, rfl⟩ := insert_done h
  simp only [pendingAt, row_append_fresh hr ⟨k, none, some (t, v)⟩ rfl]
  split <;> rfl

theorem committedAt_insert (k' : κ) : committedAt tbl' k' = committedAt tbl k' := by
  obtain ⟨hr, rfl⟩ := insert_done h
  simp only [committedAt, row_append_fresh hr ⟨k, none, some (t, v)⟩ rfl]
  split
  · rename_i hk
    subst hk
    simp [hr]
  · rfl

theorem committedAt_of_insert : committedAt tbl k = none := by
  simp [committedAt, (insert_done h).1]

end

theorem updateAll_rows (h : updateAll t v tbl = .rows n tbl') (k : κ) : committedAt tbl' k = committedAt tbl k ∧
      (pendingAt tbl' k = pendingAt tbl k ∨
        (pendingAt tbl' k = some (t, v) ∧ ∀ owner w, pendingAt tbl k = some (owner, w) → owner = t)) := by
  rw [updateAll] at h
  split at h
  · cases h
  rename_i hfree
  simp only [Update.rows.injEq] at h
  obtain ⟨-, rfl⟩ := h
  have hkey : ∀ r : Row κ α,
      (if (r.visible t).isSome then { r with pending := some (t, v) } else r).key = r.key := by
    intro r
    split <;> rfl
  simp only [committedAt, pendingAt, row_map hkey]
  cases hr : row tbl k with
  | none => exact ⟨rfl, Or.inl rfl⟩
  | some r =>
    simp only [Option.map_some, Option.bind_some]
    by_cases hv : (r.visible t).isSome = true
    · simp only [hv, if_true]
      refine ⟨trivial, Or.inr ⟨trivial, fun owner w hp => ?_⟩⟩
      by_contra hne
      apply hfree
      rw [List.any_eq_true]
      exact ⟨r, mem_of_row hr, by simp [hv, Row.locked, hp, hne]⟩
    · simp only [hv]
      exact ⟨rfl, Or.inl rfl⟩

theorem committedAt_updateWhere {set : α → α} (h : updateWhere t cond set tbl = .rows n tbl') (k : κ) :
    committedAt tbl' k = committedAt tbl k := by
  rw [updateWhere] at h
  split at h
  · cases h
  simp only [Update.rows.injEq] at h
  obtain ⟨-, rfl⟩ := h
  simp only [committedAt]
  rw [row_map]
  · cases row tbl k with
    | none => rfl
    | some r =>
      simp only [Option.map_some, Option.bind_some]
      split
      · split <;> rfl
      · rfl
  · intro r
    split
    · split <;> rfl
    · rfl

section

variable (hu : UniqueKeys tbl)

include hu

theorem UniqueKeys.write (t : Nat) (k : κ) (v : α) : UniqueKeys (write t k v tbl) := by
  have hkeys : (ReadCommitted.write t k v tbl).map Row.key = tbl.map Row.key := by
    simp only [ReadCommitted.write, List.map_map]
    congr 1
    funext r
    simp only [Function.comp_apply]
    split <;> rfl
  simpa only [UniqueKeys, hkeys] using hu

theorem UniqueKeys.insert (h : insert t k v tbl = .done tbl') : UniqueKeys tbl' := by
  obtain ⟨hr, rfl⟩ := insert_done h
  rw [row_eq_none_iff] at hr
  simp only [UniqueKeys, List.map_append, List.map_cons, List.map_nil]
  refine List.nodup_append.2 ⟨hu, by simp, ?_⟩
  intro a ha b hb
  simp only [List.mem_singleton] at hb
  subst hb
  exact fun he => hr (he ▸ ha)

omit [DecidableEq κ] in
theorem UniqueKeys.updateAll (h : updateAll t v tbl = .rows n tbl') : UniqueKeys tbl' := by
  rw [ReadCommitted.updateAll] at h
  split at h
  · cases h
  simp only [Update.rows.injEq] at h
  obtain ⟨-, rfl⟩ := h
  have hkeys : (tbl.map fun r =>
      if (r.visible t).isSome then { r with pending := some (t, v) } else r).map Row.key =
      tbl.map Row.key := by
    simp only [List.map_map]
    congr 1
    funext r
    simp only [Function.comp_apply]
    split <;> rfl
  simpa only [UniqueKeys, hkeys] using hu

omit [DecidableEq κ] in
theorem UniqueKeys.updateWhere {set : α → α} (h : updateWhere t cond set tbl = .rows n tbl') : UniqueKeys tbl' := by
  rw [ReadCommitted.updateWhere] at h
  split at h
  · cases h
  simp only [Update.rows.injEq] at h
  obtain ⟨-, rfl⟩ := h
  have hkey : ∀ r : Row κ α, (Row.key ∘ fun r : Row κ α =>
      match r.visible t with
      | some v => if cond v then { r with pending := some (t, set v) } else r
      | none => r) r = r.key := by
    intro r
    simp only [Function.comp_apply]
    split
    · split <;> rfl
    · rfl
  rw [UniqueKeys, List.map_map, List.map_congr_left fun r _ => hkey r]
  exact hu

omit [DecidableEq κ] in
theorem UniqueKeys.commit (t : Nat) : UniqueKeys (commit t tbl) := by
  have hkeys : (ReadCommitted.commit t tbl).map Row.key = tbl.map Row.key := by
    simp [ReadCommitted.commit]
  simpa only [UniqueKeys, hkeys] using hu

omit [DecidableEq κ] in
theorem UniqueKeys.rollback (t : Nat) : UniqueKeys (rollback t tbl) :=
  (hu.map_rollback t).sublist (List.filter_sublist.map _)

end

/-! ### Locks held -/

theorem HoldsNone.write (h : HoldsNone t tbl) {w : α} (hk : select t k tbl = some w) :
    HoldsOnly t k v (write t k v tbl) := by
  obtain ⟨r, hr⟩ := row_isSome_of_visible hk
  refine ⟨pendingAt_write_self t v hr, fun k' v' hp => ?_⟩
  by_contra hne
  rw [pendingAt_write_of_ne t hne] at hp
  exact h k' v' hp

theorem HoldsOnly.write {v' : α} (h : HoldsOnly t k v tbl) : HoldsOnly t k v' (write t k v' tbl) := by
  obtain ⟨r, hr⟩ := row_isSome_of_visible (select_of_pendingAt h.1)
  refine ⟨pendingAt_write_self t v' hr, fun k' w hp => ?_⟩
  by_contra hne
  rw [pendingAt_write_of_ne t hne] at hp
  exact hne (h.2 k' w hp)

theorem HoldsNone.insert (h : HoldsNone t tbl) (hi : insert t k v tbl = .done tbl') : HoldsOnly t k v tbl' := by
  refine ⟨by simp [pendingAt_insert hi], fun k' v' hp => ?_⟩
  by_contra hne
  rw [pendingAt_insert hi, if_neg hne] at hp
  exact h k' v' hp

theorem holdsNone_of_forall (h : ∀ r ∈ tbl, r.pending = none) (t : Nat) : HoldsNone t tbl := by
  intro k v hp
  simp only [pendingAt, Option.bind_eq_some_iff] at hp
  obtain ⟨r, hr, hpending⟩ := hp
  rw [h r (mem_of_row hr)] at hpending
  cases hpending

theorem holdsNone_commit (t : Nat) (tbl : Table κ α) : HoldsNone t (commit t tbl) := by
  intro k v h
  rw [pendingAt_commit, Option.filter_eq_some_iff] at h
  simp at h

theorem holdsNone_rollback (hu : UniqueKeys tbl) (t : Nat) : HoldsNone t (rollback t tbl) := by
  intro k v h
  rw [pendingAt_rollback hu, Option.filter_eq_some_iff] at h
  simp at h

theorem committedAt_commit_of_pendingAt (h : pendingAt tbl k = some (t, v)) :
    committedAt (commit t tbl) k = some v := by
  simp [committedAt_commit, h]

theorem committedAt_commit_of_not_holds (h : ∀ v, pendingAt tbl k ≠ some (t, v)) :
    committedAt (commit t tbl) k = committedAt tbl k := by
  rw [committedAt_commit]
  split
  · rename_i owner v hp
    rw [if_neg]
    rintro rfl
    exact h v hp
  · rfl

theorem committedAt_commit_of_same (h : ∀ v, pendingAt tbl k = some (t, v) → committedAt tbl k = some v) :
    committedAt (commit t tbl) k = committedAt tbl k := by
  rw [committedAt_commit]
  split
  next owner v hp =>
    split
    next ho =>
      subst ho
      exact (h v hp).symm
    next => rfl
  next => rfl

theorem committedAt_commit_isSome (t : Nat) (h : (committedAt tbl k).isSome) :
    (committedAt (commit t tbl) k).isSome := by
  rw [committedAt_commit]
  split
  · split
    · rfl
    · exact h
  · exact h

theorem Untouched.refl (j : Nat) (tbl : Table κ α) : Untouched j tbl tbl :=
  ⟨fun _ _ => Iff.rfl, fun _ _ _ => rfl, fun _ h => h⟩

theorem untouched_write (hj : t ≠ j) (hk : ∀ owner w, pendingAt tbl k = some (owner, w) → owner = t) (v : α) :
    Untouched j tbl (write t k v tbl) := by
  refine ⟨fun k' w => ?_, fun k' w _ => committedAt_write t k v tbl k', fun k' h => by simpa using h⟩
  by_cases h : k' = k
  · subst h
    have hold : ∀ w, pendingAt tbl k' ≠ some (j, w) := fun w hp => hj (hk j w hp).symm
    cases hr : row tbl k' with
    | none => simp [pendingAt, row_write, hr]
    | some r =>
      rw [pendingAt_write_self t v hr]
      simp [hold, hj]
  · rw [pendingAt_write_of_ne t h]

theorem untouched_insert (hj : t ≠ j) (h : insert t k v tbl = .done tbl') : Untouched j tbl tbl' := by
  refine ⟨fun k' w => ?_, fun k' w _ => committedAt_insert h k', fun k' hs => ?_⟩
  swap
  · rwa [committedAt_insert h]
  rw [pendingAt_insert h]
  split
  · rename_i hk
    subst hk
    simp [pendingAt, (insert_done h).1, hj]
  · rfl

theorem untouched_updateAll (hj : t ≠ j) (h : updateAll t v tbl = .rows n tbl') : Untouched j tbl tbl' := by
  refine ⟨fun k w => ?_, fun k w _ => (updateAll_rows h k).1, fun k hs => ?_⟩
  swap
  · rwa [(updateAll_rows h k).1]
  rcases (updateAll_rows h k).2 with hp | ⟨hp, hfree⟩
  · rw [hp]
  rw [hp]
  constructor
  · intro he
    simp [hj] at he
  · intro he
    exact absurd (hfree j w he).symm hj

theorem untouched_commit (hj : t ≠ j) (tbl : Table κ α) : Untouched j tbl (commit t tbl) := by
  refine ⟨fun k w => ?_, fun k w hp => ?_, fun k hs => committedAt_commit_isSome t hs⟩
  · rw [pendingAt_commit, Option.filter_eq_some_iff]
    simp [hj.symm]
  · apply committedAt_commit_of_not_holds
    intro v hv
    rw [hp] at hv
    simp [hj.symm] at hv

theorem untouched_rollback (hj : t ≠ j) (hu : UniqueKeys tbl) : Untouched j tbl (rollback t tbl) := by
  refine ⟨fun k w => ?_, fun k w _ => committedAt_rollback hu t k, fun k hs => ?_⟩
  swap
  · rwa [committedAt_rollback hu]
  rw [pendingAt_rollback hu, Option.filter_eq_some_iff]
  simp [hj.symm]

theorem Untouched.holdsNone (h : Untouched j tbl tbl') (hn : HoldsNone j tbl) : HoldsNone j tbl' :=
  fun k v hp => hn k v ((h.pending k v).1 hp)

theorem Untouched.holdsOnly (h : Untouched j tbl tbl') (ho : HoldsOnly j k v tbl) : HoldsOnly j k v tbl' :=
  ⟨(h.pending k v).2 ho.1, fun k' v' hp => ho.2 k' v' ((h.pending k' v').1 hp)⟩

end Statements

end RyanAI.Lib.ReadCommitted
