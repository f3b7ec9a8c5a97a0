import Mathlib.Data.List.Sort
import RyanAI.Lib.Interleaving
import RyanAI.Lib.ReadCommitted

/-!
# Claiming due automations

`claim_due` of `models/automations.py`, run by any number of workers, statement by statement. On PostgreSQL the select
locks the rows it returns, passes over rows locked by another worker and tests its filter again on the version it
locks. On SQLite it opens no transaction: nothing ties the later `UPDATE` by primary key to the row that was read.

No due value of a row is claimed twice as long as each `UPDATE` puts the row off to a later time, or to none, and no
worker writes a row whose `next_run_at` another one has written since it was selected (`claimed_once`). The locks of
PostgreSQL see to the second, and nothing to the first: a recurrence that comes back with the same value leaves the row
due, and the value is not even written.
-/

namespace RyanAI.Automations

open RyanAI.Lib
open RyanAI.Lib.Interleaving
open RyanAI.Lib.ReadCommitted

inductive Dialect where
  | postgresql
  | sqlite
  deriving DecidableEq

/-- The columns that `claim_due` uses; `rrule` is `data.get('rrule', '')`. -/
structure Automation where
  user_id : String
  rrule : String
  is_active : Bool
  last_run_at : Option Int
  next_run_at : Option Int
  deriving DecidableEq

abbrev Loaded := String × Automation

/-- A loaded row with the `next_run_at` assigned to it. -/
structure Claimed where
  row : Loaded
  next_run_at : Option Int
  deriving DecidableEq

structure Claim where
  worker : Nat
  row : Loaded
  deriving DecidableEq

structure Db where
  automations : Table String Automation
  claims : List Claim
  deriving DecidableEq

/-- `RecurrenceEvaluationTimeout`, and every other exception of `next_run_ns`. -/
inductive RecurrenceError where
  | timeout
  | invalid
  deriving DecidableEq

inductive Worker where
  | idle
  | locking (now_ns : Int) (limit : Nat) (candidates : List String) (rows : List Loaded)
  | evaluating (now_ns : Int) (rows : List Loaded) (claimed : List Claimed)
  | flushing (now_ns : Int) (claimed flushed : List Claimed)
  deriving DecidableEq

inductive Choice (Moment : Type) where
  | poll (now_ns : Int) (limit : Nat)
  | proceed (moment : Moment)
  | abort

/-! ## The statements -/

/-- `Automation.is_active == True, Automation.next_run_at <= now_ns`. -/
def due (now_ns : Int) (row : Automation) : Bool :=
  row.is_active && row.next_run_at.any fun t => t ≤ now_ns

/-- The due rows that transaction `i` sees, by `next_run_at`. -/
def selectDue (i : Nat) (now_ns : Int) (tbl : Table String Automation) : List Loaded :=
  (tbl.filterMap fun r => ((r.visible i).filter (due now_ns)).map (Prod.mk r.key)).insertionSort
    fun a b => a.2.next_run_at.getD 0 ≤ b.2.next_run_at.getD 0

/-- `row.last_run_at = now_ns` and `row.next_run_at = next_run_at`; what the loaded row has already is not written. -/
def assign (now_ns : Int) (c : Claimed) (row : Automation) : Automation :=
  { row with
    last_run_at := if c.row.2.last_run_at = some now_ns then row.last_run_at else some now_ns
    next_run_at := if c.row.2.next_run_at = c.next_run_at then row.next_run_at else c.next_run_at }

/-- There is nothing to write, and no `UPDATE`. -/
def Claimed.unchanged (now_ns : Int) (c : Claimed) : Bool :=
  c.row.2.last_run_at = some now_ns ∧ c.row.2.next_run_at = c.next_run_at

/-- The `UPDATE` of one row; SQLite has one write lock. -/
def flush (dialect : Dialect) (i : Nat) (now_ns : Int) (c : Claimed) (tbl : Table String Automation) :
    Update String Automation :=
  if dialect = .sqlite && tbl.any (Row.locked i) then .waits
  else update i c.row.1 (fun _ => true) (fun row => some (assign now_ns c row)) tbl

def Db.rollback (i : Nat) (db : Db) : Db := { db with automations := ReadCommitted.rollback i db.automations }

def Db.commit (i : Nat) (flushed : List Claimed) (db : Db) : Db :=
  ⟨ReadCommitted.commit i db.automations, db.claims ++ flushed.map fun c => ⟨i, c.row⟩⟩

section

variable {Moment : Type}

/-- One step of `claim_due` in worker `i`. -/
def next (dialect : Dialect) (next_run_ns : String → Option String → Moment → Except RecurrenceError (Option Int))
    (timezone : String → Option String) (i : Nat) (db : Db) : Worker → Choice Moment → Option (Db × Worker)
  | .idle, .poll now_ns limit =>
    let rows := selectDue i now_ns db.automations
    match dialect with
    | .postgresql => some (db, .locking now_ns limit (rows.map Prod.fst) [])
    | .sqlite => some (db, .evaluating now_ns (rows.take limit) [])
  | .idle, _ => none
  | _, .poll _ _ => none
  -- an exception leaves the session, which rolls its transaction back
  | _, .abort => some (db.rollback i, .idle)
  | .locking now_ns limit (id :: candidates) rows, .proceed _ =>
    if rows.length < limit then
      match lockSkipLocked i id db.automations with
      | none => some (db, .locking now_ns limit candidates rows)
      | some (row, tbl) =>
        -- the filter is tested again on the locked version; the lock stays either way
        some ({ db with automations := tbl },
          .locking now_ns limit candidates (if due now_ns row then rows ++ [(id, row)] else rows))
    else some (db, .evaluating now_ns rows [])
  | .locking now_ns _ [] rows, .proceed _ => some (db, .evaluating now_ns rows [])
  | .evaluating now_ns (row :: rows) claimed, .proceed moment =>
    match next_run_ns row.2.rrule (timezone row.2.user_id) moment with
    | .ok next_run_at => some (db, .evaluating now_ns rows (claimed ++ [⟨row, next_run_at⟩]))
    | .error .timeout => some (db, .evaluating now_ns rows claimed)
    | .error .invalid => some (db.rollback i, .idle)
  | .evaluating now_ns [] claimed, .proceed _ => some (db, .flushing now_ns claimed [])
  | .flushing now_ns (c :: claimed) flushed, .proceed _ =>
    if c.unchanged now_ns then some (db, .flushing now_ns claimed (flushed ++ [c]))
    else
      match flush dialect i now_ns c db.automations with
      | .waits => none
      -- a row that has gone is a `StaleDataError`
      | .fails | .rows 0 _ => some (db.rollback i, .idle)
      | .rows _ tbl => some ({ db with automations := tbl }, .flushing now_ns claimed (flushed ++ [c]))
  | .flushing _ [] flushed, .proceed _ => some (db.commit i flushed, .idle)

end

/-- No `next_run_at` of a row has been claimed twice. -/
def ClaimedOnce (db : Db) : Prop := (db.claims.map fun c => (c.row.1, c.row.2.next_run_at)).Nodup

instance (db : Db) : Decidable (ClaimedOnce db) := inferInstanceAs (Decidable (List.Nodup _))

/-- A row that was due is due later, or not again. -/
def later (old new : Option Int) : Bool := old.any fun s => new.all fun t => s < t

/-- The next `UPDATE` of the worker puts the row off, and on SQLite it finds the `next_run_at` that was selected. -/
def PutsOff (dialect : Dialect) (i : Nat) (db : Db) : Worker → Prop
  | .flushing _ (c :: _) _ =>
    later c.row.2.next_run_at c.next_run_at = true ∧
      (dialect = .sqlite → (select i c.row.1 db.automations).all fun row => row.next_run_at = c.row.2.next_run_at)
  | _ => True

instance (dialect : Dialect) (i : Nat) (db : Db) : (w : Worker) → Decidable (PutsOff dialect i db w)
  | .flushing _ (_ :: _) _ => inferInstanceAs (Decidable (_ ∧ (_ → _)))
  | .flushing _ [] _ | .idle | .locking _ _ _ _ | .evaluating _ _ _ => inferInstanceAs (Decidable True)

structure Initial (db : Db) : Prop where
  keys : UniqueKeys db.automations
  free : ∀ i, HoldsNone i db.automations
  claims : db.claims = []

structure Consistent (db : Db) : Prop where
  keys : UniqueKeys db.automations
  replaced : ∀ c ∈ db.claims, ∃ row, committedAt db.automations c.row.1 = some row ∧
    later c.row.2.next_run_at row.next_run_at = true
  once : ClaimedOnce db

/-- Transaction `i` has not written `kept` yet; on PostgreSQL it has locked them. -/
structure HoldsRows (dialect : Dialect) (i : Nat) (kept : List Loaded) (flushed : List Claimed)
    (tbl : Table String Automation) : Prop where
  locked : dialect = .postgresql → ∀ r ∈ kept, pendingAt tbl r.1 = some (i, r.2) ∧ committedAt tbl r.1 = some r.2
  written : ∀ c ∈ flushed, ∃ row row', pendingAt tbl c.row.1 = some (i, row') ∧
    committedAt tbl c.row.1 = some row ∧ row.next_run_at = c.row.2.next_run_at ∧
      later row.next_run_at row'.next_run_at = true
  rest : ∀ id row, pendingAt tbl id = some (i, row) →
    id ∈ flushed.map (fun c => c.row.1) ∨ committedAt tbl id = some row

def Worker.kept : Worker → List Loaded
  | .idle => []
  | .locking _ _ _ rows => rows
  | .evaluating _ rows claimed => claimed.map Claimed.row ++ rows
  | .flushing _ claimed _ => claimed.map Claimed.row

def Worker.flushed : Worker → List Claimed
  | .flushing _ _ flushed => flushed
  | _ => []

def Worker.candidates : Worker → List String
  | .locking _ _ candidates _ => candidates
  | _ => []

def Worker.ids (w : Worker) : List String := w.flushed.map (fun c => c.row.1) ++ w.kept.map Prod.fst ++ w.candidates

/-- What worker `i` knows of the table: it handles each row once. -/
structure Working (dialect : Dialect) (i : Nat) (w : Worker) (db : Db) : Prop where
  distinct : w.ids.Nodup
  holdsRows : HoldsRows dialect i w.kept w.flushed db.automations

/-! ## Rows held -/

variable {id : String} {row : Automation} {now_ns : Int} {tbl : Table String Automation} {limit : Nat} {rows : List Loaded}

theorem later_trans (h : later a b = true) (h' : later b c = true) : later a c = true := by
  cases a with
  | none => cases h
  | some s =>
    cases b with
    | none => cases h'
    | some t =>
      cases c with
      | none => rfl
      | some u =>
        simp only [later, Option.any_some, Option.all_some, decide_eq_true_eq] at h h' ⊢
        exact h.trans h'

theorem not_later_self (a : Option Int) : later a a = false := by
  cases a with
  | none => rfl
  | some s => simp [later]

section Rows

variable {dialect : Dialect} {i j : Nat} {kept kept' : List Loaded} {flushed : List Claimed}
  {tbl tbl' : Table String Automation}

theorem HoldsRows.subset (h : HoldsRows dialect i kept flushed tbl) (hsub : ∀ r ∈ kept', r ∈ kept) :
    HoldsRows dialect i kept' flushed tbl :=
  ⟨fun hd r hr => h.locked hd r (hsub r hr), h.written, h.rest⟩

theorem holdsRows_of_holdsNone (h : HoldsNone i tbl) (hk : dialect = .postgresql → kept = []) :
    HoldsRows dialect i kept [] tbl where
  locked hd r hr := by simp [hk hd] at hr
  written c hc := by simp at hc
  rest id row hp := absurd hp (h id row)

/-- The statements of the other transactions leave what `j` holds as it is. -/
theorem HoldsRows.untouched (h : HoldsRows dialect j kept flushed tbl) (hu : Untouched j tbl tbl') :
    HoldsRows dialect j kept flushed tbl' where
  locked hd r hr := by
    obtain ⟨hp, hc⟩ := h.locked hd r hr
    exact ⟨(hu.pending _ _).2 hp, (hu.committed _ _ hp).trans hc⟩
  written c hc := by
    obtain ⟨row, row', hp, hcom, hs, hs'⟩ := h.written c hc
    exact ⟨row, row', (hu.pending _ _).2 hp, (hu.committed _ _ hp).trans hcom, hs, hs'⟩
  rest id row hp := by
    have hp' := (hu.pending id row).1 hp
    rcases h.rest id row hp' with hf | hc
    · exact Or.inl hf
    · exact Or.inr ((hu.committed _ _ hp').trans hc)

section

variable (h : HoldsRows dialect i kept flushed tbl)

include h

theorem HoldsRows.committedAt_of_select (hid : id ∉ flushed.map fun c => c.row.1) (hs : select i id tbl = some row) :
    committedAt tbl id = some row := by
  rcases pendingAt_or_committedAt_of_select hs with hp | hc
  · exact (h.rest id row hp).resolve_left hid
  · exact hc

theorem HoldsRows.write_frame (row : Automation) (hk : id ∉ kept.map Prod.fst) (hf : id ∉ flushed.map fun c => c.row.1) :
    (dialect = .postgresql → ∀ r ∈ kept, pendingAt (write i id row tbl) r.1 = some (i, r.2) ∧
        committedAt (write i id row tbl) r.1 = some r.2) ∧
      ∀ c ∈ flushed, ∃ old new, pendingAt (write i id row tbl) c.row.1 = some (i, new) ∧
        committedAt (write i id row tbl) c.row.1 = some old ∧ old.next_run_at = c.row.2.next_run_at ∧
          later old.next_run_at new.next_run_at = true := by
  constructor
  · intro hd r hr
    have hne : r.1 ≠ id := fun he => hk (he ▸ List.mem_map_of_mem hr)
    rw [pendingAt_write_of_ne i hne, committedAt_write]
    exact h.locked hd r hr
  · intro c hc
    have hne : c.row.1 ≠ id := fun he => hf (he ▸ List.mem_map_of_mem hc)
    rw [pendingAt_write_of_ne i hne, committedAt_write]
    exact h.written c hc

theorem HoldsRows.lock (hk : id ∉ kept.map Prod.fst)
    (hf : id ∉ flushed.map fun c => c.row.1) (hl : lockSkipLocked i id tbl = some (row, tbl')) :
    HoldsRows dialect i (kept ++ [(id, row)]) flushed tbl' := by
  obtain ⟨hs, -, rfl⟩ := lockSkipLocked_eq_some hl
  obtain ⟨r, hr⟩ := row_isSome_of_visible hs
  have hcom := h.committedAt_of_select hf hs
  have hpen : pendingAt (write i id row tbl) id = some (i, row) := pendingAt_write_self i row hr
  obtain ⟨hkept, hflushed⟩ := h.write_frame row hk hf
  refine ⟨fun hd r hr => ?_, hflushed, fun id' row' hp => ?_⟩
  · rcases List.mem_append.1 hr with hr | hr
    · exact hkept hd r hr
    · obtain rfl := List.mem_singleton.1 hr
      exact ⟨hpen, by rw [committedAt_write]; exact hcom⟩
  rw [committedAt_write]
  by_cases he : id' = id
  · subst he
    rw [hpen] at hp
    cases hp
    exact Or.inr hcom
  · rw [pendingAt_write_of_ne i he] at hp
    exact h.rest id' row' hp

end

/-- The `UPDATE` of a row that is as it was selected. -/
theorem HoldsRows.flush (h : HoldsRows dialect i (c.row :: kept) flushed tbl)
    (hk : c.row.1 ∉ kept.map Prod.fst) (hf : c.row.1 ∉ flushed.map fun c => c.row.1)
    (hlater : later c.row.2.next_run_at c.next_run_at = true)
    (hsame : dialect = .sqlite → (select i c.row.1 tbl).all fun row => row.next_run_at = c.row.2.next_run_at)
    (hu : flush dialect i now_ns c tbl = .rows (n + 1) tbl') :
    HoldsRows dialect i kept (flushed ++ [c]) tbl' ∧
      (∀ owner w, pendingAt tbl c.row.1 = some (owner, w) → owner = i) ∧ ∃ row, tbl' = write i c.row.1 row tbl := by
  rw [Automations.flush] at hu
  split at hu
  · cases hu
  rcases update_rows hu with ⟨h0, -⟩ | ⟨row, row', -, hs, -, hset, hfree, rfl⟩
  · cases h0
  cases hset
  obtain ⟨r, hr⟩ := row_isSome_of_visible hs
  have hcom := h.committedAt_of_select hf hs
  -- a locked row has not changed since it was loaded
  have hselected : row.next_run_at = c.row.2.next_run_at := by
    cases dialect with
    | sqlite => simpa [hs] using hsame rfl
    | postgresql =>
      have hk := (h.locked rfl c.row (by simp)).2
      rw [hcom, Option.some.injEq] at hk
      rw [hk]
  have hassigned : (assign now_ns c row).next_run_at = c.next_run_at := by
    refine if_neg fun heq => ?_
    rw [heq, not_later_self] at hlater
    cases hlater
  have hpen := pendingAt_write_self i (assign now_ns c row) hr
  obtain ⟨hkept, hflushed⟩ :=
    (h.subset (by simp +contextual) : HoldsRows dialect i kept flushed tbl).write_frame
      (assign now_ns c row) hk hf
  refine ⟨⟨hkept, fun d hd => ?_, fun id' row' hp => ?_⟩, hfree, _, rfl⟩
  · rcases List.mem_append.1 hd with hd | hd
    · exact hflushed d hd
    · obtain rfl := List.mem_singleton.1 hd
      exact ⟨row, _, hpen, by rw [committedAt_write]; exact hcom, hselected, by rwa [hassigned, hselected]⟩
  · rw [committedAt_write]
    by_cases he : id' = c.row.1
    · exact Or.inl (by simp [he])
    · rw [pendingAt_write_of_ne i he] at hp
      rcases h.rest id' row' hp with hm | hc
      · exact Or.inl (by simp only [List.map_append, List.mem_append]; exact Or.inl hm)
      · exact Or.inr hc

theorem HoldsRows.committedAt_commit (h : HoldsRows dialect i kept flushed tbl) (id : String) :
    (∃ c ∈ flushed, c.row.1 = id ∧ ∃ row row', committedAt tbl id = some row ∧
        row.next_run_at = c.row.2.next_run_at ∧ committedAt (ReadCommitted.commit i tbl) id = some row' ∧
          later row.next_run_at row'.next_run_at = true) ∨
      committedAt (ReadCommitted.commit i tbl) id = committedAt tbl id := by
  by_cases hid : id ∈ flushed.map fun c => c.row.1
  · obtain ⟨c, hc, rfl⟩ := List.mem_map.1 hid
    obtain ⟨row, row', hp, hcom, hs, hs'⟩ := h.written c hc
    exact Or.inl ⟨c, hc, rfl, row, row', hcom, hs, committedAt_commit_of_pendingAt hp, hs'⟩
  · exact Or.inr (committedAt_commit_of_same fun v hv => (h.rest id v hv).resolve_left hid)

end Rows

theorem nodup_selectDue (hu : UniqueKeys tbl) (i : Nat) (now_ns : Int) :
    ((selectDue i now_ns tbl).map Prod.fst).Nodup := by
  rw [selectDue, ((List.perm_insertionSort _ _).map Prod.fst).nodup_iff]
  induction tbl with
  | nil => simp
  | cons r rest ih =>
    obtain ⟨hr, hrest⟩ : r.key ∉ rest.map Row.key ∧ UniqueKeys rest := by
      simpa only [UniqueKeys, List.map_cons, List.nodup_cons] using hu
    rw [List.filterMap_cons]
    cases hv : ((r.visible i).filter (due now_ns)).map (Prod.mk r.key) with
    | none => exact ih hrest
    | some row =>
      have hkey : row.1 = r.key := by
        obtain ⟨v, -, rfl⟩ := Option.map_eq_some_iff.1 hv
        rfl
      refine List.nodup_cons.2 ⟨fun hm => hr ?_, ih hrest⟩
      -- the selected keys are keys of the table
      obtain ⟨row', hm', he⟩ := List.mem_map.1 hm
      obtain ⟨q, hq, hqr⟩ := List.mem_filterMap.1 hm'
      obtain ⟨v, -, rfl⟩ := Option.map_eq_some_iff.1 hqr
      exact hkey ▸ he ▸ List.mem_map_of_mem hq

/-! ## Every step keeps the assertions -/

section Steps

variable {dialect : Dialect} {i : Nat} {db : Db}

theorem Consistent.of_committed (h : Consistent db) (hk : UniqueKeys tbl)
    (hc : ∀ id, committedAt tbl id = committedAt db.automations id) :
    Consistent { db with automations := tbl } where
  keys := hk
  replaced c hm := by
    rw [hc]
    exact h.replaced c hm
  once := h.once

theorem Consistent.rollback (h : Consistent db) (i : Nat) : Consistent (db.rollback i) :=
  h.of_committed (h.keys.rollback i) fun id => committedAt_rollback h.keys i id

theorem Consistent.write (h : Consistent db) (i : Nat) (id : String) (row : Automation) :
    Consistent { db with automations := ReadCommitted.write i id row db.automations } :=
  h.of_committed (h.keys.write i id row) fun id' => committedAt_write i id row db.automations id'

theorem Consistent.commit (h : Consistent db) (hold : HoldsRows dialect i kept flushed db.automations)
    (hd : (flushed.map fun c => c.row.1).Nodup) : Consistent (db.commit i flushed) where
  keys := h.keys.commit i
  replaced c hc := by
    rcases List.mem_append.1 hc with hc | hc
    · obtain ⟨row, hrow, hlt⟩ := h.replaced c hc
      rcases hold.committedAt_commit c.row.1 with ⟨_, _, _, old, new, hold', _, hnew, hs⟩ | hsame
      · rw [hrow] at hold'
        cases hold'
        exact ⟨new, hnew, later_trans hlt hs⟩
      · exact ⟨row, hsame.trans hrow, hlt⟩
    · obtain ⟨a, ha, rfl⟩ := List.mem_map.1 hc
      obtain ⟨old, new, hp, -, hs, hs'⟩ := hold.written a ha
      exact ⟨new, committedAt_commit_of_pendingAt hp, hs ▸ hs'⟩
  once := by
    simp only [ClaimedOnce, Db.commit, List.map_append, List.map_map]
    refine List.Nodup.append h.once ?_ ?_
    · exact List.Nodup.of_map Prod.fst (by simpa [Function.comp_def] using hd)
    -- a claim of the past is of a value that had been replaced when this one was stored
    intro p hp hq
    obtain ⟨c, hc, rfl⟩ := List.mem_map.1 hp
    obtain ⟨a, ha, he⟩ := List.mem_map.1 hq
    simp only [Function.comp_apply, Prod.mk.injEq] at he
    obtain ⟨row, hrow, hlt⟩ := h.replaced c hc
    obtain ⟨old, new, -, hcom, hs, -⟩ := hold.written a ha
    rw [he.1, hrow] at hcom
    cases hcom
    rw [← he.2, ← hs, not_later_self] at hlt
    cases hlt

theorem working_idle (h : HoldsNone i db.automations) : Working dialect i .idle db :=
  ⟨List.nodup_nil, holdsRows_of_holdsNone h fun _ => rfl⟩

theorem working_rollback (h : Consistent db) : Working dialect i .idle (db.rollback i) :=
  working_idle (holdsNone_rollback h.keys i)

theorem working_lock (h : Working dialect i (.locking now_ns limit (id :: candidates) rows) db)
    (hl : lockSkipLocked i id db.automations = some (row, tbl)) :
    Working dialect i (.locking now_ns limit candidates (if due now_ns row then rows ++ [(id, row)] else rows))
      { db with automations := tbl } := by
  have hd : (rows.map Prod.fst ++ id :: candidates).Nodup := h.distinct
  have hid : id ∉ rows.map Prod.fst := fun hm => (List.nodup_append.1 hd).2.2 id hm id (by simp) rfl
  have hlock := h.holdsRows.lock hid (by simp [Worker.flushed]) hl
  split
  · refine ⟨?_, hlock⟩
    show ((rows ++ [(id, row)]).map Prod.fst ++ candidates).Nodup
    simpa using hd
  · refine ⟨?_, hlock.subset fun r hr => List.mem_append_left _ hr⟩
    exact hd.sublist ((List.Sublist.refl _).append (List.sublist_cons_self _ _))

theorem working_flush (h : Working dialect i (.flushing now_ns (c :: claimed) flushed) db)
    (hw : PutsOff dialect i db (.flushing now_ns (c :: claimed) flushed))
    (hf : flush dialect i now_ns c db.automations = .rows (n + 1) tbl) :
    Working dialect i (.flushing now_ns claimed (flushed ++ [c])) { db with automations := tbl } ∧
      (∀ owner w, pendingAt db.automations c.row.1 = some (owner, w) → owner = i) ∧
      ∃ row, tbl = ReadCommitted.write i c.row.1 row db.automations := by
  have hd : (flushed.map (fun c => c.row.1) ++ (c.row.1 :: claimed.map fun c => c.row.1)).Nodup := by
    simpa [Worker.ids, Worker.flushed, Worker.kept, Worker.candidates, Function.comp_def] using h.distinct
  have hid : c.row.1 ∉ flushed.map fun c => c.row.1 := fun hm =>
    (List.nodup_append.1 hd).2.2 _ hm _ (by simp) rfl
  have hrest : c.row.1 ∉ (claimed.map Claimed.row).map Prod.fst := by
    rw [List.map_map]
    exact (List.nodup_cons.1 (List.nodup_append.1 hd).2.1).1
  obtain ⟨hold, hfree, htbl⟩ := h.holdsRows.flush hrest hid hw.1 hw.2 hf
  refine ⟨⟨?_, hold⟩, hfree, htbl⟩
  simpa [Worker.ids, Worker.flushed, Worker.kept, Worker.candidates, Function.comp_def] using hd

end Steps

section Runs

variable {Moment : Type} {dialect : Dialect}
  {next_run_ns : String → Option String → Moment → Except RecurrenceError (Option Int)}
  {timezone : String → Option String} {i : Nat} {db db' : Db} {w w' : Worker} {k : Choice Moment}

structure Kept (dialect : Dialect) (i : Nat) (db db' : Db) (w' : Worker) : Prop where
  consistent : Consistent db'
  working : Working dialect i w' db'
  untouched : ∀ j, i ≠ j → Untouched j db.automations db'.automations

section

variable (h : Consistent db)

include h

theorem kept_rollback : Kept dialect i db (db.rollback i) .idle :=
  ⟨h.rollback i, working_rollback h, fun _ hj => untouched_rollback hj h.keys⟩

theorem kept_of_working (hw : Working dialect i w' db) : Kept dialect i db db w' :=
  ⟨h, hw, fun j _ => .refl j db.automations⟩

theorem kept_poll (hw : Working dialect i .idle db)
    (hn : next dialect next_run_ns timezone i db .idle (.poll now_ns limit) = some (db', w')) :
    Kept dialect i db db' w' := by
  have hids := nodup_selectDue h.keys i now_ns
  cases dialect with
  | postgresql =>
    unfold next at hn
    dsimp only at hn
    cases hn
    exact kept_of_working h ⟨by simpa [Worker.ids, Worker.flushed, Worker.kept, Worker.candidates] using hids,
      hw.holdsRows⟩
  | sqlite =>
    unfold next at hn
    dsimp only at hn
    cases hn
    refine kept_of_working h ⟨?_, ⟨fun hd => (by cases hd), hw.holdsRows.written, hw.holdsRows.rest⟩⟩
    have htake := hids.sublist (((selectDue i now_ns db.automations).take_sublist limit).map Prod.fst)
    simpa [Worker.ids, Worker.flushed, Worker.kept, Worker.candidates] using htake

theorem kept_locking (hw : Working dialect i (.locking now_ns limit candidates rows) db)
    (hn : next dialect next_run_ns timezone i db (.locking now_ns limit candidates rows) (.proceed moment) =
      some (db', w')) : Kept dialect i db db' w' := by
  have hstop : Working dialect i (.evaluating now_ns rows []) db := by
    refine ⟨?_, hw.holdsRows⟩
    show (rows.map Prod.fst ++ []).Nodup
    rw [List.append_nil]
    exact (List.nodup_append.1 (show (rows.map Prod.fst ++ candidates).Nodup from hw.distinct)).1
  cases candidates with
  | nil =>
    unfold next at hn
    dsimp only at hn
    cases hn
    exact kept_of_working h hstop
  | cons id candidates =>
    unfold next at hn
    dsimp only at hn
    split at hn
    · split at hn
      · cases hn
        have hd : (rows.map Prod.fst ++ id :: candidates).Nodup := hw.distinct
        refine kept_of_working h ⟨?_, hw.holdsRows⟩
        exact hd.sublist ((List.Sublist.refl _).append (List.sublist_cons_self _ _))
      · rename_i row tbl hl
        cases hn
        have hlock := working_lock hw hl
        obtain ⟨-, hfree, rfl⟩ := lockSkipLocked_eq_some hl
        exact ⟨h.write i id row, hlock, fun _ hj => untouched_write hj hfree row⟩
    · cases hn
      exact kept_of_working h hstop

theorem kept_evaluating (hw : Working dialect i (.evaluating now_ns rows claimed) db)
    (hn : next dialect next_run_ns timezone i db (.evaluating now_ns rows claimed) (.proceed moment) =
      some (db', w')) : Kept dialect i db db' w' := by
  have hd : ((claimed.map Claimed.row ++ rows).map Prod.fst ++ []).Nodup := hw.distinct
  rw [List.append_nil] at hd
  cases rows with
  | nil =>
    unfold next at hn
    dsimp only at hn
    cases hn
    refine kept_of_working h ⟨?_, hw.holdsRows.subset fun r hr => List.mem_append_left _ hr⟩
    simpa [Worker.ids, Worker.flushed, Worker.kept, Worker.candidates] using hd
  | cons row rows =>
    unfold next at hn
    dsimp only at hn
    split at hn
    · rename_i next_run_at hnext
      cases hn
      refine kept_of_working h ⟨?_, hw.holdsRows.subset fun r hr => ?_⟩
      · simpa [Worker.ids, Worker.flushed, Worker.kept, Worker.candidates] using hd
      · simpa [Worker.kept] using hr
    · -- the recurrence took too long: the row stays due
      cases hn
      refine kept_of_working h ⟨?_, hw.holdsRows.subset fun r hr => ?_⟩
      · show ((claimed.map Claimed.row ++ rows).map Prod.fst ++ []).Nodup
        rw [List.append_nil]
        exact hd.sublist (((List.Sublist.refl _).append (List.sublist_cons_self _ _)).map Prod.fst)
      · rcases List.mem_append.1 hr with hr | hr
        · exact List.mem_append_left _ hr
        · exact List.mem_append_right _ (List.mem_cons_of_mem _ hr)
    · cases hn
      exact kept_rollback h

theorem kept_flushing (hw : Working dialect i (.flushing now_ns claimed flushed) db)
    (hok : PutsOff dialect i db (.flushing now_ns claimed flushed))
    (hn : next dialect next_run_ns timezone i db (.flushing now_ns claimed flushed) (.proceed moment) =
      some (db', w')) : Kept dialect i db db' w' := by
  cases claimed with
  | nil =>
    unfold next at hn
    dsimp only at hn
    cases hn
    have hd : (flushed.map fun c => c.row.1).Nodup := by
      simpa [Worker.ids, Worker.flushed, Worker.kept, Worker.candidates] using hw.distinct
    exact ⟨h.commit hw.holdsRows hd, working_idle (holdsNone_commit i _), fun _ hj => untouched_commit hj _⟩
  | cons c claimed =>
    -- what is written is another value
    have hchanged : c.unchanged now_ns = false := by
      refine decide_eq_false fun hsame => ?_
      have hlater := hok.1
      rw [hsame.2, not_later_self] at hlater
      cases hlater
    unfold next at hn
    dsimp only at hn
    rw [hchanged, if_neg Bool.false_ne_true] at hn
    split at hn
    · cases hn
    · cases hn
      exact kept_rollback h
    · cases hn
      exact kept_rollback h
    rename_i n tbl hne hf
    cases hn
    cases n with
    | zero => exact absurd rfl hne
    | succ n =>
      obtain ⟨hwork, hfree, row, rfl⟩ := working_flush hw hok hf
      exact ⟨h.write i c.row.1 row, hwork, fun _ hj => untouched_write hj hfree row⟩

theorem kept_next (hw : Working dialect i w db) (hok : PutsOff dialect i db w)
    (hn : next dialect next_run_ns timezone i db w k = some (db', w')) : Kept dialect i db db' w' := by
  cases k with
  | poll now_ns limit =>
    cases w with
    | idle => exact kept_poll h hw hn
    | locking | evaluating | flushing => simp [next] at hn
  | abort =>
    cases w with
    | idle => simp [next] at hn
    | locking | evaluating | flushing =>
      unfold next at hn
      dsimp only at hn
      cases hn
      exact kept_rollback h
  | proceed moment =>
    cases w with
    | idle => simp [next] at hn
    | locking now_ns limit candidates rows => exact kept_locking h hw hn
    | evaluating now_ns rows claimed => exact kept_evaluating h hw hn
    | flushing now_ns claimed flushed => exact kept_flushing h hw hok hn

end

theorem consistent_of_reaches (hi : Initial db)
    (hr : ReachesWhere (next dialect next_run_ns timezone) (PutsOff dialect) ⟨db, List.replicate workers .idle⟩ c) :
    Consistent c.shared := by
  have hstart : Holds Consistent (fun i w db => Working dialect i w db) ⟨db, List.replicate workers .idle⟩ := by
    refine ⟨⟨hi.keys, ?_, ?_⟩, fun i w hw => ?_⟩
    · simp [hi.claims]
    · simp [ClaimedOnce, hi.claims]
    · obtain rfl : w = .idle := List.eq_of_mem_replicate (List.mem_of_getElem? hw)
      exact working_idle (hi.free i)
  refine (invariant_of_frame ?_ ?_ hr hstart).1
  · intro i k db w db' w' hok hG hL hn
    have hk := kept_next hG hL hok hn
    exact ⟨hk.consistent, hk.working⟩
  · intro i j k db w db' w' v hij hok hG hL hj hn
    exact ⟨hj.distinct, hj.holdsRows.untouched ((kept_next hG hL hok hn).untouched j hij)⟩

/-- No due value is claimed twice while rows are put off as they were selected. -/
theorem claimed_once {workers : Nat} {c : Conf Db Worker} (hi : Initial db)
    (hr : ReachesWhere (next dialect next_run_ns timezone) (PutsOff dialect) ⟨db, List.replicate workers .idle⟩ c) :
    ClaimedOnce c.shared :=
  (consistent_of_reaches hi hr).once

end Runs

def oneDue : Db := ⟨[⟨"digest", some ⟨"ann", "RRULE:FREQ=DAILY", true, none, some 10⟩, none⟩], []⟩

def comesAt (_ : String) (_ : Option String) (moment : Int) : Except RecurrenceError (Option Int) := .ok (some moment)

theorem initial_oneDue : Initial oneDue where
  keys := List.nodup_singleton _
  free i id row h := by
    by_cases hid : "digest" = id <;> simp [oneDue, pendingAt, ReadCommitted.row, hid] at h
  claims := rfl

def bothSelect : List (Nat × Choice Int) :=
  [(0, .poll 12 10), (1, .poll 12 10)] ++ List.replicate 4 (0, .proceed 100) ++ List.replicate 4 (1, .proceed 100)

theorem claimed_twice_sqlite :
    ¬ ∀ c : Conf Db Worker, Reaches (next .sqlite comesAt fun _ => none) ⟨oneDue, [.idle, .idle]⟩ c →
      ClaimedOnce c.shared := by
  intro h
  have hrun : ((runSchedule (next .sqlite comesAt fun _ => none) ⟨oneDue, [.idle, .idle]⟩ bothSelect).map
      fun c => decide (ClaimedOnce c.shared)) = some false := by
    decide +kernel
  obtain ⟨c, hc, hd⟩ := Option.map_eq_some_iff.1 hrun
  exact of_decide_eq_false hd (h c (reaches_of_runSchedule hc))

def oneAfterTheOther : List (Nat × Choice Int) :=
  [(0, .poll 12 10)] ++ List.replicate 4 (0, .proceed 100) ++ [(1, .poll 101 10)] ++ List.replicate 4 (1, .proceed 200)

theorem claimed_once_digest :
    ∃ c : Conf Db Worker, c.shared.claims.map Claim.worker = [0, 1] ∧ ClaimedOnce c.shared := by
  have hrun : ((runSchedule
      (fun i db w k => if PutsOff .sqlite i db w then
        next .sqlite comesAt (fun _ => none) i db w k else none)
      ⟨oneDue, List.replicate 2 .idle⟩ oneAfterTheOther).map fun c => c.shared.claims.map Claim.worker) =
        some [0, 1] := by
    decide +kernel
  obtain ⟨c, hc, hclaims⟩ := Option.map_eq_some_iff.1 hrun
  exact ⟨c, hclaims, claimed_once initial_oneDue (reachesWhere_of_guarded (reaches_of_runSchedule hc))⟩

end RyanAI.Automations
