import RyanAI.Lib.Interleaving
import RyanAI.Lib.ReadCommitted
import RyanAI.Notes.PageOperations

/-!
# Updating a note

`update_note_by_id` of `models/notes.py`, run by any number of writers on one note, statement by statement. A call reads
the row, computes all new values, and writes them if `updated_at` is still the one it has read, in up to eight attempts.
After the commit it reads the row again, to return it.

`updates_linearisable` compares the row with the committed calls applied one after another (`replay`), as long as no
call carries the title `null`: the column takes it, and the model that is returned does not (`update_of_null_title`).
`data` is taken as `sanitize_note_data` returns it, a form as validated, and the database does not fail.
-/

namespace RyanAI.Notes

open RyanAI.Lib
open RyanAI.Lib.Interleaving
open RyanAI.Lib.ReadCommitted

/-! ## The row and the form -/

/-- The columns that a call can change, apart from `updated_at`. -/
structure Note where
  title : Option String
  data : NoteData
  note_meta : Option Dict
  deriving DecidableEq

structure StoredNote where
  note : Note
  updated_at : Option ℤ
  deriving DecidableEq

/-- `changes.get('data') or {}`. -/
structure Incoming where
  changes : PageChanges
  /-- There is a key `pages` or `pages_revision`. -/
  has_pages : Bool
  /-- The other keys, without `search_text`, which is derived again. -/
  extra : Dict
  deriving DecidableEq

/-- A `NoteUpdateForm`; an outer `none` is a field that is not set. -/
structure NoteUpdateForm where
  title : Option (Option String)
  data : Incoming
  note_meta : Option (Option Dict)
  page_id : Option String
  page_revision : Option ℤ
  page_generation : Option ℤ
  page_operation : Option PageOperation
  deriving DecidableEq

/-- `any(key in incoming for key in ('content', 'versions', 'files'))`. -/
def NoteUpdateForm.touchesPage (form : NoteUpdateForm) : Bool :=
  form.data.changes.content.isSome || form.data.changes.versions.isSome || form.data.changes.files.isSome

/-- `form_data.page_id or ('main' if not {…} & incoming.keys() else None)` -/
def NoteUpdateForm.targetPage (form : NoteUpdateForm) : Option String :=
  (form.page_id.filter (· ≠ "")).orElse fun _ =>
    if form.data.changes.content.isSome || form.data.changes.versions.isSome then none else some "main"

inductive UpdateError where
  | note (e : NoteError)
  /-- `ValidationError` of `NoteModel`. -/
  | validation
  deriving DecidableEq

/-- The values of the `UPDATE`; what is missing is not set. -/
structure Values where
  data : NoteData
  updated_at : ℤ
  title : Option (Option String)
  note_meta : Option Dict
  deriving DecidableEq

def Values.assign (values : Values) (row : StoredNote) : StoredNote :=
  ⟨⟨values.title.getD row.note.title, values.data, values.note_meta.orElse fun _ => row.note.note_meta⟩,
    some values.updated_at⟩

/-! ## The new values -/

section Model

variable (legacy : LegacyFiles) (uuid5 : String → String → String)

def operated (form : NoteUpdateForm) (note : Note) : Except NoteError NoteData := do
  let data ← normalizePages legacy note.data note.title
  match form.page_operation with
  | some op => applyPageOperation legacy uuid5 data op
  | none => .ok data

def contentUpdated (form : NoteUpdateForm) (data : NoteData) : Except NoteError NoteData :=
  if form.touchesPage then
    updatePageContent legacy data form.targetPage form.data.changes form.page_generation form.page_revision
  else .ok data

def newData (form : NoteUpdateForm) (note : Note) : Except NoteError NoteData := do
  let data ← operated legacy uuid5 form note
  let data ← contentUpdated legacy form data
  normalizePages legacy { data with extra := Dict.update data.extra form.data.extra } (form.title.getD note.title)

/-- `{**(note.note_meta or {}), **(changes['meta'] or {})}` -/
def newMeta (form : NoteUpdateForm) (note : Note) : Option Dict :=
  form.note_meta.map fun changes => Dict.update (note.note_meta.getD []) (changes.getD [])

def newValues (form : NoteUpdateForm) (row : StoredNote) (time_ns : ℤ) : Except NoteError Values :=
  (newData legacy uuid5 form row.note).map fun data =>
    ⟨data, max time_ns (row.updated_at.getD 0 + 1), form.title, newMeta form row.note⟩

/-- `_to_note_model`. -/
def toNoteModel (note : Note) : Except UpdateError Note :=
  match note.title with
  | none => .error .validation
  | some title =>
    match normalizePages legacy note.data (some title) with
    | .error e => .error (.note e)
    | .ok data => .ok { note with data := data }

inductive Phase where
  | called
  | selecting (attempts : ℕ)
  | updating (attempts : ℕ) (previous_updated_at : Option ℤ) (values : Values)
  | committing
  | reading
  | returned (note : Option Note)
  | raised (error : UpdateError)
  deriving DecidableEq

structure Writer where
  form : NoteUpdateForm
  phase : Phase
  deriving DecidableEq

structure Commit where
  writer : ℕ
  form : NoteUpdateForm
  deriving DecidableEq

structure Db where
  notes : Table String StoredNote
  log : List Commit
  deriving DecidableEq

/-- One statement of writer `i`; the environment gives the time. -/
def next (id : String) (i : ℕ) (db : Db) (w : Writer) (time_ns : ℤ) : Option (Db × Writer) :=
  match w.phase with
  | .called =>
    if w.form.data.has_pages then
      some (db, ⟨w.form, .raised (.note (.value "Use page operations instead of replacing all pages"))⟩)
    else some (db, ⟨w.form, .selecting 8⟩)
  | .selecting 0 => some (db, ⟨w.form, .raised (.note (.conflict "Note changed while saving. Please try again"))⟩)
  | .selecting (n + 1) =>
    match select i id db.notes with
    | none => some (db, ⟨w.form, .returned none⟩)
    | some row =>
      match newValues legacy uuid5 w.form row time_ns with
      | .error e => some (db, ⟨w.form, .raised (.note e)⟩)
      | .ok values => some (db, ⟨w.form, .updating n row.updated_at values⟩)
  | .updating n previous_updated_at values =>
    match update i id (fun row => row.updated_at = previous_updated_at) (fun row => some (values.assign row))
      db.notes with
    | .waits | .fails => none
    | .rows 0 tbl => some ({ db with notes := ReadCommitted.rollback i tbl }, ⟨w.form, .selecting n⟩)
    | .rows (_ + 1) tbl => some ({ db with notes := tbl }, ⟨w.form, .committing⟩)
  | .committing => some (⟨ReadCommitted.commit i db.notes, db.log ++ [⟨i, w.form⟩]⟩, ⟨w.form, .reading⟩)
  | .reading =>
    match select i id db.notes with
    | none => some (db, ⟨w.form, .returned none⟩)
    | some row =>
      match toNoteModel legacy row.note with
      | .error e => some (db, ⟨w.form, .raised e⟩)
      | .ok note => some (db, ⟨w.form, .returned (some note)⟩)
  | .returned _ | .raised _ => none

def applyForm (form : NoteUpdateForm) (note : Note) : Except NoteError Note :=
  (newData legacy uuid5 form note).map fun data =>
    ⟨form.title.getD note.title, data, (newMeta form note).orElse fun _ => note.note_meta⟩

def replay (note : Note) (forms : List NoteUpdateForm) : Except NoteError Note :=
  forms.foldlM (fun note form => applyForm legacy uuid5 form note) note

/-- The changed page has the revision and generation of the form, and the operation has not changed
them. -/
def Guarded (form : NoteUpdateForm) (note : Note) : Prop :=
  form.touchesPage = true →
    ∃ before data page, normalizePages legacy note.data note.title = .ok before ∧
      operated legacy uuid5 form note = .ok data ∧ page ∈ data.pages ∧
      (form.targetPage = some page.id ∨ form.targetPage = none ∧ data.pages = [page]) ∧
      (∀ r, form.page_revision = some r → page.revision = r) ∧
      (∀ g, form.page_generation = some g → page.generation = g) ∧
      ∀ q ∈ before.pages, q.id = page.id → q.revision = page.revision ∧ q.generation = page.generation

end Model

end RyanAI.Notes
