import RyanAI.Notes.Update

/-!
# Updates of a note are linearisable

`Accounted` keeps the row equal to the committed calls, applied one after another; `Writer.Ready` is
what a call knows of the row between its statements. The values of an `UPDATE` were computed from the
version that `updated_at` identifies, because every commit moves `updated_at` forward (`Past`), whatever
the clock says.
-/

namespace RyanAI.Notes

open RyanAI.Lib
open RyanAI.Lib.Interleaving
open RyanAI.Lib.ReadCommitted

variable {form : NoteUpdateForm} {time_ns : ℤ} {values : Values} {note new start : Note} {i : ℕ} {db db' : Db}
    {w : Writer}

section Updates

variable {legacy : LegacyFiles} {uuid5 : String → String → String} {id : String}

/-! ## The values of one call -/

theorem map_eq_ok {ε α β : Type} {x : Except ε α} {f : α → β} {b : β} (h : x.map f = .ok b) :
    ∃ a, x = .ok a ∧ f a = b := by
  cases x with
  | error e => cases h
  | ok a => exact ⟨a, rfl, Except.ok.inj h⟩

theorem applyForm_of_newValues {row : StoredNote} (h : newValues legacy uuid5 form row time_ns = .ok values) :
    applyForm legacy uuid5 form row.note = .ok (values.assign row).note := by
  obtain ⟨data, hdata, rfl⟩ := map_eq_ok h
  rw [applyForm, hdata]
  rfl

/-- The new `updated_at` is past the old one. -/
theorem updated_at_of_newValues {row : StoredNote} (h : newValues legacy uuid5 form row time_ns = .ok values) :
    row.updated_at.getD 0 < values.updated_at := by
  obtain ⟨data, -, rfl⟩ := map_eq_ok h
  exact lt_of_lt_of_le (Int.lt_succ _) (le_max_right _ _)

theorem stored_of_applyForm (h : applyForm legacy uuid5 form note = .ok new) : Stored new.data := by
  obtain ⟨data, hdata, rfl⟩ := map_eq_ok h
  obtain ⟨_, _, hdata⟩ := bind_eq_ok.1 hdata
  obtain ⟨_, _, hdata⟩ := bind_eq_ok.1 hdata
  exact (stored_of_normalizePages hdata).1

theorem title_of_applyForm (h : applyForm legacy uuid5 form note = .ok new) (hform : form.title ≠ some none)
    (hnote : note.title.isSome = true) : new.title.isSome = true := by
  obtain ⟨data, -, rfl⟩ := map_eq_ok h
  cases htitle : form.title with
  | none => exact hnote
  | some title =>
    cases title with
    | none => exact absurd htitle hform
    | some text => rfl

theorem toNoteModel_ok (legacy : LegacyFiles) (hdata : Stored note.data) (htitle : note.title.isSome = true) :
    ∃ model, toNoteModel legacy note = .ok model := by
  obtain ⟨title, ht⟩ := Option.isSome_iff_exists.1 htitle
  have hordered : Ordered (note.data.pages.map (inheritTitle (some title))) :=
    hdata.ordered.map (fun p _ => inheritTitle_id _ p) fun p _ => inheritTitle_parent_id _ p
  rw [toNoteModel, ht]
  dsimp only
  rw [normalizePages, withMain_eq_self hdata.main, orderPages_of_ordered hordered]
  exact ⟨_, rfl⟩

theorem guarded_of_applyForm (h : applyForm legacy uuid5 form note = .ok new) : Guarded legacy uuid5 form note := by
  intro htouches
  obtain ⟨_, h, -⟩ := map_eq_ok h
  obtain ⟨data, hoperated, h⟩ := bind_eq_ok.1 h
  obtain ⟨_, hupdated, -⟩ := bind_eq_ok.1 h
  rw [contentUpdated, if_pos htouches] at hupdated
  obtain ⟨before, hbefore, hop⟩ := bind_eq_ok.1 hoperated
  have hstored := (stored_of_normalizePages hbefore).1
  have hdata : Stored data ∧ ∀ p ∈ data.pages, ∀ q ∈ before.pages, q.id = p.id →
      q.revision = p.revision ∧ q.generation = p.generation := by
    split at hop
    · rename_i op _
      have hdata := stored_of_applyPageOperation hop
      refine ⟨hdata, fun p hp q hq hid => ?_⟩
      rcases applyPageOperation_spec hstored hop with ⟨-, -, rfl⟩ | ⟨-, -, -, heffect⟩
      · rw [eq_of_id_eq hstored.ordered.unique hq hp hid]
        exact ⟨rfl, rfl⟩
      · exact heffect.keeps hstored.ordered.unique hdata.ordered.unique hq hp hid
    · cases hop
      refine ⟨hstored, fun p hp q hq hid => ?_⟩
      rw [eq_of_id_eq hstored.ordered.unique hq hp hid]
      exact ⟨rfl, rfl⟩
  obtain ⟨-, -, page, hpage, htarget, hgeneration, hrevision, -⟩ := updatePageContent_spec hdata.1 hupdated
  exact ⟨before, data, page, hbefore, hoperated, hpage, htarget, hrevision, hgeneration, hdata.2 page hpage⟩

theorem replay_append (h : replay legacy uuid5 start forms = .ok note) :
    replay legacy uuid5 start (forms ++ [form]) = applyForm legacy uuid5 form note := by
  rw [replay] at h
  rw [replay, List.foldlM_append, h]
  change (applyForm legacy uuid5 form note >>= pure) = _
  exact bind_pure _

theorem applied_of_replay (h : replay legacy uuid5 start (before ++ form :: after) = .ok note) :
    ∃ old new, replay legacy uuid5 start before = .ok old ∧ applyForm legacy uuid5 form old = .ok new := by
  rw [replay, List.foldlM_append] at h
  obtain ⟨old, hold, h⟩ := bind_eq_ok.1 h
  obtain ⟨new, hnew, -⟩ := bind_eq_ok.1 h
  exact ⟨old, new, hold, hnew⟩

def Past (previous updated : Option ℤ) : Prop := ∃ t, updated = some t ∧ previous.getD 0 < t

theorem Past.trans (h : Past a b) (h' : Past b c) : Past a c := by
  obtain ⟨t, rfl, ht⟩ := h
  obtain ⟨u, rfl, hu⟩ := h'
  exact ⟨u, rfl, ht.trans hu⟩

theorem Past.ne (h : Past a b) : b ≠ a := by
  obtain ⟨t, rfl, ht⟩ := h
  rintro rfl
  exact lt_irrefl _ ht

/-- The row is what the committed calls make of `start`. -/
structure Accounted (legacy : LegacyFiles) (uuid5 : String → String → String) (id : String) (start : Note) (db : Db) :
    Prop where
  unique : UniqueKeys db.notes
  row : ∃ row, committedAt db.notes id = some row ∧ row.note.title.isSome = true ∧
    replay legacy uuid5 start (db.log.map Commit.form) = .ok row.note ∧ (db.log ≠ [] → Stored row.note.data)
  once : (db.log.map Commit.writer).Nodup

/-- Writer `i` has not committed. -/
def Absent (i : ℕ) (db : Db) : Prop := i ∉ db.log.map Commit.writer

/-- The values of an `UPDATE` fit the row, or the row has changed since. -/
def Fits (legacy : LegacyFiles) (uuid5 : String → String → String) (form : NoteUpdateForm) (previous : Option ℤ)
    (values : Values) (row : StoredNote) : Prop :=
  Past previous (some values.updated_at) ∧
    (row.updated_at = previous ∧ applyForm legacy uuid5 form row.note = .ok (values.assign row).note ∨
      Past previous row.updated_at)

def Follows (legacy : LegacyFiles) (uuid5 : String → String → String) (form : NoteUpdateForm) (row new : StoredNote) :
    Prop :=
  applyForm legacy uuid5 form row.note = .ok new.note ∧ Past row.updated_at new.updated_at

/-- What writer `i` knows between its statements. -/
def Writer.Ready (legacy : LegacyFiles) (uuid5 : String → String → String) (id : String) (i : ℕ) (w : Writer) (db : Db) :
    Prop :=
  match w.phase with
  | .called | .selecting _ | .raised _ => HoldsNone i db.notes ∧ Absent i db
  | .updating _ previous values =>
    HoldsNone i db.notes ∧ Absent i db ∧
      ∃ row, committedAt db.notes id = some row ∧ Fits legacy uuid5 w.form previous values row
  | .committing =>
    Absent i db ∧ ∃ row new, committedAt db.notes id = some row ∧ HoldsOnly i id new db.notes ∧
      Follows legacy uuid5 w.form row new
  | .reading | .returned (some _) => HoldsNone i db.notes ∧ ⟨i, w.form⟩ ∈ db.log
  | .returned none => False

/-! ## One statement -/

/-- What a statement of writer `i` leaves of the database. -/
structure Leaves (legacy : LegacyFiles) (uuid5 : String → String → String) (id : String) (i : ℕ) (form : NoteUpdateForm)
    (db db' : Db) : Prop where
  unique : UniqueKeys db'.notes
  others : ∀ j, i ≠ j → Untouched j db.notes db'.notes
  row : (committedAt db'.notes id = committedAt db.notes id ∧ db'.log = db.log) ∨
    ∃ row new, committedAt db.notes id = some row ∧ pendingAt db.notes id = some (i, new) ∧
      committedAt db'.notes id = some new ∧ Follows legacy uuid5 form row new ∧
      db'.log = db.log ++ [⟨i, form⟩] ∧ Absent i db

theorem Leaves.refl (h : UniqueKeys db.notes) : Leaves legacy uuid5 id i form db db :=
  ⟨h, fun j _ => Untouched.refl j db.notes, Or.inl ⟨rfl, rfl⟩⟩

/-- The cases of an `UPDATE` that has not to wait. -/
theorem update_note_rows
    (h : update i id (fun row => row.updated_at = previous) (fun row => some (values.assign row)) tbl = .rows n tbl')
    (hnone : HoldsNone i tbl) :
    (n = 0 ∧ tbl' = tbl) ∨
      ∃ row, n = 1 ∧ committedAt tbl id = some row ∧ row.updated_at = previous ∧
        (∀ owner w, pendingAt tbl id = some (owner, w) → owner = i) ∧ tbl' = write i id (values.assign row) tbl := by
  rcases update_rows h with ⟨rfl, rfl, -⟩ | ⟨row, new, rfl, hrow, hcond, hset, hfree, rfl⟩
  · exact Or.inl ⟨rfl, rfl⟩
  · rw [select_of_holdsNone hnone] at hrow
    cases hset
    exact Or.inr ⟨row, rfl, hrow, by simpa using hcond, hfree, rfl⟩

theorem leaves_of_next (hform : w.form.title ≠ some none) (hacc : Accounted legacy uuid5 id start db)
    (hw : w.Ready legacy uuid5 id i db) (h : next legacy uuid5 id i db w time_ns = some (db', w')) :
    Leaves legacy uuid5 id i w.form db db' ∧ w'.form = w.form ∧ w'.Ready legacy uuid5 id i db' := by
  obtain ⟨form, phase⟩ := w
  obtain ⟨row, hrow, htitle, -, hstored⟩ := hacc.row
  have hrefl : Leaves legacy uuid5 id i form db db := .refl hacc.unique
  cases phase with
  | called =>
    rw [next] at h
    dsimp only at h
    split at h <;> cases h
    · exact ⟨hrefl, rfl, hw⟩
    · exact ⟨hrefl, rfl, hw⟩
  | selecting attempts =>
    cases attempts with
    | zero =>
      cases h
      exact ⟨hrefl, rfl, hw⟩
    | succ n =>
      obtain ⟨hnone, habsent⟩ := hw
      rw [next] at h
      rw [select_of_holdsNone hnone, hrow] at h
      dsimp only at h
      cases hvalues : newValues legacy uuid5 form row time_ns with
      | error e =>
        rw [hvalues] at h
        cases h
        exact ⟨hrefl, rfl, hnone, habsent⟩
      | ok values =>
        rw [hvalues] at h
        cases h
        exact ⟨hrefl, rfl, hnone, habsent, row, hrow, ⟨_, rfl, updated_at_of_newValues hvalues⟩,
          Or.inl ⟨rfl, applyForm_of_newValues hvalues⟩⟩
  | updating attempts previous values =>
    obtain ⟨hnone, habsent, row', hrow', hpast, hfits⟩ := hw
    obtain rfl := Option.some.inj (hrow.symm.trans hrow')
    rw [next] at h
    dsimp only at h
    split at h
    · cases h
    · cases h
    · rename_i tbl hupdate
      rcases update_note_rows hupdate hnone with ⟨-, rfl⟩ | ⟨_, hcount, -⟩
      · cases h
        refine ⟨⟨hacc.unique.rollback i, fun j hj => untouched_rollback hj hacc.unique,
          Or.inl ⟨committedAt_rollback hacc.unique i id, rfl⟩⟩, rfl, holdsNone_rollback hacc.unique i, habsent⟩
      · cases hcount
    rename_i n tbl hupdate
    rcases update_note_rows hupdate hnone with ⟨hcount, -⟩ | ⟨row', -, hrow', hprevious, hfree, rfl⟩
    · cases hcount
    obtain rfl := Option.some.inj (hrow.symm.trans hrow')
    cases h
    have hselect : select i id db.notes = some row := (select_of_holdsNone hnone id).trans hrow
    refine ⟨⟨hacc.unique.write i id _, fun j hj => untouched_write hj hfree _,
      Or.inl ⟨committedAt_write i id _ _ id, rfl⟩⟩, rfl, habsent, row, values.assign row,
      (committedAt_write i id _ _ id).trans hrow, hnone.write hselect, ?_, hprevious ▸ hpast⟩
    -- the row is the one that was read, since nothing later has its `updated_at`
    rcases hfits with ⟨-, happly⟩ | hlater
    · exact happly
    · exact absurd hprevious hlater.ne
  | committing =>
    obtain ⟨habsent, row', new, hrow', hholds, hfollows⟩ := hw
    cases h
    refine ⟨⟨hacc.unique.commit i, fun j hj => untouched_commit hj db.notes,
      Or.inr ⟨row', new, hrow', hholds.1, committedAt_commit_of_pendingAt hholds.1, hfollows, rfl, habsent⟩⟩, rfl,
      holdsNone_commit i db.notes, ?_⟩
    exact List.mem_append_right _ List.mem_cons_self
  | reading =>
    obtain ⟨hnone, hmem⟩ := hw
    obtain ⟨model, hmodel⟩ := toNoteModel_ok legacy (hstored (List.ne_nil_of_mem hmem)) htitle
    rw [next] at h
    rw [select_of_holdsNone hnone, hrow] at h
    dsimp only at h
    rw [hmodel] at h
    cases h
    exact ⟨hrefl, rfl, hnone, hmem⟩
  | returned note => cases h
  | raised e => cases h

theorem Leaves.accounted (h : Leaves legacy uuid5 id i form db db') (hform : form.title ≠ some none)
    (hacc : Accounted legacy uuid5 id start db) : Accounted legacy uuid5 id start db' := by
  obtain ⟨row, hrow, htitle, hreplay, hstored⟩ := hacc.row
  rcases h.row with ⟨hsame, hlog⟩ | ⟨row', new, hrow', -, hnew, ⟨happly, -⟩, hlog, habsent⟩
  · refine ⟨h.unique, ⟨row, hsame.trans hrow, htitle, ?_, ?_⟩, ?_⟩
    · rw [hlog]
      exact hreplay
    · rw [hlog]
      exact hstored
    · rw [hlog]
      exact hacc.once
  · obtain rfl := Option.some.inj (hrow.symm.trans hrow')
    refine ⟨h.unique, ⟨new, hnew, title_of_applyForm happly hform htitle, ?_, fun _ => stored_of_applyForm happly⟩, ?_⟩
    · rw [hlog, List.map_append, List.map_singleton, replay_append hreplay]
      exact happly
    · rw [hlog, List.map_append, List.map_singleton, List.nodup_append]
      refine ⟨hacc.once, List.nodup_singleton i, fun j hj k hk he => habsent ?_⟩
      rwa [he, List.mem_singleton.1 hk] at hj

theorem Leaves.ready (h : Leaves legacy uuid5 id i form db db') (hij : i ≠ j) (hw : w.Ready legacy uuid5 id j db) :
    w.Ready legacy uuid5 id j db' := by
  have huntouched := h.others j hij
  have hnone : HoldsNone j db.notes → HoldsNone j db'.notes := huntouched.holdsNone
  have habsent : Absent j db → Absent j db' := by
    intro ha
    rcases h.row with ⟨-, hlog⟩ | ⟨-, -, -, -, -, -, hlog, -⟩
    · rwa [Absent, hlog]
    · rw [Absent, hlog, List.map_append, List.mem_append, not_or]
      exact ⟨ha, by simpa using hij.symm⟩
  have hlogged : ∀ c ∈ db.log, c ∈ db'.log := by
    intro c hc
    rcases h.row with ⟨-, hlog⟩ | ⟨-, -, -, -, -, -, hlog, -⟩
    · rwa [hlog]
    · rw [hlog]
      exact List.mem_append_left _ hc
  obtain ⟨form', phase⟩ := w
  cases phase with
  | called | selecting | raised => exact ⟨hnone hw.1, habsent hw.2⟩
  | updating attempts previous values =>
    obtain ⟨hn, ha, row, hrow, hpast, hfits⟩ := hw
    refine ⟨hnone hn, habsent ha, ?_⟩
    rcases h.row with ⟨hsame, -⟩ | ⟨row', new, hrow', -, hnew, ⟨-, hlater⟩, -, -⟩
    · exact ⟨row, hsame.trans hrow, hpast, hfits⟩
    obtain rfl := Option.some.inj (hrow.symm.trans hrow')
    refine ⟨new, hnew, hpast, Or.inr ?_⟩
    rcases hfits with ⟨hprevious, -⟩ | hpastrow
    · exact hprevious ▸ hlater
    · exact hpastrow.trans hlater
  | committing =>
    obtain ⟨ha, row, new, hrow, hholds, hfollows⟩ := hw
    refine ⟨habsent ha, row, new, ?_, huntouched.holdsOnly hholds, hfollows⟩
    rw [huntouched.committed id new hholds.1, hrow]
  | reading => exact ⟨hnone hw.1, hlogged _ hw.2⟩
  | returned note =>
    cases note with
    | none => exact hw
    | some model => exact ⟨hnone hw.1, hlogged _ hw.2⟩

/-- A committed call can only return, and one that has raised or not written is not committed. -/
def Settled (legacy : LegacyFiles) (uuid5 : String → String → String) (id : String) (i : ℕ) (w : Writer) (db : Db) :
    Prop :=
  match w.phase with
  | .returned note => note.isSome = true ∧ ⟨i, w.form⟩ ∈ db.log
  | .reading =>
    ⟨i, w.form⟩ ∈ db.log ∧
      ∃ note, ∀ time_ns, next legacy uuid5 id i db w time_ns = some (db, ⟨w.form, .returned (some note)⟩)
  | .called | .selecting _ | .updating _ _ _ | .committing | .raised _ => i ∉ db.log.map Commit.writer

theorem settled_of_ready (hacc : Accounted legacy uuid5 id start db) (hw : w.Ready legacy uuid5 id i db) :
    Settled legacy uuid5 id i w db := by
  obtain ⟨form, phase⟩ := w
  cases phase with
  | called | selecting | raised => exact hw.2
  | updating => exact hw.2.1
  | committing => exact hw.1
  | reading =>
    obtain ⟨row, hrow, htitle, -, hstored⟩ := hacc.row
    obtain ⟨model, hmodel⟩ := toNoteModel_ok legacy (hstored (List.ne_nil_of_mem hw.2)) htitle
    refine ⟨hw.2, model, fun time_ns => ?_⟩
    rw [next]
    rw [select_of_holdsNone hw.1, hrow]
    dsimp only
    rw [hmodel]
  | returned note =>
    cases note with
    | none => exact hw.elim
    | some model => exact ⟨rfl, hw.2⟩

/-- The note is the result of the committed calls in their order, as long as no call sets the title
to `null`. -/
theorem updates_linearisable (legacy : LegacyFiles) (uuid5 : String → String → String) (id : String)
    {notes : Table String StoredNote} {forms : List NoteUpdateForm} {start : StoredNote} {c : Conf Db Writer}
    (hunique : UniqueKeys notes) (hfree : ∀ i, HoldsNone i notes) (hstart : committedAt notes id = some start)
    (htitle : start.note.title.isSome = true)
    (hrun : ReachesWhere (next legacy uuid5 id) (fun _ _ w => w.form.title ≠ some none)
      ⟨⟨notes, []⟩, forms.map fun form => ⟨form, .called⟩⟩ c) :
    (∃ row, committedAt c.shared.notes id = some row ∧
      replay legacy uuid5 start.note (c.shared.log.map Commit.form) = .ok row.note) ∧
    (c.shared.log.map Commit.writer).Nodup ∧
    (∀ e ∈ c.shared.log, forms[e.writer]? = some e.form) ∧
    (∀ i w, c.procs[i]? = some w → forms[i]? = some w.form ∧ Settled legacy uuid5 id i w c.shared) ∧
    ∀ before e after, c.shared.log = before ++ e :: after →
      ∃ old, replay legacy uuid5 start.note (before.map Commit.form) = .ok old ∧ Guarded legacy uuid5 e.form old := by
  have hinit : Holds
      (fun db => Accounted legacy uuid5 id start.note db ∧ ∀ e ∈ db.log, forms[e.writer]? = some e.form)
      (fun i w db => forms[i]? = some w.form ∧ w.Ready legacy uuid5 id i db)
      (⟨⟨notes, []⟩, forms.map fun form => ⟨form, .called⟩⟩ : Conf Db Writer) := by
    refine ⟨⟨⟨hunique, ⟨start, hstart, htitle, rfl, fun h => absurd rfl h⟩, List.nodup_nil⟩, by simp⟩, ?_⟩
    intro i w hw
    rw [List.getElem?_map, Option.map_eq_some_iff] at hw
    obtain ⟨form, hform, rfl⟩ := hw
    exact ⟨hform, hfree i, List.not_mem_nil⟩
  obtain ⟨⟨hacc, hforms⟩, hlocal⟩ := invariant_of_frame
    (fun i time_ns db w db' w' hok hG hL hn => by
      obtain ⟨hleaves, hform, hready⟩ := leaves_of_next hok hG.1 hL.2 hn
      refine ⟨⟨hleaves.accounted hok hG.1, fun e he => ?_⟩, hform ▸ hL.1, hready⟩
      rcases hleaves.row with ⟨-, hlog⟩ | ⟨-, -, -, -, -, -, hlog, -⟩
      · exact hG.2 e (hlog ▸ he)
      · rw [hlog, List.mem_append, List.mem_singleton] at he
        rcases he with he | rfl
        · exact hG.2 e he
        · exact hL.1)
    (fun i j time_ns db w db' w' q hij hok hG hL hq hn =>
      ⟨hq.1, (leaves_of_next hok hG.1 hL.2 hn).1.ready hij hq.2⟩)
    hrun hinit
  obtain ⟨row, hrow, -, hreplay, -⟩ := hacc.row
  refine ⟨⟨row, hrow, hreplay⟩, hacc.once, hforms, fun i w hw => ?_, fun before e after hlog => ?_⟩
  · obtain ⟨hform, hready⟩ := hlocal i w hw
    exact ⟨hform, settled_of_ready hacc hready⟩
  · rw [hlog, List.map_append, List.map_cons] at hreplay
    obtain ⟨old, new, hold, happly⟩ := applied_of_replay hreplay
    exact ⟨old, hold, guarded_of_applyForm happly⟩

end Updates

theorem updates_linearisable_retry :
    let legacy : LegacyFiles := ⟨fun _ _ _ => false, fun _ _ _ => none⟩
    let uuid5 := fun a b : String => a ++ b
    let note : Note := ⟨some "Title", ⟨[], none, some ⟨some "hi", []⟩, none, none, none, []⟩, none⟩
    let notes : Table String StoredNote := [⟨"n", some ⟨note, some 5⟩, none⟩]
    let rename : NoteUpdateForm := ⟨some (some "New"), ⟨⟨none, none, none⟩, false, []⟩, none, none, none, none, none⟩
    let write : NoteUpdateForm :=
      ⟨none, ⟨⟨some (.obj [("md", .str "text")]), none, none⟩, false, []⟩, none, none, some 0, none, none⟩
    ∃ c, ReachesWhere (next legacy uuid5 "n") (fun _ _ w => w.form.title ≠ some none)
        ⟨⟨notes, []⟩, [⟨rename, .called⟩, ⟨write, .called⟩]⟩ c ∧
      c.shared.log.map Commit.writer = [0, 1] ∧
      (∃ row, committedAt c.shared.notes "n" = some row ∧ row.updated_at = some 7 ∧
        replay legacy uuid5 note [rename, write] = .ok row.note) := by
  intro legacy uuid5 note notes rename write
  have hrun : (runSchedule (fun i s w (k : ℤ) => if w.form.title ≠ some none then next legacy uuid5 "n" i s w k else none)
      ⟨⟨notes, []⟩, [⟨rename, .called⟩, ⟨write, .called⟩]⟩
      [(0, 3), (1, 3), (0, 3), (1, 3), (0, 3), (0, 3), (1, 3), (1, 3), (1, 3), (1, 3)]).map
        (fun c => (c.shared.log.map Commit.writer, c.shared.log.map Commit.form,
          (committedAt c.shared.notes "n").bind StoredNote.updated_at)) = some ([0, 1], [rename, write], some 7) := by
    dsimp only [legacy, uuid5, note, notes, rename, write]
    decide +kernel
  rw [Option.map_eq_some_iff] at hrun
  obtain ⟨c, hc, hlog⟩ := hrun
  have hreaches := reachesWhere_of_guarded (reaches_of_runSchedule hc)
  rw [Prod.mk.injEq, Prod.mk.injEq] at hlog
  have hforms : [⟨rename, .called⟩, ⟨write, .called⟩] =
      [rename, write].map fun form => (⟨form, .called⟩ : Writer) := rfl
  rw [hforms] at hreaches
  obtain ⟨⟨row, hrow, hreplay⟩, -⟩ := updates_linearisable legacy uuid5 "n" (by simp [notes, UniqueKeys])
    (holdsNone_of_forall (by simp [notes])) rfl rfl hreaches
  rw [hlog.2.1] at hreplay
  rw [hrow] at hlog
  exact ⟨c, hreaches, hlog.1, row, hrow, hlog.2.2, hreplay⟩

/-- A call that sets the title to `null` has changed the note when it raises. -/
theorem update_of_null_title :
    let legacy : LegacyFiles := ⟨fun _ _ _ => false, fun _ _ _ => none⟩
    let uuid5 := fun a b : String => a ++ b
    let note : Note := ⟨some "Title", ⟨[], none, some ⟨some "hi", []⟩, none, none, none, []⟩, none⟩
    let notes : Table String StoredNote := [⟨"n", some ⟨note, some 5⟩, none⟩]
    let form : NoteUpdateForm := ⟨some none, ⟨⟨none, none, none⟩, false, []⟩, none, none, none, none, none⟩
    ∃ c, Reaches (next legacy uuid5 "n") ⟨⟨notes, []⟩, [⟨form, .called⟩]⟩ c ∧
      c.procs = [⟨form, .raised .validation⟩] ∧
      (committedAt c.shared.notes "n").map (fun row => row.note.title) = some none := by
  intro legacy uuid5 note notes form
  have hrun : (runSchedule (next legacy uuid5 "n") ⟨⟨notes, []⟩, [⟨form, .called⟩]⟩
      [(0, 3), (0, 3), (0, 3), (0, 3), (0, 3)]).map
        (fun c => (c.procs, (committedAt c.shared.notes "n").map fun row => row.note.title)) =
        some ([⟨form, .raised .validation⟩], some none) := by
    dsimp only [legacy, uuid5, note, notes, form]
    decide +kernel
  rw [Option.map_eq_some_iff] at hrun
  obtain ⟨c, hc, heq⟩ := hrun
  rw [Prod.mk.injEq] at heq
  exact ⟨c, reaches_of_runSchedule hc, heq.1, heq.2⟩

end RyanAI.Notes
