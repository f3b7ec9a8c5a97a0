import RyanAI.Knowledge.DirectoryRequests

/-!
# Moving and renaming a directory in one call

`update_directory` of `models/knowledge.py` moves the directory, which is committed, and renames it after that. Where
the unique constraint refuses the name, the call returns `None`, as if nothing had happened, with the directory in its
new place. It is all or nothing exactly where that does not come about (`update_directory_atomic_iff`).
-/

namespace RyanAI.Knowledge

open RyanAI.Lib

namespace DirectoryTables

/-! ## The steps -/

/-- `update(KnowledgeDirectory).filter_by(id=…)` and the commit; `none` is the exception, and nothing is written. -/
def updateWhere (t : DirectoryTables) (foreignKeys : Bool) (directoryId : String) (values : DirectoryRow → DirectoryRow) :
    Option DirectoryTables :=
  match t.directories.get directoryId with
  | none => some t
  | some row =>
    if t.refuses foreignKeys directoryId (values row) then none else some (t.setDirectory directoryId (values row))

/-- `get_directory_by_id`. -/
def getDirectoryById (t : DirectoryTables) (directoryId : String) : Option DirectoryRow := t.directories.get directoryId

/-- `rename_directory`: what it returns, and the tables afterwards. -/
def renameDirectory (t : DirectoryTables) (foreignKeys : Bool) (directoryId name : String) :
    Option DirectoryRow × DirectoryTables :=
  match t.updateWhere foreignKeys directoryId fun row => { row with name := name } with
  | none => (none, t)
  | some t => (t.getDirectoryById directoryId, t)

/-- `move_directory`. -/
def moveDirectory (t : DirectoryTables) (foreignKeys : Bool) (directoryId : String) (newParentId : Option String) :
    Option DirectoryRow × DirectoryTables :=
  if ∀ parentId ∈ newParentId, t.WalkPasses directoryId parentId then
    match t.updateWhere foreignKeys directoryId fun row => { row with parentId := newParentId } with
    | none => (none, t)
    | some t => (t.getDirectoryById directoryId, t)
  else (none, t)

/-- `update_directory`. -/
def updateDirectory (t : DirectoryTables) (foreignKeys : Bool) (directoryId : String) (name parentId : Option String) :
    Option DirectoryRow × DirectoryTables :=
  let rest (t : DirectoryTables) : Option DirectoryRow × DirectoryTables :=
    match name with
    | some name => t.renameDirectory foreignKeys directoryId name
    | none => (t.getDirectoryById directoryId, t)
  if parentId = some "__unset__" then rest t
  else
    match t.moveDirectory foreignKeys directoryId parentId with
    | (none, t) => (none, t)
    | (some _, t) => rest t

/-! ## All or nothing -/

/-- Both changes are stored and returned, or `None` is returned and every directory is where it was, with its name. -/
def Atomic (t : DirectoryTables) (directoryId name : String) (parentId : Option String)
    (result : Option DirectoryRow × DirectoryTables) : Prop :=
  (∃ row, result.1 = some row ∧ row.name = name ∧ row.parentId = parentId ∧
      result.2.directories.get directoryId = some row) ∨
    result.1 = none ∧
      ∀ id, (result.2.directories.get id).map (fun row => (row.parentId, row.name)) =
        (t.directories.get id).map fun row => (row.parentId, row.name)

/-- The directory may be moved to a parent that is new to it, and the new name is taken there. -/
def TakenAfterMove (t : DirectoryTables) (foreignKeys : Bool) (directoryId name : String) (parentId : Option String) :
    Prop :=
  ∃ row, t.directories.get directoryId = some row ∧ row.parentId ≠ parentId ∧
    (∀ newParentId ∈ parentId, t.WalkPasses directoryId newParentId) ∧
    t.refuses foreignKeys directoryId { row with parentId := parentId } = false ∧
    t.conflicts directoryId { row with parentId := parentId, name := name } = true

variable {t : DirectoryTables} {foreignKeys : Bool} {directoryId name : String} {parentId : Option String}
  {row row' : DirectoryRow}

theorem conflicts_iff :
    t.conflicts directoryId row = true ↔ row.parentId.isSome = true ∧ ∃ id other, t.directories.get id = some other ∧
      id ≠ directoryId ∧ other.knowledgeId = row.knowledgeId ∧ other.parentId = row.parentId ∧
        other.name = row.name := by
  simp only [conflicts, Bool.and_eq_true, List.any_eq_true, decide_eq_true_eq]
  apply and_congr_right
  intro _
  constructor
  · rintro ⟨⟨id, other⟩, hmem, ⟨⟨hne, hknowledge⟩, hparent⟩, hname⟩
    exact ⟨id, other, KeyedTable.get_eq_some.2 hmem, hne, hknowledge, hparent, hname⟩
  · rintro ⟨id, other, hget, hne, hknowledge, hparent, hname⟩
    exact ⟨(id, other), KeyedTable.get_eq_some.1 hget, ⟨⟨hne, hknowledge⟩, hparent⟩, hname⟩

/-- Whether a name is taken does not depend on the row of the directory itself. -/
theorem conflicts_setDirectory (t : DirectoryTables) (directoryId : String) (row row' : DirectoryRow) :
    (t.setDirectory directoryId row').conflicts directoryId row = t.conflicts directoryId row := by
  rw [Bool.eq_iff_iff, conflicts_iff, conflicts_iff]
  apply and_congr_right
  intro _
  apply exists_congr
  intro id
  apply exists_congr
  intro other
  rw [setDirectory, KeyedTable.get_set]
  by_cases hid : id = directoryId
  · simp only [hid, ne_eq, not_true_eq_false, false_and, and_false]
  · rw [if_neg hid]

/-- Once the move has gone through, only the name can be refused. -/
theorem refuses_setDirectory (hmove : t.refuses foreignKeys directoryId row = false) (hparent : row'.parentId = row.parentId) :
    (t.setDirectory directoryId row).refuses foreignKeys directoryId row' = t.conflicts directoryId row' := by
  rw [refuses, conflicts_setDirectory, Bool.or_eq_left_iff_imp]
  intro hmissing
  rw [Bool.and_eq_true, hparent] at hmissing
  obtain ⟨hkeys, hmissing⟩ := hmissing
  rw [refuses, Bool.or_eq_false_iff, hkeys, Bool.true_and] at hmove
  cases hp : row.parentId with
  | none =>
    rw [hp] at hmissing
    cases hmissing
  | some p =>
    rw [hp, Option.any_some, setDirectory, KeyedTable.get_set] at hmissing
    rw [hp, Option.any_some] at hmove
    split at hmissing
    · cases hmissing
    · rw [hmove.2] at hmissing
      cases hmissing

/-- The steps one after the other: nothing is moved, both steps go through, or the name is taken in the new parent. -/
theorem updateDirectory_cases (t : DirectoryTables) (foreignKeys : Bool) (directoryId name : String)
    (hparent : parentId ≠ some "__unset__") :
    (t.updateDirectory foreignKeys directoryId (some name) parentId = (none, t) ∧
      ∀ row, t.directories.get directoryId = some row → (∀ newParentId ∈ parentId, t.WalkPasses directoryId newParentId) →
        t.refuses foreignKeys directoryId { row with parentId := parentId } = true) ∨
    ∃ row, t.directories.get directoryId = some row ∧ (∀ newParentId ∈ parentId, t.WalkPasses directoryId newParentId) ∧
      t.refuses foreignKeys directoryId { row with parentId := parentId } = false ∧
      t.updateDirectory foreignKeys directoryId (some name) parentId =
        if t.conflicts directoryId { row with parentId := parentId, name := name } then
          (none, t.setDirectory directoryId { row with parentId := parentId })
        else (some { row with parentId := parentId, name := name },
          t.setDirectory directoryId { row with parentId := parentId, name := name }) := by
  rw [updateDirectory, if_neg hparent, moveDirectory]
  by_cases hwalk : ∀ newParentId ∈ parentId, t.WalkPasses directoryId newParentId
  swap
  · rw [if_neg hwalk]
    exact .inl ⟨rfl, fun _ _ hpasses => absurd hpasses hwalk⟩
  rw [if_pos hwalk, updateWhere]
  cases hrow : t.directories.get directoryId with
  | none =>
    left
    simp only [getDirectoryById, hrow]
    exact ⟨trivial, fun _ h => nomatch h⟩
  | some row =>
    simp only
    by_cases hrefuses : t.refuses foreignKeys directoryId { row with parentId := parentId } = true
    · left
      rw [if_pos hrefuses]
      refine ⟨rfl, ?_⟩
      intro row' heq _
      cases heq
      exact hrefuses
    right
    have hmove := Bool.eq_false_of_not_eq_true hrefuses
    refine ⟨row, rfl, hwalk, hmove, ?_⟩
    have hget : (t.setDirectory directoryId { row with parentId := parentId }).directories.get directoryId =
        some { row with parentId := parentId } := by
      rw [setDirectory, KeyedTable.get_set, if_pos rfl]
    rw [if_neg hrefuses]
    have hname : (t.setDirectory directoryId { row with parentId := parentId }).refuses foreignKeys directoryId
        { row with parentId := parentId, name := name } =
        t.conflicts directoryId { row with parentId := parentId, name := name } := refuses_setDirectory hmove rfl
    simp only [getDirectoryById, hget, renameDirectory, updateWhere, hname]
    by_cases htaken : t.conflicts directoryId { row with parentId := parentId, name := name } = true
    · rw [if_pos htaken, if_pos htaken]
    · rw [if_neg htaken, if_neg htaken]
      simp only [setDirectory, KeyedTable.set_set, KeyedTable.get_set, if_pos]

end DirectoryTables

/-- A call with a new parent and a new name is all or nothing, unless the move goes through and the name is taken in
the parent that is new to the directory. -/
theorem update_directory_atomic_iff (t : DirectoryTables) (foreignKeys : Bool) (directoryId name : String)
    (parentId : Option String) (hparent : parentId ≠ some "__unset__") :
    t.Atomic directoryId name parentId (t.updateDirectory foreignKeys directoryId (some name) parentId) ↔
      ¬ t.TakenAfterMove foreignKeys directoryId name parentId := by
  rcases t.updateDirectory_cases foreignKeys directoryId name hparent with
    ⟨hnone, hkept⟩ | ⟨row, hrow, hwalk, hmove, hresult⟩
  · rw [hnone]
    refine iff_of_true (.inr ⟨rfl, fun _ => rfl⟩) ?_
    rintro ⟨row, hrow, -, hwalk, hmove, -⟩
    rw [hkept row hrow hwalk] at hmove
    cases hmove
  rw [hresult]
  by_cases htaken : t.conflicts directoryId { row with parentId := parentId, name := name } = true
  · rw [if_pos htaken]
    -- the move has been committed; it is no change only where the parent is the old one
    have hiff : t.TakenAfterMove foreignKeys directoryId name parentId ↔ row.parentId ≠ parentId := by
      constructor
      · rintro ⟨row', hrow', hne, -⟩
        rw [hrow, Option.some.injEq] at hrow'
        exact hrow' ▸ hne
      · intro hne
        exact ⟨row, hrow, hne, hwalk, hmove, htaken⟩
    rw [hiff, not_not]
    constructor
    · rintro (⟨row', hsome, -⟩ | ⟨-, hsame⟩)
      · cases hsome
      · have hself := hsame directoryId
        rw [DirectoryTables.setDirectory, KeyedTable.get_set, if_pos rfl, hrow] at hself
        exact (congrArg Prod.fst (Option.some.inj hself)).symm
    · intro heq
      refine .inr ⟨rfl, ?_⟩
      intro id
      rw [DirectoryTables.setDirectory, KeyedTable.get_set]
      split
      · rename_i hid
        rw [hid, hrow, Option.map_some, Option.map_some, ← heq]
      · rfl
  · rw [if_neg htaken]
    refine iff_of_true (.inl ⟨_, rfl, rfl, rfl, ?_⟩) ?_
    · rw [DirectoryTables.setDirectory, KeyedTable.get_set, if_pos rfl]
    · rintro ⟨row', hrow', -, -, -, htaken'⟩
      rw [hrow, Option.some.injEq] at hrow'
      subst hrow'
      exact htaken htaken'

/-- `d` is in `p`; there is a directory "b" in `q`. -/
def twoShelves : DirectoryTables where
  directories :=
    (((KeyedTable.empty.set "p" ⟨⟨"kb", none⟩, "P"⟩).set "q" ⟨⟨"kb", none⟩, "Q"⟩).set "d" ⟨⟨"kb", some "p"⟩, "a"⟩).set
      "e" ⟨⟨"kb", some "q"⟩, "b"⟩
  files := .empty
  links := .empty

theorem update_directory_atomic_iff_free :
    twoShelves.Atomic "d" "c" (some "q") (twoShelves.updateDirectory true "d" (some "c") (some "q")) := by
  refine (update_directory_atomic_iff twoShelves true "d" "c" (some "q") (by decide)).2 ?_
  rintro ⟨row, hrow, -, -, -, htaken⟩
  obtain rfl : ⟨⟨"kb", some "p"⟩, "a"⟩ = row := Option.some.inj hrow
  exact absurd htaken (by decide)

/-- Moving `d` to `q` under the name "b" returns `None`, with `d` in `q`. -/
theorem taken_name_leaves_the_move : (twoShelves.updateDirectory true "d" (some "b") (some "q")).1 = none ∧
      (twoShelves.updateDirectory true "d" (some "b") (some "q")).2.parentOf "d" = some "q" ∧
      ¬ twoShelves.Atomic "d" "b" (some "q") (twoShelves.updateDirectory true "d" (some "b") (some "q")) := by
  have hmoved : (twoShelves.updateDirectory true "d" (some "b") (some "q")).2.parentOf "d" = some "q" := by decide
  refine ⟨by decide, hmoved, ?_⟩
  rintro (⟨row, hsome, -⟩ | ⟨-, hsame⟩)
  · have hnone : (twoShelves.updateDirectory true "d" (some "b") (some "q")).1.isSome = false := by decide
    rw [hsome] at hnone
    cases hnone
  · have hparent := congrArg (Option.map Prod.fst) (hsame "d")
    exact absurd hparent (by decide)

end RyanAI.Knowledge
