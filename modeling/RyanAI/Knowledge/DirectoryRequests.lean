import RyanAI.Knowledge.Directories
import RyanAI.Lib.Interleaving
import RyanAI.Lib.RecursiveQuery
import RyanAI.Lib.Walk

/-!
# Requests that create, move, rename and delete directories

Any number of requests, interleaved at their statements, each of which may fail. A move walks up from the new parent,
one statement for each directory, and writes when the walk has not met the directory that it moves. What it has read may
have changed by then: two moves can each put one directory below the other (`two_moves_close_a_cycle`). Where each walk
would still pass at the moment of the write, the directories stay a forest (`directories_form_a_forest`).
-/

namespace RyanAI.Knowledge

open RyanAI.Lib

/-! ## The statements -/

variable {id : String} {foreignKeys : Bool}

namespace DirectoryTables

/-- `_verify_directory_in_knowledge`. -/
def verifyDirectoryInKnowledge (t : DirectoryTables) (knowledgeId : String) (directoryId : Option String) : Bool :=
  match directoryId with
  | none => true
  | some id => id = "" || (t.directories.get id).any fun row => row.knowledgeId = knowledgeId

def conflicts (t : DirectoryTables) (id : String) (row : DirectoryRow) : Bool :=
  row.parentId.isSome && t.directories.entries.any fun entry =>
    entry.1 ≠ id && entry.2.knowledgeId = row.knowledgeId && entry.2.parentId = row.parentId && entry.2.name = row.name

def refuses (t : DirectoryTables) (foreignKeys : Bool) (id : String) (row : DirectoryRow) : Bool :=
  t.conflicts id row || (foreignKeys && row.parentId.any fun parentId => (t.directories.get parentId).isNone)

def setDirectory (t : DirectoryTables) (id : String) (row : DirectoryRow) : DirectoryTables :=
  { t with directories := t.directories.set id row }

/-- `select(KnowledgeDirectory.parent_id).filter_by(id=…)`. -/
def parentOf (t : DirectoryTables) (id : String) : Option String := (t.directories.get id).bind fun row => row.parentId

def cascade (t : DirectoryTables) (directoryId : String) : List String :=
  RecursiveQuery.query t.world.children t.directories.keys.length [directoryId]

/-- `delete(KnowledgeDirectory).filter_by(id=…)`. -/
def dropDirectory (t : DirectoryTables) (foreignKeys : Bool) (directoryId : String) : DirectoryTables :=
  if foreignKeys then
    { t with
      directories := t.directories.filter fun id _ => decide (id ∉ t.cascade directoryId)
      links := t.links.map fun _ link =>
        if link.directoryId.any fun id => decide (id ∈ t.cascade directoryId) then { link with directoryId := none }
        else link }
  else { t with directories := t.directories.filter fun id _ => decide (id ≠ directoryId) }

/-- The walk of `move_directory` on these tables does not meet the directory. -/
def WalkPasses (t : DirectoryTables) (dirId newParentId : String) : Prop :=
  newParentId = "" ∨ dirId ∉ walk t.parentOf (t.directories.keys.length + 1) [] newParentId

instance (t : DirectoryTables) (dirId newParentId : String) : Decidable (t.WalkPasses dirId newParentId) :=
  inferInstanceAs (Decidable (_ ∨ _))

variable {t : DirectoryTables}

theorem hierarchy_setDirectory (t : DirectoryTables) (id : String) (row : DirectoryRow) :
    (t.setDirectory id row).hierarchy = Hierarchy.hang id row.parentId t.hierarchy := by
  funext id'
  by_cases hid : id' = id
  · subst hid
    simp [hierarchy, setDirectory, Hierarchy.hang]
  · simp [hierarchy, setDirectory, Hierarchy.hang, hid]

variable {keep : String → DirectoryRow → Bool}

theorem Acyclic.filter {t' : DirectoryTables} (h : t.Acyclic)
    (ht' : t'.directories = t.directories.filter keep) : t'.Acyclic := by
  intro id hid
  refine h id (Relation.TransGen.mono ?_ _ _ hid)
  intro a b hunder
  obtain ⟨row, hrow, hparent⟩ := under_iff.1 hunder
  rw [ht', KeyedTable.get_filter, Option.filter_eq_some_iff] at hrow
  exact under_iff.2 ⟨row, hrow.1, hparent⟩

theorem exists_keep_dropDirectory (t : DirectoryTables) (foreignKeys : Bool) (dirId : String) :
    ∃ keep : String → DirectoryRow → Bool, (t.dropDirectory foreignKeys dirId).directories = t.directories.filter keep := by
  rw [dropDirectory]
  split
  · exact ⟨fun id _ => decide (id ∉ t.cascade dirId), rfl⟩
  · exact ⟨fun id _ => decide (id ≠ dirId), rfl⟩

theorem under_iff_parentOf : Hierarchy.Under t.hierarchy id parentId ↔ t.parentOf id = some parentId := by
  rw [parentOf, under_iff, Option.bind_eq_some_iff]

theorem walkPasses_iff :
    t.WalkPasses dirId newParentId ↔ newParentId = "" ∨ ¬ Hierarchy.Reaches t.hierarchy newParentId dirId := by
  have hids : ∀ x y, t.parentOf x = some y → x ∈ t.directories.keys := by
    intro x y hxy
    obtain ⟨row, hrow, _⟩ := Option.bind_eq_some_iff.1 hxy
    rw [KeyedTable.mem_keys, hrow]
    rfl
  have hstep : (fun a b => t.parentOf a = some b) = Hierarchy.Under t.hierarchy := by
    funext a b
    exact (propext under_iff_parentOf).symm
  rw [WalkPasses, mem_walk_iff hids (Nat.lt_succ_self _), hstep]
  rfl

end DirectoryTables

namespace DirectoryRequests

/-! ## The requests -/

/-- What `delete_directory` does with the files of the subtree. -/
inductive Disposal where
  | moveTo (target : Option String)
  | delete

inductive Visit where
  | files (id : String)
  | children (id : String)

inductive Stage where
  | createCheck (knowledgeId name : String) (parentId : Option String)
  | insert (knowledgeId name : String) (parentId : Option String)
  | updateCheck (knowledgeId dirId : String) (name parentId : Option String)
  | updateParentCheck (knowledgeId dirId : String) (name parentId : Option String)
  | walk (dirId : String) (name : Option String) (newParentId : String) (current : Option String) (seen : List String)
  | move (dirId : String) (name newParentId : Option String)
  | moved (dirId : String) (name : Option String)
  | rename (dirId name : String)
  | read (dirId : String)
  | deleteCheck (knowledgeId dirId : String) (moveFiles : Bool)
  | collect (dirId : String) (queue : List String)
  | find (dirId : String) (moveFiles : Bool)
  | traverse (dirId : String) (disposal : Disposal) (work : List Visit)
  | done

inductive Request where
  | create (knowledgeId name : String) (parentId : Option String)
  | update (knowledgeId dirId : String) (name parentId : Option String)
  | delete (knowledgeId dirId : String) (moveFiles : Bool)

def Request.start : Request → Stage
  | .create knowledgeId name parentId => .createCheck knowledgeId name parentId
  | .update knowledgeId dirId name parentId => .updateCheck knowledgeId dirId name parentId
  | .delete knowledgeId dirId moveFiles => .deleteCheck knowledgeId dirId moveFiles

/-- The end of `update_directory`. -/
def Stage.renaming (dirId : String) (name : Option String) : Stage :=
  match name with
  | some name => .rename dirId name
  | none => .read dirId

/-- `update_directory` up to its first statement. -/
def Stage.updating (dirId : String) (name parentId : Option String) : Stage :=
  if parentId = some "__unset__" then .renaming dirId name
  else match parentId with
    | none => .move dirId name none
    | some newParentId =>
      if newParentId = "" then .move dirId name (some "")
      else .walk dirId name newParentId (some newParentId) []

structure Shared where
  tables : DirectoryTables
  /-- The ids that were drawn. -/
  used : List String

def Shared.start (files : KeyedTable String FileRow) (links : KeyedTable (String × String) KnowledgeFile) : Shared :=
  ⟨⟨.empty, files, links⟩, []⟩

inductive Choice where
  | fails
  /-- With the id that is drawn, if the statement is an insertion. -/
  | proceeds (id : String)

def Shared.updateRow (s : Shared) (foreignKeys : Bool) (dirId : String) (f : DirectoryRow → DirectoryRow)
    (stage : Stage) : Shared × Stage :=
  match s.tables.directories.get dirId with
  | none => (s, stage)
  | some row =>
    if s.tables.refuses foreignKeys dirId (f row) then (s, .done)
    else ({ s with tables := s.tables.setDirectory dirId (f row) }, stage)

def Shared.visit (s : Shared) (disposal : Disposal) : Visit → Shared × List Visit
  | .files id =>
    let links := match disposal with
      | .moveTo target => (s.tables.world.moveFilesIn id target).links
      | .delete => (s.tables.world.deleteFilesIn id).links
    ({ s with tables := { s.tables with links := links } }, [])
  | .children id => (s, (s.tables.world.children id).flatMap fun child => [.files child, .children child])

def Shared.proceed (s : Shared) (foreignKeys : Bool) (id : String) : Stage → Option (Shared × Stage)
  | .createCheck knowledgeId name parentId =>
    some (s, if s.tables.verifyDirectoryInKnowledge knowledgeId parentId then .insert knowledgeId name parentId
      else .done)
  | .insert knowledgeId name parentId =>
    let row : DirectoryRow := ⟨⟨knowledgeId, parentId⟩, name⟩
    -- ids are drawn at random, and none is drawn again
    if id = "" ∨ id ∈ s.used then none
    else if s.tables.refuses foreignKeys id row then some (s, .done)
    else some (⟨s.tables.setDirectory id row, id :: s.used⟩, .read id)
  | .updateCheck knowledgeId dirId name parentId =>
    some (s,
      if s.tables.verifyDirectoryInKnowledge knowledgeId (some dirId) then
        if parentId = none ∨ parentId = some "__unset__" then .updating dirId name parentId
        else .updateParentCheck knowledgeId dirId name parentId
      else .done)
  | .updateParentCheck knowledgeId dirId name parentId =>
    some (s, if s.tables.verifyDirectoryInKnowledge knowledgeId parentId then .updating dirId name parentId
      else .done)
  | .walk dirId name newParentId current seen =>
    match current with
    | none => some (s, .move dirId name (some newParentId))
    | some current =>
      if current = "" ∨ current ∈ seen then some (s, .move dirId name (some newParentId))
      else if current = dirId then some (s, .done)
      else some (s, .walk dirId name newParentId (s.tables.parentOf current) (current :: seen))
  | .move dirId name newParentId =>
    some (s.updateRow foreignKeys dirId (fun row => { row with parentId := newParentId }) (.moved dirId name))
  | .moved dirId name =>
    some (s, if (s.tables.directories.get dirId).isSome then .renaming dirId name else .done)
  | .rename dirId name => some (s.updateRow foreignKeys dirId (fun row => { row with name := name }) (.read dirId))
  | .read _ => some (s, .done)
  | .deleteCheck knowledgeId dirId moveFiles =>
    some (s,
      if s.tables.verifyDirectoryInKnowledge knowledgeId (some dirId) then
        if moveFiles then .find dirId true else .collect dirId [dirId]
      else .done)
  | .collect dirId [] => some (s, .find dirId false)
  | .collect dirId (id :: rest) => some (s, .collect dirId (rest ++ s.tables.world.children id))
  | .find dirId moveFiles =>
    some (s, match s.tables.directories.get dirId with
      | none => .done
      | some row =>
        .traverse dirId (if moveFiles then .moveTo row.parentId else .delete) [.files dirId, .children dirId])
  | .traverse dirId disposal (visit :: work) =>
    let (s, more) := s.visit disposal visit
    some (s, .traverse dirId disposal (more ++ work))
  | .traverse dirId _ [] => some ({ s with tables := s.tables.dropDirectory foreignKeys dirId }, .done)
  | .done => none

def next (foreignKeys : Bool) (_ : ℕ) (s : Shared) (stage : Stage) : Choice → Option (Shared × Stage)
  | .fails => some (s, .done)
  | .proceeds id => s.proceed foreignKeys id stage

def Stage.writes : Stage → Option (String × String)
  | .move dirId _ (some newParentId) => some (dirId, newParentId)
  | _ => none

/-- If the stage is a move that is about to change a row, its walk would pass. -/
def Clear (foreignKeys : Bool) (_ : ℕ) (s : Shared) (stage : Stage) : Prop :=
  ∀ move ∈ stage.writes, ∀ row ∈ s.tables.directories.get move.1,
    s.tables.refuses foreignKeys move.1 { row with parentId := some move.2 } = false →
      s.tables.WalkPasses move.1 move.2

instance (foreignKeys : Bool) (i : ℕ) (s : Shared) (stage : Stage) : Decidable (Clear foreignKeys i s stage) :=
  inferInstanceAs (Decidable (∀ move ∈ stage.writes, ∀ row ∈ s.tables.directories.get move.1, _ → _))

inductive Edit (foreignKeys : Bool) (s : Shared) : Stage → Shared → Prop where
  | unchanged {stage : Stage} {s' : Shared} :
      s'.tables.directories = s.tables.directories → s'.used = s.used → Edit foreignKeys s stage s'
  | insert {knowledgeId name : String} {parentId : Option String} {id : String} :
      id ≠ "" → id ∉ s.used →
      Edit foreignKeys s (.insert knowledgeId name parentId)
        ⟨s.tables.setDirectory id ⟨⟨knowledgeId, parentId⟩, name⟩, id :: s.used⟩
  | move {dirId : String} {name newParentId : Option String} {row : DirectoryRow} :
      s.tables.directories.get dirId = some row →
      s.tables.refuses foreignKeys dirId { row with parentId := newParentId } = false →
      Edit foreignKeys s (.move dirId name newParentId)
        { s with tables := s.tables.setDirectory dirId { row with parentId := newParentId } }
  | rename {dirId name : String} {row : DirectoryRow} :
      s.tables.directories.get dirId = some row →
      Edit foreignKeys s (.rename dirId name)
        { s with tables := s.tables.setDirectory dirId { row with name := name } }
  | drop {stage : Stage} {s' : Shared} {keep : String → DirectoryRow → Bool} :
      s'.tables.directories = s.tables.directories.filter keep → s'.used = s.used → Edit foreignKeys s stage s'

section Steps

variable {foreignKeys : Bool} {i : ℕ} {s s' : Shared} {stage stage' : Stage} {k : Choice}

theorem updateRow_cases (s : Shared) (foreignKeys : Bool) (dirId : String) (f : DirectoryRow → DirectoryRow)
    (stage : Stage) :
    (s.updateRow foreignKeys dirId f stage).1 = s ∨
      ∃ row, s.tables.directories.get dirId = some row ∧ s.tables.refuses foreignKeys dirId (f row) = false ∧
        (s.updateRow foreignKeys dirId f stage).1 = { s with tables := s.tables.setDirectory dirId (f row) } := by
  rw [Shared.updateRow]
  cases hget : s.tables.directories.get dirId with
  | none => exact .inl rfl
  | some row =>
    simp only
    split
    · exact .inl rfl
    · rename_i hrefuses
      exact .inr ⟨row, rfl, by simpa using hrefuses, rfl⟩

theorem edit_of_proceed (h : s.proceed foreignKeys id stage = some (s', stage')) : Edit foreignKeys s stage s' := by
  cases stage with
  | insert knowledgeId name parentId =>
    rw [Shared.proceed] at h
    split at h
    · cases h
    rename_i hfresh
    obtain ⟨hne, hunused⟩ := not_or.1 hfresh
    split at h
    · cases h
      exact .unchanged rfl rfl
    · cases h
      exact .insert hne hunused
  | move dirId name newParentId =>
    rw [Shared.proceed, Option.some.injEq] at h
    obtain hsame | ⟨row, hrow, hallowed, hset⟩ := updateRow_cases s foreignKeys dirId
      (fun row => { row with parentId := newParentId }) (.moved dirId name)
    · rw [h] at hsame
      cases hsame
      exact .unchanged rfl rfl
    · rw [h] at hset
      cases hset
      exact .move hrow hallowed
  | rename dirId name =>
    rw [Shared.proceed, Option.some.injEq] at h
    obtain hsame | ⟨row, hrow, _, hset⟩ := updateRow_cases s foreignKeys dirId
      (fun row => { row with name := name }) (.read dirId)
    · rw [h] at hsame
      cases hsame
      exact .unchanged rfl rfl
    · rw [h] at hset
      cases hset
      exact .rename hrow
  | walk dirId name newParentId current seen =>
    cases current with
    | none =>
      cases h
      exact .unchanged rfl rfl
    | some current =>
      rw [Shared.proceed] at h
      repeat' split at h
      all_goals
        cases h
        exact .unchanged rfl rfl
  | collect dirId queue =>
    cases queue with
    | nil =>
      cases h
      exact .unchanged rfl rfl
    | cons id rest =>
      cases h
      exact .unchanged rfl rfl
  | traverse dirId disposal work =>
    cases work with
    | nil =>
      cases h
      obtain ⟨keep, hkeep⟩ := DirectoryTables.exists_keep_dropDirectory s.tables foreignKeys dirId
      exact .drop hkeep rfl
    | cons visit work =>
      cases visit with
      | files id =>
        cases h
        exact .unchanged rfl rfl
      | children id =>
        cases h
        exact .unchanged rfl rfl
  | done => cases h
  | createCheck _ _ _ | updateCheck _ _ _ _ | updateParentCheck _ _ _ _ | moved _ _ | read _ | deleteCheck _ _ _
  | find _ _ =>
    cases h
    exact .unchanged rfl rfl

theorem edit_of_next (h : next foreignKeys i s stage k = some (s', stage')) : Edit foreignKeys s stage s' := by
  cases k with
  | fails =>
    cases h
    exact .unchanged rfl rfl
  | proceeds id => exact edit_of_proceed h

end Steps

/-! ## What holds in every run -/

structure Sound (s : Shared) : Prop where
  keys : ∀ id row, s.tables.directories.get id = some row → id ∈ s.used
  parents : ∀ id row parentId, s.tables.directories.get id = some row → row.parentId = some parentId →
    parentId = "" ∨ parentId ∈ s.used
  nonempty : "" ∉ s.used
  acyclic : s.tables.Acyclic

def Stage.Knows (used : List String) : Stage → Prop
  | .insert _ _ parentId => ∀ p, parentId = some p → p = "" ∨ p ∈ used
  | .walk _ _ newParentId _ _ => newParentId ∈ used
  | .move _ _ newParentId => ∀ p, newParentId = some p → p = "" ∨ p ∈ used
  | _ => True

namespace Sound

variable {foreignKeys : Bool} {s s' : Shared} {stage stage' : Stage}

theorem start (files : KeyedTable String FileRow) (links : KeyedTable (String × String) KnowledgeFile) :
    Sound (.start files links) where
  keys := by
    intro id row hrow
    cases hrow
  parents := by
    intro id row parentId hrow
    cases hrow
  nonempty := by
    intro h
    cases h
  acyclic := by
    intro id hid
    obtain ⟨b, hunder, _⟩ := Relation.TransGen.head'_iff.1 hid
    cases hunder

section

variable (h : Sound s)

include h

theorem not_reaches_fresh (hne : id ≠ "") (hfresh : id ∉ s.used) (hp : p = "" ∨ p ∈ s.used) :
    ¬ Hierarchy.Reaches s.tables.hierarchy p id := by
  intro hreach
  rcases Relation.ReflTransGen.cases_tail hreach with heq | ⟨child, _, hunder⟩
  · rcases hp with hp | hp
    · exact hne (heq.trans hp)
    · exact hfresh (heq ▸ hp)
  · obtain ⟨row, hrow, hparent⟩ := DirectoryTables.under_iff.1 hunder
    rcases h.parents child row id hrow hparent with hid | hid
    · exact hne hid
    · exact hfresh hid

theorem not_reaches_empty (hid : id ∈ s.used) : ¬ Hierarchy.Reaches s.tables.hierarchy "" id := by
  intro hreach
  rcases Relation.ReflTransGen.cases_head hreach with heq | ⟨parent, hunder, _⟩
  · exact h.nonempty (heq ▸ hid)
  · obtain ⟨row, hrow, _⟩ := DirectoryTables.under_iff.1 hunder
    exact h.nonempty (h.keys "" row hrow)

theorem setDirectory (hused : s.used ⊆ used) (hid : id ∈ used)
    (hparent : ∀ p, row.parentId = some p → p = "" ∨ p ∈ s.used) (hnonempty : "" ∉ used)
    (hbelow : ∀ p, row.parentId = some p → ¬ Hierarchy.Reaches s.tables.hierarchy p id) :
    Sound ⟨s.tables.setDirectory id row, used⟩ where
  keys := by
    intro id' row' hrow'
    simp only [DirectoryTables.setDirectory, KeyedTable.get_set] at hrow'
    split at hrow'
    · rename_i heq
      exact heq ▸ hid
    · exact hused (h.keys id' row' hrow')
  parents := by
    intro id' row' p hrow' hp
    simp only [DirectoryTables.setDirectory, KeyedTable.get_set] at hrow'
    split at hrow'
    · cases hrow'
      exact (hparent p hp).imp_right fun hmem => hused hmem
    · exact (h.parents id' row' p hrow' hp).imp_right fun hmem => hused hmem
  nonempty := hnonempty
  acyclic := by
    intro a ha
    rw [DirectoryTables.hierarchy_setDirectory] at ha
    rcases Hierarchy.above_hang hbelow ha with hold | ⟨p, hp, hreach, hreach'⟩
    · exact h.acyclic a hold
    · exact hbelow p hp (hreach'.trans hreach)

theorem congr (hdirs : s'.tables.directories = s.tables.directories) (hused : s'.used = s.used) : Sound s' where
  keys := by
    rw [hdirs, hused]
    exact h.keys
  parents := by
    rw [hdirs, hused]
    exact h.parents
  nonempty := hused ▸ h.nonempty
  acyclic := by
    have hhierarchy : s'.tables.hierarchy = s.tables.hierarchy := by
      funext id
      rw [DirectoryTables.hierarchy, DirectoryTables.hierarchy, hdirs]
    rw [DirectoryTables.Acyclic, hhierarchy]
    exact h.acyclic

theorem filter
    (hdirs : s'.tables.directories = s.tables.directories.filter keep) (hused : s'.used = s.used) : Sound s' where
  keys := by
    intro id row hrow
    rw [hdirs, KeyedTable.get_filter, Option.filter_eq_some_iff] at hrow
    exact hused ▸ h.keys id row hrow.1
  parents := by
    intro id row p hrow hp
    rw [hdirs, KeyedTable.get_filter, Option.filter_eq_some_iff] at hrow
    exact hused ▸ h.parents id row p hrow.1 hp
  nonempty := hused ▸ h.nonempty
  acyclic := h.acyclic.filter hdirs

theorem edit (hknows : stage.Knows s.used) (hclear : Clear foreignKeys i s stage)
    (hedit : Edit foreignKeys s stage s') : Sound s' := by
  cases hedit with
  | unchanged hdirs hused => exact h.congr hdirs hused
  | drop hdirs hused => exact h.filter hdirs hused
  | insert hne hfresh =>
    refine h.setDirectory (List.subset_cons_self _ _) List.mem_cons_self hknows ?_ ?_
    · intro hmem
      rcases List.mem_cons.1 hmem with heq | hmem
      · exact hne heq.symm
      · exact h.nonempty hmem
    · intro p hp
      exact h.not_reaches_fresh hne hfresh (hknows p hp)
  | @rename dirId name row hrow =>
    refine h.setDirectory (List.Subset.refl _) (h.keys dirId row hrow) (fun p hp => h.parents dirId row p hrow hp)
      h.nonempty ?_
    -- the parent is the one that the directory has
    intro p hp hreach
    exact h.acyclic dirId (Relation.TransGen.head' (DirectoryTables.under_iff.2 ⟨row, hrow, hp⟩) hreach)
  | @move dirId name newParentId row hrow hallowed =>
    refine h.setDirectory (List.Subset.refl _) (h.keys dirId row hrow) hknows h.nonempty ?_
    rintro p hp
    cases hp
    rcases DirectoryTables.walkPasses_iff.1 (hclear (dirId, p) rfl row hrow hallowed) with rfl | hnot
    · exact h.not_reaches_empty (h.keys dirId row hrow)
    · exact hnot

theorem mem_used_of_verify (hverify : s.tables.verifyDirectoryInKnowledge knowledgeId parentId = true) :
    ∀ p, parentId = some p → p = "" ∨ p ∈ s.used := by
  rintro p rfl
  simp only [DirectoryTables.verifyDirectoryInKnowledge, Bool.or_eq_true, decide_eq_true_eq,
    Option.any_eq_true] at hverify
  rcases hverify with hempty | ⟨row, hrow, _⟩
  · exact .inl hempty
  · exact .inr (h.keys p row hrow)

end

end Sound

theorem used_subset (h : Edit foreignKeys s stage s') : s.used ⊆ s'.used := by
  cases h with
  | unchanged _ hused => exact hused ▸ List.Subset.refl _
  | drop _ hused => exact hused ▸ List.Subset.refl _
  | insert _ _ => exact List.subset_cons_self _ _
  | move _ _ => exact List.Subset.refl _
  | rename _ => exact List.Subset.refl _

namespace Stage

variable {used : List String}

theorem Knows.mono {stage : Stage} (h : stage.Knows used) (hsub : used ⊆ used') : stage.Knows used' := by
  cases stage with
  | insert knowledgeId name parentId => exact fun p hp => (h p hp).imp_right fun hmem => hsub hmem
  | walk dirId name newParentId current seen => exact hsub h
  | move dirId name newParentId => exact fun p hp => (h p hp).imp_right fun hmem => hsub hmem
  | _ => trivial

theorem knows_renaming (dirId : String) (name : Option String) : (Stage.renaming dirId name).Knows used := by
  cases name with
  | none => trivial
  | some name => trivial

theorem knows_updating (dirId : String) (name : Option String)
    (h : ∀ p, parentId = some p → p = "__unset__" ∨ p = "" ∨ p ∈ used) :
    (Stage.updating dirId name parentId).Knows used := by
  cases parentId with
  | none =>
    intro p hp
    cases hp
  | some newParentId =>
    simp only [Stage.updating]
    split
    · exact knows_renaming dirId name
    rename_i hset
    have hknown := (h newParentId rfl).resolve_left fun heq => hset (congrArg some heq)
    split
    · intro p hp
      cases hp
      exact .inl rfl
    · rename_i hne
      exact hknown.resolve_left hne

end Stage

theorem updateRow_knows (s : Shared) (foreignKeys : Bool) (dirId : String) (f : DirectoryRow → DirectoryRow)
    (h : stage.Knows used) : (s.updateRow foreignKeys dirId f stage).2.Knows used := by
  rw [Shared.updateRow]
  split
  · exact h
  · split
    · trivial
    · exact h

theorem knows_of_proceed (hs : Sound s) (hknows : stage.Knows s.used)
    (h : s.proceed foreignKeys id stage = some (s', stage')) : stage'.Knows s'.used := by
  cases stage with
  | createCheck knowledgeId name parentId =>
    cases h
    split
    · rename_i hverify
      exact hs.mem_used_of_verify hverify
    · trivial
  | insert knowledgeId name parentId =>
    rw [Shared.proceed] at h
    split at h
    · cases h
    split at h
    · cases h
      trivial
    · cases h
      trivial
  | updateCheck knowledgeId dirId name parentId =>
    cases h
    split
    · split
      · rename_i hparent
        apply Stage.knows_updating
        rintro p rfl
        exact .inl (by simpa using hparent)
      · trivial
    · trivial
  | updateParentCheck knowledgeId dirId name parentId =>
    cases h
    split
    · rename_i hverify
      apply Stage.knows_updating
      intro p hp
      exact .inr (hs.mem_used_of_verify hverify p hp)
    · trivial
  | walk dirId name newParentId current seen =>
    have hmove : (Stage.move dirId name (some newParentId)).Knows s.used := by
      intro p hp
      cases hp
      exact .inr hknows
    cases current with
    | none =>
      cases h
      exact hmove
    | some current =>
      rw [Shared.proceed] at h
      split at h
      · cases h
        exact hmove
      split at h
      · cases h
        trivial
      · cases h
        exact hknows
  | move dirId name newParentId =>
    rw [Shared.proceed, Option.some.injEq] at h
    have hstage := updateRow_knows s foreignKeys dirId (fun row => { row with parentId := newParentId })
      (show Stage.Knows s'.used (.moved dirId name) from trivial)
    rw [h] at hstage
    exact hstage
  | moved dirId name =>
    cases h
    split
    · exact Stage.knows_renaming dirId name
    · trivial
  | rename dirId name =>
    rw [Shared.proceed, Option.some.injEq] at h
    have hstage := updateRow_knows s foreignKeys dirId (fun row => { row with name := name })
      (show Stage.Knows s'.used (.read dirId) from trivial)
    rw [h] at hstage
    exact hstage
  | read dirId =>
    cases h
    trivial
  | deleteCheck knowledgeId dirId moveFiles =>
    cases h
    split
    · split <;> trivial
    · trivial
  | collect dirId queue =>
    cases queue with
    | nil =>
      cases h
      trivial
    | cons id rest =>
      cases h
      trivial
  | find dirId moveFiles =>
    cases h
    split <;> trivial
  | traverse dirId disposal work =>
    cases work with
    | nil =>
      cases h
      trivial
    | cons visit work =>
      cases visit with
      | files id =>
        cases h
        trivial
      | children id =>
        cases h
        trivial
  | done => cases h

theorem knows_of_next (hs : Sound s)
    (hknows : stage.Knows s.used) (h : next foreignKeys i s stage k = some (s', stage')) : stage'.Knows s'.used := by
  cases k with
  | fails =>
    cases h
    trivial
  | proceeds id => exact knows_of_proceed hs hknows h

open Interleaving (Conf ReachesWhere)

def requests (files : KeyedTable String FileRow) (links : KeyedTable (String × String) KnowledgeFile)
    (rs : List Request) : Conf Shared Stage := ⟨.start files links, rs.map Request.start⟩

theorem sound_of_reaches {c : Conf Shared Stage}
    (hr : ReachesWhere (next foreignKeys) (Clear foreignKeys) (requests files links rs) c) : Sound c.shared := by
  have hholds : Interleaving.Holds Sound (fun _ stage s => stage.Knows s.used) c := by
    refine Interleaving.invariant_of_frame ?_ ?_ hr ?_
    · intro i k s stage s' stage' hclear hs hknows hn
      exact ⟨hs.edit hknows hclear (edit_of_next hn), knows_of_next hs hknows hn⟩
    · intro i j k s stage s' stage' other _ _ _ _ hother hn
      exact hother.mono (used_subset (edit_of_next hn))
    · refine ⟨Sound.start files links, ?_⟩
      intro i stage hstage
      obtain ⟨r, _, rfl⟩ := List.mem_map.1 (List.mem_of_getElem? hstage)
      cases r <;> trivial
  exact hholds.1

/-- No directory becomes its own ancestor where the walk of each move still passes at its write. -/
theorem directories_form_a_forest {foreignKeys : Bool} {files : KeyedTable String FileRow}
    {links : KeyedTable (String × String) KnowledgeFile} {rs : List Request} {c : Conf Shared Stage}
    (hr : ReachesWhere (next foreignKeys) (Clear foreignKeys) (requests files links rs) c) :
    c.shared.tables.Acyclic ∧ c.shared.tables.Terminates := by
  have hs := sound_of_reaches hr
  exact ⟨hs.acyclic, DirectoryTables.terminates_of_acyclic hs.acyclic⟩

/-- Directories `a` and `b` are created, and `a` is moved below `b`. -/
def nestRequests : List Request :=
  [.create "kb" "A" none, .create "kb" "B" none, .update "kb" "a" none (some "b"), .update "kb" "b" none (some "a")]

def acting (i : ℕ) (id : String) (n : ℕ) : List (ℕ × Choice) := List.replicate n (i, .proceeds id)

theorem directories_form_a_forest_nested :
    ∃ c, ReachesWhere (next true) (Clear true) (requests .empty .empty nestRequests) c ∧
      c.shared.tables.parentOf "a" = some "b" ∧ c.shared.tables.Acyclic ∧ c.shared.tables.Terminates := by
  have hrun : ∃ c, Interleaving.runSchedule
      (fun i s stage k => if Clear true i s stage then next true i s stage k else none)
      (requests .empty .empty nestRequests) (acting 0 "a" 3 ++ acting 1 "b" 3 ++ acting 2 "" 7) = some c ∧
      c.shared.tables.parentOf "a" = some "b" := ⟨_, rfl, rfl⟩
  obtain ⟨c, hc, hparent⟩ := hrun
  have hr := Interleaving.reachesWhere_of_guarded (Interleaving.reaches_of_runSchedule hc)
  exact ⟨c, hr, hparent, directories_form_a_forest hr⟩

/-- Two users move two directories, each below the other. -/
theorem two_moves_close_a_cycle : ∃ c, Interleaving.runSchedule (next true) (requests .empty .empty nestRequests)
        (acting 0 "a" 3 ++ acting 1 "b" 3 ++ acting 2 "" 4 ++ acting 3 "" 4 ++ acting 2 "" 3 ++ acting 3 "" 3) = some c ∧
      ¬ c.shared.tables.Acyclic ∧ ∀ n, c.shared.tables.world.getFilesByIdAndDirectoryId n "kb" "a" = none := by
  have hrun : ∃ c, Interleaving.runSchedule (next true) (requests .empty .empty nestRequests)
      (acting 0 "a" 3 ++ acting 1 "b" 3 ++ acting 2 "" 4 ++ acting 3 "" 4 ++ acting 2 "" 3 ++ acting 3 "" 3) = some c ∧
      c.shared.tables.parentOf "a" = some "b" ∧ c.shared.tables.parentOf "b" = some "a" := ⟨_, rfl, rfl, rfl⟩
  obtain ⟨c, hc, hab, hba⟩ := hrun
  have habove : Hierarchy.Above c.shared.tables.hierarchy "a" "a" :=
    (Relation.TransGen.single (DirectoryTables.under_iff_parentOf.2 hab)).tail
      (DirectoryTables.under_iff_parentOf.2 hba)
  refine ⟨c, hc, fun hacyclic => hacyclic "a" habove, ?_⟩
  intro n
  rw [World.getFilesByIdAndDirectoryId, DirectoryTables.directoryIds_of_above habove]
  rfl

end DirectoryRequests

end RyanAI.Knowledge
