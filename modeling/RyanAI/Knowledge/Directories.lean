import RyanAI.Knowledge.Store
import RyanAI.Lib.Descent
import RyanAI.Lib.Forest

/-!
# The directories of a knowledge base

The rows of `knowledge_directory` with their names, and the code that follows their parent links: the paths of
`sync_knowledge_diff`, the tree of `tools/knowledge_fs.py`, and the traversals of `models/knowledge.py`. None of them
remembers where it has been. They come back where no directory is above itself (`terminates_of_acyclic`), and where
one is, the traversals below it never do (`directoryIds_of_below`).
-/

namespace RyanAI.Knowledge

open RyanAI.Lib

/-- A row of `knowledge_directory`, with its name. -/
structure DirectoryRow extends Directory where
  name : String

structure DirectoryTables where
  directories : KeyedTable String DirectoryRow
  files : KeyedTable String FileRow
  links : KeyedTable (String × String) KnowledgeFile

namespace World

/-- `update(KnowledgeFile).filter_by(…).values(directory_id=…)` -/
def moveFilesIn (w : World) (directoryId : String) (target : Option String) : World :=
  { w with
    links := w.links.map fun _ link =>
      if link.directoryId = some directoryId then { link with directoryId := target } else link }

/-- `_move_files_from_subtree`. -/
def moveFilesFromSubtree : ℕ → String → Option String → World → Option World
  | 0, _, _, _ => none
  | n + 1, id, target, w =>
    (w.children id).foldlM (fun w child => moveFilesFromSubtree n child target (w.moveFilesIn child target)) w

end World

namespace DirectoryTables

def world (t : DirectoryTables) : World where
  knowledges := .empty
  directories := t.directories.map fun _ row => row.toDirectory
  files := t.files
  links := t.links
  vectors _ := []

def Lists (t : DirectoryTables) (knowledgeId : String) (dirs : OrderedMap String DirectoryRow) : Prop :=
  dirs.Perm (t.directories.entries.filter fun entry => entry.2.knowledgeId = knowledgeId)

def hierarchy (t : DirectoryTables) : Hierarchy String := fun id => (t.directories.get id).map fun row => row.parentId

def Acyclic (t : DirectoryTables) : Prop := ∀ id, ¬ Hierarchy.Above t.hierarchy id id

end DirectoryTables

/-- The loop of `sync_knowledge_diff` from the parent of a directory up. -/
def pathSegments (dirs : OrderedMap String DirectoryRow) : ℕ → Option String → List String → Option (List String)
  | 0, _, _ => none
  | _ + 1, none, segments => some segments
  | n + 1, some parentId, segments =>
    if parentId = "" then some segments
    else match OrderedMap.get parentId dirs with
      | none => some segments
      | some parent => pathSegments dirs n parent.parentId (parent.name :: segments)

def directoryPath (dirs : OrderedMap String DirectoryRow) (n : ℕ) (directory : DirectoryRow) : Option String :=
  (pathSegments dirs n directory.parentId [directory.name]).map fun segments => "/".intercalate segments

/-- `directory_path_by_id`. -/
def directoryPathById (dirs : OrderedMap String DirectoryRow) (n : ℕ) : Option (OrderedMap String String) :=
  dirs.foldlM (fun paths entry => (directoryPath dirs n entry.2).map fun path => OrderedMap.set entry.1 path paths) []

/-- `_get_dir_path`: the path, and the paths that are known afterwards. -/
def getDirPath (dirMap : OrderedMap String DirectoryRow) :
    ℕ → String → OrderedMap String String → Option (String × OrderedMap String String)
  | 0, _, _ => none
  | n + 1, id, paths =>
    match OrderedMap.get id paths with
    | some path => some (path, paths)
    | none =>
      match OrderedMap.get id dirMap with
      | none => some ("", paths)
      | some d =>
        match d.parentId.filter fun p => decide (p ≠ "") && (OrderedMap.get p dirMap).isSome with
        | some p =>
          (getDirPath dirMap n p paths).map fun (parentPath, paths) =>
            let path := if parentPath = "" then d.name else parentPath ++ "/" ++ d.name
            (path, OrderedMap.set id path paths)
        | none => some (d.name, OrderedMap.set id d.name paths)

structure TreeFile where
  id : String
  filename : String
  path : String
  directoryId : Option String
  updatedAt : Nat

structure DirectoryTree where
  dirs : OrderedMap String DirectoryRow
  files : List TreeFile
  pathToDirId : OrderedMap String String
  dirIdToPath : OrderedMap String String

def treeFile (dirIdToPath : OrderedMap String String) (id : String) (row : FileRow) (directoryId : Option String) :
    TreeFile where
  id := id
  filename := row.filename
  path :=
    match (directoryId.filter (· ≠ "")).bind fun directoryId => OrderedMap.get directoryId dirIdToPath with
    | some path => path ++ "/" ++ row.filename
    | none => row.filename
  directoryId := directoryId
  updatedAt := row.updatedAt

/-- `_build_directory_tree`, given the rows that its two queries return. -/
def buildDirectoryTree (n : ℕ) (dirs : OrderedMap String DirectoryRow)
    (filesWithDirs : List (String × FileRow × Option String)) : Option DirectoryTree :=
  (dirs.foldlM (fun paths entry => (getDirPath dirs n entry.1 paths).map Prod.snd) []).map fun paths =>
    { dirs := dirs
      files := filesWithDirs.map fun file => treeFile paths file.1 file.2.1 file.2.2
      pathToDirId := paths.foldl (fun byPath entry => OrderedMap.set entry.2 entry.1 byPath) []
      dirIdToPath := paths }

/-! ## What comes back -/

structure DirectoryTables.Terminates (t : DirectoryTables) : Prop where
  moveFilesFromSubtree : ∀ id target, ∃ n, (World.moveFilesFromSubtree n id target t.world).isSome
  deleteFilesInSubtree : ∀ id, ∃ n, (World.deleteFilesInSubtree n id t.world).isSome
  getFilesByIdAndDirectoryId : ∀ knowledgeId id, ∃ n, (t.world.getFilesByIdAndDirectoryId n knowledgeId id).isSome
  directoryPathById : ∀ knowledgeId dirs, t.Lists knowledgeId dirs → ∃ n, (directoryPathById dirs n).isSome
  buildDirectoryTree : ∀ knowledgeId dirs, t.Lists knowledgeId dirs →
    ∀ files, ∃ n, (buildDirectoryTree n dirs files).isSome

theorem isSome_foldlM {α β : Type} {f : β → α → Option β} {P : β → Prop} {l : List α}
    (hstep : ∀ b a, P b → a ∈ l → ∃ b', f b a = some b' ∧ P b') {b : β} (hb : P b) :
    ∃ b', l.foldlM f b = some b' ∧ P b' := by
  induction l generalizing b with
  | nil => exact ⟨b, rfl, hb⟩
  | cons a rest ih =>
    obtain ⟨b', hfb, hb'⟩ := hstep b a hb List.mem_cons_self
    obtain ⟨b'', hrest, hb''⟩ := ih (fun b a hb ha => hstep b a hb (List.mem_cons_of_mem _ ha)) hb'
    refine ⟨b'', ?_, hb''⟩
    rw [List.foldlM_cons, hfb]
    exact hrest

variable {n : ℕ} {id : String}

namespace World

variable {w : World} {cost : String → ℕ}

theorem isSome_directoryIds (hcost : ∀ id, cost id = 1 + ((w.children id).map cost).sum)
    (hn : (queue.map cost).sum < n) : (w.directoryIds n queue).isSome := by
  induction n generalizing queue with
  | zero => omega
  | succ n ih =>
    cases queue with
    | nil => rfl
    | cons id rest =>
      rw [directoryIds, Option.isSome_map]
      apply ih
      have hid := hcost id
      simp only [List.map_cons, List.sum_cons, List.map_append, List.sum_append] at hn ⊢
      omega

theorem isSome_traversal {f : ℕ → String → World → Option World} {enter : String → World → World}
    (descend : String → World → World)
    (hf : ∀ n id v, f (n + 1) id v = (v.children id).foldlM (fun v child => f n child (descend child v)) (enter id v))
    (henter : ∀ id v, (enter id v).directories = v.directories)
    (hdescend : ∀ id v, (descend id v).directories = v.directories)
    (hcost : ∀ id, cost id = 1 + ((w.children id).map cost).sum) (hn : cost id ≤ n) {v : World}
    (hv : v.directories = w.directories) : ∃ v', f n id v = some v' ∧ v'.directories = w.directories := by
  induction n generalizing id v with
  | zero =>
    have hid := hcost id
    omega
  | succ n ih =>
    rw [hf]
    refine isSome_foldlM ?_ ((henter id v).trans hv)
    intro u child hu hchild
    refine ih ?_ ((hdescend child u).trans hu)
    have hmem : child ∈ w.children id := by
      rw [children, ← hv]
      exact hchild
    have hlt := Descent.cost_lt hcost hmem
    omega

theorem isSome_moveFilesFromSubtree (hcost : ∀ id, cost id = 1 + ((w.children id).map cost).sum) (id : String)
    (target : Option String) : (moveFilesFromSubtree (cost id) id target w).isSome := by
  obtain ⟨w', hw', _⟩ := isSome_traversal (w := w) (f := fun n id => moveFilesFromSubtree n id target) _
    (fun _ _ _ => rfl) (fun _ _ => rfl) (fun _ _ => rfl) hcost (le_refl (cost id)) rfl
  exact hw' ▸ rfl

theorem isSome_deleteFilesInSubtree (hcost : ∀ id, cost id = 1 + ((w.children id).map cost).sum) (id : String) :
    (deleteFilesInSubtree (cost id) id w).isSome := by
  obtain ⟨w', hw', _⟩ := isSome_traversal (w := w) (f := deleteFilesInSubtree) (fun _ v => v)
    (fun _ _ _ => rfl) (fun _ _ => rfl) (fun _ _ => rfl) hcost (le_refl (cost id)) rfl
  exact hw' ▸ rfl

theorem directoryIds_eq_none (dirs : Set String) (hdirs : ∀ id ∈ dirs, ∃ child ∈ w.children id, child ∈ dirs) (n : ℕ)
    (hqueue : ∃ id ∈ queue, id ∈ dirs) : w.directoryIds n queue = none := by
  induction n generalizing queue with
  | zero => rfl
  | succ n ih =>
    obtain ⟨id, hmem, hid⟩ := hqueue
    cases queue with
    | nil => cases hmem
    | cons first rest =>
      rw [directoryIds, Option.map_eq_none_iff]
      apply ih
      rcases List.mem_cons.1 hmem with rfl | hmem
      · obtain ⟨child, hchild, hin⟩ := hdirs id hid
        exact ⟨child, List.mem_append_right _ hchild, hin⟩
      · exact ⟨id, List.mem_append_left _ hmem, hid⟩

end World

section Paths

variable {dirs : OrderedMap String DirectoryRow} {cost : String → ℕ}

def parentsIn (dirs : OrderedMap String DirectoryRow) (id : String) : List String :=
  ((OrderedMap.get id dirs).bind fun row => row.parentId).toList

theorem mem_parentsIn :
    parentId ∈ parentsIn dirs id ↔ ∃ row, OrderedMap.get id dirs = some row ∧ row.parentId = some parentId := by
  rw [parentsIn, Option.mem_toList, Option.bind_eq_some_iff]

theorem isSome_pathSegments (hcost : ∀ id, cost id = 1 + ((parentsIn dirs id).map cost).sum)
    (hn : ((parentId.map cost).getD 0) < n) (segments : List String) :
    (pathSegments dirs n parentId segments).isSome := by
  induction n generalizing parentId segments with
  | zero => omega
  | succ n ih =>
    cases parentId with
    | none => rfl
    | some id =>
      rw [pathSegments]
      split
      · rfl
      cases hget : OrderedMap.get id dirs with
      | none => rfl
      | some parent =>
        apply ih
        simp only [Option.map_some, Option.getD_some] at hn
        cases hparent : parent.parentId with
        | none =>
          have hid := hcost id
          simp only [Option.map_none, Option.getD_none]
          omega
        | some next =>
          have hlt := Descent.cost_lt hcost (mem_parentsIn.2 ⟨parent, hget, hparent⟩)
          simp only [Option.map_some, Option.getD_some]
          omega

theorem isSome_getDirPath (hcost : ∀ id, cost id = 1 + ((parentsIn dirs id).map cost).sum) (hn : cost id ≤ n)
    (paths : OrderedMap String String) : (getDirPath dirs n id paths).isSome := by
  induction n generalizing id paths with
  | zero =>
    have hid := hcost id
    omega
  | succ n ih =>
    rw [getDirPath]
    cases OrderedMap.get id paths with
    | some path => rfl
    | none =>
      cases hget : OrderedMap.get id dirs with
      | none => rfl
      | some d =>
        simp only
        split
        · rename_i p hp
          rw [Option.isSome_map]
          apply ih
          have hparent := (Option.filter_eq_some_iff.1 hp).1
          have hlt := Descent.cost_lt hcost (mem_parentsIn.2 ⟨d, hget, hparent⟩)
          omega
        · rfl

theorem exists_rounds (dirs : OrderedMap String DirectoryRow) (cost : String → ℕ) :
    ∃ n, ∀ entry ∈ dirs, cost entry.1 ≤ n ∧ (entry.2.parentId.map cost).getD 0 < n := by
  refine ⟨(dirs.map fun entry => cost entry.1 + (entry.2.parentId.map cost).getD 0 + 1).sum, ?_⟩
  intro entry hentry
  have hle := List.single_le_sum (fun _ _ => Nat.zero_le _) _
    (List.mem_map_of_mem (f := fun entry => cost entry.1 + (entry.2.parentId.map cost).getD 0 + 1) hentry)
  omega

theorem exists_directoryPathById (hcost : ∀ id, cost id = 1 + ((parentsIn dirs id).map cost).sum) :
    ∃ n, (directoryPathById dirs n).isSome := by
  obtain ⟨n, hn⟩ := exists_rounds dirs cost
  refine ⟨n, ?_⟩
  obtain ⟨paths, hpaths, _⟩ := isSome_foldlM (P := fun _ => True)
    (f := fun (paths : OrderedMap String String) (entry : String × DirectoryRow) =>
      (directoryPath dirs n entry.2).map fun path => OrderedMap.set entry.1 path paths)
    (l := dirs) (by
      intro paths entry _ hentry
      have hsome := isSome_pathSegments hcost (hn entry hentry).2 [entry.2.name]
      obtain ⟨segments, hsegments⟩ := Option.isSome_iff_exists.1 hsome
      exact ⟨_, by rw [directoryPath, hsegments]; rfl, trivial⟩) (b := []) trivial
  rw [directoryPathById, hpaths]
  rfl

theorem exists_buildDirectoryTree (hcost : ∀ id, cost id = 1 + ((parentsIn dirs id).map cost).sum)
    (files : List (String × FileRow × Option String)) : ∃ n, (buildDirectoryTree n dirs files).isSome := by
  obtain ⟨n, hn⟩ := exists_rounds dirs cost
  refine ⟨n, ?_⟩
  obtain ⟨paths, hpaths, _⟩ := isSome_foldlM (P := fun _ => True)
    (f := fun (paths : OrderedMap String String) (entry : String × DirectoryRow) =>
      (getDirPath dirs n entry.1 paths).map Prod.snd)
    (l := dirs) (by
      intro paths entry _ hentry
      obtain ⟨found, hfound⟩ := Option.isSome_iff_exists.1 (isSome_getDirPath hcost (hn entry hentry).1 paths)
      exact ⟨found.2, by rw [hfound]; rfl, trivial⟩) (b := []) trivial
  rw [buildDirectoryTree, hpaths]
  rfl

end Paths

namespace DirectoryTables

variable {t : DirectoryTables}

theorem under_iff : Hierarchy.Under t.hierarchy id parentId ↔
      ∃ row, t.directories.get id = some row ∧ row.parentId = some parentId := by
  rw [Hierarchy.Under, hierarchy, Option.map_eq_some_iff]

theorem mem_children : child ∈ t.world.children id ↔ Hierarchy.Under t.hierarchy child id := by
  rw [under_iff, World.children, List.mem_map]
  constructor
  · rintro ⟨⟨id', row⟩, hmem, rfl⟩
    obtain ⟨hentry, hparent⟩ := List.mem_filter.1 hmem
    have hget := KeyedTable.get_eq_some.2 hentry
    simp only [world, KeyedTable.get_map, Option.map_eq_some_iff] at hget
    obtain ⟨row', hrow', rfl⟩ := hget
    exact ⟨row', hrow', by simpa using hparent⟩
  · rintro ⟨row, hrow, hparent⟩
    refine ⟨(child, row.toDirectory), List.mem_filter.2 ⟨?_, by simpa using hparent⟩, rfl⟩
    apply KeyedTable.get_eq_some.1
    simp [world, hrow]

theorem Lists.get (h : t.Lists knowledgeId dirs) (hget : OrderedMap.get id dirs = some row) :
    t.directories.get id = some row := by
  have hmem := h.mem_iff.1 (OrderedMap.mem_of_get hget)
  exact KeyedTable.get_eq_some.2 (List.mem_of_mem_filter hmem)

theorem exists_cost_children (h : t.Acyclic) :
    ∃ cost : String → ℕ, ∀ id, cost id = 1 + ((t.world.children id).map cost).sum := by
  apply Descent.exists_cost t.directories.keys
  · intro id child hchild
    obtain ⟨row, hrow, _⟩ := under_iff.1 (mem_children.1 hchild)
    rw [KeyedTable.mem_keys, hrow]
    rfl
  · intro id hid
    refine h id (Relation.transGen_swap.1 (Relation.TransGen.mono ?_ _ _ hid))
    intro a b hb
    exact mem_children.1 hb

theorem exists_cost_parents (h : t.Acyclic) (hlists : t.Lists knowledgeId dirs) :
    ∃ cost : String → ℕ, ∀ id, cost id = 1 + ((parentsIn dirs id).map cost).sum := by
  have hunder : ∀ a b, b ∈ parentsIn dirs a → Hierarchy.Under t.hierarchy a b := by
    intro a b hb
    obtain ⟨row, hrow, hparent⟩ := mem_parentsIn.1 hb
    exact under_iff.2 ⟨row, hlists.get hrow, hparent⟩
  apply Descent.exists_cost (t.directories.entries.filterMap fun entry => entry.2.parentId)
  · intro a b hb
    obtain ⟨row, hrow, hparent⟩ := under_iff.1 (hunder a b hb)
    exact List.mem_filterMap.2 ⟨(a, row), KeyedTable.get_eq_some.1 hrow, hparent⟩
  · intro a ha
    exact h a (Relation.TransGen.mono hunder _ _ ha)

theorem terminates_of_acyclic (h : t.Acyclic) : t.Terminates := by
  obtain ⟨cost, hcost⟩ := exists_cost_children h
  constructor
  case moveFilesFromSubtree =>
    intro id target
    exact ⟨_, World.isSome_moveFilesFromSubtree hcost id target⟩
  case deleteFilesInSubtree =>
    intro id
    exact ⟨_, World.isSome_deleteFilesInSubtree hcost id⟩
  case getFilesByIdAndDirectoryId =>
    intro knowledgeId id
    refine ⟨cost id + 1, ?_⟩
    rw [World.getFilesByIdAndDirectoryId, Option.isSome_map]
    exact World.isSome_directoryIds hcost (by simp)
  case directoryPathById =>
    intro knowledgeId dirs hlists
    obtain ⟨cost, hcost⟩ := exists_cost_parents h hlists
    exact exists_directoryPathById hcost
  case buildDirectoryTree =>
    intro knowledgeId dirs hlists files
    obtain ⟨cost, hcost⟩ := exists_cost_parents h hlists
    exact exists_buildDirectoryTree hcost files

theorem directoryIds_of_above (h : Hierarchy.Above t.hierarchy id id) (n : ℕ) : t.world.directoryIds n [id] = none := by
  apply World.directoryIds_eq_none {a | Hierarchy.Above t.hierarchy id a}
  · intro a ha
    obtain ⟨b, hreach, hunder⟩ := Relation.TransGen.tail'_iff.1 ha
    refine ⟨b, mem_children.2 hunder, ?_⟩
    rcases Relation.reflTransGen_iff_eq_or_transGen.1 hreach with rfl | habove
    · exact h
    · exact habove
  · exact ⟨id, List.mem_singleton_self id, h⟩

end DirectoryTables

end RyanAI.Knowledge
