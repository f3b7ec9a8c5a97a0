import RyanAI.Knowledge.DirectoryRequests
import RyanAI.Lib.Nesting

/-!
# Deleting a directory

`delete_directory` of `models/knowledge.py`: the files of the subtree go to the parent of the directory, or their links
are deleted, one statement for each directory; then one row is deleted, and the foreign keys delete what is below it and
set to NULL the directory of links that are still there, of which there is none by then. The traversal is recursive: a
subtree as deep as the calls that the interpreter lets be nested is not deleted (`deletion_conserves_files_iff`).
-/

namespace RyanAI.Knowledge

open RyanAI.Lib

namespace DirectoryTables

/-- The traversal of `delete_directory`, of which `limit` calls can be nested; `none` is the exception of one more. -/
def clearSubtree (t : DirectoryTables) (limit : ℕ) (directoryId : String) (parentId : Option String)
    (moveFilesToParent : Bool) : Option World :=
  if moveFilesToParent then
    World.moveFilesFromSubtree limit directoryId parentId (t.world.moveFilesIn directoryId parentId)
  else World.deleteFilesInSubtree limit directoryId t.world

/-- `delete_directory`, with the foreign keys that are declared. After an exception nothing is committed. -/
def deleteDirectory (t : DirectoryTables) (limit : ℕ) (directoryId : String) (moveFilesToParent : Bool) :
    DirectoryTables × Bool :=
  match t.directories.get directoryId with
  | none => (t, false)
  | some directory =>
    match t.clearSubtree limit directoryId directory.parentId moveFilesToParent with
    | none => (t, false)
    | some w => (({ t with links := w.links } : DirectoryTables).dropDirectory true directoryId, true)

/-- The parents of the directories of a knowledge base. -/
def within (t : DirectoryTables) (knowledgeId : String) : Hierarchy String := fun id =>
  ((t.directories.get id).filter fun row => row.knowledgeId = knowledgeId).map fun row => row.parentId

end DirectoryTables

/-! ## Where the files go -/

section Moving

open Classical

/-- What moving the files of `dirs` does to a link. -/
noncomputable def retarget (dirs : Set String) (target : Option String) (link : KnowledgeFile) : KnowledgeFile :=
  if ∃ dir ∈ dirs, link.directoryId = some dir then { link with directoryId := target } else link

variable {dirs dirs' : Set String} {target : Option String} {link : KnowledgeFile} {w w' w'' : World} {id top : String}
  {n : ℕ}

/-- Moving twice to one target is moving once, also where the target is among the directories. -/
theorem retarget_retarget :
    retarget dirs' target (retarget dirs target link) = retarget (dirs ∪ dirs') target link := by
  by_cases hin : ∃ dir ∈ dirs, link.directoryId = some dir
  · have hunion : ∃ dir ∈ dirs ∪ dirs', link.directoryId = some dir := by
      obtain ⟨dir, hdir, heq⟩ := hin
      exact ⟨dir, .inl hdir, heq⟩
    rw [retarget.eq_1 dirs, if_pos hin, retarget, retarget, if_pos hunion]
    split <;> rfl
  · have hunion : (∃ dir ∈ dirs ∪ dirs', link.directoryId = some dir) ↔ ∃ dir ∈ dirs', link.directoryId = some dir := by
      constructor
      · rintro ⟨dir, hdir | hdir, heq⟩
        · exact absurd ⟨dir, hdir, heq⟩ hin
        · exact ⟨dir, hdir, heq⟩
      · rintro ⟨dir, hdir, heq⟩
        exact ⟨dir, .inr hdir, heq⟩
    rw [retarget.eq_1 dirs, if_neg hin, retarget, retarget]
    simp only [hunion]

/-- The directories are the same, and the files of `dirs` are now in `target`. -/
structure MovedFiles (dirs : Set String) (target : Option String) (w w' : World) : Prop where
  directories : w'.directories = w.directories
  links : ∀ key, w'.links.get key = (w.links.get key).map (retarget dirs target)

namespace MovedFiles

theorem refl (target : Option String) (w : World) : MovedFiles ∅ target w w := by
  refine ⟨rfl, ?_⟩
  intro key
  have hid : retarget ∅ target = id := by
    funext link
    apply if_neg
    rintro ⟨dir, hdir, -⟩
    exact hdir
  rw [hid, Option.map_id_fun, id_eq]

theorem trans (h : MovedFiles dirs target w w') (h' : MovedFiles dirs' target w' w'') :
    MovedFiles (dirs ∪ dirs') target w w'' := by
  refine ⟨h'.directories.trans h.directories, ?_⟩
  intro key
  rw [h'.links, h.links, Option.map_map]
  congr 1
  funext link
  exact retarget_retarget

theorem moveFilesIn (w : World) (dir : String) (target : Option String) :
    MovedFiles {dir} target w (w.moveFilesIn dir target) := by
  refine ⟨rfl, ?_⟩
  intro key
  rw [World.moveFilesIn, KeyedTable.get_map]
  congr 1
  funext link
  rw [retarget]
  simp only [Set.mem_singleton_iff, exists_eq_left]

theorem below_eq (h : MovedFiles dirs target w w') : w'.Below = w.Below := by
  funext top
  rw [World.Below, World.Below]
  simp only [World.children, h.directories]

end MovedFiles

/-- The traversal moves the files of what is properly below. -/
theorem movedFiles_moveFilesFromSubtree (h : World.moveFilesFromSubtree n top target w = some w') :
    MovedFiles {id | ∃ child ∈ w.children top, w.Below child id} target w w' := by
  induction n generalizing top w w' with
  | zero => cases h
  | succ n ih =>
    rw [World.moveFilesFromSubtree] at h
    -- the loop over the children, which have been read before it
    have hloop : ∀ (ids : List String) (v v' : World),
        ids.foldlM (fun w child => World.moveFilesFromSubtree n child target (w.moveFilesIn child target)) v = some v' →
        MovedFiles {id | ∃ child ∈ ids, v.Below child id} target v v' := by
      intro ids
      induction ids with
      | nil =>
        intro v v' hv
        cases hv
        convert MovedFiles.refl target v
        simp
      | cons child rest ihrest =>
        intro v v' hv
        rw [List.foldlM_cons, Option.bind_eq_bind, Option.bind_eq_some_iff] at hv
        obtain ⟨u, hu, hv⟩ := hv
        have hfirst := MovedFiles.moveFilesIn v child target
        have hchild := hfirst.trans (ih hu)
        convert hchild.trans (ihrest u v' hv) using 1
        ext id
        have hchildren : (v.moveFilesIn child target).children = v.children := rfl
        simp only [Set.mem_ofPred_eq, Set.mem_union, Set.mem_singleton_iff, hchild.below_eq, hfirst.below_eq,
          List.mem_cons, exists_eq_or_imp, hchildren]
        have hself : v.Below child id ↔ id = child ∨ ∃ below ∈ v.children child, v.Below below id := World.below_iff
        rw [hself]
    exact hloop _ _ _ h

end Moving

/-! ## How deep a traversal goes -/

section Depth

variable {w : World} {top id child : String} {n : ℕ}

/-- `id` is properly below `top`. -/
def World.ProperlyBelow (w : World) : String → String → Prop := Relation.TransGen fun a b => b ∈ w.children a

theorem mem_keys_of_mem_children (h : child ∈ w.children id) : child ∈ w.directories.keys := by
  rw [World.children, List.mem_map] at h
  obtain ⟨entry, hentry, rfl⟩ := h
  exact List.mem_map_of_mem (List.mem_of_mem_filter hentry)

/-- A chain of `n` directories hangs below the directory. -/
def World.Deep (w : World) : ℕ → String → Prop
  | 0, _ => True
  | n + 1, id => ∃ child ∈ w.children id, w.Deep n child

/-- A traversal with `n` nested calls comes back unless a chain of as many directories hangs below. -/
theorem descent_cases {f : ℕ → String → World → Option World} {enter : String → World → World}
    (descend : String → World → World) (hzero : ∀ id v, f 0 id v = none)
    (hf : ∀ n id v, f (n + 1) id v = (v.children id).foldlM (fun v child => f n child (descend child v)) (enter id v))
    (henter : ∀ id v, (enter id v).directories = v.directories)
    (hdescend : ∀ id v, (descend id v).directories = v.directories) (n : ℕ) (id : String) {v : World}
    (hv : v.directories = w.directories) :
    (f n id v = none ∧ w.Deep n id) ∨ (∃ v', f n id v = some v' ∧ v'.directories = w.directories) ∧ ¬ w.Deep n id := by
  induction n generalizing id v with
  | zero => exact .inl ⟨hzero id v, trivial⟩
  | succ n ih =>
    have hchildren : v.children id = w.children id := by rw [World.children, World.children, hv]
    rw [hf, hchildren]
    have hloop : ∀ (ids : List String) (u : World), u.directories = w.directories →
        (ids.foldlM (fun v child => f n child (descend child v)) u = none ∧ ∃ child ∈ ids, w.Deep n child) ∨
          (∃ v', ids.foldlM (fun v child => f n child (descend child v)) u = some v' ∧
            v'.directories = w.directories) ∧ ¬ ∃ child ∈ ids, w.Deep n child := by
      intro ids
      induction ids with
      | nil => exact fun u hu => .inr ⟨⟨u, rfl, hu⟩, by simp⟩
      | cons child rest ihrest =>
        intro u hu
        rw [List.foldlM_cons]
        rcases ih child ((hdescend child u).trans hu) with ⟨hnone, hdeep⟩ | ⟨⟨u', hu', hdirectories⟩, hshallow⟩
        · exact .inl ⟨by rw [hnone]; rfl, child, List.mem_cons_self, hdeep⟩
        · rw [hu', Option.bind_eq_bind, Option.bind_some]
          simpa [hshallow] using ihrest u' hdirectories
    exact hloop _ _ ((henter id v).trans hv)

end Depth

namespace DirectoryTables

variable {t : DirectoryTables} {id directoryId knowledgeId : String}

/-- The parents of the directories of a knowledge base that is a forest lie in it. -/
theorem within_of_above (hforest : Hierarchy.Forest (t.within knowledgeId)) {x y : String}
    (hx : (t.within knowledgeId x).isSome = true) (habove : Hierarchy.Above t.hierarchy x y) :
    Hierarchy.Above (t.within knowledgeId) x y := by
  have hstep : ∀ a b, (t.within knowledgeId a).isSome = true → Hierarchy.Under t.hierarchy a b →
      Hierarchy.Under (t.within knowledgeId) a b := by
    intro a b ha hunder
    obtain ⟨row, hrow, hparent⟩ := under_iff.1 hunder
    rw [within, Option.isSome_map, hrow, Option.isSome_filter, Option.any_some] at ha
    rw [Hierarchy.Under, within, hrow, Option.filter_some, if_pos ha, Option.map_some, hparent]
  induction habove with
  | single hunder => exact .single (hstep _ _ hx hunder)
  | @tail b c _ hunder ih =>
    obtain ⟨d, -, hdb⟩ := Relation.TransGen.tail'_iff.1 ih
    exact ih.tail (hstep _ _ (hforest.resolved d b hdb) hunder)

theorem properlyBelow_iff_above : t.world.ProperlyBelow directoryId id ↔ Hierarchy.Above t.hierarchy id directoryId := by
  have hstep : (fun a b => b ∈ t.world.children a) = Function.swap (Hierarchy.Under t.hierarchy) := by
    funext a b
    exact propext mem_children
  rw [World.ProperlyBelow, hstep, Hierarchy.Above]
  exact Relation.transGen_swap

theorem keys_world : t.world.directories.keys = t.directories.keys := KeyedTable.keys_map ..

theorem mem_cascade_iff (h : directoryId ∈ t.directories.keys) :
    id ∈ t.cascade directoryId ↔ t.world.Below directoryId id := by
  have hrows : ∀ a ∈ t.directories.keys, ∀ b ∈ t.world.children a, b ∈ t.directories.keys := by
    intro a _ b hb
    rw [← keys_world]
    exact mem_keys_of_mem_children hb
  rw [cascade, RecursiveQuery.mem_query_iff hrows (by simpa using h) le_rfl]
  simp only [List.mem_singleton, exists_eq_left]
  rfl

/-- Where no link is left in the subtree, the foreign keys change no link. -/
theorem dropDirectory_spec {links : KeyedTable (String × String) KnowledgeFile} (h : directoryId ∈ t.directories.keys)
    (hclear : ∀ key link, links.get key = some link → ∀ dir, link.directoryId = some dir → ¬ t.world.Below directoryId dir) :
    (∀ id row, (({ t with links := links } : DirectoryTables).dropDirectory true directoryId).directories.get id = some row ↔
        t.directories.get id = some row ∧ ¬ t.world.Below directoryId id) ∧
      ∀ key, (({ t with links := links } : DirectoryTables).dropDirectory true directoryId).links.get key =
        links.get key := by
  have hmem : ∀ id, id ∈ ({ t with links := links } : DirectoryTables).cascade directoryId ↔
      t.world.Below directoryId id := fun id => mem_cascade_iff h
  rw [dropDirectory, if_pos rfl]
  constructor
  · intro id row
    rw [KeyedTable.get_filter, Option.filter_eq_some_iff, decide_eq_true_iff, hmem]
  · intro key
    rw [KeyedTable.get_map]
    cases hlink : links.get key with
    | none => rfl
    | some link =>
      rw [Option.map_some, if_neg]
      intro hany
      cases hdir : link.directoryId with
      | none =>
        rw [hdir] at hany
        cases hany
      | some dir =>
        rw [hdir, Option.any_some, decide_eq_true_iff, hmem] at hany
        exact hclear key link hlink dir hdir hany

theorem clearSubtree_cases (t : DirectoryTables) (limit : ℕ) (directoryId : String) (parentId : Option String)
    (moveFilesToParent : Bool) :
    (t.clearSubtree limit directoryId parentId moveFilesToParent = none ∧ t.world.Deep limit directoryId) ∨
      (∃ w, t.clearSubtree limit directoryId parentId moveFilesToParent = some w) ∧
        ¬ t.world.Deep limit directoryId := by
  cases moveFilesToParent with
  | true =>
    refine (descent_cases (w := t.world) (f := fun n id => World.moveFilesFromSubtree n id parentId)
      (fun child v => v.moveFilesIn child parentId) (fun _ _ => rfl) (fun _ _ _ => rfl) (fun _ _ => rfl)
      (fun _ _ => rfl) limit directoryId (v := t.world.moveFilesIn directoryId parentId) rfl).imp id ?_
    rintro ⟨⟨w, hw, -⟩, hshallow⟩
    exact ⟨⟨w, hw⟩, hshallow⟩
  | false =>
    refine (descent_cases (w := t.world) (f := World.deleteFilesInSubtree) (fun _ v => v) (fun _ _ => rfl)
      (fun _ _ _ => rfl) (fun _ _ => rfl) (fun _ _ => rfl) limit directoryId rfl).imp id ?_
    rintro ⟨⟨w, hw, -⟩, hshallow⟩
    exact ⟨⟨w, hw⟩, hshallow⟩

theorem deleteDirectory_of_deep (hdeep : t.world.Deep limit directoryId) (moveFilesToParent : Bool) :
    t.deleteDirectory limit directoryId moveFilesToParent = (t, false) := by
  rw [deleteDirectory]
  split
  · rfl
  · rename_i directory _
    rcases t.clearSubtree_cases limit directoryId directory.parentId moveFilesToParent with ⟨hnone, -⟩ | ⟨-, hshallow⟩
    · rw [hnone]
    · exact absurd hdeep hshallow

theorem exists_clearSubtree (hshallow : ¬ t.world.Deep limit directoryId) (parentId : Option String)
    (moveFilesToParent : Bool) : ∃ w, t.clearSubtree limit directoryId parentId moveFilesToParent = some w :=
  ((t.clearSubtree_cases limit directoryId parentId moveFilesToParent).resolve_left fun h => hshallow h.2).1

/-- With the files moved, all links are there afterwards, and those of the subtree lead to the parent. -/
theorem deleteDirectory_moving (hrow : t.directories.get directoryId = some row)
    (hself : ¬ t.world.ProperlyBelow directoryId directoryId) (hshallow : ¬ t.world.Deep limit directoryId) :
    ∃ t', t.deleteDirectory limit directoryId true = (t', true) ∧
      (∀ id row, t'.directories.get id = some row ↔ t.directories.get id = some row ∧ ¬ t.world.Below directoryId id) ∧
      ∀ key, t'.links.get key =
        (t.links.get key).map (retarget {dir | t.world.Below directoryId dir} row.parentId) := by
  have hkey : directoryId ∈ t.directories.keys := by
    rw [KeyedTable.mem_keys, hrow]
    rfl
  obtain ⟨w, hw⟩ := exists_clearSubtree hshallow row.parentId true
  have hmoved : MovedFiles {dir | t.world.Below directoryId dir} row.parentId t.world w := by
    have hfirst := MovedFiles.moveFilesIn t.world directoryId row.parentId
    convert hfirst.trans (movedFiles_moveFilesFromSubtree hw) using 1
    ext id
    have hchildren : (t.world.moveFilesIn directoryId row.parentId).children = t.world.children := rfl
    simp only [Set.mem_ofPred_eq, Set.mem_union, Set.mem_singleton_iff, hfirst.below_eq, hchildren]
    exact World.below_iff
  have hlinks : ∀ key, w.links.get key =
      (t.links.get key).map (retarget {dir | t.world.Below directoryId dir} row.parentId) := hmoved.links
  -- the parent is not in the subtree, so that no link is left there
  have hparent : ∀ dir, row.parentId = some dir → ¬ t.world.Below directoryId dir := by
    intro dir hdir hbelow
    have hchild : directoryId ∈ t.world.children dir := mem_children.2 (under_iff.2 ⟨row, hrow, hdir⟩)
    exact hself (Relation.TransGen.tail' hbelow hchild)
  have hclear : ∀ key link, w.links.get key = some link →
      ∀ dir, link.directoryId = some dir → ¬ t.world.Below directoryId dir := by
    intro key link hlink dir hdir hbelow
    rw [hlinks, Option.map_eq_some_iff] at hlink
    obtain ⟨old, -, rfl⟩ := hlink
    rw [retarget] at hdir
    split at hdir
    · exact hparent dir hdir hbelow
    · rename_i hout
      exact hout ⟨dir, hbelow, hdir⟩
  obtain ⟨hdirectories, hkept⟩ := dropDirectory_spec hkey hclear
  refine ⟨_, ?_, hdirectories, fun key => (hkept key).trans (hlinks key)⟩
  simp only [deleteDirectory, hrow, hw]

/-- Otherwise the links of the subtree are gone. -/
theorem deleteDirectory_deleting (hrow : t.directories.get directoryId = some row)
    (hshallow : ¬ t.world.Deep limit directoryId) :
    ∃ t', t.deleteDirectory limit directoryId false = (t', true) ∧
      (∀ id row, t'.directories.get id = some row ↔ t.directories.get id = some row ∧ ¬ t.world.Below directoryId id) ∧
      ∀ key link, t'.links.get key = some link ↔
        t.links.get key = some link ∧ ∀ dir, link.directoryId = some dir → ¬ t.world.Below directoryId dir := by
  have hkey : directoryId ∈ t.directories.keys := by
    rw [KeyedTable.mem_keys, hrow]
    rfl
  obtain ⟨w, hw⟩ := exists_clearSubtree hshallow row.parentId false
  have hlinks : ∀ key link, w.links.get key = some link ↔
      t.links.get key = some link ∧ ∀ dir, link.directoryId = some dir → ¬ t.world.Below directoryId dir := by
    intro key link
    rw [(World.linksOutside_deleteFilesInSubtree hw).links]
    apply and_congr_right
    intro _
    constructor
    · intro hout dir hdir hbelow
      exact hout dir hbelow hdir
    · intro hout dir hbelow hdir
      exact hout dir hdir hbelow
  obtain ⟨hdirectories, hkept⟩ := dropDirectory_spec hkey fun key link hlink => ((hlinks key link).1 hlink).2
  refine ⟨_, ?_, hdirectories, ?_⟩
  · simp only [deleteDirectory, hrow, hw]
  · intro key link
    rw [hkept, hlinks]

end DirectoryTables

/-- Deleting a directory removes its subtree of the directories. It keeps every link, the files of the subtree going to
the parent of the directory and no other file going anywhere; or it removes the links of the subtree, and no other. It
does so exactly if the subtree is less deep than the calls may be nested. -/
theorem deletion_conserves_files_iff (t : DirectoryTables) (knowledgeId directoryId : String) (row : DirectoryRow)
    (hrow : t.directories.get directoryId = some row) (hknowledge : row.knowledgeId = knowledgeId)
    (hforest : Hierarchy.Forest (t.within knowledgeId)) (limit : ℕ) :
    ((∃ moved, t.deleteDirectory limit directoryId true = (moved, true) ∧
        (∀ id row, moved.directories.get id = some row ↔
          t.directories.get id = some row ∧ ¬ Hierarchy.Reaches t.hierarchy id directoryId) ∧
        ∀ key, (moved.links.get key).isSome = (t.links.get key).isSome ∧
          ∀ link ∈ t.links.get key,
            (∀ dir, link.directoryId = some dir → Hierarchy.Reaches t.hierarchy dir directoryId →
              moved.links.get key = some { link with directoryId := row.parentId }) ∧
            ((∀ dir, link.directoryId = some dir → ¬ Hierarchy.Reaches t.hierarchy dir directoryId) →
              moved.links.get key = some link)) ∧
      ∃ deleted, t.deleteDirectory limit directoryId false = (deleted, true) ∧
        (∀ id row, deleted.directories.get id = some row ↔
          t.directories.get id = some row ∧ ¬ Hierarchy.Reaches t.hierarchy id directoryId) ∧
        ∀ key link, deleted.links.get key = some link ↔
          t.links.get key = some link ∧
            ∀ dir, link.directoryId = some dir → ¬ Hierarchy.Reaches t.hierarchy dir directoryId) ↔
    ¬ t.world.Deep limit directoryId := by
  constructor
  · rintro ⟨⟨moved, hmoved, -⟩, -⟩ hdeep
    rw [DirectoryTables.deleteDirectory_of_deep hdeep] at hmoved
    cases hmoved
  intro hshallow
  have hself : ¬ t.world.ProperlyBelow directoryId directoryId := by
    rw [DirectoryTables.properlyBelow_iff_above]
    intro habove
    refine hforest.acyclic directoryId (DirectoryTables.within_of_above hforest ?_ habove)
    rw [DirectoryTables.within, hrow, Option.filter_some, if_pos (by simpa using hknowledge)]
    rfl
  have hreaches : ∀ dir, t.world.Below directoryId dir ↔ Hierarchy.Reaches t.hierarchy dir directoryId := by
    intro dir
    have hstep : (fun a b => b ∈ t.world.children a) = Function.swap (Hierarchy.Under t.hierarchy) := by
      funext a b
      exact propext DirectoryTables.mem_children
    rw [World.Below, hstep, Hierarchy.Reaches]
    exact Relation.reflTransGen_swap
  obtain ⟨moved, hmoved, hdirectories, hlinks⟩ := DirectoryTables.deleteDirectory_moving hrow hself hshallow
  obtain ⟨deleted, hdeleted, hdirectories', hlinks'⟩ := DirectoryTables.deleteDirectory_deleting hrow hshallow
  simp only [hreaches] at hdirectories hdirectories' hlinks'
  refine ⟨⟨moved, hmoved, hdirectories, ?_⟩, deleted, hdeleted, hdirectories', hlinks'⟩
  intro key
  refine ⟨by rw [hlinks, Option.isSome_map], ?_⟩
  intro link hlink
  rw [hlinks, Option.mem_def.1 hlink, Option.map_some]
  constructor
  · intro dir hdir hreach
    rw [retarget, if_pos ⟨dir, (hreaches dir).2 hreach, hdir⟩]
  · intro hout
    rw [retarget, if_neg]
    rintro ⟨dir, hbelow, hdir⟩
    exact hout dir hdir ((hreaches dir).1 hbelow)

/-- Directories that are nested `n` levels deep. -/
def nestedDirectories (n : ℕ) : DirectoryTables where
  directories := Nesting.nest (fun parentId => ⟨⟨"kb", parentId⟩, "Directory"⟩) n
  files := .empty
  links := .empty

theorem forest_nestedDirectories (n : ℕ) : Hierarchy.Forest ((nestedDirectories n).within "kb") := by
  induction n with
  | zero =>
    have hwithin : (nestedDirectories 0).within "kb" = Hierarchy.hang (Nesting.key 0) none fun _ => none := by
      funext id
      rw [DirectoryTables.within, nestedDirectories, Nesting.nest, KeyedTable.get_set, Hierarchy.hang,
        Function.update_apply]
      split <;> rfl
    rw [hwithin]
    exact Hierarchy.forest_empty.hang (by simp)
  | succ n ih =>
    have hwithin : (nestedDirectories (n + 1)).within "kb" =
        Hierarchy.hang (Nesting.key (n + 1)) (some (Nesting.key n)) ((nestedDirectories n).within "kb") := by
      funext id
      rw [DirectoryTables.within, nestedDirectories, Nesting.nest, KeyedTable.get_set, Hierarchy.hang,
        Function.update_apply]
      split <;> rfl
    rw [hwithin]
    apply ih.hang
    rintro y hy
    cases hy
    have hlast : ((nestedDirectories n).within "kb" (Nesting.key n)).isSome := by
      rw [DirectoryTables.within, show (nestedDirectories n).directories.get (Nesting.key n) = some _ from
        Nesting.get_nest.2 ⟨n, le_rfl, rfl, rfl⟩]
      rfl
    have hnew : (nestedDirectories n).within "kb" (Nesting.key (n + 1)) = none := by
      rw [DirectoryTables.within, Option.map_eq_none_iff, Option.filter_eq_none_iff]
      intro row hrow
      obtain ⟨k, hk, heq, -⟩ := Nesting.get_nest.1 hrow
      exact absurd (Nesting.key_injective heq) (by omega)
    exact ⟨hlast, ih.not_reaches_of_none hnew hlast⟩

theorem deep_nestedDirectories (hk : k + m ≤ n) : (nestedDirectories n).world.Deep m (Nesting.key k) := by
  induction m generalizing k with
  | zero => trivial
  | succ m ih =>
    refine ⟨Nesting.key (k + 1), DirectoryTables.mem_children.2 (DirectoryTables.under_iff.2 ?_), ih (by omega)⟩
    exact ⟨_, Nesting.get_nest.2 ⟨k + 1, by omega, rfl, rfl⟩, rfl⟩

/-- Of 1001 nested directories the outermost is not deleted. -/
theorem deep_directory_not_deleted :
    Hierarchy.Forest ((nestedDirectories 1000).within "kb") ∧
      (nestedDirectories 1000).directories.get (Nesting.key 0) = some ⟨⟨"kb", none⟩, "Directory"⟩ ∧
      (nestedDirectories 1000).deleteDirectory 1000 (Nesting.key 0) true = (nestedDirectories 1000, false) :=
  ⟨forest_nestedDirectories 1000, Nesting.get_nest.2 ⟨0, by decide, rfl, rfl⟩,
    DirectoryTables.deleteDirectory_of_deep (deep_nestedDirectories (by decide)) true⟩

/-- A directory with a file, inside another one. -/
def nested : DirectoryTables :=
  { nestedDirectories 1 with links := KeyedTable.empty.set ("kb", "f") ⟨some (Nesting.key 1), "u"⟩ }

theorem deletion_conserves_files_iff_nested :
    ∃ moved, nested.deleteDirectory 3 (Nesting.key 1) true = (moved, true) ∧
      moved.directories.get (Nesting.key 1) = none ∧
      moved.links.get ("kb", "f") = some ⟨some (Nesting.key 0), "u"⟩ := by
  have hshallow : ¬ nested.world.Deep 3 (Nesting.key 1) := by
    rintro ⟨child, hchild, -⟩
    have hnone : nested.world.children (Nesting.key 1) = [] := by decide
    rw [hnone] at hchild
    cases hchild
  obtain ⟨⟨moved, hmoved, hdirectories, hlinks⟩, -⟩ :=
    (deletion_conserves_files_iff nested "kb" (Nesting.key 1) ⟨⟨"kb", some (Nesting.key 0)⟩, "Directory"⟩
      (Nesting.get_nest.2 ⟨1, le_rfl, rfl, rfl⟩) rfl (forest_nestedDirectories 1) 3).2 hshallow
  refine ⟨moved, hmoved, ?_, ((hlinks ("kb", "f")).2 ⟨some (Nesting.key 1), "u"⟩ rfl).1 (Nesting.key 1) rfl .refl⟩
  by_contra hsome
  obtain ⟨row, hrow⟩ := Option.ne_none_iff_exists'.1 hsome
  exact ((hdirectories (Nesting.key 1) row).1 hrow).2 .refl

end RyanAI.Knowledge
