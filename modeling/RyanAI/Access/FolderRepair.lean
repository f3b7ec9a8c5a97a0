import RyanAI.Access.FolderSubtrees
import RyanAI.Lib.CycleBreaking

/-!
# Repairing the parent links of the folders

`get_folders` of `routers/folders.py` puts those folders of a user back at the root whose parent is missing or that are
on a cycle, one commit for each. The cycles are looked for in a dictionary that the loop itself edits, so that a cycle
is broken once (`Broken.existsUnique_cut`). The loop ends early where a folder has a `files` entry on which `len`
raises; what comes after it is not repaired (`folders_repaired_iff`).
-/

namespace RyanAI.Access

open Lib Lib.CycleBreaking

/-! ## The loop -/

/-- `len(value)`; `none` is a `TypeError`. -/
def lenOf : Json → Option ℕ
  | .str s => some s.length
  | .arr items => some items.length
  | .obj fields => some fields.length
  | .null | .bool _ | .num _ => none

/-- The table with the `data` of those folders that have some. -/
structure FolderStore where
  folders : FolderTable
  data : KeyedTable String Dict

/-- Change the row of a folder, if it is there. -/
def FolderTable.updateRow (folders : FolderTable) (id : String) (f : Folder → Folder) : FolderTable where
  rows := folders.rows.map fun id' row => if id' = id then f row else row
  ids := by
    intro id' hid'
    rw [KeyedTable.get_map, Option.isSome_map] at hid'
    exact folders.ids id' hid'

/-- `update_folder_parent_id_by_id_and_user_id`; `none` if the user has no such folder. -/
def FolderStore.updateFolderParentId (s : FolderStore) (now : ℕ) (id userId : String) (parentId : Option String) :
    Option (FolderStore × Folder) :=
  (s.folders.getFolderByIdAndUserId id userId).map fun row =>
    ({ s with folders := s.folders.updateRow id fun row => { row with parentId := parentId, updatedAt := now } },
      { row with parentId := parentId, updatedAt := now })

/-- `update_folder_by_id_and_user_id` with new data. The name is not given, and no row has NULL for its name. -/
def FolderStore.updateFolderData (s : FolderStore) (now : ℕ) (id userId : String) (data : Dict) : FolderStore :=
  match s.folders.getFolderByIdAndUserId id userId with
  | none => s
  | some _ =>
    { folders := s.folders.updateRow id fun row => { row with updatedAt := now }
      data := s.data.set id (Dict.update ((s.data.get id).getD []) data) }

/-- The variables of the loop. -/
structure Repair where
  parentById : KeyedTable String (Option String)
  store : FolderStore
  folderList : List (String × Folder)

/-- `parent_by_id.get`; an empty text counts as no parent. -/
def parentLink (parents : Hierarchy String) (id : String) : Option String := ((parents id).join).filter (· ≠ "")

/-- `is_in_parent_cycle`. -/
def isInParentCycle (parentById : KeyedTable String (Option String)) (folderId : String) : Bool :=
  endsAt (parentLink (parentById.get ·)) folderId parentById.keys.length [folderId]
    (parentLink (parentById.get ·) folderId)

/-- The condition under which a folder is put back at the root. -/
def needsRoot (parentById : KeyedTable String (Option String)) (folder : String × Folder) : Bool :=
  match folder.2.parentId.filter (· ≠ "") with
  | none => false
  | some parentId => (parentById.get parentId).isNone || isInParentCycle parentById folder.1

/-- The first half of a turn; `none` if the update has returned `None`, which has no `data`. -/
def Repair.putBack (s : Repair) (now : ℕ) (userId : String) (folder : String × Folder) : Option (Repair × Folder) :=
  if needsRoot s.parentById folder then
    (s.store.updateFolderParentId now folder.1 userId none).map fun (store, row) =>
      ({ s with parentById := s.parentById.set folder.1 none, store := store }, row)
  else some (s, folder.2)

/-- The `files` entry of the data of a folder. -/
def FolderStore.filesOf (s : FolderStore) (id : String) : Option Json :=
  (s.data.get id).bind fun data => data.lookup "files"

/-- A turn of the loop, and whether it raises. `accessible` is `get_accessible_folder_files` for the user; `none` if that
raises. -/
def Repair.turn (s : Repair) (accessible : Json → Option (List Json)) (now : ℕ) (userId : String)
    (folder : String × Folder) : Bool × Repair :=
  match s.putBack now userId folder with
  | none => (true, s)
  | some (s, row) =>
    let listed := { s with folderList := s.folderList ++ [(folder.1, row)] }
    match s.store.filesOf folder.1 with
    | none => (false, listed)
    | some files =>
      match accessible files, lenOf files with
      | some accessibleFiles, some length =>
        if accessibleFiles.length = length then (false, listed)
        else
          let data := Dict.set ((s.store.data.get folder.1).getD []) "files" (.arr accessibleFiles)
          (false, { listed with store := s.store.updateFolderData now folder.1 userId data })
      -- what has been committed stays
      | _, _ => (true, s)

def Repair.loop (accessible : Json → Option (List Json)) (now : ℕ) (userId : String) :
    List (String × Folder) → Repair → Bool × Repair
  | [], s => (false, s)
  | folder :: rest, s =>
    match s.turn accessible now userId folder with
    | (true, s) => (true, s)
    | (false, s) => loop accessible now userId rest s

/-- `get_folders` for the rows that its query has returned: the folders of the answer, `none` if it raises, and the
tables afterwards. -/
def getFolders (accessible : Json → Option (List Json)) (now : ℕ) (userId : String) (store : FolderStore)
    (listed : List (String × Folder)) : Option (List (String × Folder)) × FolderStore :=
  let parentById := listed.foldl (fun parents folder => parents.set folder.1 folder.2.parentId) .empty
  match Repair.loop accessible now userId listed ⟨parentById, store, []⟩ with
  | (true, s) => (none, s.store)
  | (false, s) => (some s.folderList, s.store)

/-- A `files` entry on which the turn raises. -/
def raisesOn (accessible : Json → Option (List Json)) (files : Json) : Bool :=
  (accessible files).isNone || (lenOf files).isNone

/-- The folders that the loop comes to: those up to the first turn that raises, with it. -/
def reached (accessible : Json → Option (List Json)) (store : FolderStore) : List (String × Folder) → List String
  | [] => []
  | folder :: rest =>
    folder.1 :: if (store.filesOf folder.1).any (raisesOn accessible) then [] else reached accessible store rest

/-! ## What repaired means -/

/-- The parents of the folders of a user, as they are in the table. -/
def FolderTable.parents (folders : FolderTable) (userId : String) : Hierarchy String := fun id =>
  (folders.getFolderByIdAndUserId id userId).map fun row => row.parentId

/-- The query for the folders of a user returns them in some order. -/
def FolderTable.Lists (folders : FolderTable) (userId : String) (listed : List (String × Folder)) : Prop :=
  listed.Perm (folders.rows.entries.filter fun entry => entry.2.userId = userId)

/-- The folder has a parent, and that is not one of the folders. -/
def Dangling (parents : Hierarchy String) (id : String) : Prop :=
  ∃ parentId, parentLink parents id = some parentId ∧ parents parentId = none

/-- The folder had a parent, and has been put back at the root. -/
def MovedToRoot (before after : Hierarchy String) (id : String) : Prop :=
  (parentLink before id).isSome = true ∧ after id = some none

/-- The links after a repair are a forest over the same folders; moved were those whose parent is missing and one
folder of each cycle, and no others. -/
structure Repaired (before after : Hierarchy String) : Prop where
  folders : ∀ id, (after id).isSome = (before id).isSome
  keeps : ∀ id, after id = before id ∨ MovedToRoot before after id
  forest : Hierarchy.Forest fun id => (after id).map fun parentId => parentId.filter (· ≠ "")
  dangling : ∀ id, Dangling before id → MovedToRoot before after id
  cycles : ∀ id, OnCycle (parentLink before) id →
    ∃! id', Reaches (parentLink before) id id' ∧ MovedToRoot before after id'
  only : ∀ id, MovedToRoot before after id → Dangling before id ∨ OnCycle (parentLink before) id

/-! ## Links within the folders -/

section Links

variable {parents before after : Hierarchy String} {id x y : String}

/-- The links to parents that are there. -/
def innerLink (parents : Hierarchy String) (id : String) : Option String :=
  (parentLink parents id).filter fun parentId => (parents parentId).isSome

theorem isSome_of_parentLink (h : parentLink parents x = some y) : (parents x).isSome = true := by
  rw [parentLink] at h
  cases hx : parents x with
  | none =>
    rw [hx] at h
    cases h
  | some parent => rfl

theorem innerLink_eq_some :
    innerLink parents x = some y ↔ parentLink parents x = some y ∧ (parents y).isSome = true := by
  rw [innerLink, Option.filter_eq_some_iff]

/-- The folders on a cycle are all there. -/
theorem onCycle_inner_iff : OnCycle (innerLink parents) x ↔ OnCycle (parentLink parents) x := by
  constructor
  · exact OnCycle.mono fun a b hab => (innerLink_eq_some.1 hab).1
  · intro h
    refine (onCycle_congr ?_).2 h
    intro b hb
    obtain ⟨c, hc, hcb⟩ : ∃ c, parentLink parents b = some c ∧ Reaches (parentLink parents) c b := by
      have hon : OnCycle (parentLink parents) b :=
        Relation.TransGen.trans_right (h.back hb) (Relation.TransGen.trans_left h hb)
      exact Relation.TransGen.head'_iff.1 hon
    rw [hc]
    refine innerLink_eq_some.2 ⟨hc, ?_⟩
    rcases Relation.ReflTransGen.cases_head hcb with rfl | ⟨d, hd, -⟩
    · exact isSome_of_parentLink hc
    · exact isSome_of_parentLink hd

theorem reaches_inner_iff (h : OnCycle (parentLink parents) x) :
    Reaches (innerLink parents) x y ↔ Reaches (parentLink parents) x y := by
  refine reaches_congr ?_
  intro b hb
  have hon : OnCycle (parentLink parents) b :=
    Relation.TransGen.trans_right (h.back hb) (Relation.TransGen.trans_left h hb)
  obtain ⟨c, hc⟩ := Option.isSome_iff_exists.1 (onCycle_inner_iff.2 hon).isSome
  rw [hc, (innerLink_eq_some.1 hc).1]

theorem parentLink_update_self : parentLink (Function.update parents x (some none)) x = none := by
  rw [parentLink, Function.update_self]
  rfl

theorem parentLink_update_of_ne (hne : y ≠ x) :
    parentLink (Function.update parents x (some none)) y = parentLink parents y := by
  rw [parentLink, parentLink, Function.update_of_ne hne]

end Links

section Steps

open Classical

variable {parents : Hierarchy String} {x : String}

/-- What one turn does to the links. -/
noncomputable def rootStep (parents : Hierarchy String) (x : String) : Hierarchy String :=
  if Dangling parents x ∨ OnCycle (parentLink parents) x then Function.update parents x (some none) else parents

noncomputable def rootSteps (ids : List String) (parents : Hierarchy String) : Hierarchy String :=
  ids.foldl rootStep parents

theorem isSome_parentLink_of_needs (h : Dangling parents x ∨ OnCycle (parentLink parents) x) :
    (parentLink parents x).isSome = true := by
  rcases h with ⟨p, hp, -⟩ | hon
  · rw [hp]
    rfl
  · exact hon.isSome

theorem isSome_rootStep (x y : String) : (rootStep parents x y).isSome = (parents y).isSome := by
  rw [rootStep]
  split
  · rename_i hneeds
    obtain ⟨p, hp⟩ := Option.isSome_iff_exists.1 (isSome_parentLink_of_needs hneeds)
    by_cases hy : y = x
    · subst hy
      rw [Function.update_self, isSome_of_parentLink hp]
      rfl
    · rw [Function.update_of_ne hy]
  · rfl

/-- On the links within the folders, a turn breaks a cycle. -/
theorem innerLink_rootStep (x : String) : innerLink (rootStep parents x) = breakCycle (innerLink parents) x := by
  rw [breakCycle, onCycle_inner_iff]
  by_cases hon : OnCycle (parentLink parents) x
  · rw [if_pos hon]
    have hstep : rootStep parents x = Function.update parents x (some none) := if_pos (.inr hon)
    funext y
    by_cases hy : y = x
    · subst hy
      rw [Function.update_self, innerLink, hstep, parentLink_update_self]
      rfl
    · rw [Function.update_of_ne hy, innerLink, innerLink]
      simp only [isSome_rootStep]
      rw [hstep, parentLink_update_of_ne hy]
  rw [if_neg hon]
  by_cases hdangling : Dangling parents x
  · have hstep : rootStep parents x = Function.update parents x (some none) := if_pos (.inl hdangling)
    funext y
    by_cases hy : y = x
    · -- a link to a parent that is missing is none within the folders
      subst hy
      obtain ⟨p, hp, hnone⟩ := hdangling
      rw [innerLink, hstep, parentLink_update_self, innerLink, hp, Option.filter_some, hnone]
      rfl
    · rw [innerLink, innerLink]
      simp only [isSome_rootStep]
      rw [hstep, parentLink_update_of_ne hy]
  · rw [rootStep, if_neg (not_or.2 ⟨hdangling, hon⟩)]

/-- What the turns for `ids` do to the links. -/
structure Rooted (ids : List String) (before after : Hierarchy String) : Prop where
  folders : ∀ id, (after id).isSome = (before id).isSome
  keeps : ∀ id, after id = before id ∨
    after id = some none ∧ id ∈ ids ∧ (Dangling before id ∨ OnCycle (parentLink before) id)
  dangling : ∀ id ∈ ids, Dangling before id → after id = some none
  inner : innerLink after = breakCycles ids (innerLink before)

variable {before after : Hierarchy String}

theorem Rooted.parentLink_le {ids : List String} (h : Rooted ids before after)
    (hlink : parentLink after x = some y) : parentLink before x = some y := by
  rcases h.keeps x with heq | ⟨hnone, -⟩
  · rwa [parentLink, heq] at hlink
  · rw [parentLink, hnone] at hlink
    cases hlink

theorem Rooted.step {ids : List String} (h : Rooted ids before after) (x : String) :
    Rooted (ids ++ [x]) before (rootStep after x) := by
  have hdangling : ∀ id, Dangling after id → Dangling before id := by
    rintro id ⟨p, hp, hnone⟩
    refine ⟨p, h.parentLink_le hp, ?_⟩
    rw [← Option.isNone_iff_eq_none, ← Option.not_isSome, ← h.folders p, hnone]
    rfl
  have hcycle : ∀ id, OnCycle (parentLink after) id → OnCycle (parentLink before) id :=
    fun id => OnCycle.mono fun a b hab => h.parentLink_le hab
  refine ⟨?_, ?_, ?_, ?_⟩
  · intro id
    rw [isSome_rootStep, h.folders]
  · intro id
    have hold : after id = before id ∨
        after id = some none ∧ id ∈ ids ++ [x] ∧ (Dangling before id ∨ OnCycle (parentLink before) id) := by
      rcases h.keeps id with heq | ⟨hnone, hid, hneeds⟩
      · exact .inl heq
      · exact .inr ⟨hnone, List.mem_append_left _ hid, hneeds⟩
    rw [rootStep]
    split
    · rename_i hneeds
      by_cases hid : id = x
      · subst hid
        rw [Function.update_self]
        exact .inr ⟨rfl, by simp, hneeds.imp (hdangling id) (hcycle id)⟩
      · rw [Function.update_of_ne hid]
        exact hold
    · exact hold
  · intro id hid hbefore
    rw [rootStep]
    split
    · by_cases hx : id = x
      · rw [hx, Function.update_self]
      · rw [Function.update_of_ne hx]
        rcases List.mem_append.1 hid with hid | hid
        · exact h.dangling id hid hbefore
        · exact absurd (List.mem_singleton.1 hid) hx
    · rename_i hneeds
      rcases h.keeps id with heq | ⟨hnone, -⟩
      · rcases List.mem_append.1 hid with hid | hid
        · exact h.dangling id hid hbefore
        · -- the folder has its missing parent still
          obtain ⟨p, hp, hmissing⟩ := hbefore
          refine absurd (.inl ?_) hneeds
          rw [← List.mem_singleton.1 hid]
          refine ⟨p, by rw [parentLink, heq]; exact hp, ?_⟩
          rw [← Option.isNone_iff_eq_none, ← Option.not_isSome, h.folders p, hmissing]
          rfl
      · exact hnone
  · rw [innerLink_rootStep, h.inner, breakCycles, breakCycles, List.foldl_append, List.foldl_cons, List.foldl_nil]

theorem rooted_rootSteps (ids : List String) (parents : Hierarchy String) :
    Rooted ids parents (rootSteps ids parents) := by
  induction ids using List.reverseRecOn with
  | nil => exact ⟨fun _ => rfl, fun _ => .inl rfl, by simp, rfl⟩
  | append_singleton ids x ih =>
    rw [rootSteps, List.foldl_append, List.foldl_cons, List.foldl_nil]
    exact ih.step x

end Steps

/-! ## The turns -/

section Turns

variable {store : FolderStore} {s : Repair} {accessible : Json → Option (List Json)} {now : ℕ} {userId : String}
  {folder : String × Folder}

theorem parents_eq_some {folders : FolderTable} {id : String} {parentId : Option String} :
    folders.parents userId id = some parentId ↔
      ∃ row, folders.getFolderByIdAndUserId id userId = some row ∧ row.parentId = parentId := by
  rw [FolderTable.parents, Option.map_eq_some_iff]

theorem getFolder_updateRow (folders : FolderTable) (id id' : String) {f : Folder → Folder}
    (hf : ∀ row, (f row).userId = row.userId) :
    (folders.updateRow id f).getFolderByIdAndUserId id' userId =
      (folders.getFolderByIdAndUserId id' userId).map fun row => if id' = id then f row else row := by
  rw [FolderTable.getFolderByIdAndUserId, FolderTable.getFolderByIdAndUserId, FolderTable.updateRow, KeyedTable.get_map]
  cases hrow : folders.rows.get id' with
  | none => rfl
  | some row =>
    rw [Option.map_some, Option.filter_some, Option.filter_some]
    have hsame : (if id' = id then f row else row).userId = row.userId := by
      split
      · exact hf row
      · rfl
    rw [hsame]
    split <;> rfl

/-- Putting a folder back changes its own link only. -/
theorem updateFolderParentId_spec {id : String} {parentId : Option String} {after : FolderStore} {row : Folder}
    (h : store.updateFolderParentId now id userId parentId = some (after, row)) :
    after.folders.parents userId = Function.update (store.folders.parents userId) id (some parentId) ∧
      after.data = store.data := by
  rw [FolderStore.updateFolderParentId, Option.map_eq_some_iff] at h
  obtain ⟨old, hold, heq⟩ := h
  rw [Prod.mk.injEq] at heq
  obtain ⟨rfl, -⟩ := heq
  refine ⟨?_, rfl⟩
  funext id'
  rw [FolderTable.parents, getFolder_updateRow store.folders id id' (f := fun row =>
    { row with parentId := parentId, updatedAt := now }) (fun _ => rfl), Option.map_map]
  by_cases hid : id' = id
  · subst hid
    rw [Function.update_self, hold, Option.map_some, Function.comp_apply, if_pos rfl]
  · rw [Function.update_of_ne hid, FolderTable.parents]
    congr 1
    funext row
    rw [Function.comp_apply, if_neg hid]

/-- Writing the data of a folder changes no link, and the data of no other folder. -/
theorem updateFolderData_spec (store : FolderStore) (now : ℕ) (id userId : String) (data : Dict) :
    (store.updateFolderData now id userId data).folders.parents userId = store.folders.parents userId ∧
      ∀ id', id' ≠ id → (store.updateFolderData now id userId data).data.get id' = store.data.get id' := by
  rw [FolderStore.updateFolderData]
  cases hrow : store.folders.getFolderByIdAndUserId id userId with
  | none => exact ⟨rfl, fun _ _ => rfl⟩
  | some row =>
    refine ⟨?_, ?_⟩
    · funext id'
      show ((store.folders.updateRow id fun row => { row with updatedAt := now }).getFolderByIdAndUserId id' userId).map
        (fun row => row.parentId) = store.folders.parents userId id'
      rw [getFolder_updateRow store.folders id id' (f := fun row => { row with updatedAt := now }) (fun _ => rfl),
        Option.map_map, FolderTable.parents]
      congr 1
      funext row
      rw [Function.comp_apply]
      split <;> rfl
    · intro id' hne
      rw [KeyedTable.get_set, if_neg hne]

/-- The dictionary of the loop has the links as they are in the table. -/
def Repair.Synced (s : Repair) (userId : String) : Prop := ∀ id, s.parentById.get id = s.store.folders.parents userId id

theorem isInParentCycle_iff (parentById : KeyedTable String (Option String)) (id : String) :
    isInParentCycle parentById id = true ↔ OnCycle (parentLink (parentById.get ·)) id := by
  apply endsAt_iff parentById.keys _ id le_rfl
  intro x y hlink
  exact KeyedTable.mem_keys.2 (isSome_of_parentLink hlink)

theorem needsRoot_iff {parentById : KeyedTable String (Option String)} {parents : Hierarchy String}
    (hparents : ∀ id, parentById.get id = parents id) (hfolder : parents folder.1 = some folder.2.parentId) :
    needsRoot parentById folder = true ↔ Dangling parents folder.1 ∨ OnCycle (parentLink parents) folder.1 := by
  obtain rfl : (parentById.get ·) = parents := funext hparents
  have hlink : parentLink (parentById.get ·) folder.1 = folder.2.parentId.filter (· ≠ "") := by
    have hget : parentById.get folder.1 = some folder.2.parentId := hfolder
    rw [parentLink, hget]
    rfl
  rw [needsRoot, ← hlink]
  cases hparent : parentLink (parentById.get ·) folder.1 with
  | none =>
    refine ⟨fun h => absurd h Bool.false_ne_true, fun h => ?_⟩
    have hsome := isSome_parentLink_of_needs h
    rw [hparent] at hsome
    cases hsome
  | some parentId =>
    show ((parentById.get parentId).isNone || isInParentCycle parentById folder.1) = true ↔ _
    rw [Bool.or_eq_true, isInParentCycle_iff, Option.isNone_iff_eq_none]
    apply or_congr_left
    constructor
    · intro hnone
      exact ⟨parentId, hparent, hnone⟩
    · rintro ⟨p, hp, hnone⟩
      rw [hparent, Option.some.injEq] at hp
      rw [hp]
      exact hnone

/-- The first half of a turn: the update finds the folder, and the links are as after `rootStep`. -/
theorem putBack_spec (now : ℕ) (hs : s.Synced userId)
    (hfolder : s.store.folders.parents userId folder.1 = some folder.2.parentId) :
    ∃ s' row, s.putBack now userId folder = some (s', row) ∧ s'.Synced userId ∧
      s'.store.folders.parents userId = rootStep (s.store.folders.parents userId) folder.1 ∧
      s'.store.data = s.store.data := by
  have hneeds := needsRoot_iff hs hfolder
  rw [Repair.putBack]
  by_cases hroot : needsRoot s.parentById folder = true
  · rw [if_pos hroot, rootStep, if_pos (hneeds.1 hroot)]
    obtain ⟨row, hrow, -⟩ := parents_eq_some.1 hfolder
    obtain ⟨store', row', hupdate⟩ : ∃ store' row',
        s.store.updateFolderParentId now folder.1 userId none = some (store', row') := by
      rw [FolderStore.updateFolderParentId, hrow]
      exact ⟨_, _, rfl⟩
    obtain ⟨hparents, hdata⟩ := updateFolderParentId_spec hupdate
    rw [hupdate]
    refine ⟨_, row', rfl, ?_, hparents, hdata⟩
    intro id
    show (s.parentById.set folder.1 none).get id = store'.folders.parents userId id
    rw [hparents, KeyedTable.get_set, Function.update_apply, hs]
  · rw [if_neg hroot, rootStep, if_neg fun h => hroot (hneeds.2 h)]
    exact ⟨s, folder.2, rfl, hs, rfl, rfl⟩

/-- A turn raises where the `files` entry makes it raise; the links are as after `rootStep` in any case. -/
theorem turn_spec (accessible : Json → Option (List Json)) (now : ℕ) (hs : s.Synced userId)
    (hfolder : s.store.folders.parents userId folder.1 = some folder.2.parentId) :
    (s.turn accessible now userId folder).1 = (s.store.filesOf folder.1).any (raisesOn accessible) ∧
      (s.turn accessible now userId folder).2.Synced userId ∧
      (s.turn accessible now userId folder).2.store.folders.parents userId =
        rootStep (s.store.folders.parents userId) folder.1 ∧
      ∀ id, id ≠ folder.1 → (s.turn accessible now userId folder).2.store.filesOf id = s.store.filesOf id := by
  obtain ⟨s', row, hput, hsynced, hparents, hdata⟩ := putBack_spec now hs hfolder
  have hfiles : ∀ id, s.store.filesOf id = s'.store.filesOf id := by
    intro id
    rw [FolderStore.filesOf, FolderStore.filesOf, hdata]
  simp only [Repair.turn, hput, hfiles]
  cases hentry : s'.store.filesOf folder.1 with
  | none => exact ⟨rfl, hsynced, hparents, fun _ _ => rfl⟩
  | some files =>
    simp only [Option.any_some, raisesOn]
    cases haccessible : accessible files with
    | none => exact ⟨rfl, hsynced, hparents, fun _ _ => rfl⟩
    | some accessibleFiles =>
      cases hlength : lenOf files with
      | none => exact ⟨rfl, hsynced, hparents, fun _ _ => rfl⟩
      | some length =>
        by_cases hsame : accessibleFiles.length = length
        · simp only [if_pos hsame]
          exact ⟨rfl, hsynced, hparents, fun _ _ => trivial⟩
        · simp only [if_neg hsame]
          obtain ⟨hkeep, hothers⟩ := updateFolderData_spec s'.store now folder.1 userId
            (Dict.set ((s'.store.data.get folder.1).getD []) "files" (.arr accessibleFiles))
          refine ⟨rfl, fun id => (hsynced id).trans (congrFun hkeep id).symm, hkeep.trans hparents, ?_⟩
          intro id hne
          rw [FolderStore.filesOf, FolderStore.filesOf, hothers id hne]

/-- What the loop needs of the folders that are still to come. -/
structure Repair.Ahead (s : Repair) (userId : String) (store : FolderStore) (rest : List (String × Folder)) : Prop where
  synced : s.Synced userId
  nodup : (rest.map Prod.fst).Nodup
  parents : ∀ folder ∈ rest, s.store.folders.parents userId folder.1 = some folder.2.parentId
  files : ∀ folder ∈ rest, s.store.filesOf folder.1 = store.filesOf folder.1

variable {rest : List (String × Folder)}

theorem Repair.Ahead.turn (h : s.Ahead userId store (folder :: rest))
    (accessible : Json → Option (List Json)) (now : ℕ) :
    (s.turn accessible now userId folder).2.Ahead userId store rest := by
  obtain ⟨-, hsynced, hparents, hothers⟩ := turn_spec accessible now h.synced (h.parents folder List.mem_cons_self)
  have hne : ∀ other ∈ rest, other.1 ≠ folder.1 := by
    intro other hother heq
    exact (List.nodup_cons.1 h.nodup).1 (List.mem_map.2 ⟨other, hother, heq⟩)
  refine ⟨hsynced, (List.nodup_cons.1 h.nodup).2, ?_, ?_⟩
  · intro other hother
    rw [hparents, ← h.parents other (List.mem_cons_of_mem _ hother), rootStep]
    split
    · exact Function.update_of_ne (hne other hother) ..
    · rfl
  · intro other hother
    rw [hothers _ (hne other hother)]
    exact h.files other (List.mem_cons_of_mem _ hother)

theorem loop_spec (accessible : Json → Option (List Json)) (now : ℕ) (h : s.Ahead userId store rest) :
    (Repair.loop accessible now userId rest s).2.store.folders.parents userId =
      rootSteps (reached accessible store rest) (s.store.folders.parents userId) := by
  induction rest generalizing s with
  | nil => rfl
  | cons folder rest ih =>
    obtain ⟨hraises, -, hparents, -⟩ := turn_spec accessible now h.synced (h.parents folder List.mem_cons_self)
    have hahead := h.turn accessible now
    rw [h.files folder List.mem_cons_self] at hraises
    rw [Repair.loop, reached, rootSteps, List.foldl_cons, ← hparents, ← hraises]
    rcases hturn : s.turn accessible now userId folder with ⟨raised, s'⟩
    rw [hturn] at hahead
    cases raised with
    | true => rfl
    | false => exact ih hahead

variable {listed : List (String × Folder)}

theorem get_foldl_set (hnodup : (listed.map Prod.fst).Nodup)
    (t : KeyedTable String (Option String)) (id : String) (parentId : Option String) :
    (listed.foldl (fun parents folder => parents.set folder.1 folder.2.parentId) t).get id = some parentId ↔
      (∃ row, (id, row) ∈ listed ∧ row.parentId = parentId) ∨ id ∉ listed.map Prod.fst ∧ t.get id = some parentId := by
  induction listed generalizing t with
  | nil => simp
  | cons folder rest ih =>
    obtain ⟨hfresh, hrest⟩ := List.nodup_cons.1 hnodup
    rw [List.foldl_cons, ih hrest, KeyedTable.get_set]
    by_cases hid : id = folder.1
    · subst hid
      rw [if_pos rfl, Option.some.injEq]
      constructor
      · rintro (⟨row, hrow, -⟩ | ⟨-, hparent⟩)
        · exact absurd (List.mem_map.2 ⟨_, hrow, rfl⟩) hfresh
        · exact .inl ⟨folder.2, List.mem_cons_self, hparent⟩
      · rintro (⟨row, hrow, hparent⟩ | ⟨hnot, -⟩)
        · rcases List.mem_cons.1 hrow with heq | hrow
          · refine .inr ⟨hfresh, ?_⟩
            rw [← heq]
            exact hparent
          · exact absurd (List.mem_map.2 ⟨_, hrow, rfl⟩) hfresh
        · exact absurd List.mem_cons_self hnot
    · rw [if_neg hid]
      have hmem : ∀ row, (id, row) ∈ folder :: rest ↔ (id, row) ∈ rest := by
        intro row
        rw [List.mem_cons]
        exact or_iff_right fun heq => hid (congrArg Prod.fst heq)
      simp only [hmem, List.map_cons, List.mem_cons, hid, false_or]

theorem mem_lists {folders : FolderTable} (h : folders.Lists userId listed) :
    folder ∈ listed ↔ folders.getFolderByIdAndUserId folder.1 userId = some folder.2 := by
  rw [h.mem_iff, List.mem_filter, FolderTable.getFolderByIdAndUserId, Option.filter_eq_some_iff, KeyedTable.get_eq_some]

/-- The loop starts with what it needs of all the folders. -/
theorem ahead_start (h : store.folders.Lists userId listed) : Repair.Ahead
      ⟨listed.foldl (fun parents folder => parents.set folder.1 folder.2.parentId) .empty, store, []⟩ userId store
      listed := by
  have hnodup : (listed.map Prod.fst).Nodup := by
    apply (h.map Prod.fst).nodup_iff.2
    exact store.folders.rows.distinct.sublist (List.filter_sublist.map Prod.fst)
  refine ⟨?_, hnodup, ?_, fun _ _ => rfl⟩
  · intro id
    apply Option.ext
    intro parentId
    rw [get_foldl_set hnodup, parents_eq_some]
    simp only [mem_lists h, KeyedTable.get_empty, reduceCtorEq, and_false, or_false]
  · intro folder hfolder
    exact parents_eq_some.2 ⟨folder.2, (mem_lists h).1 hfolder, rfl⟩

end Turns

/-! ## The repair -/

section Repairs

variable {before after : Hierarchy String} {ids : List String} {id : String}

theorem MovedToRoot.ne (h : MovedToRoot before after id) : after id ≠ before id := by
  intro heq
  obtain ⟨hparent, hroot⟩ := h
  rw [parentLink, ← heq, hroot] at hparent
  cases hparent

section

variable (h : Rooted ids before after)

include h

/-- A folder of a cycle has been moved to the root if it has lost its link within the folders. -/
theorem Rooted.moved_iff (hon : OnCycle (parentLink before) id) :
    MovedToRoot before after id ↔ innerLink after id ≠ innerLink before id := by
  constructor
  · rintro ⟨-, hroot⟩ heq
    have hsome := (onCycle_inner_iff.2 hon).isSome
    rw [← heq, innerLink, parentLink, hroot] at hsome
    cases hsome
  · intro hne
    rcases h.keeps id with hsame | ⟨hroot, -, hneeds⟩
    · refine absurd ?_ hne
      rw [innerLink, innerLink, parentLink, parentLink, hsame]
      simp only [h.folders]
    · exact ⟨isSome_parentLink_of_needs hneeds, hroot⟩

theorem Rooted.moved_needs (hmoved : MovedToRoot before after id) :
    id ∈ ids ∧ (Dangling before id ∨ OnCycle (parentLink before) id) := by
  rcases h.keeps id with hsame | ⟨-, hid, hneeds⟩
  · exact absurd hsame hmoved.ne
  · exact ⟨hid, hneeds⟩

/-- No cycle is left of which some folder has been gone through. -/
theorem Rooted.not_onCycle
    (hcycles : ∀ id, OnCycle (parentLink before) id → ∃ id' ∈ ids, Reaches (parentLink before) id id') (id : String) :
    ¬ OnCycle (parentLink after) id := by
  intro hleft
  have hon : OnCycle (parentLink before) id := hleft.mono fun _ _ hlink => h.parentLink_le hlink
  obtain ⟨id', hid', hreach⟩ := hcycles id hon
  have hbroken := broken_breakCycles ids (innerLink before)
  have hinner : OnCycle (breakCycles ids (innerLink before)) id := h.inner ▸ onCycle_inner_iff.2 hleft
  refine hbroken.done id' hid' ?_
  -- the whole cycle is left, the folder that has been gone through with it
  have hsame : ∀ z, Reaches (innerLink before) id z →
      breakCycles ids (innerLink before) z = innerLink before z := fun z hz => hbroken.intact hinner hz
  have hback : Reaches (breakCycles ids (innerLink before)) id id' :=
    (CycleBreaking.reaches_congr hsame).2 ((reaches_inner_iff hon).2 hreach)
  exact Relation.TransGen.trans_right (hinner.back hback) (Relation.TransGen.trans_left hinner hback)

theorem Rooted.repaired_iff : Repaired before after ↔ (∀ id, Dangling before id → id ∈ ids) ∧
        ∀ id, OnCycle (parentLink before) id → ∃ id' ∈ ids, Reaches (parentLink before) id id' := by
  constructor
  · intro hrepaired
    refine ⟨fun id hdangling => (h.moved_needs (hrepaired.dangling id hdangling)).1, ?_⟩
    intro id hon
    obtain ⟨id', ⟨hreach, hmoved⟩, -⟩ := hrepaired.cycles id hon
    exact ⟨id', (h.moved_needs hmoved).1, hreach⟩
  · rintro ⟨hdangling, hcycles⟩
    have hlink : ∀ x y, Hierarchy.Under (fun id => (after id).map fun parentId => parentId.filter (· ≠ "")) x y →
        parentLink after x = some y := by
      intro x y hunder
      obtain ⟨parent, hparent, hfilter⟩ := Option.map_eq_some_iff.1 hunder
      rw [parentLink, hparent]
      exact hfilter
    refine ⟨h.folders, ?_, ⟨?_, ?_⟩, ?_, ?_, fun id hmoved => (h.moved_needs hmoved).2⟩
    · intro id
      rcases h.keeps id with hsame | ⟨hroot, -, hneeds⟩
      · exact .inl hsame
      · exact .inr ⟨isSome_parentLink_of_needs hneeds, hroot⟩
    · intro x y hunder
      have hafter := hlink x y hunder
      by_contra hmissing
      rw [Option.isSome_map, h.folders, Bool.not_eq_true, Option.isSome_eq_false_iff,
        Option.isNone_iff_eq_none] at hmissing
      have hdang : Dangling before x := ⟨y, h.parentLink_le hafter, hmissing⟩
      rw [parentLink, h.dangling x (hdangling x hdang) hdang] at hafter
      cases hafter
    · intro x habove
      exact h.not_onCycle hcycles x (Relation.TransGen.mono hlink _ _ habove)
    · intro id hdang
      exact ⟨isSome_parentLink_of_needs (.inl hdang), h.dangling id (hdangling id hdang) hdang⟩
    · intro id hon
      obtain ⟨id', hid', hreach⟩ := hcycles id hon
      have hmoved : ∀ z, Reaches (parentLink before) id z ∧ MovedToRoot before after z ↔
          Reaches (innerLink before) id z ∧ breakCycles ids (innerLink before) z ≠ innerLink before z := by
        intro z
        rw [reaches_inner_iff hon]
        apply and_congr_right
        intro hz
        have honz : OnCycle (parentLink before) z :=
          Relation.TransGen.trans_right (hon.back hz) (Relation.TransGen.trans_left hon hz)
        rw [h.moved_iff honz, h.inner]
      refine (existsUnique_congr hmoved).2 ?_
      exact (broken_breakCycles ids (innerLink before)).existsUnique_cut (onCycle_inner_iff.2 hon)
        ((reaches_inner_iff hon).2 hreach) hid'

end

/-- Where no turn raises, the loop comes to all the folders. -/
theorem mem_reached (accessible : Json → Option (List Json)) {store : FolderStore} {userId : String}
    (h : store.folders.Lists userId listed)
    (hfiles : ∀ folder ∈ listed, (store.filesOf folder.1).any (raisesOn accessible) = false)
    (hid : (store.folders.parents userId id).isSome = true) : id ∈ reached accessible store listed := by
  have hall : ∀ rest : List (String × Folder),
      (∀ folder ∈ rest, (store.filesOf folder.1).any (raisesOn accessible) = false) →
        reached accessible store rest = rest.map Prod.fst := by
    intro rest hrest
    induction rest with
    | nil => rfl
    | cons folder rest ih =>
      rw [reached, hrest folder List.mem_cons_self, List.map_cons,
        ← ih fun other hother => hrest other (List.mem_cons_of_mem _ hother)]
      rfl
  obtain ⟨parentId, hparent⟩ := Option.isSome_iff_exists.1 hid
  obtain ⟨row, hrow, -⟩ := parents_eq_some.1 hparent
  rw [hall listed hfiles]
  exact List.mem_map.2 ⟨(id, row), (mem_lists h).2 hrow, rfl⟩

/-- The repair is complete exactly if the loop comes to every folder whose parent is missing and to a folder of each
cycle, before or with the first folder on whose `files` entry it raises. -/
theorem folders_repaired_iff (accessible : Json → Option (List Json)) (now : ℕ) (userId : String) (store : FolderStore)
    (listed : List (String × Folder)) (h : store.folders.Lists userId listed) :
    Repaired (store.folders.parents userId)
        ((getFolders accessible now userId store listed).2.folders.parents userId) ↔
      (∀ id, Dangling (store.folders.parents userId) id → id ∈ reached accessible store listed) ∧
        ∀ id, OnCycle (parentLink (store.folders.parents userId)) id →
          ∃ id' ∈ reached accessible store listed, Reaches (parentLink (store.folders.parents userId)) id id' := by
  have hloop := loop_spec accessible now (ahead_start h)
  have hafter : (getFolders accessible now userId store listed).2.folders.parents userId =
      rootSteps (reached accessible store listed) (store.folders.parents userId) := by
    rw [getFolders, ← hloop]
    split <;> rename_i heq <;> rw [heq]
  rw [hafter]
  exact (rooted_rootSteps _ _).repaired_iff

theorem folders_repaired_iff_circle : Repaired (circle.parents "u")
      ((getFolders (fun _ => some []) 1 "u" ⟨circle, .empty⟩ circle.rows.entries).2.folders.parents "u") := by
  have hlists : circle.Lists "u" circle.rows.entries := List.Perm.refl _
  have hfiles : ∀ folder ∈ circle.rows.entries,
      (FolderStore.filesOf ⟨circle, .empty⟩ folder.1).any (raisesOn fun _ => some []) = false := fun _ _ => rfl
  refine (folders_repaired_iff (fun _ => some []) 1 "u" ⟨circle, .empty⟩ circle.rows.entries hlists).2 ⟨?_, ?_⟩
  · rintro id ⟨parentId, hlink, -⟩
    exact mem_reached _ hlists hfiles (isSome_of_parentLink hlink)
  · intro id hon
    obtain ⟨parentId, hlink⟩ := Option.isSome_iff_exists.1 hon.isSome
    exact ⟨id, mem_reached _ hlists hfiles (isSome_of_parentLink hlink), .refl⟩

/-- The folder "a" has been made with `{"files": null}` for its data, and the parent of "b" is gone. -/
def nullFiles : FolderStore where
  folders :=
    { rows := (KeyedTable.empty.set "a" ⟨none, "u", "A", 0⟩).set "b" ⟨some "gone", "u", "B", 0⟩
      ids := by
        rintro id hsome rfl
        exact absurd hsome (by decide) }
  data := KeyedTable.empty.set "a" [("files", .null)]

/-- `get_accessible_folder_files` for an administrator and entries that are all well formed. -/
def adminFiles : Json → Option (List Json)
  | .arr entries => some entries
  | _ => some []

/-- Every request for the folders raises, and "b" stays below the folder that is gone. -/
theorem null_files_stop_repair : nullFiles.folders.Lists "u" nullFiles.folders.rows.entries ∧
      (getFolders adminFiles 1 "u" nullFiles nullFiles.folders.rows.entries).1 = none ∧
        ¬ Repaired (nullFiles.folders.parents "u")
          ((getFolders adminFiles 1 "u" nullFiles nullFiles.folders.rows.entries).2.folders.parents "u") := by
  refine ⟨List.Perm.refl _, rfl, ?_⟩
  intro hrepaired
  have hdangling : Dangling (nullFiles.folders.parents "u") "b" := ⟨"gone", rfl, rfl⟩
  have hroot := (hrepaired.dangling "b" hdangling).2
  exact absurd hroot (by decide)

/-! ## Requests one after the other -/

/-- A request for the folders; `listing` is the order in which its query returns them. -/
structure FoldersRequest where
  accessible : Json → Option (List Json)
  now : ℕ
  listing : FolderTable → List (String × Folder)

def FoldersRequest.run (userId : String) (store : FolderStore) (r : FoldersRequest) : FolderStore :=
  (getFolders r.accessible r.now userId store (r.listing store.folders)).2

/-- The folders that the loops of the requests come to. -/
def reachedBy (userId : String) : List FoldersRequest → FolderStore → List String
  | [], _ => []
  | r :: rest, store =>
    reached r.accessible store (r.listing store.folders) ++ reachedBy userId rest (r.run userId store)

theorem parents_foldl_run {userId : String} {requests : List FoldersRequest}
    (hlists : ∀ r ∈ requests, ∀ folders : FolderTable, folders.Lists userId (r.listing folders)) (store : FolderStore) :
    (requests.foldl (FoldersRequest.run userId) store).folders.parents userId =
      rootSteps (reachedBy userId requests store) (store.folders.parents userId) := by
  induction requests generalizing store with
  | nil => rfl
  | cons r rest ih =>
    have hone : (r.run userId store).folders.parents userId =
        rootSteps (reached r.accessible store (r.listing store.folders)) (store.folders.parents userId) := by
      rw [FoldersRequest.run, getFolders, ← loop_spec r.accessible r.now (ahead_start (hlists r (by simp) _))]
      split <;> rename_i heq <;> rw [heq]
    rw [List.foldl_cons, ih fun r' hr' => hlists r' (List.mem_cons_of_mem _ hr'), hone, reachedBy, rootSteps, rootSteps,
      rootSteps, List.foldl_append]

def parentsAfter (userId : String) (store : FolderStore) (requests : List FoldersRequest) : Hierarchy String :=
  (requests.foldl (FoldersRequest.run userId) store).folders.parents userId

/-- Requests, raising or not, move no other folders to the root; once their loops have come to all without their parent
and to one of each cycle, the links are repaired, and further requests change none. -/
theorem folders_repaired_by_requests (userId : String) (store : FolderStore) (requests later : List FoldersRequest)
    (hlists : ∀ r ∈ requests ++ later, ∀ folders : FolderTable, folders.Lists userId (r.listing folders))
    (before after : Hierarchy String) (hbefore : store.folders.parents userId = before)
    (hafter : parentsAfter userId store requests = after) :
    (∀ id, after id = before id ∨ after id = some none ∧ (Dangling before id ∨ OnCycle (parentLink before) id)) ∧
      (Repaired before after ↔ (∀ id, Dangling before id → id ∈ reachedBy userId requests store) ∧
        ∀ id, OnCycle (parentLink before) id →
          ∃ id' ∈ reachedBy userId requests store, Reaches (parentLink before) id id') ∧
      (Repaired before after → parentsAfter userId store (requests ++ later) = after) := by
  have hrooted : Rooted (reachedBy userId requests store) before after := by
    rw [← hafter, ← hbefore, parentsAfter, parents_foldl_run fun r hr => hlists r (List.mem_append_left _ hr)]
    exact rooted_rootSteps _ _
  refine ⟨fun id => (hrooted.keeps id).imp_right fun h => ⟨h.1, h.2.2⟩, hrooted.repaired_iff, fun hrepaired => ?_⟩
  have hunder : ∀ x y, parentLink after x = some y →
      Hierarchy.Under (fun id => (after id).map fun parentId => parentId.filter (· ≠ "")) x y := by
    intro x y hlink
    rw [parentLink, Option.filter_eq_some_iff, Option.join_eq_some_iff] at hlink
    rw [Hierarchy.Under, hlink.1, Option.map_some, Option.filter_some, if_pos hlink.2]
  funext id
  rw [parentsAfter, List.foldl_append, parents_foldl_run fun r hr => hlists r (List.mem_append_right _ hr),
    ← parentsAfter, hafter]
  -- a forest has neither a folder without its parent nor a cycle
  refine ((rooted_rootSteps _ _).keeps id).resolve_right ?_
  rintro ⟨-, -, ⟨parentId, hlink, hnone⟩ | hon⟩
  · have hsome := hrepaired.forest.resolved _ _ (hunder _ _ hlink)
    rw [Option.isSome_map, hnone] at hsome
    cases hsome
  · exact hrepaired.forest.acyclic id (Relation.TransGen.mono hunder _ _ hon)

def plainRequest : FoldersRequest :=
  ⟨fun _ => some [], 1, fun folders => folders.rows.entries.filter fun entry => entry.2.userId = "u"⟩

theorem folders_repaired_by_requests_circle : parentsAfter "u" ⟨circle, .empty⟩ [plainRequest] "a" = some none ∧
      (Dangling (circle.parents "u") "a" ∨ OnCycle (parentLink (circle.parents "u")) "a") := by
  have hlists : ∀ r ∈ [plainRequest] ++ [], ∀ folders : FolderTable, folders.Lists "u" (r.listing folders) := by
    simp [FolderTable.Lists, plainRequest]
  have hroot : parentsAfter "u" ⟨circle, .empty⟩ [plainRequest] "a" = some none := by decide
  refine ⟨hroot, ?_⟩
  rcases (folders_repaired_by_requests "u" ⟨circle, .empty⟩ [plainRequest] [] hlists _ _ rfl rfl).1 "a" with
    hsame | ⟨-, hneeds⟩
  · rw [hroot] at hsame
    exact absurd hsame (by decide)
  · exact hneeds

end Repairs

end RyanAI.Access
