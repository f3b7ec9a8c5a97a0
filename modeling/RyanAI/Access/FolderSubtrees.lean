import RyanAI.Access.SharedFolders
import RyanAI.Lib.Worklist

/-!
# The folders below a folder

`models/folders.py` goes through the folders below a folder in three ways: with a stack
(`get_folder_ids_by_id_and_user_id_in_subtree`), by recursion (`get_children_folders_by_id_and_user_id`), and by
recursion while it deletes rows (`delete_folder_by_id_and_user_id`). All three come back with the same folders, each of
them once, whatever the parent links are, as long as the folders are not nested deeper than the calls may be
(`subtrees_agree_iff`): a row that is missing from a later query has been seen.
-/

namespace RyanAI.Access

open Lib Lib.DepthFirst

namespace FolderTable

variable (folders : FolderTable)

/-- `get_folder_by_id_and_user_id`. -/
def getFolderByIdAndUserId (id userId : String) : Option Folder :=
  (folders.rows.get id).filter fun row => row.userId = userId

/-- `get_folder_ids_by_id_and_user_id_in_subtree`; `none` if the rounds are used up. -/
def getFolderIdsByIdAndUserIdInSubtree (rounds : ℕ) (id userId : String) : Option (List String) :=
  match folders.getFolderByIdAndUserId id userId with
  | none => some []
  | some row =>
    Worklist.search (fun parentId => folders.getFoldersByParentIdAndUserId parentId userId) Prod.fst rounds
      ⟨[id], [(id, row)]⟩

/-- `db.delete` and `db.commit`; `none` is the exception that there is no row. -/
def deleteRow (id : String) : Option FolderTable :=
  if (folders.rows.get id).isSome then
    some
      { rows := folders.rows.delete id
        ids := by
          intro id' hid'
          rw [KeyedTable.get_delete] at hid'
          split at hid'
          · cases hid'
          · exact folders.ids id' hid' }
  else none

end FolderTable

/-- The variables of `delete_folder_by_id_and_user_id`, with the table. -/
structure Deletion where
  folders : FolderTable
  seenIds : List String
  folderIds : List String

/-- The end of one turn of the loop in `delete_children`. An exception leaves the table as it is then. -/
def Deletion.delete (d : Deletion) (id : String) : Except FolderTable Deletion :=
  let d := { d with folderIds := d.folderIds ++ [id] }
  match d.folders.deleteRow id with
  | some folders => .ok { d with folders := folders }
  | none => .error d.folders

/-- `delete_children`, with so many nested calls that the interpreter still allows. The children are read before the
loop. -/
def deleteChildren (userId : String) : ℕ → String → Deletion → Except FolderTable Deletion
  | 0, _, d => .error d.folders
  | n + 1, id, d =>
    (d.folders.getFoldersByParentIdAndUserId id userId).foldlM
      (fun d child =>
        if child.1 ∈ d.seenIds then .ok d
        else do
          let d ← deleteChildren userId n child.1 { d with seenIds := child.1 :: d.seenIds }
          d.delete child.1)
      d

/-- `delete_folder_by_id_and_user_id`: the ids and the table afterwards. Every exception is caught. -/
def deleteFolderByIdAndUserId (limit : ℕ) (folders : FolderTable) (id userId : String) : List String × FolderTable :=
  match folders.getFolderByIdAndUserId id userId with
  | none => ([], folders)
  | some _ =>
    match deleteChildren userId limit id ⟨folders, [id], [id]⟩ with
    | .ok d =>
      match d.folders.deleteRow id with
      | some folders => (d.folderIds, folders)
      | none => ([], d.folders)
    | .error folders => ([], folders)

/-! ## Child links -/

variable {folders : FolderTable} {id top userId : String}

/-- `id` is `top`, or is reached from it by links from a folder of the user to its parent. -/
def FolderTable.Below (folders : FolderTable) (userId : String) : String → String → Prop :=
  Relation.ReflTransGen fun a b => ∃ row, folders.rows.get b = some row ∧ row.parentId = some a ∧ row.userId = userId

/-- The ids that the query for the children of a folder finds. -/
def FolderTable.childIds (folders : FolderTable) (userId id : String) : List String :=
  (folders.getFoldersByParentIdAndUserId id userId).map Prod.fst

theorem mem_childIds : child ∈ folders.childIds userId id ↔
      ∃ row, folders.rows.get child = some row ∧ row.parentId = some id ∧ row.userId = userId := by
  rw [FolderTable.childIds, List.mem_map]
  constructor
  · rintro ⟨⟨child, row⟩, hmem, rfl⟩
    exact ⟨row, FolderTable.mem_getFoldersByParentIdAndUserId.1 hmem⟩
  · rintro ⟨row, hrow⟩
    exact ⟨(child, row), FolderTable.mem_getFoldersByParentIdAndUserId.2 hrow, rfl⟩

theorem leads_childIds_iff (a b : String) :
    Leads (folders.childIds userId) (fun child => child) a b ↔ folders.ownParent userId b = some a := by
  rw [FolderTable.ownParent_eq_some, ← mem_childIds]
  constructor
  · rintro ⟨_, hmem, rfl⟩
    exact hmem
  · intro hmem
    exact ⟨b, hmem, rfl⟩

/-- What leads to the folders below is what `Below` follows. -/
theorem below_eq {β : Type} {next : String → List β} {key : β → String}
    (hleads : ∀ a b, Leads next key a b ↔ folders.ownParent userId b = some a) :
    folders.Below userId = Relation.ReflTransGen (Leads next key) := by
  rw [FolderTable.Below]
  congr 1
  funext a b
  exact propext (FolderTable.ownParent_eq_some.symm.trans (hleads a b).symm)

/-- A row below a row has its key in the table. -/
theorem key_mem_keys (x : String) (row : String × Folder)
    (hrow : row ∈ folders.getFoldersByParentIdAndUserId x userId) : row.1 ∈ folders.rows.keys := by
  rw [KeyedTable.mem_keys, (FolderTable.mem_getFoldersByParentIdAndUserId.1 hrow).1]
  rfl

/-! ## The search and the recursion -/

theorem getFolderByIdAndUserId_of_owner (hrow : folders.rows.get id = some row) (howner : row.userId = userId) :
    folders.getFolderByIdAndUserId id userId = some row := by
  rw [FolderTable.getFolderByIdAndUserId, hrow, Option.filter_some, if_pos (decide_eq_true howner)]

theorem getFolderIds_spec (hrow : folders.rows.get top = some row) (howner : row.userId = userId) {n : ℕ}
    (hn : folders.rows.keys.length + 1 < n) :
    ∃ ids, folders.getFolderIdsByIdAndUserIdInSubtree n top userId = some ids ∧ ids.Nodup ∧
      ∀ id, id ∈ ids ↔ folders.Below userId top id := by
  have hkeys : ∀ x, ∀ child ∈ folders.getFoldersByParentIdAndUserId x userId, child.1 ∈ folders.rows.keys :=
    key_mem_keys
  obtain ⟨ids, hids, hnodup, hmem⟩ := Worklist.search_spec hkeys (top, row) hn
  refine ⟨ids, ?_, hnodup, ?_⟩
  · rw [FolderTable.getFolderIdsByIdAndUserIdInSubtree, getFolderByIdAndUserId_of_owner hrow howner]
    exact hids
  · intro id
    rw [hmem, below_eq fun _ _ => FolderTable.leads_iff]

/-- What the recursion finds, if it comes through. -/
theorem getChildren_spec (hrow : folders.rows.get top = some row) (howner : row.userId = userId)
    (hfits : folders.Fits userId top limit) :
    ∃ children, folders.getChildrenFoldersByIdAndUserId limit top userId = some children ∧
      (top :: children.map Prod.fst).Nodup ∧
        ∀ id, id ∈ top :: children.map Prod.fst ↔ folders.Below userId top id := by
  have hfound : (folders.rows.get top).any (fun r => r.userId = userId) = true := by
    rw [hrow]
    simpa using howner
  obtain ⟨s, hs⟩ := FolderTable.exists_visit_iff.2 hfits
  obtain ⟨_, -, h⟩ := traversal_visit hs
  have hkey : ∀ x y, ∀ r ∈ folders.getFoldersByParentIdAndUserId x userId,
      ∀ r' ∈ folders.getFoldersByParentIdAndUserId y userId, r.1 = r'.1 → r = r' := by
    rintro x y ⟨id₁, row₁⟩ h₁ ⟨id₂, row₂⟩ h₂ hkeys
    subst hkeys
    have hrow₁ := (FolderTable.mem_getFoldersByParentIdAndUserId.1 h₁).1
    rw [(FolderTable.mem_getFoldersByParentIdAndUserId.1 h₂).1, Option.some.injEq] at hrow₁
    rw [hrow₁]
  obtain ⟨new, hnew, hnodup, hunseen⟩ := h.new
  rw [List.nil_append] at hnew
  refine ⟨s.found, ?_, ?_, ?_⟩
  · rw [FolderTable.getChildrenFoldersByIdAndUserId, if_pos hfound, hs, Option.map_some]
  · rw [List.nodup_cons, hnew]
    refine ⟨?_, hnodup⟩
    intro hmem
    obtain ⟨r, hr, heq⟩ := List.mem_map.1 hmem
    exact (hunseen r hr).1 (by rw [heq]; exact List.mem_singleton_self top)
  intro id
  rw [List.mem_cons, List.mem_map, below_eq fun _ _ => FolderTable.leads_iff]
  constructor
  · rintro (rfl | ⟨r, hr, rfl⟩)
    · exact .refl
    · obtain ⟨-, c, hreach, hc⟩ := (mem_found_iff hs hkey).1 hr
      exact hreach.tail ⟨r, hc, rfl⟩
  · intro hbelow
    by_cases hid : id = top
    · exact .inl hid
    rcases Relation.ReflTransGen.cases_tail hbelow with heq | ⟨c, hc, r, hr, rfl⟩
    · exact absurd heq hid
    · exact .inr ⟨r, (mem_found_iff hs hkey).2 ⟨hid, c, hc, hr⟩, rfl⟩

theorem fits_of_getChildren (hrow : folders.rows.get top = some row) (howner : row.userId = userId)
    (h : folders.getChildrenFoldersByIdAndUserId limit top userId = some children) : folders.Fits userId top limit := by
  have hfound : (folders.rows.get top).any (fun r => r.userId = userId) = true := by
    rw [hrow]
    simpa using howner
  rw [FolderTable.getChildrenFoldersByIdAndUserId, if_pos hfound] at h
  obtain ⟨s, hs, -⟩ := Option.map_eq_some_iff.1 h
  exact FolderTable.exists_visit_iff.1 ⟨s, hs⟩

/-! ## The deletion -/

section Deletion

variable {top userId : String} {folders : FolderTable} {d : Deletion}

def Deletion.state (d : Deletion) : State String String := ⟨d.seenIds, d.folderIds⟩

/-- The deletion of `top` has deleted what it has listed, apart from `top` itself, and nothing else. -/
structure Deletion.Holds (folders : FolderTable) (top : String) (d : Deletion) : Prop where
  top_seen : top ∈ d.seenIds
  seen : ∀ id ∈ d.folderIds, id ∈ d.seenIds
  rows : ∀ id, d.folders.rows.get id = if id ∈ d.folderIds ∧ id ≠ top then none else folders.rows.get id

/-- A child that a query no longer finds has been seen. -/
theorem Deletion.Holds.mem_childIds_or_seen (h : d.Holds folders top) (hchild : child ∈ folders.childIds userId id) :
    child ∈ d.folders.childIds userId id ∨ child ∈ d.seenIds := by
  obtain ⟨row, hrow, hlink⟩ := mem_childIds.1 hchild
  by_cases hdeleted : child ∈ d.folderIds ∧ child ≠ top
  · exact .inr (h.seen child hdeleted.1)
  · refine .inl (mem_childIds.2 ⟨row, ?_, hlink⟩)
    rw [h.rows, if_neg hdeleted, hrow]

/-- Deleting a child whose subtree has been gone through. -/
theorem Deletion.Holds.delete (h : d.Holds folders top) (hseen : child ∈ d.seenIds) (hnot : child ∉ d.folderIds)
    (hne : child ≠ top) (hchild : folders.rows.get child = some row) :
    ∃ d', d.delete child = .ok d' ∧ d'.Holds folders top ∧ d'.state = ⟨d.seenIds, d.folderIds ++ [child]⟩ := by
  have hsome : (d.folders.rows.get child).isSome = true := by
    rw [h.rows, if_neg (fun hdeleted => hnot hdeleted.1), hchild]
    rfl
  rw [Deletion.delete]
  simp only [FolderTable.deleteRow, if_pos hsome]
  refine ⟨_, rfl, ⟨h.top_seen, ?_, ?_⟩, rfl⟩
  · intro id hid
    rcases List.mem_append.1 hid with hid | hid
    · exact h.seen id hid
    · rw [List.mem_singleton.1 hid]
      exact hseen
  · intro id
    simp only [KeyedTable.get_delete, h.rows]
    by_cases hid : id = child
    · subst hid
      simp [hne]
    · simp [hid]

/-- The recursion goes through what is below the folder, or is about to enter a folder `n` levels below. -/
theorem deleteChildren_spec (n k : ℕ) (id : String) (d : Deletion) (h : d.Holds folders top)
    (hk : Chain.ArrivesAfter (folders.ownParent userId) top k id) :
    (∃ m d', n = m + 1 ∧ deleteChildren userId n id d = .ok d' ∧ d'.Holds folders top ∧
      Traversal (folders.childIds userId) (fun child => child) m id (d.folders.childIds userId id) d.state d'.state) ∨
    (∃ folders', deleteChildren userId n id d = .error folders') ∧
      ∃ x, Chain.ArrivesAfter (folders.ownParent userId) top (k + n) x := by
  induction n generalizing k id d with
  | zero => exact .inr ⟨⟨_, rfl⟩, id, hk⟩
  | succ n ih =>
    -- the loop over rows of the original table that a query has found
    have hloop : ∀ (rows : List (String × Folder)), (∀ row ∈ rows, row.1 ∈ folders.childIds userId id) →
        ∀ d : Deletion, d.Holds folders top →
        (∃ d', rows.foldlM
          (fun d child =>
            if child.1 ∈ d.seenIds then .ok d
            else do
              let d ← deleteChildren userId n child.1 { d with seenIds := child.1 :: d.seenIds }
              d.delete child.1) d = .ok d' ∧ d'.Holds folders top ∧
          Traversal (folders.childIds userId) (fun child => child) n id (rows.map Prod.fst) d.state d'.state) ∨
        (∃ folders', rows.foldlM
          (fun d child =>
            if child.1 ∈ d.seenIds then .ok d
            else do
              let d ← deleteChildren userId n child.1 { d with seenIds := child.1 :: d.seenIds }
              d.delete child.1) d = .error folders') ∧
          ∃ x, Chain.ArrivesAfter (folders.ownParent userId) top (k + (n + 1)) x := by
      intro rows
      induction rows with
      | nil => exact fun _ d h => .inl ⟨d, rfl, h, .nil⟩
      | cons row rest ihrest =>
        intro hrows d h
        have hchild := hrows row List.mem_cons_self
        have hrest : ∀ r ∈ rest, r.1 ∈ folders.childIds userId id := fun r hr => hrows r (List.mem_cons_of_mem _ hr)
        rw [List.foldlM_cons]
        by_cases hseen : row.1 ∈ d.seenIds
        · rw [if_pos hseen]
          rcases ihrest hrest d h with ⟨d', hd', hholds, htraversal⟩ | hraised
          · exact .inl ⟨d', hd', hholds, .skip hseen htraversal⟩
          · exact .inr hraised
        rw [if_neg hseen]
        -- the rows below the child
        have hentered : Deletion.Holds folders top { d with seenIds := row.1 :: d.seenIds } :=
          ⟨List.mem_cons_of_mem _ h.top_seen, fun x hx => List.mem_cons_of_mem _ (h.seen x hx), h.rows⟩
        have hne : row.1 ≠ top := by
          rintro heq
          exact hseen (heq ▸ h.top_seen)
        have hdeeper := FolderTable.arrivesAfter_succ leads_childIds_iff k id row.1 hchild hne hk
        rcases ih (k + 1) row.1 _ hentered hdeeper with
          ⟨m, d₁, rfl, hd₁, hholds₁, hbelow⟩ | ⟨⟨folders', hraised⟩, x, hx⟩
        · have hself : row.1 ∈ d₁.seenIds := hbelow.visited.seen List.mem_cons_self
          obtain ⟨new, hnew, -, hunseen⟩ := hbelow.new
          have hnot : row.1 ∉ d₁.folderIds := by
            intro hmem
            have hmem' : row.1 ∈ d.folderIds ++ new := hnew ▸ hmem
            rcases List.mem_append.1 hmem' with hold | hold
            · exact hseen (h.seen _ hold)
            · exact (hunseen _ hold).1 List.mem_cons_self
          obtain ⟨childRow, hget, -⟩ := mem_childIds.1 hchild
          obtain ⟨d₂, hd₂, hholds₂, hstate⟩ := hholds₁.delete hself hnot hne hget
          rw [hd₁, ok_bind, hd₂]
          rcases ihrest hrest d₂ hholds₂ with ⟨d', hd', hholds', hafter⟩ | hraised
          · refine .inl ⟨d', hd', hholds', .enter hchild hseen hbelow ?_ (hstate ▸ hafter)⟩
            intro r hr
            rcases hentered.mem_childIds_or_seen hr with hin | hin
            · exact .inl hin
            · exact .inr (hbelow.visited.seen hin)
          · exact .inr hraised
        · rw [hraised]
          exact .inr ⟨⟨folders', rfl⟩, x, by rwa [show k + (n + 1) = k + 1 + n by omega]⟩
    rw [deleteChildren]
    have hrows : ∀ row ∈ d.folders.getFoldersByParentIdAndUserId id userId, row.1 ∈ folders.childIds userId id := by
      rintro ⟨child, row⟩ hmem
      obtain ⟨hrow, hlink⟩ := FolderTable.mem_getFoldersByParentIdAndUserId.1 hmem
      rw [h.rows] at hrow
      split at hrow
      · cases hrow
      · exact mem_childIds.2 ⟨row, hrow, hlink⟩
    rcases hloop _ hrows d h with ⟨d', hd', hholds, htraversal⟩ | hraised
    · exact .inl ⟨n, d', rfl, hd', hholds, htraversal⟩
    · exact .inr hraised

theorem holds_start (folders : FolderTable) (top : String) : Deletion.Holds folders top ⟨folders, [top], [top]⟩ := by
  refine ⟨List.mem_singleton_self top, fun id hid => hid, ?_⟩
  intro id
  rw [if_neg]
  rintro ⟨hmem, hne⟩
  exact hne (List.mem_singleton.1 hmem)

end Deletion

/-- An answer with ids is the answer of a recursion that came through. -/
theorem fits_of_deleteFolder (hrow : folders.rows.get top = some row) (howner : row.userId = userId)
    (h : (deleteFolderByIdAndUserId limit folders top userId).1 ≠ []) : folders.Fits userId top limit := by
  rw [deleteFolderByIdAndUserId, getFolderByIdAndUserId_of_owner hrow howner] at h
  rcases deleteChildren_spec limit 0 top _ (holds_start folders top) rfl with
    ⟨m, d, rfl, -, -, htraversal⟩ | ⟨⟨folders', hraised⟩, -⟩
  · exact FolderTable.fits_of_traversal leads_childIds_iff htraversal rfl
  · rw [hraised] at h
    exact absurd rfl h

theorem deleteFolder_spec (hrow : folders.rows.get top = some row) (howner : row.userId = userId)
    (hfits : folders.Fits userId top limit) :
    ∃ ids folders', deleteFolderByIdAndUserId limit folders top userId = (ids, folders') ∧ ids.Nodup ∧
      (∀ id, id ∈ ids ↔ folders.Below userId top id) ∧
      ∀ id, folders'.rows.get id = if id ∈ ids then none else folders.rows.get id := by
  obtain ⟨_, d, -, hd, hholds, htraversal⟩ := (deleteChildren_spec limit 0 top _ (holds_start folders top) rfl).resolve_right
    (by
      rintro ⟨-, x, hx⟩
      have hlt := hfits _ x hx
      omega)
  have htop : d.folders.rows.get top = some row := by
    rw [hholds.rows, if_neg (fun h => h.2 rfl), hrow]
  have hmem : ∀ id, id ∈ d.folderIds ↔ folders.Below userId top id := by
    intro id
    have hiff := htraversal.mem_found_iff id rfl (fun x hx => List.mem_singleton.1 hx)
      (fun _ _ _ _ _ _ heq => heq)
    rw [below_eq leads_childIds_iff]
    constructor
    · intro hid
      rcases hiff.1 hid with hin | ⟨-, c, hreach, hc⟩
      · rw [List.mem_singleton.1 hin]
      · exact hreach.tail ⟨id, hc, rfl⟩
    · intro hbelow
      by_cases hid : id = top
      · exact hiff.2 (.inl (by rw [hid]; exact List.mem_singleton_self top))
      rcases Relation.ReflTransGen.cases_tail hbelow with heq | ⟨c, hreach, _, hc, rfl⟩
      · exact absurd heq hid
      · exact hiff.2 (.inr ⟨hid, c, hreach, hc⟩)
  obtain ⟨new, hnew, hnodup, hunseen⟩ := htraversal.new
  rw [deleteFolderByIdAndUserId, getFolderByIdAndUserId_of_owner hrow howner, hd]
  simp only [FolderTable.deleteRow, htop, Option.isSome_some, if_true]
  refine ⟨d.folderIds, _, rfl, ?_, hmem, ?_⟩
  · have hids : d.folderIds = top :: new := hnew
    rw [hids, List.nodup_cons]
    refine ⟨fun hin => (hunseen top hin).1 (List.mem_singleton_self top), ?_⟩
    simpa using hnodup
  · intro id
    rw [KeyedTable.get_delete, hholds.rows]
    by_cases hid : id = top
    · subst hid
      rw [if_pos rfl, if_pos ((hmem id).2 .refl)]
    · rw [if_neg hid]
      simp [hid]

/-! ## The three agree -/

/-- All three traversals find the folders that the folder reaches by child links, each of them once, and the deletion
deletes these and no other, exactly if no folder is too deep below it for either recursion. The stack comes to an end in
any number of rounds above the number of folders. -/
theorem subtrees_agree_iff (folders : FolderTable) (top userId : String) (row : Folder)
    (hrow : folders.rows.get top = some row) (howner : row.userId = userId) (rounds : ℕ)
    (hrounds : folders.rows.keys.length + 1 < rounds) (childrenLimit deletionLimit : ℕ) :
    (∃ ids children deleted folders',
      folders.getFolderIdsByIdAndUserIdInSubtree rounds top userId = some ids ∧
      folders.getChildrenFoldersByIdAndUserId childrenLimit top userId = some children ∧
      deleteFolderByIdAndUserId deletionLimit folders top userId = (deleted, folders') ∧
      ids.Nodup ∧ (top :: children.map Prod.fst).Nodup ∧ deleted.Nodup ∧
      (∀ id, id ∈ ids ↔ folders.Below userId top id) ∧
      (∀ id, id ∈ top :: children.map Prod.fst ↔ folders.Below userId top id) ∧
      (∀ id, id ∈ deleted ↔ folders.Below userId top id) ∧
      ∀ id, folders'.rows.get id = if id ∈ deleted then none else folders.rows.get id) ↔
    folders.Fits userId top childrenLimit ∧ folders.Fits userId top deletionLimit := by
  constructor
  · rintro ⟨ids, children, deleted, folders', -, hchildren, hdeleted, -, -, -, -, -, hmem, -⟩
    refine ⟨fits_of_getChildren hrow howner hchildren, fits_of_deleteFolder hrow howner ?_⟩
    rw [hdeleted]
    exact List.ne_nil_of_mem ((hmem top).2 .refl)
  · rintro ⟨hchildrenFit, hdeletionFits⟩
    obtain ⟨ids, hids, hidsNodup, hidsMem⟩ := getFolderIds_spec hrow howner hrounds
    obtain ⟨children, hchildren, hchildrenNodup, hchildrenMem⟩ := getChildren_spec hrow howner hchildrenFit
    obtain ⟨deleted, folders', hdeleted, hdeletedNodup, hdeletedMem, hrows⟩ :=
      deleteFolder_spec hrow howner hdeletionFits
    exact ⟨ids, children, deleted, folders', hids, hchildren, hdeleted, hidsNodup, hchildrenNodup, hdeletedNodup,
      hidsMem, hchildrenMem, hdeletedMem, hrows⟩

/-- Two folders that are the parents of each other, and one that hangs below them. -/
def circle : FolderTable where
  rows := ((KeyedTable.empty.set "a" ⟨some "b", "u", "A", 0⟩).set "b" ⟨some "a", "u", "B", 0⟩).set "c"
    ⟨some "b", "u", "C", 0⟩
  ids := by
    rintro id hsome rfl
    exact absurd hsome (by decide)

theorem get_circle (h : circle.rows.get id = some row) :
    id = "a" ∧ row.parentId = some "b" ∨ (id = "b" ∧ row.parentId = some "a") ∨ id = "c" ∧ row.parentId = some "b" := by
  simp only [circle, KeyedTable.get_set, KeyedTable.get_empty] at h
  split at h
  · cases h
    exact .inr (.inr ⟨‹_›, rfl⟩)
  · split at h
    · cases h
      exact .inr (.inl ⟨‹_›, rfl⟩)
    · split at h
      · cases h
        exact .inl ⟨‹_›, rfl⟩
      · cases h

theorem subtrees_agree_iff_circle : ∃ ids deleted folders',
    circle.getFolderIdsByIdAndUserIdInSubtree 5 "a" "u" = some ids ∧
      deleteFolderByIdAndUserId 3 circle "a" "u" = (deleted, folders') ∧ ∀ id, id ∈ ids ↔ id ∈ deleted := by
  have hfits : circle.Fits "u" "a" 3 := by
    intro n id hn
    match n, hn with
    | 0, _ => decide
    | 1, _ => decide
    | 2, _ => decide
    | n + 3, ⟨hne, b, hb, hne', c, hc, hne'', _⟩ =>
      -- no folder is more than two levels below
      obtain ⟨row, hrow, hparent, -⟩ := FolderTable.ownParent_eq_some.1 hb
      obtain ⟨row', hrow', hparent', -⟩ := FolderTable.ownParent_eq_some.1 hc
      rcases get_circle hrow with ⟨rfl, -⟩ | ⟨-, hrow⟩ | ⟨-, hrow⟩
      · exact absurd rfl hne
      · rw [hparent] at hrow
        cases hrow
        exact absurd rfl hne'
      · rw [hparent] at hrow
        cases hrow
        rcases get_circle hrow' with ⟨hb, -⟩ | ⟨-, hrow'⟩ | ⟨hb, -⟩
        · exact absurd hb (by decide)
        · rw [hparent'] at hrow'
          cases hrow'
          exact absurd rfl hne''
        · exact absurd hb (by decide)
  obtain ⟨ids, _, deleted, folders', hids, -, hdeleted, -, -, -, hmem, -, hmem', -⟩ :=
    (subtrees_agree_iff circle "a" "u" ⟨some "b", "u", "A", 0⟩ rfl rfl 5 (by decide) 3 3).2 ⟨hfits, hfits⟩
  exact ⟨ids, deleted, folders', hids, hdeleted, fun id => (hmem id).trans (hmem' id).symm⟩

/-- Of 1001 nested folders the stack finds all, and neither recursion any. -/
theorem recursions_stop :
    (∃ rounds ids, (nestedFolders 1000).getFolderIdsByIdAndUserIdInSubtree rounds (Nesting.key 0) "o" = some ids ∧
        ∀ n ≤ 1000, Nesting.key n ∈ ids) ∧
      (nestedFolders 1000).getChildrenFoldersByIdAndUserId 1000 (Nesting.key 0) "o" = none ∧
      (deleteFolderByIdAndUserId 1000 (nestedFolders 1000) (Nesting.key 0) "o").1 = [] := by
  have hrow : (nestedFolders 1000).rows.get (Nesting.key 0) = some ⟨none, "o", "Folder", 0⟩ :=
    Nesting.get_nest.2 ⟨0, by decide, rfl, rfl⟩
  refine ⟨?_, ?_, ?_⟩
  · obtain ⟨ids, hids, -, hmem⟩ := getFolderIds_spec hrow rfl (Nat.lt_succ_self _)
    refine ⟨_, ids, hids, fun n hn => (hmem _).2 ?_⟩
    induction n with
    | zero => exact .refl
    | succ n ih =>
      exact (ih (by omega)).tail ⟨_, Nesting.get_nest.2 ⟨n + 1, hn, rfl, rfl⟩, rfl, rfl⟩
  · by_contra hsome
    obtain ⟨children, hchildren⟩ := Option.ne_none_iff_exists'.1 hsome
    exact not_fits_nestedFolders 1000 (fits_of_getChildren hrow rfl hchildren)
  · by_contra hids
    exact not_fits_nestedFolders 1000 (fits_of_deleteFolder hrow rfl hids)

end RyanAI.Access
