import RyanAI.Access.AccessGrants
import RyanAI.Lib.DepthFirst
import RyanAI.Lib.Nesting
import RyanAI.Lib.Walk

/-!
# Shared folders

`get_shared_folders` of `routers/folders.py` pushes the grants of a user down: every folder with a grant is listed, and
with it all that is below. `has_folder_access` of `utils/access_control/folders.py` goes up from a folder and looks for
a grant on the way. For a folder of somebody else the two give one answer, also where the parent links dangle or go
round in circles, unless the grant comes from a folder with too much below it for the recursion that collects it
(`listing_agrees_iff`): its exception is taken for no children.
-/

namespace RyanAI.Access

open Lib

/-! ## The tables -/

/-- A row of `folder`; its `id` is the key. -/
structure Folder where
  parentId : Option String
  userId : String
  name : String
  updatedAt : ℕ
  deriving DecidableEq

/-- The table of the folders. The ids are made by `uuid4`. -/
structure FolderTable where
  rows : KeyedTable String Folder
  ids : ∀ id, (rows.get id).isSome → id ≠ ""

namespace FolderTable

variable (folders : FolderTable)

/-- `get_folder_by_id`. -/
def getFolderById (id : String) : Option (String × Folder) := (folders.rows.get id).map fun row => (id, row)

def select (p : String → Folder → Bool) : List (String × Folder) :=
  (folders.rows.filter p).entries.mergeSort fun a b => decide (b.2.updatedAt ≤ a.2.updatedAt)

def getFoldersByIds (ids : List String) : List (String × Folder) := folders.select fun id _ => decide (id ∈ ids)

def getFoldersByParentIdAndUserId (parentId userId : String) : List (String × Folder) :=
  folders.select fun _ row => decide (row.parentId = some parentId ∧ row.userId = userId)

def rounds : ℕ := folders.rows.keys.length + 1

/-- `get_children_folders_by_id_and_user_id`. The interpreter lets `limit` calls of `get_children` be nested; the
exception of one more is caught. -/
def getChildrenFoldersByIdAndUserId (limit : ℕ) (id userId : String) : Option (List (String × Folder)) :=
  if (folders.rows.get id).any fun row => row.userId = userId then
    (DepthFirst.visit (fun parentId => folders.getFoldersByParentIdAndUserId parentId userId) Prod.fst limit id
      ⟨[id], []⟩).map DepthFirst.State.found
  else none

end FolderTable

/-- The loop of `has_folder_access`. -/
def folderAccessLoop (t : Tables) (folders : FolderTable) (userId permission : String) :
    ℕ → List String → Option (String × Folder) → Bool
  | 0, _, _ => false
  | _ + 1, _, none => false
  | n + 1, seen, some (id, folder) =>
    if id ∈ seen then false
    else if folder.userId = userId then true
    else if hasAccess t userId "folder" id permission none then true
    else folderAccessLoop t folders userId permission n (id :: seen)
      ((folder.parentId.filter (· ≠ "")).bind folders.getFolderById)

/-- `has_folder_access`. -/
def hasFolderAccess (t : Tables) (folders : FolderTable) (userId : String) (folder : String × Folder)
    (permission : String) : Bool :=
  folderAccessLoop t folders userId permission folders.rounds [] (some folder)

def sharedGrants (t : Tables) (folders : FolderTable) (userId : String) (userGroupIds : List String) :
    List AccessGrant :=
  let own : AccessGrant → Bool := fun grant => (folders.rows.get grant.resourceId).any fun row => row.userId = userId
  t.grants.filter fun grant =>
    grant.resourceType = "folder" && (own :: grantConditions userId userGroupIds).any (· grant)

/-- `get_shared_folder_ids_for_user`: the highest permission for each folder. -/
def getSharedFolderIdsForUser (t : Tables) (folders : FolderTable) (userId : String) (userGroupIds : List String) :
    OrderedMap String String :=
  (sharedGrants t folders userId userGroupIds).foldl
    (fun perms grant =>
      if OrderedMap.get grant.resourceId perms ≠ some "write" then
        OrderedMap.set grant.resourceId grant.permission perms
      else perms)
    []

structure SharedFolder where
  folder : Folder
  ownerName : String
  permission : String
  deriving DecidableEq

def shareChild (ownerNames : KeyedTable String String) (results : OrderedMap String SharedFolder)
    (offer : (String × Folder) × String) : OrderedMap String SharedFolder :=
  match OrderedMap.get offer.1.1 results with
  | some row =>
    if offer.2 = "write" then OrderedMap.set offer.1.1 { row with permission := "write" } results else results
  | none =>
    OrderedMap.set offer.1.1 ⟨offer.1.2, (ownerNames.get offer.1.2.userId).getD "Unknown", offer.2⟩ results

/-- What the children of a shared folder are listed as. -/
def offers (folders : FolderTable) (limit : ℕ) (userId : String) (perms : OrderedMap String String)
    (folder : String × Folder) : List ((String × Folder) × String) :=
  ((folders.getChildrenFoldersByIdAndUserId limit folder.1 folder.2.userId).getD []).map fun child =>
    (child, if folder.2.userId = userId ∨ child.2.userId = userId then "write"
      else (OrderedMap.get folder.1 perms).getD "")

/-- `get_shared_folders`; `names` are those of the users. -/
def getSharedFolders (t : Tables) (folders : FolderTable) (names : KeyedTable String String) (limit : ℕ)
    (userId : String) : OrderedMap String SharedFolder :=
  let groupIds := (getGroupsByMemberId t userId true).map Prod.fst
  let perms := getSharedFolderIdsForUser t folders userId groupIds
  let sharedFolders := folders.getFoldersByIds (OrderedMap.keys perms)
  let ownerNames := names.filter fun id _ => decide (id ∈ sharedFolders.map fun folder => folder.2.userId)
  let results := sharedFolders.map fun folder =>
    (folder.1, ⟨folder.2, (ownerNames.get folder.2.userId).getD "Unknown",
      if folder.2.userId = userId then "write" else (OrderedMap.get folder.1 perms).getD ""⟩)
  sharedFolders.foldl
    (fun results folder => (offers folders limit userId perms folder).foldl (shareChild ownerNames) results) results

/-! ## Parents and children -/

variable {id : String} {row : Folder}

namespace FolderTable

variable {folders : FolderTable}

def parentOf (folders : FolderTable) (id : String) : Option String :=
  (folders.rows.get id).bind fun row => (row.parentId.filter (· ≠ "")).bind fun parentId =>
    (folders.rows.get parentId).map fun _ => parentId

/-- `top` is the folder or above it. -/
def Reaches (folders : FolderTable) : String → String → Prop :=
  Relation.ReflTransGen fun a b => folders.parentOf a = some b

/-- The parent of a folder of the user. -/
def ownParent (folders : FolderTable) (userId id : String) : Option String :=
  ((folders.rows.get id).filter fun row => row.userId = userId).bind Folder.parentId

/-- No folder of the user is `limit` levels or more below `top`. -/
def Fits (folders : FolderTable) (userId top : String) (limit : ℕ) : Prop :=
  ∀ n id, Chain.ArrivesAfter (folders.ownParent userId) top n id → n < limit

/-- Where a folder at or above `id` is `granted`, so is `id` itself or one above it whose subtree fits. -/
def Listable (folders : FolderTable) (limit : ℕ) (userId id : String) (granted : String → Prop) : Prop :=
  (∃ top, folders.Reaches id top ∧ granted top) →
    ∃ top, folders.Reaches id top ∧ granted top ∧ (id = top ∨ folders.Fits userId top limit)

def SameOwners (folders : FolderTable) : Prop :=
  ∀ id top row row', folders.Reaches id top → folders.rows.get id = some row → folders.rows.get top = some row' →
    row'.userId = row.userId

theorem parentOf_eq_some : folders.parentOf id = some parentId ↔
      ∃ row, folders.rows.get id = some row ∧ row.parentId = some parentId ∧ (folders.rows.get parentId).isSome := by
  rw [parentOf, Option.bind_eq_some_iff]
  constructor
  · rintro ⟨row, hrow, hparent⟩
    obtain ⟨p, hp, hmap⟩ := Option.bind_eq_some_iff.1 hparent
    obtain ⟨row', hrow', rfl⟩ := Option.map_eq_some_iff.1 hmap
    exact ⟨row, hrow, (Option.filter_eq_some_iff.1 hp).1, by rw [hrow']; rfl⟩
  · rintro ⟨row, hrow, hparent, hsome⟩
    obtain ⟨row', hrow'⟩ := Option.isSome_iff_exists.1 hsome
    refine ⟨row, hrow, Option.bind_eq_some_iff.2 ⟨parentId, ?_, ?_⟩⟩
    · rw [hparent, Option.filter_eq_some_iff]
      exact ⟨rfl, by simpa using folders.ids parentId hsome⟩
    · rw [hrow', Option.map_some]

theorem mem_select {p : String → Folder → Bool} :
    (id, row) ∈ folders.select p ↔ folders.rows.get id = some row ∧ p id row = true := by
  rw [select, List.mem_mergeSort, ← KeyedTable.get_eq_some, KeyedTable.get_filter, Option.filter_eq_some_iff]

theorem mem_getFoldersByParentIdAndUserId : (id, row) ∈ folders.getFoldersByParentIdAndUserId parentId userId ↔
      folders.rows.get id = some row ∧ row.parentId = some parentId ∧ row.userId = userId := by
  rw [getFoldersByParentIdAndUserId, mem_select, decide_eq_true_eq]

theorem ownParent_eq_some : folders.ownParent userId id = some parentId ↔
      ∃ row, folders.rows.get id = some row ∧ row.parentId = some parentId ∧ row.userId = userId := by
  rw [ownParent, Option.bind_eq_some_iff]
  constructor
  · rintro ⟨row, hrow, hparent⟩
    obtain ⟨hrow, howner⟩ := Option.filter_eq_some_iff.1 hrow
    exact ⟨row, hrow, hparent, of_decide_eq_true howner⟩
  · rintro ⟨row, hrow, hparent, howner⟩
    exact ⟨row, Option.filter_eq_some_iff.2 ⟨hrow, decide_eq_true howner⟩, hparent⟩

theorem leads_iff {a b : String} :
    DepthFirst.Leads (fun parentId => folders.getFoldersByParentIdAndUserId parentId userId) Prod.fst a b ↔
      folders.ownParent userId b = some a := by
  rw [ownParent_eq_some]
  constructor
  · rintro ⟨⟨b, row⟩, hmem, rfl⟩
    exact ⟨row, mem_getFoldersByParentIdAndUserId.1 hmem⟩
  · rintro ⟨row, hrow⟩
    exact ⟨(b, row), mem_getFoldersByParentIdAndUserId.2 hrow, rfl⟩

/-- The rows below a folder are one level deeper, but for the folder where the traversal starts. -/
theorem arrivesAfter_succ {β : Type} {next : String → List β} {key : β → String}
    (hleads : ∀ a b, DepthFirst.Leads next key a b ↔ folders.ownParent userId b = some a) (k : ℕ) (x : String) (r : β)
    (hr : r ∈ next x) (hne : key r ≠ top) (h : Chain.ArrivesAfter (folders.ownParent userId) top k x) :
    Chain.ArrivesAfter (folders.ownParent userId) top (k + 1) (key r) :=
  ⟨hne, x, (hleads x _).1 ⟨r, hr, rfl⟩, h⟩

/-- A traversal that comes through has been at each level. -/
theorem fits_of_traversal {β : Type} {next : String → List β} {key : β → String} {s s' : DepthFirst.State String β}
    (hleads : ∀ a b, DepthFirst.Leads next key a b ↔ folders.ownParent userId b = some a)
    (h : DepthFirst.Traversal next key m top (next top) s s') (hseen : s.seen = [top]) :
    folders.Fits userId top (m + 1) := by
  intro n id hn
  by_cases hid : id = top
  · subst hid
    have hzero : n = 0 := hn.unique (n := 0) rfl
    omega
  have hreach : Relation.ReflTransGen (DepthFirst.Leads next key) top id :=
    Relation.ReflTransGen.mono (fun a b => (hleads a b).2) _ _ hn.reflTransGen
  obtain ⟨j, hj, hlevel⟩ := h.exists_level (arrivesAfter_succ hleads) (by rw [hseen]; exact List.mem_singleton_self top) (k := 0)
    rfl id (h.mem_seen hseen hreach) (by rwa [hseen, List.mem_singleton])
  have hsame := hn.unique hlevel
  omega

theorem exists_visit_iff :
    (∃ s, DepthFirst.visit (fun parentId => folders.getFoldersByParentIdAndUserId parentId userId) Prod.fst limit top
      ⟨[top], []⟩ = some s) ↔ folders.Fits userId top limit := by
  constructor
  · rintro ⟨s, hs⟩
    obtain ⟨m, rfl, htraversal⟩ := DepthFirst.traversal_visit hs
    exact fits_of_traversal (fun _ _ => leads_iff) htraversal rfl
  · intro hfits
    rw [← Option.isSome_iff_exists, ← Option.ne_none_iff_isSome]
    intro hnone
    obtain ⟨x, hx⟩ := DepthFirst.exists_of_visit_eq_none (arrivesAfter_succ fun _ _ => leads_iff) hnone
      (List.mem_singleton_self top) (k := 0) rfl
    have hlt := hfits _ x hx
    omega

theorem reaches_iff_leads (howners : folders.SameOwners)
    (htop : folders.rows.get top = some row) (hid : folders.rows.get id = some row') (howner : row'.userId = row.userId) :
    folders.Reaches id top ↔ Relation.ReflTransGen
      (DepthFirst.Leads (fun parentId => folders.getFoldersByParentIdAndUserId parentId row.userId) Prod.fst) top id := by
  constructor
  · intro h
    induction h using Relation.ReflTransGen.head_induction_on generalizing row' with
    | refl => exact .refl
    | @head a b hparent hreach ih =>
      obtain ⟨arow, harow, hlink, hsome⟩ := parentOf_eq_some.1 hparent
      rw [hid] at harow
      cases harow
      obtain ⟨brow, hbrow⟩ := Option.isSome_iff_exists.1 hsome
      have hbowner : brow.userId = row.userId := (howners a b row' brow (.single hparent) hid hbrow).trans howner
      exact .tail (ih hbrow hbowner)
        ⟨(a, row'), mem_getFoldersByParentIdAndUserId.2 ⟨hid, hlink, howner⟩, rfl⟩
  · intro h
    -- every folder on the way is there
    have hchain : ∀ b, Relation.ReflTransGen
        (DepthFirst.Leads (fun parentId => folders.getFoldersByParentIdAndUserId parentId row.userId) Prod.fst) top b →
        (folders.rows.get b).isSome ∧ folders.Reaches b top := by
      intro b hb
      induction hb with
      | refl => exact ⟨by rw [htop]; rfl, .refl⟩
      | @tail b c _ hstep ih =>
        obtain ⟨⟨c', crow⟩, hmem, rfl⟩ := hstep
        obtain ⟨hcrow, hlink, -⟩ := mem_getFoldersByParentIdAndUserId.1 hmem
        exact ⟨by rw [hcrow]; rfl, .head (parentOf_eq_some.2 ⟨crow, hcrow, hlink, ih.1⟩) ih.2⟩
    exact (hchain id h).2

theorem mem_getChildrenFolders (howners : folders.SameOwners) (htop : folders.rows.get top = some row) :
    (id, row') ∈ (folders.getChildrenFoldersByIdAndUserId limit top row.userId).getD [] ↔
      folders.Fits row.userId top limit ∧ id ≠ top ∧ folders.rows.get id = some row' ∧ row'.userId = row.userId ∧
        folders.Reaches id top := by
  have hfound : (folders.rows.get top).any (fun r => r.userId = row.userId) = true := by
    rw [htop]
    simp
  have hkey : ∀ x y, ∀ r ∈ folders.getFoldersByParentIdAndUserId x row.userId,
      ∀ r' ∈ folders.getFoldersByParentIdAndUserId y row.userId, r.1 = r'.1 → r = r' := by
    rintro x y ⟨id₁, row₁⟩ h₁ ⟨id₂, row₂⟩ h₂ hkeys
    subst hkeys
    have hrow₁ := (mem_getFoldersByParentIdAndUserId.1 h₁).1
    rw [(mem_getFoldersByParentIdAndUserId.1 h₂).1, Option.some.injEq] at hrow₁
    rw [hrow₁]
  rw [getChildrenFoldersByIdAndUserId, if_pos hfound, ← exists_visit_iff]
  cases hvisit : DepthFirst.visit (fun parentId => folders.getFoldersByParentIdAndUserId parentId row.userId) Prod.fst
      limit top ⟨[top], []⟩ with
  | none => simp
  | some s =>
  rw [Option.map_some, Option.getD_some, DepthFirst.mem_found_iff hvisit hkey,
    and_iff_right (show ∃ s', some s = some s' from ⟨s, rfl⟩)]
  constructor
  · rintro ⟨hne, c, hreach, hmem⟩
    obtain ⟨hrow', hlink, howner⟩ := mem_getFoldersByParentIdAndUserId.1 hmem
    refine ⟨hne, hrow', howner, (reaches_iff_leads howners htop hrow' howner).2 ?_⟩
    exact hreach.tail ⟨(id, row'), hmem, rfl⟩
  rintro ⟨hne, hrow', howner, hreach⟩
  refine ⟨hne, ?_⟩
  rcases Relation.ReflTransGen.cases_tail ((reaches_iff_leads howners htop hrow' howner).1 hreach) with
    heq | ⟨c, hc, ⟨id', row''⟩, hmem, rfl⟩
  · exact absurd heq hne
  · obtain ⟨hrow'', -, -⟩ := mem_getFoldersByParentIdAndUserId.1 hmem
    rw [hrow'] at hrow''
    cases hrow''
    exact ⟨c, hc, hmem⟩

end FolderTable

section Access

variable {t : Tables} {folders : FolderTable} {userId permission : String}

def opens (t : Tables) (folders : FolderTable) (userId permission id : String) : Bool :=
  ((folders.rows.get id).any fun row => row.userId = userId) || hasAccess t userId "folder" id permission none

theorem folderAccessLoop_eq (n : ℕ) (seen : List String) (hrow : folders.rows.get id = some row) :
    folderAccessLoop t folders userId permission n seen (some (id, row)) =
      (walk folders.parentOf n seen id).any (opens t folders userId permission) := by
  induction n generalizing seen id row with
  | zero => rfl
  | succ n ih =>
    rw [folderAccessLoop, walk]
    by_cases hseen : id ∈ seen
    · rw [if_pos hseen, if_pos hseen]
      rfl
    rw [if_neg hseen, if_neg hseen, List.any_cons, opens, hrow, Option.any_some]
    by_cases howner : row.userId = userId
    · rw [if_pos howner, decide_eq_true howner, Bool.true_or, Bool.true_or]
    rw [if_neg howner, decide_eq_false howner, Bool.false_or]
    cases haccess : hasAccess t userId "folder" id permission none with
    | true => rfl
    | false =>
      rw [if_neg Bool.false_ne_true, Bool.false_or, FolderTable.parentOf, hrow, Option.bind_some]
      cases hparent : row.parentId.filter (· ≠ "") with
      | none => cases n <;> rfl
      | some parentId =>
        rw [Option.bind_some, Option.bind_some, FolderTable.getFolderById]
        cases hget : folders.rows.get parentId with
        | none => cases n <;> rfl
        | some parent => exact ih (id :: seen) hget

theorem hasFolderAccess_iff (howners : folders.SameOwners) (hrow : folders.rows.get id = some row)
    (hother : row.userId ≠ userId) :
    hasFolderAccess t folders userId (id, row) permission = true ↔
      ∃ top, folders.Reaches id top ∧ hasAccess t userId "folder" top permission none = true := by
  have hids : ∀ x y, folders.parentOf x = some y → x ∈ folders.rows.keys := by
    intro x y hxy
    obtain ⟨xrow, hxrow, -⟩ := FolderTable.parentOf_eq_some.1 hxy
    rw [KeyedTable.mem_keys, hxrow]
    rfl
  have hrounds : folders.rows.keys.length < folders.rounds := Nat.lt_succ_self _
  rw [hasFolderAccess, folderAccessLoop_eq folders.rounds [] hrow, List.any_eq_true]
  simp only [mem_walk_iff hids hrounds]
  apply exists_congr
  intro top
  apply and_congr_right
  intro hreach
  -- no folder above has the user as its owner
  have hnot : ((folders.rows.get top).any fun r => decide (r.userId = userId)) = false := by
    cases htop : folders.rows.get top with
    | none => rfl
    | some trow =>
      rw [Option.any_some, decide_eq_false_iff_not, howners id top row trow hreach hrow htop]
      exact hother
  rw [opens, hnot, Bool.false_or]

end Access

section Listing

variable {t : Tables} {folders : FolderTable} {userId : String}

theorem get_foldl_perms (grants : List AccessGrant) (perms : OrderedMap String String) (id : String) :
    (OrderedMap.get id (grants.foldl
      (fun perms grant =>
        if OrderedMap.get grant.resourceId perms ≠ some "write" then
          OrderedMap.set grant.resourceId grant.permission perms
        else perms)
      perms) = some "write" ↔
        OrderedMap.get id perms = some "write" ∨ ∃ grant ∈ grants, grant.resourceId = id ∧ grant.permission = "write") ∧
    ((OrderedMap.get id (grants.foldl
      (fun perms grant =>
        if OrderedMap.get grant.resourceId perms ≠ some "write" then
          OrderedMap.set grant.resourceId grant.permission perms
        else perms)
      perms)).isSome = true ↔ (OrderedMap.get id perms).isSome = true ∨ ∃ grant ∈ grants, grant.resourceId = id) := by
  induction grants generalizing perms with
  | nil => simp
  | cons grant rest ih =>
    rw [List.foldl_cons, (ih _).1, (ih _).2]
    by_cases hid : grant.resourceId = id
    · subst hid
      by_cases hwrite : OrderedMap.get grant.resourceId perms = some "write"
      · rw [if_neg (not_not.2 hwrite)]
        simp [hwrite]
      · rw [if_pos hwrite, OrderedMap.get_set, if_pos rfl]
        simp [hwrite]
    · have hget : ∀ p : OrderedMap String String, OrderedMap.get id
          (if OrderedMap.get grant.resourceId p ≠ some "write" then
            OrderedMap.set grant.resourceId grant.permission p
          else p) = OrderedMap.get id p := by
        intro p
        split
        · rw [OrderedMap.get_set, if_neg (Ne.symm hid)]
        · rfl
      rw [hget]
      simp [hid]

theorem get_sharedFolderIds (hother : ∀ row, folders.rows.get id = some row → row.userId ≠ userId) :
    (OrderedMap.get id (getSharedFolderIdsForUser t folders userId ((getGroupsByMemberId t userId true).map Prod.fst)) =
        some "write" ↔ hasAccess t userId "folder" id "write" none = true) ∧
    ((OrderedMap.get id (getSharedFolderIdsForUser t folders userId
        ((getGroupsByMemberId t userId true).map Prod.fst))).isSome = true ↔
      ∃ permission, hasAccess t userId "folder" id permission none = true) := by
  have hown : ((folders.rows.get id).any fun row => decide (row.userId = userId)) = false := by
    cases hget : folders.rows.get id with
    | none => rfl
    | some row => simpa using hother row hget
  have hgrants : ∀ permission, hasAccess t userId "folder" id permission none = true ↔
      ∃ grant ∈ sharedGrants t folders userId ((getGroupsByMemberId t userId true).map Prod.fst),
        grant.resourceId = id ∧ grant.permission = permission := by
    intro permission
    rw [hasAccess_iff]
    simp only [sharedGrants, getGrantsByResource, List.mem_filter, List.any_cons, Bool.and_eq_true, Bool.or_eq_true,
      decide_eq_true_eq, grantConditions_iff, userGroupIds, Option.getD_none]
    constructor
    · rintro ⟨grant, ⟨hmem, htype, rfl⟩, rfl, hgrants⟩
      exact ⟨grant, ⟨hmem, htype, .inr hgrants⟩, rfl, rfl⟩
    · rintro ⟨grant, ⟨hmem, htype, hgrants⟩, rfl, rfl⟩
      refine ⟨grant, ⟨hmem, htype, rfl⟩, rfl, hgrants.resolve_left ?_⟩
      rw [hown]
      exact Bool.false_ne_true
  have hloop := get_foldl_perms (sharedGrants t folders userId ((getGroupsByMemberId t userId true).map Prod.fst)) [] id
  constructor
  · rw [hgrants, getSharedFolderIdsForUser, hloop.1]
    simp [OrderedMap.get]
  · simp only [hgrants]
    rw [getSharedFolderIdsForUser, hloop.2]
    simp [OrderedMap.get]

theorem get_foldl_shareChild (ownerNames : KeyedTable String String) (offered : List ((String × Folder) × String))
    (results : OrderedMap String SharedFolder) (id : String) :
    ((∃ row, OrderedMap.get id (offered.foldl (shareChild ownerNames) results) = some row ∧ row.permission = "write") ↔
      (∃ row, OrderedMap.get id results = some row ∧ row.permission = "write") ∨
        ∃ offer ∈ offered, offer.1.1 = id ∧ offer.2 = "write") ∧
    ((OrderedMap.get id (offered.foldl (shareChild ownerNames) results)).isSome = true ↔
      (OrderedMap.get id results).isSome = true ∨ ∃ offer ∈ offered, offer.1.1 = id) := by
  induction offered generalizing results with
  | nil => simp
  | cons offer rest ih =>
    rw [List.foldl_cons, (ih _).1, (ih _).2]
    by_cases hid : offer.1.1 = id
    · subst hid
      cases hget : OrderedMap.get offer.1.1 results with
      | none => simp [shareChild, hget, OrderedMap.get_set]
      | some row =>
        by_cases hwrite : offer.2 = "write"
        · simp [shareChild, hget, hwrite, OrderedMap.get_set]
        · simp [shareChild, hget, hwrite]
    · have hsame : OrderedMap.get id (shareChild ownerNames results offer) = OrderedMap.get id results := by
        rw [shareChild]
        split
        · split
          · rw [OrderedMap.get_set, if_neg (Ne.symm hid)]
          · rfl
        · rw [OrderedMap.get_set, if_neg (Ne.symm hid)]
      rw [hsame]
      simp [hid]

theorem get_map_getFoldersByIds (hrow : folders.rows.get id = some row) (f : String × Folder → SharedFolder) :
    OrderedMap.get id ((folders.getFoldersByIds ids).map fun folder => (folder.1, f folder)) =
      if id ∈ ids then some (f (id, row)) else none := by
  have hdistinct : OrderedMap.Distinct ((folders.getFoldersByIds ids).map fun folder => (folder.1, f folder)) := by
    rw [OrderedMap.Distinct, OrderedMap.keys, List.map_map]
    have hperm := (List.mergeSort_perm (folders.rows.filter fun id _ => decide (id ∈ ids)).entries fun a b =>
      decide (b.2.updatedAt ≤ a.2.updatedAt)).map Prod.fst
    exact hperm.nodup_iff.2 (folders.rows.filter fun id _ => decide (id ∈ ids)).distinct
  by_cases hid : id ∈ ids
  · rw [if_pos hid]
    have hmem : (id, row) ∈ folders.getFoldersByIds ids := FolderTable.mem_select.2 ⟨hrow, decide_eq_true hid⟩
    exact OrderedMap.get_of_mem hdistinct (List.mem_map_of_mem hmem)
  · rw [if_neg hid, ← Option.not_isSome_iff_eq_none, ← OrderedMap.mem_keys_iff, OrderedMap.keys, List.map_map,
      List.mem_map]
    rintro ⟨⟨id', row'⟩, hmem, rfl⟩
    exact hid (of_decide_eq_true (FolderTable.mem_select.1 hmem).2)

theorem exists_offer_iff (howners : folders.SameOwners)
    (hrow : folders.rows.get id = some row) (hother : row.userId ≠ userId) (permission : String) :
    (∃ offer ∈ (folders.getFoldersByIds (OrderedMap.keys perms)).flatMap (offers folders limit userId perms),
        offer.1.1 = id ∧ offer.2 = permission) ↔
      ∃ top, id ≠ top ∧ folders.Reaches id top ∧ OrderedMap.get top perms = some permission ∧
        folders.Fits row.userId top limit := by
  simp only [List.mem_flatMap, offers, List.mem_map]
  constructor
  · rintro ⟨_, ⟨⟨top, trow⟩, hshared, ⟨⟨id', crow⟩, hchild, rfl⟩⟩, rfl, rfl⟩
    obtain ⟨htop, hkey⟩ := FolderTable.mem_select.1 hshared
    obtain ⟨hfits, hne, hcrow, howner, hreach⟩ := (FolderTable.mem_getChildrenFolders howners htop).1 hchild
    rw [hrow] at hcrow
    cases hcrow
    have hnot : ¬(trow.userId = userId ∨ row.userId = userId) := by
      rintro (hbad | hbad)
      · exact hother (howner.trans hbad)
      · exact hother hbad
    obtain ⟨permission, hperm⟩ := Option.isSome_iff_exists.1 (OrderedMap.mem_keys_iff.1 (of_decide_eq_true hkey))
    refine ⟨top, hne, hreach, ?_, howner ▸ hfits⟩
    rw [if_neg hnot, hperm, Option.getD_some]
  · rintro ⟨top, hne, hreach, hperm, hfits⟩
    -- what a folder reaches is there
    have hsome : (folders.rows.get top).isSome := by
      rcases Relation.ReflTransGen.cases_tail hreach with heq | ⟨b, -, hstep⟩
      · exact absurd heq.symm hne
      · obtain ⟨_, _, _, hsome⟩ := FolderTable.parentOf_eq_some.1 hstep
        exact hsome
    obtain ⟨trow, htop⟩ := Option.isSome_iff_exists.1 hsome
    have howner : row.userId = trow.userId := (howners id top row trow hreach hrow htop).symm
    have hkey : top ∈ OrderedMap.keys perms := by
      rw [OrderedMap.mem_keys_iff, hperm]
      rfl
    have hnot : ¬(trow.userId = userId ∨ row.userId = userId) := by
      rintro (hbad | hbad)
      · exact hother (howner.trans hbad)
      · exact hother hbad
    refine ⟨((id, row), permission), ⟨(top, trow), FolderTable.mem_select.2 ⟨htop, decide_eq_true hkey⟩,
      (id, row), (FolderTable.mem_getChildrenFolders howners htop).2 ⟨howner ▸ hfits, hne, hrow, howner, hreach⟩, ?_⟩,
      rfl, rfl⟩
    rw [if_neg hnot, hperm, Option.getD_some]

/-- What a folder of somebody else is listed as. -/
theorem listed_iff (names : KeyedTable String String) (limit : ℕ) (howners : folders.SameOwners)
    (hgrants : ∀ grant ∈ t.grants, grant.permission = "read" ∨ grant.permission = "write")
    (hrow : folders.rows.get id = some row) (hother : row.userId ≠ userId) :
    ((∃ entry, OrderedMap.get id (getSharedFolders t folders names limit userId) = some entry ∧
        entry.permission = "write") ↔
      ∃ top, folders.Reaches id top ∧ hasAccess t userId "folder" top "write" none = true ∧
        (id = top ∨ folders.Fits row.userId top limit)) ∧
    ((OrderedMap.get id (getSharedFolders t folders names limit userId)).isSome = true ↔
      ∃ top, folders.Reaches id top ∧
        (hasAccess t userId "folder" top "read" none = true ∨ hasAccess t userId "folder" top "write" none = true) ∧
        (id = top ∨ folders.Fits row.userId top limit)) := by
  have hperms : ∀ top, folders.Reaches id top →
      (OrderedMap.get top (getSharedFolderIdsForUser t folders userId
        ((getGroupsByMemberId t userId true).map Prod.fst)) = some "write" ↔
          hasAccess t userId "folder" top "write" none = true) ∧
      ((OrderedMap.get top (getSharedFolderIdsForUser t folders userId
        ((getGroupsByMemberId t userId true).map Prod.fst))).isSome = true ↔
          ∃ permission, hasAccess t userId "folder" top permission none = true) := by
    intro top hreach
    refine get_sharedFolderIds fun trow htop => ?_
    rw [howners id top row trow hreach hrow htop]
    exact hother
  rw [getSharedFolders, ← List.foldl_flatMap]
  simp only [(get_foldl_shareChild _ _ _ _).1, (get_foldl_shareChild _ _ _ _).2, get_map_getFoldersByIds hrow,
    if_neg hother, OrderedMap.mem_keys_iff]
  generalize getSharedFolderIdsForUser t folders userId ((getGroupsByMemberId t userId true).map Prod.fst) = perms
    at hperms ⊢
  have hself := hperms id .refl
  constructor
  · rw [exists_offer_iff howners hrow hother]
    constructor
    · rintro (⟨entry, hentry, hwrite⟩ | ⟨top, -, hreach, hwrite, hfits⟩)
      · by_cases hsome : (OrderedMap.get id perms).isSome = true
        · rw [if_pos hsome] at hentry
          cases hentry
          obtain ⟨permission, hget⟩ := Option.isSome_iff_exists.1 hsome
          rw [hget, Option.getD_some] at hwrite
          exact ⟨id, .refl, hself.1.1 (hwrite ▸ hget), .inl rfl⟩
        · rw [if_neg hsome] at hentry
          cases hentry
      · exact ⟨top, hreach, (hperms top hreach).1.1 hwrite, .inr hfits⟩
    · rintro ⟨top, hreach, haccess, hfits⟩
      have hwrite := (hperms top hreach).1.2 haccess
      by_cases hid : id = top
      · subst hid
        left
        rw [if_pos (by rw [hwrite]; rfl)]
        exact ⟨_, rfl, by dsimp only; rw [hwrite, Option.getD_some]⟩
      · exact .inr ⟨top, hid, hreach, hwrite, hfits.resolve_left hid⟩
  · have hoffered : (∃ offer ∈ (folders.getFoldersByIds (OrderedMap.keys perms)).flatMap
          (offers folders limit userId perms), offer.1.1 = id) ↔
        ∃ top, id ≠ top ∧ folders.Reaches id top ∧ (OrderedMap.get top perms).isSome = true ∧
          folders.Fits row.userId top limit := by
      constructor
      · rintro ⟨offer, hmem, hid⟩
        obtain ⟨top, hne, hreach, hget, hfits⟩ :=
          (exists_offer_iff howners hrow hother offer.2).1 ⟨offer, hmem, hid, rfl⟩
        exact ⟨top, hne, hreach, by rw [hget]; rfl, hfits⟩
      · rintro ⟨top, hne, hreach, hsome, hfits⟩
        obtain ⟨permission, hget⟩ := Option.isSome_iff_exists.1 hsome
        obtain ⟨offer, hmem, hid, -⟩ :=
          (exists_offer_iff howners hrow hother permission).2 ⟨top, hne, hreach, hget, hfits⟩
        exact ⟨offer, hmem, hid⟩
    -- a grant is one to read or one to write
    have hany : ∀ top, (∃ permission, hasAccess t userId "folder" top permission none = true) ↔
        hasAccess t userId "folder" top "read" none = true ∨ hasAccess t userId "folder" top "write" none = true := by
      intro top
      constructor
      · rintro ⟨permission, haccess⟩
        obtain ⟨grant, hmem, hperm, hgrant⟩ := hasAccess_iff.1 haccess
        rcases hgrants grant (List.mem_of_mem_filter hmem) with hread | hwrite
        · exact .inl (hasAccess_iff.2 ⟨grant, hmem, hread, hgrant⟩)
        · exact .inr (hasAccess_iff.2 ⟨grant, hmem, hwrite, hgrant⟩)
      · rintro (hread | hwrite)
        · exact ⟨"read", hread⟩
        · exact ⟨"write", hwrite⟩
    rw [hoffered]
    constructor
    · rintro (hbase | ⟨top, -, hreach, hsome, hfits⟩)
      · by_cases hsome : (OrderedMap.get id perms).isSome = true
        · exact ⟨id, .refl, (hany id).1 (hself.2.1 hsome), .inl rfl⟩
        · rw [if_neg hsome] at hbase
          cases hbase
      · exact ⟨top, hreach, (hany top).1 ((hperms top hreach).2.1 hsome), .inr hfits⟩
    · rintro ⟨top, hreach, haccess, hfits⟩
      have hsome := (hperms top hreach).2.2 ((hany top).2 haccess)
      by_cases hid : id = top
      · subst hid
        left
        rw [if_pos hsome]
        rfl
      · exact .inr ⟨top, hid, hreach, hsome, hfits.resolve_left hid⟩

end Listing

/-- A listed folder can be read, and one listed as writable can be written to, exactly where its grants come from
itself or from folders whose subtrees fit. -/
theorem listing_agrees_iff (t : Tables) (folders : FolderTable) (names : KeyedTable String String) (limit : ℕ)
    (userId : String) (howners : folders.SameOwners)
    (hgrants : ∀ grant ∈ t.grants, grant.permission = "read" ∨ grant.permission = "write") (id : String) (row : Folder)
    (hrow : folders.rows.get id = some row) (hother : row.userId ≠ userId) :
    (((∃ entry, OrderedMap.get id (getSharedFolders t folders names limit userId) = some entry ∧
          entry.permission = "write") ↔ hasFolderAccess t folders userId (id, row) "write" = true) ∧
      ((OrderedMap.get id (getSharedFolders t folders names limit userId)).isSome = true ↔
        hasFolderAccess t folders userId (id, row) "read" = true ∨
          hasFolderAccess t folders userId (id, row) "write" = true)) ↔
    folders.Listable limit row.userId id (fun top => hasAccess t userId "folder" top "write" none = true) ∧
      folders.Listable limit row.userId id fun top =>
        hasAccess t userId "folder" top "read" none = true ∨ hasAccess t userId "folder" top "write" none = true := by
  obtain ⟨hwrite, hlisted⟩ := listed_iff names limit howners hgrants hrow hother
  rw [hwrite, hlisted]
  simp only [hasFolderAccess_iff howners hrow hother, ← exists_or, ← and_or_left, FolderTable.Listable]
  -- what is listed is granted
  have hgranted : ∀ granted : String → Prop,
      (∃ top, folders.Reaches id top ∧ granted top ∧ (id = top ∨ folders.Fits row.userId top limit)) →
        ∃ top, folders.Reaches id top ∧ granted top := by
    rintro granted ⟨top, hreach, hgrant, -⟩
    exact ⟨top, hreach, hgrant⟩
  exact and_congr ⟨fun h => h.2, fun h => ⟨hgranted _, h⟩⟩ ⟨fun h => h.2, fun h => ⟨hgranted _, h⟩⟩

/-- Two folders that lie in each other. -/
def couple : FolderTable where
  rows := (KeyedTable.empty.set "a" ⟨some "b", "o", "A", 0⟩).set "b" ⟨some "a", "o", "B", 0⟩
  ids := by
    rintro id hsome rfl
    exact absurd hsome (by decide)

theorem get_couple (h : couple.rows.get id = some row) :
    id = "a" ∧ row = ⟨some "b", "o", "A", 0⟩ ∨ id = "b" ∧ row = ⟨some "a", "o", "B", 0⟩ := by
  simp only [couple, KeyedTable.get_set, KeyedTable.get_empty] at h
  split at h
  · cases h
    exact .inr ⟨‹_›, rfl⟩
  · split at h
    · cases h
      exact .inl ⟨‹_›, rfl⟩
    · cases h

/-- Folders and what a user may do with them. -/
def sharing (grants : List (String × String)) : Tables :=
  ⟨.empty, [], grants.map fun grant => ⟨"folder", grant.1, .user, "u", grant.2⟩⟩

theorem listing_agrees_iff_couple :
    (∃ entry, OrderedMap.get "a" (getSharedFolders (sharing [("a", "read"), ("b", "write")]) couple .empty 2 "u") = some entry ∧
        entry.permission = "write") ↔
      hasFolderAccess (sharing [("a", "read"), ("b", "write")]) couple "u" ("a", ⟨some "b", "o", "A", 0⟩) "write" = true := by
  have howner : ∀ id row, couple.rows.get id = some row → row.userId = "o" := by
    intro id row hrow
    rcases get_couple hrow with ⟨-, rfl⟩ | ⟨-, rfl⟩ <;> rfl
  have hfits : couple.Fits "o" "b" 2 := by
    intro n id hn
    cases n with
    | zero => exact Nat.succ_pos 1
    | succ n =>
      obtain ⟨hne, c, hc, hrest⟩ := hn
      obtain ⟨row, hrow, hparent, -⟩ := FolderTable.ownParent_eq_some.1 hc
      rcases get_couple hrow with ⟨rfl, rfl⟩ | ⟨rfl, -⟩
      · cases hparent
        have hzero : n = 0 := hrest.unique (n := 0) rfl
        omega
      · exact absurd rfl hne
  have hreach : couple.Reaches "a" "b" :=
    .single (FolderTable.parentOf_eq_some.2 ⟨⟨some "b", "o", "A", 0⟩, rfl, rfl, rfl⟩)
  refine ((listing_agrees_iff (sharing [("a", "read"), ("b", "write")]) couple .empty 2 "u" ?_ (by decide) "a" ⟨some "b", "o", "A", 0⟩ rfl
    (by decide)).2 ⟨?_, ?_⟩).1
  · intro id top row row' _ hrow hrow'
    rw [howner id row hrow, howner top row' hrow']
  · exact fun _ => ⟨"b", hreach, by decide, .inr hfits⟩
  · exact fun _ => ⟨"b", hreach, .inr (by decide), .inr hfits⟩

/-- Folders that are nested `n` levels deep. -/
def nestedFolders (n : ℕ) : FolderTable where
  rows := Nesting.nest (fun parentId => ⟨parentId, "o", "Folder", 0⟩) n
  ids := by
    intro id hsome
    obtain ⟨row, hrow⟩ := Option.isSome_iff_exists.1 hsome
    obtain ⟨k, -, rfl, -⟩ := Nesting.get_nest.1 hrow
    exact Nesting.key_ne_empty k

theorem not_fits_nestedFolders (n : ℕ) : ¬ (nestedFolders n).Fits "o" (Nesting.key 0) n := by
  intro hfits
  have hlast : Chain.ArrivesAfter ((nestedFolders n).ownParent "o") (Nesting.key 0) n (Nesting.key n) := by
    apply Nesting.arrivesAfter_key
    intro k hk
    exact FolderTable.ownParent_eq_some.2 ⟨_, Nesting.get_nest.2 ⟨k + 1, hk, rfl, rfl⟩, rfl, rfl⟩
  exact absurd (hfits n _ hlast) (lt_irrefl n)

/-- Of 1001 nested folders the outermost is shared; the one in it can be written to, and is not listed. -/
theorem deep_folders_not_listed :
    (nestedFolders 1000).SameOwners ∧
      (nestedFolders 1000).rows.get (Nesting.key 1) = some ⟨some (Nesting.key 0), "o", "Folder", 0⟩ ∧
      hasFolderAccess (sharing [(Nesting.key 0, "write")]) (nestedFolders 1000) "u"
        (Nesting.key 1, ⟨some (Nesting.key 0), "o", "Folder", 0⟩) "write" = true ∧
      OrderedMap.get (Nesting.key 1) (getSharedFolders (sharing [(Nesting.key 0, "write")]) (nestedFolders 1000) .empty 1000 "u") =
        none := by
  have howners : (nestedFolders 1000).SameOwners := by
    intro id top row row' _ hrow hrow'
    obtain ⟨_, -, -, rfl⟩ := Nesting.get_nest.1 hrow
    obtain ⟨_, -, -, rfl⟩ := Nesting.get_nest.1 hrow'
    rfl
  have hrow : (nestedFolders 1000).rows.get (Nesting.key 1) = some ⟨some (Nesting.key 0), "o", "Folder", 0⟩ :=
    Nesting.get_nest.2 ⟨1, by decide, rfl, rfl⟩
  have htop : ((nestedFolders 1000).rows.get (Nesting.key 0)).isSome := by
    rw [show (nestedFolders 1000).rows.get (Nesting.key 0) = some _ from Nesting.get_nest.2 ⟨0, by decide, rfl, rfl⟩]
    rfl
  refine ⟨howners, hrow, (hasFolderAccess_iff howners hrow (by decide)).2 ⟨Nesting.key 0, ?_, by decide⟩, ?_⟩
  · exact .single (FolderTable.parentOf_eq_some.2 ⟨_, hrow, rfl, htop⟩)
  rw [← Option.not_isSome_iff_eq_none, (listed_iff .empty 1000 howners (by decide) hrow (by decide)).2]
  rintro ⟨top, -, hgrant, hfits⟩
  have hshared : ∀ permission, hasAccess (sharing [(Nesting.key 0, "write")]) "u" "folder" top permission none = true →
      top = Nesting.key 0 := by
    intro permission haccess
    obtain ⟨grant, hmem, -⟩ := hasAccess_iff.1 haccess
    obtain ⟨hgrants, hresource⟩ := List.mem_filter.1 hmem
    rw [← (of_decide_eq_true hresource).2, List.mem_singleton.1 hgrants]
  obtain rfl := hgrant.elim (hshared _) (hshared _)
  rcases hfits with heq | hfits
  · exact absurd (Nesting.key_injective heq) (by decide)
  · exact not_fits_nestedFolders 1000 hfits

end RyanAI.Access
