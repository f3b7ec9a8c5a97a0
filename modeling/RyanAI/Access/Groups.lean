import Mathlib.Data.List.Sort
import RyanAI.Lib.Forest
import RyanAI.Lib.Json
import RyanAI.Lib.OrderedMap
import RyanAI.Lib.RecursiveQuery

/-!
# Groups of users

`models/groups.py`: the tables of groups, their members and the grants, the recursive queries that close memberships
over parent links, and the operations of `GroupTable` that write. An operation runs in `hierarchy_transaction`, so it is
one function on the tables; it returns the users whose sessions it refreshes, or the error with which it was rolled
back.

The queries are characterised by the ways up the parent links (`mem_ancestorGroups`, `mem_userGroupMemberships`,
`mem_groupUserMemberships`), also on cycles.
-/

namespace RyanAI.Access

open Lib Lib.Hierarchy

/-- A row of `group`; its `id` is the key. -/
structure Group where
  parentGroupId : Option String
  userId : String
  name : String
  description : String
  data : Option Dict
  permissions : Option Dict
  createdAt : ℤ
  updatedAt : ℤ
  deriving DecidableEq

/-- A row of `group_member`. -/
structure GroupMember where
  groupId : String
  userId : String
  deriving DecidableEq

/-- The three values of `principal_type`. -/
inductive PrincipalType where
  | user
  | group
  | anyone
  deriving DecidableEq

/-- A row of `access_grant`. -/
structure AccessGrant where
  resourceType : String
  resourceId : String
  principalType : PrincipalType
  principalId : String
  permission : String
  deriving DecidableEq

structure Tables where
  groups : KeyedTable String Group
  members : List GroupMember
  grants : List AccessGrant

def Tables.empty : Tables := ⟨KeyedTable.empty, [], []⟩

inductive GroupError where
  | hierarchy (message : String) (statusCode : ℕ)
  | raised (exception : Raised)
  | integrity
  deriving DecidableEq

/-! ## Queries -/

def parentOf (groups : KeyedTable String Group) (id : String) : Option String :=
  (groups.get id).bind Group.parentGroupId

/-- `select(Group.id).where(Group.parent_group_id == id)`. -/
def childrenOf (groups : KeyedTable String Group) (id : String) : List String :=
  (groups.entries.filter fun entry => entry.2.parentGroupId = some id).map Prod.fst

def parentIds (groups : KeyedTable String Group) : List String :=
  groups.entries.filterMap fun entry => entry.2.parentGroupId

/-- `ancestor_groups`: the groups themselves and all above them. -/
def ancestorGroups (groups : KeyedTable String Group) (groupIds : List String) : List String :=
  let roots := groups.keys.filter (· ∈ groupIds)
  RecursiveQuery.query (fun id => (parentOf groups id).toList) (roots.length + (parentIds groups).length) roots

/-- `descendant_groups`: rows `(root_id, group_id)`. -/
def descendantGroups (groups : KeyedTable String Group) (groupIds : List String) : List (String × String) :=
  let roots := groups.keys.filter (· ∈ groupIds)
  RecursiveQuery.query (RecursiveQuery.tagged (childrenOf groups))
    (roots.length + roots.length * groups.keys.length) (roots.map fun id => (id, id))

/-- `user_group_memberships`: rows `(user_id, group_id)`. -/
def userGroupMemberships (t : Tables) (userIds : List String) (includeInherited : Bool) : List (String × String) :=
  let direct := (t.members.filter fun m => m.userId ∈ userIds).map fun m => (m.userId, m.groupId)
  if includeInherited then
    RecursiveQuery.query (RecursiveQuery.tagged fun id => (parentOf t.groups id).toList)
      (direct.length + userIds.length * (parentIds t.groups).length) direct
  else direct

/-- `group_user_memberships`: rows `(group_id, user_id)`. -/
def groupUserMemberships (t : Tables) (groupIds : List String) (includeInherited : Bool) : List (String × String) :=
  if includeInherited then
    ((descendantGroups t.groups groupIds).flatMap fun row =>
      (t.members.filter fun m => m.groupId = row.2).map fun m => (row.1, m.userId)).dedup
  else (t.members.filter fun m => m.groupId ∈ groupIds).map fun m => (m.groupId, m.userId)

/-- `order_by(Group.updated_at.desc(), Group.id)`. -/
def inOrder (a b : String × Group) : Bool :=
  b.2.updatedAt < a.2.updatedAt || (a.2.updatedAt = b.2.updatedAt && a.1 ≤ b.1)

/-- `get_groups_by_member_id`. -/
def getGroupsByMemberId (t : Tables) (userId : String) (includeInherited : Bool) : List (String × Group) :=
  ((userGroupMemberships t [userId] includeInherited).filterMap fun row =>
    (t.groups.get row.2).map fun group => (row.2, group)).insertionSort fun a b => inOrder a b

/-- `get_group_user_ids_by_ids`: the users of each group. -/
def getGroupUserIdsByIds (t : Tables) (groupIds : List String) (includeInherited : Bool) :
    List (String × List String) :=
  groupIds.map fun id =>
    (id, ((groupUserMemberships t groupIds includeInherited).filter fun row => row.1 = id).map Prod.snd)

/-- A member of `data` that `validate_default_models` has passed. -/
structure GroupData where
  fields : Dict
  config : ∀ value, fields.lookup "config" = some value → ∃ config, value = .obj config

/-- `GroupForm`; the parent is `none` if the request leaves it out. -/
structure GroupForm where
  parentGroupId : Option (Option String)
  name : String
  description : String
  permissions : Option Dict
  data : Option GroupData

def GroupForm.parent (form : GroupForm) : Option String := form.parentGroupId.join

/-! ## Writing -/

/-- `validate_parent`; a new group has no `group_id` yet. -/
def validateParent (groups : KeyedTable String Group) (groupId : Option String) : Option String → Except GroupError Unit
  | none => .ok ()
  | some parentId =>
    if parentId = "" then .error (.hierarchy "Parent group must be a group ID or null." 400)
    else if (groups.get parentId).isNone then .error (.hierarchy "Parent group not found." 404)
    else if (ancestorGroups groups [parentId]).any fun id => groupId = some id then
      .error (.hierarchy "A group cannot be its own parent or a descendant of itself." 400)
    else .ok ()

/-- `_ensure_default_share_config`. -/
def ensureDefaultShareConfig (share : Json) (data : Option GroupData) : Dict :=
  let fields := (data.map GroupData.fields).getD []
  let config := match fields.lookup "config" with
    | some (.obj config) => config
    | _ => []
  Dict.set fields "config" (.obj (if (config.lookup "share").isSome then config else Dict.set config "share" share))

/-- The row that `insert_new_group` adds. -/
def newGroup (share : Json) (userId : String) (form : GroupForm) (now : ℤ) : Group where
  parentGroupId := form.parent
  userId := userId
  name := form.name
  description := form.description
  data := some (ensureDefaultShareConfig share form.data)
  permissions := form.permissions
  createdAt := now
  updatedAt := now

/-- `insert_new_group`; a uuid that is taken violates the primary key. -/
def insertNewGroup (share : Json) (id : String) (now : ℤ) (userId : String) (form : GroupForm) (t : Tables) :
    Except GroupError (Tables × List String) := do
  validateParent t.groups none form.parent
  if (t.groups.get id).isSome then .error .integrity
  else .ok ({ t with groups := t.groups.set id (newGroup share userId form now) }, [])

/-- `create_groups_by_group_names`: one commit a row, a failing row is skipped. -/
def createGroupsByGroupNames (share : Json) (now : ℤ) (userId : String) (existing : List String)
    (groupNames : List (String × String)) (t : Tables) : Tables :=
  groupNames.foldl (fun t entry =>
    if entry.2 ∈ existing ∨ (t.groups.get entry.1).isSome then t
    else { t with groups := t.groups.set entry.1 {
      parentGroupId := none
      userId := userId
      name := entry.2
      description := ""
      data := some [("config", .obj [("share", share)])]
      permissions := none
      createdAt := now
      updatedAt := now } }) t

/-- `{**value}`. -/
def mapping : Json → Except GroupError Dict
  | .obj fields => .ok fields
  | _ => .error (.raised .typeError)

/-- `group_default_models`. -/
def groupDefaultModels (data : Option Dict) : Except Raised Json := do
  let models ← ((Dict.get (data.getD []) "config").orElse (.obj [])).get "default_models"
  return models.orElse .null

/-- The fields and those of `config` go over the old ones. -/
def mergeData (old : Option Dict) (new : Dict) : Except GroupError Dict := do
  let oldData := old.getD []
  let oldConfig ← mapping ((Dict.get oldData "config").orElse (.obj []))
  let newConfig ← mapping ((Dict.get new "config").orElse (.obj []))
  return Dict.set (Dict.update oldData new) "config" (.obj (Dict.update oldConfig newConfig))

/-- The new `data` of an update, and whether the default models change. -/
def updateData (group : Group) : Option GroupData → Except GroupError (Option Dict × Bool)
  | none => .ok (group.data, false)
  | some new => do
    let data ← mergeData group.data new.fields
    let newModels ← (groupDefaultModels (some data)).mapError .raised
    let oldModels ← (groupDefaultModels group.data).mapError .raised
    return (some data, !newModels.eqv oldModels)

/-- `values['permissions'] != group.permissions`, if the form has any. -/
def permissionsChanged (group : Group) : Option Dict → Bool
  | none => false
  | some new => match group.permissions with
    | none => true
    | some old => !(Json.obj new).eqv (.obj old)

def inheritingUsers (t : Tables) (id : String) : List String := (groupUserMemberships t [id] true).map Prod.snd

def updateParent (groups : KeyedTable String Group) (id : String) (group : Group) :
    Option (Option String) → Except GroupError (Option String)
  | none => .ok group.parentGroupId
  | some parentId => do
    validateParent groups (some id) parentId
    return parentId

def updatedGroup (group : Group) (form : GroupForm) (now : ℤ) (parentId : Option String) (data : Option Dict) : Group :=
  { group with
    parentGroupId := parentId
    name := form.name
    description := form.description
    permissions := form.permissions.or group.permissions
    data := data
    updatedAt := now }

/-- `update_group_by_id`. -/
def updateGroupById (id : String) (now : ℤ) (form : GroupForm) (t : Tables) :
    Except GroupError (Tables × List String) := do
  let some group := t.groups.get id | .error (.hierarchy "Group not found." 404)
  let parentId ← updateParent t.groups id group form.parentGroupId
  let (data, defaultsChanged) ← updateData group form.data
  let affected :=
    if parentId ≠ group.parentGroupId ∨ defaultsChanged ∨ permissionsChanged group form.permissions then
      inheritingUsers t id
    else []
  return ({ t with groups := t.groups.set id (updatedGroup group form now parentId data) }, affected)

/-- `update(Group).where(...).values(updated_at=now)`. -/
def touch (now : ℤ) (p : String → Bool) (groups : KeyedTable String Group) : KeyedTable String Group :=
  groups.map fun id group => if p id then { group with updatedAt := now } else group

def promoteChildren (id : String) (parentId : Option String) (now : ℤ) (groups : KeyedTable String Group) :
    KeyedTable String Group :=
  groups.map fun _ group =>
    if group.parentGroupId = some id then { group with parentGroupId := parentId, updatedAt := now } else group

/-- `delete_group_by_id`. -/
def deleteGroupById (id : String) (now : ℤ) (t : Tables) : Except GroupError (Tables × List String) := do
  let some group := t.groups.get id | .error (.hierarchy "Group not found." 404)
  return ({
    groups := (promoteChildren id group.parentGroupId now t.groups).delete id
    members := t.members.filter fun m => m.groupId ≠ id
    grants := t.grants.filter fun grant => ¬(grant.principalType = .group ∧ grant.principalId = id)
  }, inheritingUsers t id)

/-- `delete_all_groups`. -/
def deleteAllGroups (t : Tables) : Tables × List String :=
  ({
    groups := KeyedTable.empty
    members := []
    grants := t.grants.filter fun grant => grant.principalType ≠ .group
  }, (t.members.map GroupMember.userId).dedup)

def memberIds (t : Tables) (groupId : String) : List String :=
  ((t.members.filter fun m => m.groupId = groupId).map GroupMember.userId).dedup

def groupIdsOf (t : Tables) (userId : String) : List String :=
  ((t.members.filter fun m => m.userId = userId).map GroupMember.groupId).dedup

/-- `a ^ b`. -/
def symmetricDifference (a b : List String) : List String := a.filter (· ∉ b) ++ b.filter (· ∉ a)

/-- `set_group_user_ids_by_id`. -/
def setGroupUserIdsById (groupId : String) (now : ℤ) (userIds : List String) (t : Tables) :
    Except GroupError (Tables × List String) := do
  let some _ := t.groups.get groupId | .error (.hierarchy "Group not found." 404)
  let previous := memberIds t groupId
  let requested := userIds.dedup
  let kept := t.members.filter fun m => ¬(m.groupId = groupId ∧ m.userId ∈ previous ∧ m.userId ∉ requested)
  let added := (requested.filter (· ∉ previous)).map fun userId => ⟨groupId, userId⟩
  return ({ t with groups := touch now (· = groupId) t.groups, members := kept ++ added },
    symmetricDifference previous requested)

/-- `add_users_to_group`. -/
def addUsersToGroup (id : String) (now : ℤ) (userIds : List String) (t : Tables) :
    Except GroupError (Tables × List String) := do
  let some _ := t.groups.get id | .error (.hierarchy "Group not found." 404)
  let added := userIds.dedup.filter (· ∉ memberIds t id)
  return ({ t with
    groups := touch now (· = id) t.groups
    members := t.members ++ added.map fun userId => ⟨id, userId⟩ }, added)

/-- `remove_users_from_group`. -/
def removeUsersFromGroup (id : String) (now : ℤ) (userIds : List String) (t : Tables) :
    Except GroupError (Tables × List String) := do
  let some _ := t.groups.get id | .error (.hierarchy "Group not found." 404)
  let removed := (t.members.filter fun m => m.groupId = id ∧ m.userId ∈ userIds).map GroupMember.userId
  return ({ t with
    groups := touch now (· = id) t.groups
    members := t.members.filter fun m => ¬(m.groupId = id ∧ m.userId ∈ removed) }, removed)

/-- `select(Group.id).where(Group.name.in_(group_names))`. -/
def groupIdsByNames (t : Tables) (groupNames : List String) : List String :=
  (t.groups.entries.filter fun entry => entry.2.name ∈ groupNames).map Prod.fst

/-- `sync_groups_by_group_names`. -/
def syncGroupsByGroupNames (userId : String) (now : ℤ) (groupNames : List String) (t : Tables) : Tables × List String :=
  let target := groupIdsByNames t groupNames
  let previous := groupIdsOf t userId
  let changed := symmetricDifference previous target
  ({ t with
    groups := touch now (· ∈ changed) t.groups
    members := (t.members.filter fun m => ¬(m.userId = userId ∧ m.groupId ∈ previous ∧ m.groupId ∉ target)) ++
      (target.filter (· ∉ previous)).map fun groupId => ⟨groupId, userId⟩ },
    if changed = [] then [] else [userId])

/-- `remove_user_from_all_groups`. -/
def removeUserFromAllGroups (userId : String) (now : ℤ) (t : Tables) : Tables × List String :=
  ({ t with
    groups := touch now (· ∈ groupIdsOf t userId) t.groups
    members := t.members.filter fun m => m.userId ≠ userId }, [userId])

/-! ## The parent links -/

def hierarchy (groups : KeyedTable String Group) : Hierarchy String := fun id =>
  (groups.get id).map Group.parentGroupId

variable {groups : KeyedTable String Group} {b a userId : String} {groupIds : List String} {t : Tables}

theorem under_hierarchy_iff : Under (hierarchy groups) a b ↔ parentOf groups a = some b := by
  rw [Under, hierarchy, parentOf]
  cases groups.get a with
  | none => simp
  | some group => simp

theorem leads_parentOf (groups : KeyedTable String Group) :
    RecursiveQuery.Leads (fun id => (parentOf groups id).toList) = Under (hierarchy groups) := by
  funext a b
  rw [RecursiveQuery.Leads, Option.mem_toList, under_hierarchy_iff]

theorem mem_childrenOf : b ∈ childrenOf groups a ↔ Under (hierarchy groups) b a := by
  rw [under_hierarchy_iff, parentOf, Option.bind_eq_some_iff, childrenOf]
  simp only [KeyedTable.get_eq_some, List.mem_map, List.mem_filter, decide_eq_true_eq]
  constructor
  · rintro ⟨⟨id, group⟩, ⟨hmem, hparent⟩, rfl⟩
    exact ⟨group, hmem, hparent⟩
  · rintro ⟨group, hmem, hparent⟩
    exact ⟨(b, group), ⟨hmem, hparent⟩, rfl⟩

theorem leads_childrenOf (groups : KeyedTable String Group) :
    RecursiveQuery.Leads (childrenOf groups) = Function.swap (Under (hierarchy groups)) := by
  funext a b
  exact propext mem_childrenOf

theorem mem_parentIds (h : b ∈ (parentOf groups a).toList) : b ∈ parentIds groups := by
  rw [Option.mem_toList, parentOf, Option.bind_eq_some_iff] at h
  obtain ⟨group, hget, hparent⟩ := h
  exact List.mem_filterMap.2 ⟨(a, group), KeyedTable.get_eq_some.1 hget, hparent⟩

theorem mem_keys_of_mem_childrenOf (h : b ∈ childrenOf groups a) : b ∈ groups.keys := by
  obtain ⟨entry, hmem, rfl⟩ := List.mem_map.1 h
  exact List.mem_map.2 ⟨entry, List.mem_of_mem_filter hmem, rfl⟩

theorem mem_roots_iff {id : String} :
    id ∈ groups.keys.filter (· ∈ groupIds) ↔ id ∈ groupIds ∧ (groups.get id).isSome := by
  rw [List.mem_filter, KeyedTable.mem_keys, decide_eq_true_eq, and_comm]

theorem mem_ancestorGroups : b ∈ ancestorGroups groups groupIds ↔
      ∃ a ∈ groupIds, (groups.get a).isSome ∧ Reaches (hierarchy groups) a b := by
  have hclosed : ∀ a ∈ groups.keys.filter (· ∈ groupIds) ++ parentIds groups,
      ∀ c ∈ (parentOf groups a).toList, c ∈ groups.keys.filter (· ∈ groupIds) ++ parentIds groups := by
    intro a _ c hc
    exact List.mem_append_right _ (mem_parentIds hc)
  rw [ancestorGroups, RecursiveQuery.mem_query_iff hclosed (fun a ha => List.mem_append_left _ ha)
    (List.length_append ..).le, leads_parentOf]
  simp only [mem_roots_iff, Reaches, and_assoc]

theorem mem_descendantGroups {root : String} : (root, b) ∈ descendantGroups groups groupIds ↔
      root ∈ groupIds ∧ (groups.get root).isSome ∧ Reaches (hierarchy groups) b root := by
  have hrows : ∀ a, ∀ c ∈ childrenOf groups a, c ∈ groups.keys := fun a c hc => mem_keys_of_mem_childrenOf hc
  have htags : ∀ row ∈ (groups.keys.filter (· ∈ groupIds)).map fun id => (id, id),
      row.1 ∈ groups.keys.filter (· ∈ groupIds) := by
    intro row hrow
    obtain ⟨id, hid, rfl⟩ := List.mem_map.1 hrow
    exact hid
  rw [descendantGroups, RecursiveQuery.mem_query_tagged_iff hrows htags (by rw [List.length_map]),
    leads_childrenOf, ← and_assoc, ← mem_roots_iff]
  simp only [List.mem_map, Prod.mk.injEq, Relation.reflTransGen_swap, Reaches]
  constructor
  · rintro ⟨a, ⟨id, hid, rfl, rfl⟩, hreach⟩
    exact ⟨hid, hreach⟩
  · rintro ⟨hroot, hreach⟩
    exact ⟨root, ⟨root, hroot, rfl, rfl⟩, hreach⟩

theorem mem_userGroupMemberships : (userId, b) ∈ userGroupMemberships t userIds true ↔
      userId ∈ userIds ∧ ∃ a, ⟨a, userId⟩ ∈ t.members ∧ Reaches (hierarchy t.groups) a b := by
  have hrows : ∀ a, ∀ c ∈ (parentOf t.groups a).toList, c ∈ parentIds t.groups := fun a c hc => mem_parentIds hc
  have htags : ∀ row ∈ (t.members.filter fun m => m.userId ∈ userIds).map fun m => (m.userId, m.groupId),
      row.1 ∈ userIds := by
    intro row hrow
    obtain ⟨m, hm, rfl⟩ := List.mem_map.1 hrow
    exact of_decide_eq_true (List.mem_filter.1 hm).2
  rw [userGroupMemberships, if_pos rfl, RecursiveQuery.mem_query_tagged_iff hrows htags le_rfl, leads_parentOf]
  simp only [List.mem_map, List.mem_filter, decide_eq_true_eq, Prod.mk.injEq]
  constructor
  · rintro ⟨a, ⟨m, ⟨hm, huser⟩, rfl, rfl⟩, hreach⟩
    exact ⟨huser, m.groupId, hm, hreach⟩
  · rintro ⟨huser, a, hm, hreach⟩
    exact ⟨a, ⟨⟨a, userId⟩, ⟨hm, huser⟩, rfl, rfl⟩, hreach⟩

theorem mem_getGroupsByMemberId {id : String} {group : Group} : (id, group) ∈ getGroupsByMemberId t userId true ↔
      t.groups.get id = some group ∧ ∃ a, ⟨a, userId⟩ ∈ t.members ∧ Reaches (hierarchy t.groups) a id := by
  simp only [getGroupsByMemberId, List.mem_insertionSort, List.mem_filterMap, Option.map_eq_some_iff, Prod.mk.injEq]
  constructor
  · rintro ⟨⟨user, id'⟩, hrow, group', hget, rfl, rfl⟩
    obtain ⟨huser, hreach⟩ := mem_userGroupMemberships.1 hrow
    cases List.mem_singleton.1 huser
    exact ⟨hget, hreach⟩
  · rintro ⟨hget, hreach⟩
    exact ⟨(userId, id), mem_userGroupMemberships.2 ⟨List.mem_singleton_self userId, hreach⟩, group, hget, rfl, rfl⟩

theorem distinct_getGroupsByMemberId (t : Tables) (userId : String) :
    OrderedMap.Distinct (getGroupsByMemberId t userId true) := by
  have hids : ((userGroupMemberships t [userId] true).map Prod.snd).Nodup := by
    apply List.Nodup.map_on
    · rintro ⟨user, id⟩ hrow ⟨user', id'⟩ hrow' hid
      cases List.mem_singleton.1 (mem_userGroupMemberships.1 hrow).1
      cases List.mem_singleton.1 (mem_userGroupMemberships.1 hrow').1
      cases hid
      rfl
    · exact RecursiveQuery.nodup_query _ _ _
  have hrows : ((userGroupMemberships t [userId] true).filterMap fun row =>
      (t.groups.get row.2).map fun group => (row.2, group)) =
      ((userGroupMemberships t [userId] true).map Prod.snd).filterMap fun id =>
        (t.groups.get id).map fun group => (id, group) := by
    rw [List.filterMap_map]
    rfl
  have hperm := List.perm_insertionSort (fun a b => inOrder a b = true)
    ((userGroupMemberships t [userId] true).filterMap fun row =>
      (t.groups.get row.2).map fun group => (row.2, group))
  rw [OrderedMap.Distinct, OrderedMap.keys, getGroupsByMemberId]
  apply (hperm.map Prod.fst).nodup_iff.2
  rw [hrows, List.map_filterMap]
  refine List.Nodup.filterMap ?_ hids
  intro a a' b hb hb'
  simp only [Option.map_map, Option.mem_def, Option.map_eq_some_iff, Function.comp_apply] at hb hb'
  obtain ⟨_, _, rfl⟩ := hb
  obtain ⟨_, _, heq⟩ := hb'
  exact heq.symm

theorem mem_groupUserMemberships : (root, userId) ∈ groupUserMemberships t groupIds true ↔
      root ∈ groupIds ∧ (t.groups.get root).isSome ∧
        ∃ a, ⟨a, userId⟩ ∈ t.members ∧ Reaches (hierarchy t.groups) a root := by
  rw [groupUserMemberships, if_pos rfl, List.mem_dedup, List.mem_flatMap]
  simp only [List.mem_map, List.mem_filter, decide_eq_true_eq, Prod.mk.injEq]
  constructor
  · rintro ⟨⟨r, a⟩, hrow, m, ⟨hm, rfl⟩, rfl, rfl⟩
    obtain ⟨hroot, hsome, hreach⟩ := mem_descendantGroups.1 hrow
    exact ⟨hroot, hsome, m.groupId, hm, hreach⟩
  · rintro ⟨hroot, hsome, a, hm, hreach⟩
    exact ⟨(root, a), mem_descendantGroups.2 ⟨hroot, hsome, hreach⟩, ⟨a, userId⟩, ⟨hm, rfl⟩, rfl, rfl⟩

inductive Op where
  | insertNewGroup (id : String) (now : ℤ) (userId : String) (form : GroupForm)
  | createGroupsByGroupNames (now : ℤ) (userId : String) (groupNames : List (String × String))
  | updateGroupById (id : String) (now : ℤ) (form : GroupForm)
  | deleteGroupById (id : String) (now : ℤ)
  | deleteAllGroups
  | setGroupUserIdsById (groupId : String) (now : ℤ) (userIds : List String)
  | addUsersToGroup (id : String) (now : ℤ) (userIds : List String)
  | removeUsersFromGroup (id : String) (now : ℤ) (userIds : List String)
  | syncGroupsByGroupNames (userId : String) (now : ℤ) (groupNames : List String)
  | removeUserFromAllGroups (userId : String) (now : ℤ)

def apply (share : Json) : Op → Tables → Except GroupError (Tables × List String)
  | .insertNewGroup id now userId form, t => insertNewGroup share id now userId form t
  | .createGroupsByGroupNames now userId groupNames, t =>
    .ok (createGroupsByGroupNames share now userId (t.groups.entries.map fun entry => entry.2.name) groupNames t, [])
  | .updateGroupById id now form, t => updateGroupById id now form t
  | .deleteGroupById id now, t => deleteGroupById id now t
  | .deleteAllGroups, t => .ok (deleteAllGroups t)
  | .setGroupUserIdsById groupId now userIds, t => setGroupUserIdsById groupId now userIds t
  | .addUsersToGroup id now userIds, t => addUsersToGroup id now userIds t
  | .removeUsersFromGroup id now userIds, t => removeUsersFromGroup id now userIds t
  | .syncGroupsByGroupNames userId now groupNames, t => .ok (syncGroupsByGroupNames userId now groupNames t)
  | .removeUserFromAllGroups userId now, t => .ok (removeUserFromAllGroups userId now t)

def step (share : Json) (t : Tables) (op : Op) : Tables :=
  match apply share op t with
  | .ok (t', _) => t'
  | .error _ => t

def run (share : Json) (t : Tables) (ops : List Op) : Tables := ops.foldl (step share) t

end RyanAI.Access
