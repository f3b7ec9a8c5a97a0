import RyanAI.Access.Groups

/-!
# Grants of access to resources

`models/access_grants.py`: whether one user has access (`hasAccess`), which of some resources a user has access to
(`getAccessibleResourceIds`) and which users a list of grants gives access (`getUserIdsByAccessGrants`). The first two
close the memberships of the user upwards, the third closes the granted groups downwards; `grant_checks_agree` says that
the three give one answer, whatever the parent links look like.
-/

namespace RyanAI.Access

open Lib Lib.Hierarchy

/-- A row of `user`; its `id` is the key. -/
structure User where
  role : String
  deriving DecidableEq

/-- `role.startswith('!')`. -/
def isExcluding (role : String) : Bool := role.toList.head? = some '!'

/-- The ids that `get_users` returns for a filter of roles and no page. -/
def getUsers (users : KeyedTable String User) (roles : List String) : List String :=
  let includeRoles := roles.filter fun role => !isExcluding role
  let excludeRoles := (roles.filter isExcluding).map fun role => String.ofList role.toList.tail
  (users.filter fun _ user =>
    (includeRoles.isEmpty || user.role ∈ includeRoles) && (excludeRoles.isEmpty || user.role ∉ excludeRoles)).keys

/-! ## The checks -/

def wildcardPrincipalId : String := "*"

def grantConditions (userId : String) (userGroupIds : List String) : List (AccessGrant → Bool) :=
  let everyone : AccessGrant → Bool := fun grant =>
    grant.principalType = .user ∧ grant.principalId = wildcardPrincipalId
  let direct : AccessGrant → Bool := fun grant => grant.principalType = .user ∧ grant.principalId = userId
  let inherited : AccessGrant → Bool := fun grant =>
    grant.principalType = .group ∧ grant.principalId ∈ userGroupIds
  [everyone, direct] ++ if userGroupIds = [] then [] else [inherited]

def userGroupIds (t : Tables) (userId : String) (given : Option (List String)) : List String :=
  given.getD ((getGroupsByMemberId t userId true).map Prod.fst)

/-- `AccessGrants.has_access`. -/
def hasAccess (t : Tables) (userId resourceType resourceId permission : String)
    (givenGroupIds : Option (List String)) : Bool :=
  t.grants.any fun grant =>
    grant.resourceType = resourceType ∧ grant.resourceId = resourceId ∧ grant.permission = permission ∧
      (grantConditions userId (userGroupIds t userId givenGroupIds)).any (· grant)

/-- `AccessGrants.get_accessible_resource_ids`. -/
def getAccessibleResourceIds (t : Tables) (userId resourceType : String) (resourceIds : List String)
    (permission : String) (givenGroupIds : Option (List String)) : List String :=
  if resourceIds = [] then []
  else ((t.grants.filter fun grant =>
    grant.resourceType = resourceType ∧ grant.resourceId ∈ resourceIds ∧ grant.permission = permission ∧
      (grantConditions userId (userGroupIds t userId givenGroupIds)).any (· grant)).map
        AccessGrant.resourceId).dedup

/-- `AccessGrants.get_grants_by_resource`. -/
def getGrantsByResource (t : Tables) (resourceType resourceId : String) : List AccessGrant :=
  t.grants.filter fun grant => grant.resourceType = resourceType ∧ grant.resourceId = resourceId

/-- The loop of `get_user_ids_by_access_grants`; `none` once a grant for every user is met. -/
def grantedPrincipals (permission : String) :
    List AccessGrant → List String → List String → Option (List String × List String)
  | [], userIds, groupIds => some (userIds, groupIds)
  | grant :: rest, userIds, groupIds =>
    if grant.permission ≠ permission then grantedPrincipals permission rest userIds groupIds
    else match grant.principalType with
      | .user =>
        if grant.principalId = wildcardPrincipalId then none
        else grantedPrincipals permission rest (grant.principalId :: userIds) groupIds
      | .group => grantedPrincipals permission rest userIds (groupIds ++ [grant.principalId])
      | .anyone => grantedPrincipals permission rest userIds groupIds

/-- `AccessGrants.get_user_ids_by_access_grants`. -/
def getUserIdsByAccessGrants (t : Tables) (users : KeyedTable String User) (accessGrants : List AccessGrant)
    (permission : String) : List String :=
  match grantedPrincipals permission accessGrants [] [] with
  | none => getUsers users ["!pending"]
  | some (userIds, groupIds) =>
    if groupIds = [] then userIds
    else userIds ++ (getGroupUserIdsByIds t groupIds true).flatMap Prod.snd

variable {userId permission : String} {t : Tables} {groupIds : List String} {grants : List AccessGrant}

theorem mem_inheritedIds {id : String} : id ∈ (getGroupsByMemberId t userId true).map Prod.fst ↔
      (t.groups.get id).isSome ∧ ∃ a, ⟨a, userId⟩ ∈ t.members ∧ Reaches (hierarchy t.groups) a id := by
  rw [List.mem_map]
  constructor
  · rintro ⟨⟨id', group⟩, hmem, rfl⟩
    obtain ⟨hget, hreach⟩ := mem_getGroupsByMemberId.1 hmem
    exact ⟨Option.isSome_iff_exists.2 ⟨group, hget⟩, hreach⟩
  · rintro ⟨hsome, hreach⟩
    obtain ⟨group, hget⟩ := Option.isSome_iff_exists.1 hsome
    exact ⟨(id, group), mem_getGroupsByMemberId.2 ⟨hget, hreach⟩, rfl⟩

theorem mem_getGroupUserIdsByIds : userId ∈ (getGroupUserIdsByIds t groupIds true).flatMap Prod.snd ↔
      ∃ id ∈ groupIds, (id, userId) ∈ groupUserMemberships t groupIds true := by
  simp only [getGroupUserIdsByIds, List.flatMap_map, List.mem_flatMap, List.mem_map, List.mem_filter, decide_eq_true_eq]
  constructor
  · rintro ⟨id, hid, ⟨root, user⟩, ⟨hrow, rfl⟩, rfl⟩
    exact ⟨root, hid, hrow⟩
  · rintro ⟨id, hid, hrow⟩
    exact ⟨id, hid, (id, userId), ⟨hrow, rfl⟩, rfl⟩

theorem inherits_iff_member {id : String} (hid : id ∈ groupIds) :
    id ∈ (getGroupsByMemberId t userId true).map Prod.fst ↔ (id, userId) ∈ groupUserMemberships t groupIds true := by
  rw [mem_inheritedIds, mem_groupUserMemberships]
  constructor
  · intro h
    exact ⟨hid, h⟩
  · intro h
    exact h.2

def Grants (userId : String) (groupIds : List String) (grant : AccessGrant) : Prop :=
  (grant.principalType = .user ∧ grant.principalId = wildcardPrincipalId) ∨
    (grant.principalType = .user ∧ grant.principalId = userId) ∨
      (grant.principalType = .group ∧ grant.principalId ∈ groupIds)

theorem grantConditions_iff :
    (grantConditions userId groupIds).any (· grant) = true ↔ Grants userId groupIds grant := by
  by_cases hnil : groupIds = [] <;> simp [grantConditions, Grants, hnil]

theorem hasAccess_iff {resourceType resourceId : String} :
    hasAccess t userId resourceType resourceId permission given = true ↔
      ∃ grant ∈ getGrantsByResource t resourceType resourceId, grant.permission = permission ∧
        Grants userId (userGroupIds t userId given) grant := by
  rw [hasAccess, List.any_eq_true]
  simp only [decide_eq_true_eq, grantConditions_iff, getGrantsByResource, List.mem_filter]
  constructor
  · rintro ⟨grant, hmem, htype, hid, hrest⟩
    exact ⟨grant, ⟨hmem, htype, hid⟩, hrest⟩
  · rintro ⟨grant, ⟨hmem, htype, hid⟩, hrest⟩
    exact ⟨grant, hmem, htype, hid, hrest⟩

theorem mem_getAccessibleResourceIds {resourceType : String} :
    resourceId ∈ getAccessibleResourceIds t userId resourceType resourceIds permission given ↔
      resourceId ∈ resourceIds ∧ hasAccess t userId resourceType resourceId permission given = true := by
  rw [hasAccess_iff, getAccessibleResourceIds]
  split
  · rename_i hnil
    simp [hnil]
  simp only [List.mem_dedup, List.mem_map, List.mem_filter, decide_eq_true_eq, grantConditions_iff, getGrantsByResource]
  constructor
  · rintro ⟨grant, ⟨hmem, htype, hid, hrest⟩, rfl⟩
    exact ⟨hid, grant, ⟨hmem, htype, rfl⟩, hrest⟩
  · rintro ⟨hid, grant, ⟨hmem, htype, rfl⟩, hrest⟩
    exact ⟨grant, ⟨hmem, htype, hid, hrest⟩, rfl⟩

theorem grantedPrincipals_eq_none : grantedPrincipals permission grants userIds groupIds = none ↔
      ∃ grant ∈ grants, grant.permission = permission ∧ grant.principalType = .user ∧
        grant.principalId = wildcardPrincipalId := by
  induction grants generalizing userIds groupIds with
  | nil => simp [grantedPrincipals]
  | cons grant rest ih =>
    rw [grantedPrincipals]
    split
    · rename_i hother
      simp [ih, hother]
    rename_i hsame
    cases hprincipal : grant.principalType with
    | user =>
      by_cases hwild : grant.principalId = wildcardPrincipalId
      · simp [hwild, hprincipal, not_not.1 hsame]
      · simp [hwild, ih]
    | group => simp [ih, hprincipal]
    | anyone => simp [ih, hprincipal]

theorem grantedPrincipals_eq_some
    (h : grantedPrincipals permission grants userIds groupIds = some (userIds', groupIds')) :
    (∀ id, id ∈ userIds' ↔ id ∈ userIds ∨ ∃ grant ∈ grants, grant.permission = permission ∧
      grant.principalType = .user ∧ grant.principalId = id) ∧
    (∀ id, id ∈ groupIds' ↔ id ∈ groupIds ∨ ∃ grant ∈ grants, grant.permission = permission ∧
      grant.principalType = .group ∧ grant.principalId = id) := by
  induction grants generalizing userIds groupIds with
  | nil =>
    cases h
    simp
  | cons grant rest ih =>
    rw [grantedPrincipals] at h
    split at h
    · rename_i hother
      simpa [hother] using ih h
    rename_i hsame
    have hperm := not_not.1 hsame
    cases hprincipal : grant.principalType with
    | user =>
      simp only [hprincipal] at h
      split at h
      · cases h
      obtain ⟨husers, hgroups⟩ := ih h
      refine ⟨fun id => ?_, fun id => ?_⟩
      · rw [husers]
        simp only [List.mem_cons, exists_eq_or_imp, hperm, hprincipal, true_and, @eq_comm _ id]
        tauto
      · rw [hgroups]
        simp [hprincipal]
    | group =>
      simp only [hprincipal] at h
      obtain ⟨husers, hgroups⟩ := ih h
      refine ⟨fun id => ?_, fun id => ?_⟩
      · rw [husers]
        simp [hprincipal]
      · rw [hgroups]
        simp only [List.mem_append, List.mem_cons, exists_eq_or_imp, hperm, hprincipal, true_and, @eq_comm _ id]
        tauto
    | anyone =>
      simp only [hprincipal] at h
      simpa [hprincipal] using ih h

/-- `{'roles': ['!pending']}` selects the users that are not pending. -/
theorem mem_getUsers (hget : users.get userId = some user) (hrole : user.role ≠ "pending") :
    userId ∈ getUsers users ["!pending"] := by
  have hinclude : (["!pending"].filter fun role => !isExcluding role) = [] := by decide
  have hexclude : ((["!pending"].filter isExcluding).map fun role => String.ofList role.toList.tail) =
      ["pending"] := by decide
  rw [getUsers, hinclude, hexclude, KeyedTable.mem_keys, KeyedTable.get_filter, hget]
  simp [hrole]

theorem mem_getUserIdsByAccessGrants (hget : users.get userId = some user) (hrole : user.role ≠ "pending") :
    userId ∈ getUserIdsByAccessGrants t users grants permission ↔ ∃ grant ∈ grants, grant.permission = permission ∧
        Grants userId ((getGroupsByMemberId t userId true).map Prod.fst) grant := by
  rw [getUserIdsByAccessGrants]
  cases hloop : grantedPrincipals permission grants [] [] with
  | none =>
    obtain ⟨grant, hmem, hperm, hwild⟩ := grantedPrincipals_eq_none.1 hloop
    exact iff_of_true (mem_getUsers hget hrole) ⟨grant, hmem, hperm, .inl hwild⟩
  | some principals =>
    obtain ⟨userIds, groupIds⟩ := principals
    obtain ⟨husers, hgroups⟩ := grantedPrincipals_eq_some hloop
    have hnowild : ¬ ∃ grant ∈ grants, grant.permission = permission ∧ grant.principalType = .user ∧
        grant.principalId = wildcardPrincipalId := by
      intro hwild
      rw [grantedPrincipals_eq_none.2 hwild] at hloop
      cases hloop
    -- both branches of the source give the named users and the members of the named groups
    have hsplit : userId ∈ (if groupIds = [] then userIds
        else userIds ++ (getGroupUserIdsByIds t groupIds true).flatMap Prod.snd) ↔
        userId ∈ userIds ∨ ∃ id ∈ groupIds, (id, userId) ∈ groupUserMemberships t groupIds true := by
      rw [← mem_getGroupUserIdsByIds]
      split
      · rename_i hnil
        simp [hnil, getGroupUserIdsByIds]
      · rw [List.mem_append]
    rw [hsplit, husers]
    constructor
    · rintro ((hnil | ⟨grant, hmem, hperm, hprincipal⟩) | ⟨id, hid, hmember⟩)
      · cases hnil
      · exact ⟨grant, hmem, hperm, .inr (.inl hprincipal)⟩
      · rcases (hgroups id).1 hid with hnil | ⟨grant, hmem, hperm, hgroup, rfl⟩
        · cases hnil
        · exact ⟨grant, hmem, hperm, .inr (.inr ⟨hgroup, (inherits_iff_member hid).2 hmember⟩)⟩
    · rintro ⟨grant, hmem, hperm, hwild | hprincipal | ⟨hgroup, hinherits⟩⟩
      · exact absurd ⟨grant, hmem, hperm, hwild⟩ hnowild
      · exact .inl (.inr ⟨grant, hmem, hperm, hprincipal⟩)
      · have hid := (hgroups grant.principalId).2 (.inr ⟨grant, hmem, hperm, hgroup, rfl⟩)
        exact .inr ⟨grant.principalId, hid, (inherits_iff_member hid).1 hinherits⟩

/-- The three checks agree for a user who is not pending. -/
theorem grant_checks_agree (t : Tables) (users : KeyedTable String User) (userId : String) (user : User)
    (hget : users.get userId = some user) (hrole : user.role ≠ "pending")
    (resourceType resourceId permission : String) :
    (∀ resourceIds, resourceId ∈ resourceIds →
      (hasAccess t userId resourceType resourceId permission none = true ↔
        resourceId ∈ getAccessibleResourceIds t userId resourceType resourceIds permission none)) ∧
    (hasAccess t userId resourceType resourceId permission none = true ↔
      userId ∈ getUserIdsByAccessGrants t users (getGrantsByResource t resourceType resourceId) permission) ∧
    ∀ id, id ∈ (getGroupsByMemberId t userId true).map Prod.fst ↔
      userId ∈ (getGroupUserIdsByIds t [id] true).flatMap Prod.snd := by
  refine ⟨?_, ?_, ?_⟩
  · intro resourceIds hmem
    rw [mem_getAccessibleResourceIds]
    exact ⟨fun h => ⟨hmem, h⟩, fun h => h.2⟩
  · rw [hasAccess_iff, mem_getUserIdsByAccessGrants hget hrole]
    rfl
  · intro id
    rw [mem_getGroupUserIdsByIds, inherits_iff_member (List.mem_singleton_self id)]
    simp

theorem grant_checks_agree_cycle :
    let group : String → Group := fun parent => ⟨some parent, "admin", "", "", none, none, 0, 0⟩
    let t : Tables := {
      groups := (KeyedTable.empty.set "a" (group "b")).set "b" (group "a")
      members := [⟨"b", "u"⟩]
      grants := [⟨"model", "m", .group, "a", "read"⟩] }
    hasAccess t "u" "model" "m" "read" none = true ∧
      "u" ∈ getUserIdsByAccessGrants t (KeyedTable.empty.set "u" ⟨"user"⟩)
        (getGrantsByResource t "model" "m") "read" := by
  intro group t
  have haccess : hasAccess t "u" "model" "m" "read" none = true := by decide +kernel
  have hagree := grant_checks_agree t (KeyedTable.empty.set "u" ⟨"user"⟩) "u" ⟨"user"⟩ (by simp) (by decide)
    "model" "m" "read"
  exact ⟨haccess, hagree.2.1.1 haccess⟩

end RyanAI.Access
