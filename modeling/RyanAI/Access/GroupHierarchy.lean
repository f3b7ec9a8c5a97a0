import RyanAI.Access.Groups

/-!
# The group hierarchy is a forest

Each operation is one edit of the parent links: a row that is set hangs its group under the parent it names
(`hierarchy_set`), a deletion splices the group out (`hierarchy_deleteGroupById`), and the membership
operations change no link. `validate_parent` accepts a parent only if the group is not above it or equal to it
(`validateParent_ok`), so the links stay a forest in every run (`forest_run`).
-/

namespace RyanAI.Access

open Lib Lib.Hierarchy

/-! ## What the operations return -/

variable {id : String} {now : ℤ} {form : GroupForm} {groups : KeyedTable String Group} {parentId : Option String}
    {userIds : List String}

section Inversion

variable {share : Json} {t t' : Tables} {users : List String}

theorem insertNewGroup_ok (h : insertNewGroup share id now userId form t = .ok (t', users)) :
    validateParent t.groups none form.parent = .ok () ∧ t.groups.get id = none ∧
      t' = { t with groups := t.groups.set id (newGroup share userId form now) } ∧ users = [] := by
  obtain ⟨_, hvalid, h⟩ := bind_eq_ok.1 h
  split at h
  · cases h
  · rename_i hnone
    cases h
    exact ⟨hvalid, by simpa using hnone, rfl, rfl⟩

theorem updateParent_ok (h : updateParent groups id group requested = .ok parentId) :
    parentId = group.parentGroupId ∨ validateParent groups (some id) parentId = .ok () := by
  cases requested with
  | none =>
    cases h
    exact .inl rfl
  | some requested =>
    obtain ⟨_, hvalid, h⟩ := bind_eq_ok.1 h
    cases h
    exact .inr hvalid

theorem updateGroupById_ok (h : updateGroupById id now form t = .ok (t', users)) :
    ∃ group parentId data defaultsChanged, t.groups.get id = some group ∧
      (parentId = group.parentGroupId ∨ validateParent t.groups (some id) parentId = .ok ()) ∧
      updateData group form.data = .ok (data, defaultsChanged) ∧
      t' = { t with groups := t.groups.set id (updatedGroup group form now parentId data) } ∧
      users = if parentId ≠ group.parentGroupId ∨ defaultsChanged ∨ permissionsChanged group form.permissions then
        inheritingUsers t id else [] := by
  rw [updateGroupById] at h
  cases hget : t.groups.get id with
  | none =>
    rw [hget] at h
    cases h
  | some group =>
    simp only [hget] at h
    obtain ⟨parentId, hparent, h⟩ := bind_eq_ok.1 h
    obtain ⟨⟨data, defaultsChanged⟩, hdata, h⟩ := bind_eq_ok.1 h
    cases h
    exact ⟨group, parentId, data, defaultsChanged, rfl, updateParent_ok hparent, hdata, rfl, rfl⟩

theorem deleteGroupById_ok (h : deleteGroupById id now t = .ok (t', users)) : ∃ group, t.groups.get id = some group ∧
      t' = {
        groups := (promoteChildren id group.parentGroupId now t.groups).delete id
        members := t.members.filter fun m => m.groupId ≠ id
        grants := t.grants.filter fun grant => ¬(grant.principalType = .group ∧ grant.principalId = id) } ∧
      users = inheritingUsers t id := by
  rw [deleteGroupById] at h
  cases hget : t.groups.get id with
  | none =>
    rw [hget] at h
    cases h
  | some group =>
    simp only [hget] at h
    cases h
    exact ⟨group, rfl, rfl, rfl⟩

theorem setGroupUserIdsById_ok (h : setGroupUserIdsById groupId now userIds t = .ok (t', users)) :
    t'.groups = touch now (· = groupId) t.groups ∧ t'.members = (t.members.filter fun m =>
          ¬(m.groupId = groupId ∧ m.userId ∈ memberIds t groupId ∧ m.userId ∉ userIds.dedup)) ++
        (userIds.dedup.filter (· ∉ memberIds t groupId)).map (fun userId => ⟨groupId, userId⟩) ∧
      users = symmetricDifference (memberIds t groupId) userIds.dedup := by
  rw [setGroupUserIdsById] at h
  cases hget : t.groups.get groupId with
  | none =>
    rw [hget] at h
    cases h
  | some group =>
    simp only [hget] at h
    cases h
    exact ⟨rfl, rfl, rfl⟩

theorem addUsersToGroup_ok (h : addUsersToGroup id now userIds t = .ok (t', users)) :
    t'.groups = touch now (· = id) t.groups ∧
      t'.members = t.members ++ users.map (fun userId => ⟨id, userId⟩) ∧
      users = userIds.dedup.filter (· ∉ memberIds t id) := by
  rw [addUsersToGroup] at h
  cases hget : t.groups.get id with
  | none =>
    rw [hget] at h
    cases h
  | some group =>
    simp only [hget] at h
    cases h
    exact ⟨rfl, rfl, rfl⟩

theorem removeUsersFromGroup_ok (h : removeUsersFromGroup id now userIds t = .ok (t', users)) :
    t'.groups = touch now (· = id) t.groups ∧
      t'.members = t.members.filter (fun m => ¬(m.groupId = id ∧ m.userId ∈ users)) ∧
      users = (t.members.filter fun m => m.groupId = id ∧ m.userId ∈ userIds).map GroupMember.userId := by
  rw [removeUsersFromGroup] at h
  cases hget : t.groups.get id with
  | none =>
    rw [hget] at h
    cases h
  | some group =>
    simp only [hget] at h
    cases h
    exact ⟨rfl, rfl, rfl⟩

end Inversion

theorem hierarchy_set (groups : KeyedTable String Group) (id : String) (group : Group) :
    hierarchy (groups.set id group) = hang id group.parentGroupId (hierarchy groups) := by
  funext a
  by_cases ha : a = id
  · subst ha
    simp [hierarchy, hang]
  · simp [hierarchy, hang, ha]

@[simp]
theorem hierarchy_touch (now : ℤ) (p : String → Bool) (groups : KeyedTable String Group) :
    hierarchy (touch now p groups) = hierarchy groups := by
  funext a
  simp only [hierarchy, touch, KeyedTable.get_map, Option.map_map]
  congr 1
  funext group
  simp only [Function.comp_apply]
  split <;> rfl

theorem hierarchy_promote_delete (groups : KeyedTable String Group) (id : String) (parentId : Option String) (now : ℤ) :
    hierarchy ((promoteChildren id parentId now groups).delete id) = splice id parentId (hierarchy groups) := by
  funext a
  by_cases ha : a = id
  · simp [hierarchy, splice, ha]
  simp only [hierarchy, splice, promoteChildren, KeyedTable.get_delete, KeyedTable.get_map, if_neg ha, Option.map_map]
  congr 1
  funext group
  simp only [Function.comp_apply]
  split <;> rfl

theorem hierarchy_eq_some_iff :
    hierarchy groups id = some parentId ↔ ∃ group, groups.get id = some group ∧ group.parentGroupId = parentId :=
  Option.map_eq_some_iff

theorem validateParent_ok (h : validateParent groups groupId parentId = .ok ()) (hy : parentId = some y) :
    (hierarchy groups y).isSome ∧ ∀ id, groupId = some id → ¬ Reaches (hierarchy groups) y id := by
  subst hy
  simp only [validateParent] at h
  split at h
  · cases h
  split at h
  · cases h
  rename_i hfound
  split at h
  · cases h
  rename_i hcycle
  have hsome : (groups.get y).isSome := by
    cases hget : groups.get y with
    | none => simp [hget] at hfound
    | some group => rfl
  refine ⟨by rwa [hierarchy, Option.isSome_map], ?_⟩
  rintro id rfl hreach
  apply hcycle
  rw [List.any_eq_true]
  exact ⟨id, mem_ancestorGroups.2 ⟨y, List.mem_singleton_self y, hsome, hreach⟩, by simp⟩

/-! ## Every operation keeps a forest -/

section Forest

variable {share : Json} {t t' : Tables} {users : List String}

theorem forest_insertNewGroup (hforest : Forest (hierarchy t.groups))
    (h : insertNewGroup share id now userId form t = .ok (t', users)) : Forest (hierarchy t'.groups) := by
  obtain ⟨hvalid, hnone, rfl, _⟩ := insertNewGroup_ok h
  have habsent : hierarchy t.groups id = none := by rw [hierarchy, hnone, Option.map_none]
  rw [hierarchy_set]
  apply hforest.hang
  intro y hy
  have hsome := (validateParent_ok hvalid hy).1
  exact ⟨hsome, hforest.not_reaches_of_none habsent hsome⟩

theorem forest_createGroupsByGroupNames (now : ℤ) (userId : String) (existing : List String)
    (groupNames : List (String × String)) (hforest : Forest (hierarchy t.groups)) :
    Forest (hierarchy (createGroupsByGroupNames share now userId existing groupNames t).groups) := by
  induction groupNames generalizing t with
  | nil => exact hforest
  | cons entry rest ih =>
    rw [createGroupsByGroupNames, List.foldl_cons]
    apply ih
    split
    · exact hforest
    · rw [hierarchy_set]
      apply hforest.hang
      intro y hy
      cases hy

section

variable (hforest : Forest (hierarchy t.groups))

include hforest

theorem forest_updateGroupById (h : updateGroupById id now form t = .ok (t', users)) :
    Forest (hierarchy t'.groups) := by
  obtain ⟨group, parentId, data, _, hget, hparent, _, rfl, _⟩ := updateGroupById_ok h
  rw [hierarchy_set]
  rcases hparent with rfl | hvalid
  · -- the parent stays
    have hself : hierarchy t.groups id = some group.parentGroupId := hierarchy_eq_some_iff.2 ⟨group, hget, rfl⟩
    rw [hang, updatedGroup, ← hself, Function.update_eq_self]
    exact hforest
  · apply hforest.hang
    intro y hy
    obtain ⟨hsome, hcycle⟩ := validateParent_ok hvalid hy
    exact ⟨hsome, hcycle id rfl⟩

theorem forest_deleteGroupById (h : deleteGroupById id now t = .ok (t', users)) : Forest (hierarchy t'.groups) := by
  obtain ⟨group, hget, rfl, _⟩ := deleteGroupById_ok h
  rw [hierarchy_promote_delete]
  exact hforest.splice (hierarchy_eq_some_iff.2 ⟨group, hget, rfl⟩)

theorem forest_apply (h : apply share op t = .ok (t', users)) : Forest (hierarchy t'.groups) := by
  cases op with
  | insertNewGroup id now userId form => exact forest_insertNewGroup hforest h
  | createGroupsByGroupNames now userId groupNames =>
    cases h
    exact forest_createGroupsByGroupNames now userId _ groupNames hforest
  | updateGroupById id now form => exact forest_updateGroupById hforest h
  | deleteGroupById id now => exact forest_deleteGroupById hforest h
  | deleteAllGroups =>
    cases h
    exact forest_empty
  | setGroupUserIdsById groupId now userIds =>
    rw [(setGroupUserIdsById_ok h).1, hierarchy_touch]
    exact hforest
  | addUsersToGroup id now userIds =>
    rw [(addUsersToGroup_ok h).1, hierarchy_touch]
    exact hforest
  | removeUsersFromGroup id now userIds =>
    rw [(removeUsersFromGroup_ok h).1, hierarchy_touch]
    exact hforest
  | syncGroupsByGroupNames userId now groupNames =>
    cases h
    simpa only [syncGroupsByGroupNames, hierarchy_touch] using hforest
  | removeUserFromAllGroups userId now =>
    cases h
    simpa only [removeUserFromAllGroups, hierarchy_touch] using hforest

end

theorem forest_step (op : Op) (hforest : Forest (hierarchy t.groups)) :
    Forest (hierarchy (step share t op).groups) := by
  rw [step]
  split
  · rename_i hok
    exact forest_apply hforest hok
  · exact hforest

theorem forest_run (ops : List Op) (hforest : Forest (hierarchy t.groups)) :
    Forest (hierarchy (run share t ops).groups) := by
  induction ops generalizing t with
  | nil => exact hforest
  | cons op ops ih => exact ih (forest_step op hforest)

theorem forest_of_no_parents (h : ∀ id group, t.groups.get id = some group → group.parentGroupId = none) :
    Forest (hierarchy t.groups) := by
  have hunder : ∀ a b, ¬ Under (hierarchy t.groups) a b := by
    intro a b hab
    obtain ⟨group, hget, hparent⟩ := hierarchy_eq_some_iff.1 hab
    rw [h a group hget] at hparent
    cases hparent
  refine ⟨fun a b hab => absurd hab (hunder a b), ?_⟩
  intro a ha
  obtain ⟨b, hab, _⟩ := Relation.TransGen.head'_iff.1 ha
  exact hunder a b hab

end Forest

/-- In every run: parents exist, nobody is above itself, a deletion keeps the order among the
others. -/
theorem group_hierarchy_run (share : Json) (t₀ : Tables)
    (hstart : ∀ id group, t₀.groups.get id = some group → group.parentGroupId = none) (ops : List Op) :
    let t := run share t₀ ops
    (∀ id group parentId, t.groups.get id = some group → group.parentGroupId = some parentId →
      (t.groups.get parentId).isSome) ∧
    (∀ id, ¬ Above (hierarchy t.groups) id id) ∧
    ∀ id group now, t.groups.get id = some group → ∃ t' users, deleteGroupById id now t = .ok (t', users) ∧
      t'.groups.get id = none ∧
      (∀ child childGroup, child ≠ id → t.groups.get child = some childGroup →
        (t'.groups.get child).map Group.parentGroupId =
          some (if childGroup.parentGroupId = some id then group.parentGroupId else childGroup.parentGroupId)) ∧
      ∀ a b, a ≠ id → b ≠ id → (Above (hierarchy t'.groups) a b ↔ Above (hierarchy t.groups) a b) := by
  intro t
  have hforest : Forest (hierarchy t.groups) := forest_run ops (forest_of_no_parents hstart)
  refine ⟨?_, hforest.acyclic, ?_⟩
  · intro id group parentId hget hparent
    have hsome := hforest.resolved id parentId (hierarchy_eq_some_iff.2 ⟨group, hget, hparent⟩)
    rwa [hierarchy, Option.isSome_map] at hsome
  intro id group now hget
  refine ⟨_, _, by rw [deleteGroupById, hget]; rfl, by simp, ?_, ?_⟩
  · intro child childGroup hne hchild
    have hsplice := congrFun (hierarchy_promote_delete t.groups id group.parentGroupId now) child
    simpa [hierarchy, splice, hne, hchild] using hsplice
  · intro a b ha hb
    simp only [hierarchy_promote_delete]
    exact splice_above_iff hforest (hierarchy_eq_some_iff.2 ⟨group, hget, rfl⟩) ha hb

theorem group_hierarchy_run_child :
    let t := run (.str "members") Tables.empty
      [.insertNewGroup "a" 1 "u" ⟨none, "A", "", none, none⟩,
       .insertNewGroup "b" 2 "u" ⟨some (some "a"), "B", "", none, none⟩]
    parentOf t.groups "b" = some "a" ∧ (t.groups.get "a").isSome := by
  intro t
  have hrun := group_hierarchy_run (.str "members") Tables.empty
    (by
      intro id group hget
      cases hget)
    [.insertNewGroup "a" 1 "u" ⟨none, "A", "", none, none⟩,
     .insertNewGroup "b" 2 "u" ⟨some (some "a"), "B", "", none, none⟩]
  have hparent : parentOf t.groups "b" = some "a" := by decide +kernel
  obtain ⟨group, hget, hgroup⟩ := Option.bind_eq_some_iff.1 hparent
  exact ⟨hparent, hrun.1 "b" group "a" hget hgroup⟩

end RyanAI.Access
