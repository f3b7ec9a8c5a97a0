import RyanAI.Access.DefaultModels
import RyanAI.Access.GroupHierarchy
import RyanAI.Access.Permissions

/-!
# Whose sessions a change of the groups refreshes

Every operation returns the users whose live sessions it refreshes. A user who is not among them keeps the groups and
all that permissions and default models are read from (`keepsAccess_apply`); `updated_at` may change, which orders the
groups in `get_permissions`. So undocumented permissions may come out differently (`refresh_misses_reordered_groups`);
for nested dictionaries of truth values that fit each other, over parent links without a cycle, nobody is missed
(`refresh_is_complete`).
-/

namespace RyanAI.Access

open Lib Lib.Hierarchy Lib.Json

/-- The operations of `GroupTable` that refresh sessions. -/
def Op.Refreshing : Op → Prop
  | .insertNewGroup _ _ _ _ => False
  | .createGroupsByGroupNames _ _ _ => False
  | _ => True

/-! ## What a user keeps -/

structure Alike (a b : Group) : Prop extends ResolvesAlike a b where
  permissions : a.permissions = b.permissions ∨
    ∃ x y, a.permissions = some x ∧ b.permissions = some y ∧ (Json.obj x).eqv (.obj y) = true

theorem Alike.refl (a : Group) : Alike a a := ⟨⟨rfl, rfl, .inl rfl⟩, .inl rfl⟩

def AlikeRows (t t' : Tables) (id : String) : Prop :=
  (t.groups.get id = none ∧ t'.groups.get id = none) ∨
    ∃ a b, t'.groups.get id = some a ∧ t.groups.get id = some b ∧ Alike a b

theorem AlikeRows.of_eq {id : String} (h : t'.groups.get id = t.groups.get id) : AlikeRows t t' id := by
  cases hget : t.groups.get id with
  | none => exact .inl ⟨hget, h.trans hget⟩
  | some group => exact .inr ⟨group, group, h.trans hget, hget, Alike.refl group⟩

variable {id a : String} {now : ℤ} {userIds : List String}

structure KeepsAccess (t t' : Tables) (userId : String) : Prop where
  members : ∀ a, ⟨a, userId⟩ ∈ t'.members ↔ ⟨a, userId⟩ ∈ t.members
  rows : ∀ a b, ⟨a, userId⟩ ∈ t.members → Reaches (hierarchy t.groups) a b → AlikeRows t t' b

namespace KeepsAccess

variable {t t' : Tables} {userId : String}

section

variable (h : KeepsAccess t t' userId)

include h

theorem reaches_iff (ha : ⟨a, userId⟩ ∈ t.members) :
    Reaches (hierarchy t'.groups) a b ↔ Reaches (hierarchy t.groups) a b := by
  apply reaches_congr
  intro c hc
  rcases h.rows a c ha hc with ⟨hnone, hnone'⟩ | ⟨x, y, hx, hy, halike⟩
  · rw [hierarchy, hierarchy, hnone, hnone']
  · rw [hierarchy, hierarchy, hx, hy, Option.map_some, Option.map_some, halike.parent]

theorem groups (hmem : (id, b) ∈ getGroupsByMemberId t userId true) :
    ∃ a, (id, a) ∈ getGroupsByMemberId t' userId true ∧ Alike a b := by
  obtain ⟨hget, start, hstart, hreach⟩ := mem_getGroupsByMemberId.1 hmem
  rcases h.rows start id hstart hreach with ⟨hnone, _⟩ | ⟨x, y, hx, hy, halike⟩
  · rw [hget] at hnone
    cases hnone
  · rw [hget] at hy
    cases hy
    exact ⟨x, mem_getGroupsByMemberId.2 ⟨hx, start, (h.members start).2 hstart, (h.reaches_iff hstart).2 hreach⟩,
      halike⟩

theorem groups' {a : Group} (hmem : (id, a) ∈ getGroupsByMemberId t' userId true) :
    ∃ b, (id, b) ∈ getGroupsByMemberId t userId true ∧ Alike a b := by
  obtain ⟨hget, start, hstart', hreach'⟩ := mem_getGroupsByMemberId.1 hmem
  have hstart := (h.members start).1 hstart'
  have hreach := (h.reaches_iff hstart).1 hreach'
  rcases h.rows start id hstart hreach with ⟨_, hnone⟩ | ⟨x, y, hx, hy, halike⟩
  · rw [hget] at hnone
    cases hnone
  · rw [hget] at hx
    cases hx
    exact ⟨y, mem_getGroupsByMemberId.2 ⟨hy, start, hstart, hreach⟩, halike⟩

theorem ids_iff (id : String) : id ∈ (getGroupsByMemberId t' userId true).map Prod.fst ↔
      id ∈ (getGroupsByMemberId t userId true).map Prod.fst := by
  simp only [List.mem_map]
  constructor
  · rintro ⟨⟨id, a⟩, hmem, rfl⟩
    obtain ⟨b, hb, _⟩ := h.groups' hmem
    exact ⟨(id, b), hb, rfl⟩
  · rintro ⟨⟨id, b⟩, hmem, rfl⟩
    obtain ⟨a, ha, _⟩ := h.groups hmem
    exact ⟨(id, a), ha, rfl⟩

theorem sameGroups : SameGroups (getGroupsByMemberId t' userId true) (getGroupsByMemberId t userId true) where
  distinct := distinct_getGroupsByMemberId t' userId
  distinct' := distinct_getGroupsByMemberId t userId
  ids := by
    intro id
    rw [← OrderedMap.mem_keys_iff, ← OrderedMap.mem_keys_iff]
    exact h.ids_iff id
  alike := by
    intro id a b ha hb
    obtain ⟨b', hb', halike⟩ := h.groups' (OrderedMap.mem_of_get ha)
    have heq := hb.symm.trans (OrderedMap.get_of_mem (distinct_getGroupsByMemberId t userId) hb')
    cases heq
    exact halike.toResolvesAlike

end

theorem under_of_parentIn (h : parentIn (getGroupsByMemberId t userId true) a = some b) :
    Under (hierarchy t.groups) a b := by
  obtain ⟨group, hget, hparent⟩ := Option.bind_eq_some_iff.1 h
  have hrow := (mem_getGroupsByMemberId.1 (OrderedMap.mem_of_get hget)).1
  rw [Under, hierarchy, hrow, Option.map_some, (Option.filter_eq_some_iff.1 hparent).1]

theorem defaultModels (h : KeepsAccess t t' userId) (hacyclic : ∀ id, ¬ Above (hierarchy t.groups) id id) :
    SameResult ((resolveGroupDefaultModels (getGroupsByMemberId t' userId true)).map Prod.fst)
      ((resolveGroupDefaultModels (getGroupsByMemberId t userId true)).map Prod.fst) := by
  apply resolveGroupDefaultModels_same h.sameGroups
  intro id hcycle
  rw [← h.sameGroups.parentIn_eq] at hcycle
  exact hacyclic id (Relation.TransGen.mono (fun a b hab => under_of_parentIn hab) id id hcycle)

end KeepsAccess

/-- The permissions are nested dictionaries of truth values that fit the base and each other. -/
structure Documented (base : Dict) (t : Tables) : Prop where
  defaults : BoolTree (.obj base)
  tree : ∀ id group, t.groups.get id = some group → BoolTree (.obj (group.permissions.getD []))
  fits : ∀ id group, t.groups.get id = some group → Compatible (.obj base) (.obj (group.permissions.getD []))
  pairs : ∀ id group id' group', t.groups.get id = some group → t.groups.get id' = some group' →
    Compatible (.obj (group.permissions.getD [])) (.obj (group'.permissions.getD []))

theorem KeepsAccess.getPermissions (h : KeepsAccess t t' userId)
    (hbefore : Documented (basePermissions template defaultPermissions) t)
    (hafter : Documented (basePermissions template defaultPermissions) t') :
    SameResult (getPermissions template t' userId defaultPermissions)
      (getPermissions template t userId defaultPermissions) := by
  have hread : ∀ id a b, (id, a) ∈ getGroupsByMemberId t' userId true →
      (id, b) ∈ getGroupsByMemberId t userId true → Alike a b → ∀ path,
        valueAt path (.obj (a.permissions.getD [])) = valueAt path (.obj (b.permissions.getD [])) := by
    intro id a b ha hb halike path
    have htree := hafter.tree id a (mem_getGroupsByMemberId.1 ha).1
    have htree' := hbefore.tree id b (mem_getGroupsByMemberId.1 hb).1
    rcases halike.permissions with heq | ⟨x, y, hx, hy, heqv⟩
    · rw [heq]
    · rw [hx] at htree
      rw [hy] at htree'
      rw [hx, hy]
      exact (eqv_iff_valueAt htree htree').1 heqv path
  have hrow : ∀ (s : Tables) (dict : Dict), dict ∈ ((getGroupsByMemberId s userId true).map fun entry =>
      entry.2.permissions.getD []) → ∃ id group, s.groups.get id = some group ∧ group.permissions.getD [] = dict := by
    intro s dict hdict
    obtain ⟨⟨id, group⟩, hmem, rfl⟩ := List.mem_map.1 hdict
    exact ⟨id, group, (mem_getGroupsByMemberId.1 hmem).1, rfl⟩
  have hsame := @combineAll_eqv (basePermissions template defaultPermissions)
    ((getGroupsByMemberId t' userId true).map fun entry => entry.2.permissions.getD [])
    ((getGroupsByMemberId t userId true).map fun entry => entry.2.permissions.getD []) hbefore.defaults
    (by
      intro dict hdict
      obtain ⟨id, group, hget, rfl⟩ := hrow t' dict hdict
      exact hafter.tree id group hget)
    (by
      intro dict hdict
      obtain ⟨id, group, hget, rfl⟩ := hrow t dict hdict
      exact hbefore.tree id group hget)
    (by
      intro dict hdict
      obtain ⟨id, group, hget, rfl⟩ := hrow t' dict hdict
      exact hafter.fits id group hget)
    (by
      intro dict hdict
      obtain ⟨id, group, hget, rfl⟩ := hrow t dict hdict
      exact hbefore.fits id group hget)
    (by
      intro dict hdict dict' hdict'
      obtain ⟨id, group, hget, rfl⟩ := hrow t' dict hdict
      obtain ⟨id', group', hget', rfl⟩ := hrow t' dict' hdict'
      exact hafter.pairs id group id' group' hget hget')
    (by
      intro dict hdict dict' hdict'
      obtain ⟨id, group, hget, rfl⟩ := hrow t dict hdict
      obtain ⟨id', group', hget', rfl⟩ := hrow t dict' hdict'
      exact hbefore.pairs id group id' group' hget hget')
    (by
      intro path x
      simp only [List.forall_mem_map]
      constructor
      · rintro hall ⟨id, b⟩ hb
        obtain ⟨a, ha, halike⟩ := h.groups hb
        rw [← hread id a b ha hb halike path]
        exact hall (id, a) ha
      · rintro hall ⟨id, a⟩ ha
        obtain ⟨b, hb, halike⟩ := h.groups' ha
        rw [hread id a b ha hb halike path]
        exact hall (id, b) hb)
  obtain ⟨r, r', hr, hr', heqv⟩ := hsame
  exact .inr ⟨r, r', hr, hr', heqv⟩

/-! ## Users that an operation does not refresh -/

section Operations

variable {t t' : Tables} {users : List String} {userId : String}

theorem not_reaches_of_not_mem_inheritingUsers (hget : t.groups.get id = some group)
    (hnot : userId ∉ inheritingUsers t id) (ha : ⟨a, userId⟩ ∈ t.members) : ¬ Reaches (hierarchy t.groups) a id := by
  intro hreach
  apply hnot
  have hmember : (id, userId) ∈ groupUserMemberships t [id] true := mem_groupUserMemberships.2
    ⟨List.mem_singleton_self id, Option.isSome_iff_exists.2 ⟨group, hget⟩, a, ha, hreach⟩
  exact List.mem_map.2 ⟨(id, userId), hmember, rfl⟩

theorem alikeRows_touch {p : String → Bool} (h : t'.groups = touch now p t.groups) (id : String) :
    AlikeRows t t' id := by
  rw [AlikeRows, h, touch, KeyedTable.get_map]
  cases hget : t.groups.get id with
  | none => exact .inl ⟨rfl, rfl⟩
  | some group =>
    refine .inr ⟨_, group, rfl, rfl, ?_⟩
    split
    · exact ⟨⟨rfl, rfl, .inl rfl⟩, .inl rfl⟩
    · exact Alike.refl group

theorem keepsAccess_touch {now : ℤ} {p : String → Bool} (hgroups : t'.groups = touch now p t.groups)
    (hmembers : ∀ a, ⟨a, userId⟩ ∈ t'.members ↔ ⟨a, userId⟩ ∈ t.members) : KeepsAccess t t' userId :=
  ⟨hmembers, fun _ b _ _ => alikeRows_touch hgroups b⟩

theorem mem_symmetricDifference {a b : List String} {x : String} :
    x ∈ symmetricDifference a b ↔ (x ∈ a ∧ x ∉ b) ∨ (x ∈ b ∧ x ∉ a) := by
  simp [symmetricDifference]

theorem keepsAccess_setGroupUserIdsById
    (h : setGroupUserIdsById groupId now userIds t = .ok (t', users)) (hnot : userId ∉ users) :
    KeepsAccess t t' userId := by
  obtain ⟨hgroups, hmembers, rfl⟩ := setGroupUserIdsById_ok h
  rw [mem_symmetricDifference] at hnot
  apply keepsAccess_touch hgroups
  intro a
  rw [hmembers]
  simp only [List.mem_append, List.mem_filter, List.mem_map, decide_eq_true_eq, GroupMember.mk.injEq]
  constructor
  · rintro (⟨hm, _⟩ | ⟨u, ⟨hu, hnew⟩, rfl, rfl⟩)
    · exact hm
    · exact absurd (.inr ⟨hu, hnew⟩) hnot
  · intro hm
    refine .inl ⟨hm, ?_⟩
    rintro ⟨rfl, hprevious, hgone⟩
    exact hnot (.inl ⟨hprevious, hgone⟩)

theorem keepsAccess_addUsersToGroup (h : addUsersToGroup id now userIds t = .ok (t', users)) (hnot : userId ∉ users) :
    KeepsAccess t t' userId := by
  obtain ⟨hgroups, hmembers, _⟩ := addUsersToGroup_ok h
  apply keepsAccess_touch hgroups
  intro a
  rw [hmembers]
  simp only [List.mem_append, List.mem_map, GroupMember.mk.injEq]
  constructor
  · rintro (hm | ⟨u, hu, rfl, rfl⟩)
    · exact hm
    · exact absurd hu hnot
  · exact .inl

theorem keepsAccess_removeUsersFromGroup (h : removeUsersFromGroup id now userIds t = .ok (t', users))
    (hnot : userId ∉ users) :
    KeepsAccess t t' userId := by
  obtain ⟨hgroups, hmembers, _⟩ := removeUsersFromGroup_ok h
  apply keepsAccess_touch hgroups
  intro a
  rw [hmembers]
  simp only [List.mem_filter, decide_eq_true_eq]
  constructor
  · intro hm
    exact hm.1
  · intro hm
    exact ⟨hm, fun hgone => hnot hgone.2⟩

theorem keepsAccess_syncGroupsByGroupNames {syncedId : String} {groupNames : List String}
    (hnot : userId ∉ (syncGroupsByGroupNames syncedId now groupNames t).2) :
    KeepsAccess t (syncGroupsByGroupNames syncedId now groupNames t).1 userId := by
  refine @keepsAccess_touch t _ userId now (· ∈ symmetricDifference (groupIdsOf t syncedId)
    (groupIdsByNames t groupNames)) rfl ?_
  intro a
  simp only [syncGroupsByGroupNames, List.mem_append, List.mem_filter, List.mem_map, decide_eq_true_eq,
    GroupMember.mk.injEq] at hnot ⊢
  by_cases hsynced : userId = syncedId
  · -- the user is refreshed unless the groups are those of the names already
    subst hsynced
    split at hnot
    · rename_i hnone
      have hsame : ∀ id, ¬((id ∈ groupIdsOf t userId ∧ id ∉ groupIdsByNames t groupNames) ∨
          (id ∈ groupIdsByNames t groupNames ∧ id ∉ groupIdsOf t userId)) := by
        intro id hid
        have hmem := mem_symmetricDifference.2 hid
        rw [hnone] at hmem
        cases hmem
      constructor
      · rintro (⟨hm, _⟩ | ⟨id, ⟨hid, hnew⟩, rfl, _⟩)
        · exact hm
        · exact absurd (.inr ⟨hid, hnew⟩) (hsame id)
      · intro hm
        refine .inl ⟨hm, ?_⟩
        rintro ⟨_, hprevious, hgone⟩
        exact hsame a (.inl ⟨hprevious, hgone⟩)
    · exact absurd (List.mem_singleton_self userId) hnot
  · constructor
    · rintro (⟨hm, _⟩ | ⟨id, _, _, heq⟩)
      · exact hm
      · exact absurd heq.symm hsynced
    · intro hm
      exact .inl ⟨hm, fun hgone => hsynced hgone.1⟩

theorem keepsAccess_removeUserFromAllGroups (hnot : userId ∉ (removeUserFromAllGroups removedId now t).2) :
    KeepsAccess t (removeUserFromAllGroups removedId now t).1 userId := by
  refine @keepsAccess_touch t _ userId now (· ∈ groupIdsOf t removedId) rfl ?_
  intro a
  simp only [removeUserFromAllGroups, List.mem_filter, decide_eq_true_eq] at hnot ⊢
  constructor
  · intro hm
    exact hm.1
  · intro hm
    exact ⟨hm, fun heq => hnot (List.mem_singleton.2 heq)⟩

theorem keepsAccess_deleteAllGroups (hnot : userId ∉ (deleteAllGroups t).2) :
    KeepsAccess t (deleteAllGroups t).1 userId := by
  have hnone : ∀ a, ⟨a, userId⟩ ∉ t.members := by
    intro a hm
    exact hnot (List.mem_dedup.2 (List.mem_map.2 ⟨⟨a, userId⟩, hm, rfl⟩))
  refine ⟨?_, ?_⟩
  · intro a
    exact iff_of_false (List.not_mem_nil) (hnone a)
  · intro a b hm
    exact absurd hm (hnone a)

theorem keepsAccess_deleteGroupById (h : deleteGroupById id now t = .ok (t', users)) (hnot : userId ∉ users) :
    KeepsAccess t t' userId := by
  obtain ⟨group, hget, rfl, rfl⟩ := deleteGroupById_ok h
  have hreach := fun a => not_reaches_of_not_mem_inheritingUsers hget hnot (a := a)
  refine ⟨?_, ?_⟩
  · intro a
    simp only [List.mem_filter, decide_eq_true_eq]
    constructor
    · intro hm
      exact hm.1
    · intro hm
      refine ⟨hm, ?_⟩
      rintro rfl
      exact hreach a hm .refl
  · -- neither the group nor one of its children is above the user
    intro a b hm hab
    apply AlikeRows.of_eq
    have hne : b ≠ id := by
      rintro rfl
      exact hreach a hm hab
    rw [KeyedTable.get_delete, if_neg hne, promoteChildren, KeyedTable.get_map]
    cases hrow : t.groups.get b with
    | none => rfl
    | some row =>
      have hparent : row.parentGroupId ≠ some id := by
        intro hparent
        exact hreach a hm (hab.tail (hierarchy_eq_some_iff.2 ⟨row, hrow, hparent⟩))
      rw [Option.map_some, if_neg hparent]

theorem alike_updatedGroup (hdata : updateData group form.data = .ok (data, false))
    (hpermissions : permissionsChanged group form.permissions = false) :
    Alike (updatedGroup group form now group.parentGroupId data) group := by
  refine ⟨⟨rfl, rfl, ?_⟩, ?_⟩
  · change SameResult (groupDefaultModels data) (groupDefaultModels group.data)
    cases hform : form.data with
    | none =>
      rw [hform] at hdata
      cases hdata
      exact .inl rfl
    | some new =>
      rw [hform] at hdata
      obtain ⟨merged, _, hdata⟩ := bind_eq_ok.1 hdata
      obtain ⟨newModels, hnew, hdata⟩ := bind_eq_ok.1 hdata
      obtain ⟨oldModels, hold, hdata⟩ := bind_eq_ok.1 hdata
      have hpair := Prod.ext_iff.1 (Except.ok.inj hdata)
      have heqv : newModels.eqv oldModels = true := by simpa using hpair.2
      have hmerged : some merged = data := hpair.1
      subst hmerged
      refine .inr ⟨newModels, oldModels, ?_, ?_, heqv⟩
      · cases hmodels : groupDefaultModels (some merged) with
        | ok models =>
          rw [hmodels] at hnew
          cases hnew
          rfl
        | error e =>
          rw [hmodels] at hnew
          cases hnew
      · cases hmodels : groupDefaultModels group.data with
        | ok models =>
          rw [hmodels] at hold
          cases hold
          rfl
        | error e =>
          rw [hmodels] at hold
          cases hold
  · change form.permissions.or group.permissions = group.permissions ∨ _
    cases hform : form.permissions with
    | none => exact .inl (by rw [Option.none_or])
    | some new =>
      rw [hform] at hpermissions
      cases hold : group.permissions with
      | none =>
        rw [permissionsChanged, hold] at hpermissions
        cases hpermissions
      | some old =>
        rw [permissionsChanged, hold] at hpermissions
        refine .inr ⟨new, old, ?_, rfl, by simpa using hpermissions⟩
        change form.permissions.or group.permissions = some new
        rw [hform, Option.some_or]

theorem keepsAccess_updateGroupById (h : updateGroupById id now form t = .ok (t', users))
    (hnot : userId ∉ users) : KeepsAccess t t' userId := by
  obtain ⟨group, parentId, data, defaultsChanged, hget, _, hdata, rfl, rfl⟩ := updateGroupById_ok h
  refine ⟨fun _ => Iff.rfl, ?_⟩
  intro a b hm hab
  by_cases hb : b = id
  · subst hb
    split at hnot
    · -- the group is above the user, so the user would be refreshed
      exact absurd hab (not_reaches_of_not_mem_inheritingUsers hget hnot hm)
    · rename_i hsame
      simp only [ne_eq, not_or, not_not, Bool.not_eq_true] at hsame
      obtain ⟨rfl, rfl, hpermissions⟩ := hsame
      exact .inr ⟨_, group, by rw [KeyedTable.get_set, if_pos rfl], hget, alike_updatedGroup hdata hpermissions⟩
  · apply AlikeRows.of_eq
    rw [KeyedTable.get_set, if_neg hb]

theorem keepsAccess_apply (hop : op.Refreshing) (h : apply share op t = .ok (t', users))
    (hnot : userId ∉ users) : KeepsAccess t t' userId := by
  cases op with
  | insertNewGroup id now userId form => exact hop.elim
  | createGroupsByGroupNames now userId groupNames => exact hop.elim
  | updateGroupById id now form => exact keepsAccess_updateGroupById h hnot
  | deleteGroupById id now => exact keepsAccess_deleteGroupById h hnot
  | deleteAllGroups =>
    cases h
    exact keepsAccess_deleteAllGroups hnot
  | setGroupUserIdsById groupId now userIds => exact keepsAccess_setGroupUserIdsById h hnot
  | addUsersToGroup id now userIds => exact keepsAccess_addUsersToGroup h hnot
  | removeUsersFromGroup id now userIds => exact keepsAccess_removeUsersFromGroup h hnot
  | syncGroupsByGroupNames syncedId now groupNames =>
    cases h
    exact keepsAccess_syncGroupsByGroupNames hnot
  | removeUserFromAllGroups removedId now =>
    cases h
    exact keepsAccess_removeUserFromAllGroups hnot

end Operations

def GroupsDiffer (t t' : Tables) (userId : String) : Prop :=
  ∃ id, ¬(id ∈ (getGroupsByMemberId t' userId true).map Prod.fst ↔
    id ∈ (getGroupsByMemberId t userId true).map Prod.fst)

def PermissionsDiffer (template defaultPermissions : Dict) (t t' : Tables) (userId : String) : Prop :=
  ¬ SameResult (getPermissions template t' userId defaultPermissions)
    (getPermissions template t userId defaultPermissions)

def ModelsDiffer (t t' : Tables) (userId : String) : Prop :=
  ¬ SameResult ((resolveGroupDefaultModels (getGroupsByMemberId t' userId true)).map Prod.fst)
    ((resolveGroupDefaultModels (getGroupsByMemberId t userId true)).map Prod.fst)

/-- Who changes is refreshed, under the condition for each of the three parts. -/
theorem refresh_is_complete (share : Json) (template defaultPermissions : Dict) (op : Op) (hop : op.Refreshing)
    (t t' : Tables) (users : List String) (happly : apply share op t = .ok (t', users)) (userId : String) :
    (GroupsDiffer t t' userId → userId ∈ users) ∧
    ((∀ id, ¬ Above (hierarchy t.groups) id id) → ModelsDiffer t t' userId → userId ∈ users) ∧
    (Documented (basePermissions template defaultPermissions) t →
      Documented (basePermissions template defaultPermissions) t' →
      PermissionsDiffer template defaultPermissions t t' userId → userId ∈ users) := by
  have hkeeps : userId ∉ users → KeepsAccess t t' userId := keepsAccess_apply hop happly
  refine ⟨?_, ?_, ?_⟩
  · rintro ⟨id, hids⟩
    by_contra hnot
    exact hids ((hkeeps hnot).ids_iff id)
  · intro hacyclic hmodels
    by_contra hnot
    exact hmodels ((hkeeps hnot).defaultModels hacyclic)
  · intro hbefore hafter hpermissions
    by_contra hnot
    exact hpermissions ((hkeeps hnot).getPermissions hbefore hafter)

theorem refresh_is_complete_remove :
    let permissions : Dict := [("workspace", .obj [("models", .bool true)])]
    let group : Group := ⟨none, "admin", "A", "", none, some permissions, 0, 0⟩
    let t : Tables := ⟨KeyedTable.empty.set "a" group, [⟨"a", "u"⟩], []⟩
    let t' : Tables := ⟨KeyedTable.empty.set "a" { group with updatedAt := 1 }, [], []⟩
    apply .null (.removeUsersFromGroup "a" 1 ["u", "v"]) t = .ok (t', ["u"]) ∧ "u" ∈ ["u"] := by
  intro permissions group t t'
  have happly : apply .null (.removeUsersFromGroup "a" 1 ["u", "v"]) t = .ok (t', ["u"]) := rfl
  have htree : BoolTree (.obj permissions) := by
    refine .obj _ (by decide) ?_
    rintro entry hentry
    rw [List.mem_singleton.1 hentry]
    refine .obj _ (by decide) ?_
    rintro entry hentry
    rw [List.mem_singleton.1 hentry]
    exact .bool true
  have hdocumented : ∀ (s : Tables) (row : Group), s.groups = KeyedTable.empty.set "a" row →
      row.permissions = some permissions → Documented (basePermissions [] []) s := by
    intro s row hs hrow
    have hget : ∀ id g, s.groups.get id = some g → g.permissions.getD [] = permissions := by
      intro id g hg
      rw [hs, KeyedTable.get_set] at hg
      split at hg
      · cases hg
        rw [hrow]
        rfl
      · cases hg
    refine ⟨boolTree_empty, ?_, ?_, ?_⟩
    · intro id g hg
      rw [hget id g hg]
      exact htree
    · intro id g hg
      exact compatible_empty _
    · intro id g id' g' hg hg'
      rw [hget id g hg, hget id' g' hg']
      exact Compatible.refl _
  have hdiffer : PermissionsDiffer [] [] t t' "u" :=
    @not_sameResult _ _ (.obj []) (.obj permissions) (by decide) (by decide +kernel) (by decide +kernel)
      (by decide)
  have hcomplete := refresh_is_complete .null [] [] (.removeUsersFromGroup "a" 1 ["u", "v"]) trivial t t' ["u"]
    happly "u"
  exact ⟨happly, hcomplete.2.2 (hdocumented t group rfl rfl)
    (hdocumented t' { group with updatedAt := 1 } rfl rfl) hdiffer⟩

/-- A new name moves a group to the front of the combination. -/
theorem refresh_misses_reordered_groups : (let t : Tables := {
        groups := (KeyedTable.empty.set "a" ⟨none, "admin", "A", "", none, some [("quota", .num 1)], 0, 2⟩).set "b"
          ⟨none, "admin", "B", "", none, some [("quota", .num 2)], 0, 1⟩
        members := [⟨"a", "u"⟩, ⟨"b", "u"⟩]
        grants := [] }
      ∃ t', apply .null (.updateGroupById "b" 3 ⟨none, "C", "", none, none⟩) t = .ok (t', []) ∧
        PermissionsDiffer [] [] t t' "u") ∧
    (let models : String → Option Dict := fun id => some [("config", .obj [("default_models", .arr [.str id])])]
      let t : Tables := {
        groups := (KeyedTable.empty.set "a" ⟨some "b", "admin", "A", "", models "m1", none, 0, 2⟩).set "b"
          ⟨some "a", "admin", "B", "", models "m2", none, 0, 1⟩
        members := [⟨"a", "u"⟩]
        grants := [] }
      ∃ t', apply .null (.updateGroupById "b" 3 ⟨none, "C", "", none, none⟩) t = .ok (t', []) ∧
        ModelsDiffer t t' "u") := by
  refine ⟨⟨_, rfl, ?_⟩, ⟨_, rfl, ?_⟩⟩
  · exact @not_sameResult _ _ (.obj [("quota", .num 2)]) (.obj [("quota", .num 1)]) (by decide)
      (by decide) (by decide +kernel) (by decide +kernel)
  · exact @not_sameResult _ _ (.arr [.str "m2"]) (.arr [.str "m1"]) (by decide) (by decide +kernel)
      (by decide) (by decide +kernel)

end RyanAI.Access
