import RyanAI.Access.Permissions
import RyanAI.Lib.TreeShape

/-!
# One permission, and all of them

`has_permission` of `utils/access_control/__init__.py` reads one key in the permissions of each group and then in the
defaults; `get_permissions` combines all of them into one tree. For permissions of one shape and a key that leads to
a truth value, the check is true exactly if the tree says so, and the order of the groups does not count
(`permission_checks_agree`).
-/

namespace RyanAI.Access

open Lib Lib.Json

/-! ## The check -/

/-- `get_permission` of `has_permission`. A key is looked up in a dictionary; in a text or a list that contains it, and in
any other value, this raises. -/
def getPermission : Json → List String → Except Raised Bool
  | permissions, [] => .ok permissions.truthy
  | .obj fields, key :: keys =>
    match fields.lookup key with
    | none => .ok false
    | some permissions => getPermission permissions keys
  | .str s, key :: _ => if key.toList <:+: s.toList then .error .typeError else .ok false
  | .arr items, key :: _ => if items.any fun item => item.eqv (.str key) then .error .typeError else .ok false
  | .null, _ :: _ | .bool _, _ :: _ | .num _, _ :: _ => .error .typeError

/-- The loop over the groups. -/
def anyGroupGrants (keys : List String) : List Dict → Except Raised Bool
  | [] => .ok false
  | permissions :: rest => do
    if ← getPermission (.obj permissions) keys then return true
    else anyGroupGrants keys rest

/-- `permission_key.split('.')`. -/
def permissionHierarchy (permissionKey : String) : List String := (permissionKey.toList.splitOn '.').map String.ofList

/-- `has_permission`; `template` is `DEFAULT_USER_PERMISSIONS`. -/
def hasPermission (template : Dict) (t : Tables) (userId permissionKey : String) (defaultPermissions : Dict) :
    Except Raised Bool := do
  let groupPermissions := (getGroupsByMemberId t userId true).map fun entry => entry.2.permissions.getD []
  if ← anyGroupGrants (permissionHierarchy permissionKey) groupPermissions then return true
  else getPermission (.obj (basePermissions template defaultPermissions)) (permissionHierarchy permissionKey)

/-! ## Reading at a leaf -/

variable {shape : Shape} {value : Json} {children : List (String × Shape)} {path : List String} {groups : List Dict}

/-- The truth value, among what `valueAt` reads. -/
def granted : WithBot (WithTop Bool) := ((true : WithTop Bool) : WithBot (WithTop Bool))

/-- What is not an object is `true` if it says more than `false`. -/
theorem eq_granted_iff {a : WithBot (WithTop Bool)} (ha : a ≠ ⊤) :
    a = granted ↔ ¬ a ≤ ((false : WithTop Bool) : WithBot (WithTop Bool)) := by
  induction a using WithBot.recBotCoe with
  | bot => exact iff_of_false WithBot.bot_ne_coe (not_not_intro bot_le)
  | coe a =>
    induction a using WithTop.recTopCoe with
    | top => exact absurd rfl ha
    | coe b =>
      rw [granted, WithBot.coe_inj, WithTop.coe_inj, WithBot.coe_le_coe, WithTop.coe_le_coe]
      cases b with
      | false => simp
      | true => simp

theorem getPermission_leaf (h : Fits shape value) (hleaf : shape.IsLeaf path) :
    ∃ b, getPermission value path = .ok b ∧ (b = true ↔ valueAt path value = granted) := by
  induction path generalizing shape value with
  | nil =>
    obtain rfl : shape = .leaf := Option.some.inj hleaf
    cases h with
    | leaf b =>
      refine ⟨b, rfl, ?_⟩
      rw [valueAt_nil_bool, granted, WithBot.coe_inj, WithTop.coe_inj]
  | cons key path ih =>
    cases h with
    | leaf b => cases hleaf
    | node children fields hkeys hknown hvalues =>
      rw [getPermission, valueAt_cons_obj]
      cases hlookup : fields.lookup key with
      | none => exact ⟨false, rfl, iff_of_false Bool.false_ne_true WithBot.bot_ne_coe⟩
      | some member =>
        obtain ⟨shape, hshape, hfits⟩ := (Fits.node children fields hkeys hknown hvalues).of_lookup hlookup
        apply ih hfits
        rw [Shape.IsLeaf, Shape.under, hshape] at hleaf
        exact hleaf

theorem anyGroupGrants_leaf (h : ∀ group ∈ groups, Fits shape (.obj group)) (hleaf : shape.IsLeaf path) :
    ∃ b, anyGroupGrants path groups = .ok b ∧ (b = true ↔ ∃ group ∈ groups, valueAt path (.obj group) = granted) := by
  induction groups with
  | nil => exact ⟨false, rfl, by simp⟩
  | cons group rest ih =>
    obtain ⟨b, hb, hgrants⟩ := getPermission_leaf (h group List.mem_cons_self) hleaf
    obtain ⟨b', hb', hgrants'⟩ := ih fun other hother => h other (List.mem_cons_of_mem _ hother)
    refine ⟨b || b', ?_, ?_⟩
    · rw [anyGroupGrants, hb, hb']
      cases b <;> rfl
    · rw [Bool.or_eq_true, hgrants, hgrants']
      simp only [List.mem_cons, exists_eq_or_imp]

/-! ## The defaults -/

/-- What is filled in fits the shape, if what is there and the defaults do. -/
theorem fits_fillMissing {fields permissions : Dict} (hkeys : ∀ entry ∈ fields, (children.lookup entry.1).isSome = true)
    (hvalues : ∀ entry ∈ fields, ∀ shape, children.lookup entry.1 = some shape → ∀ current : Option Json,
      (∀ old, current = some old → Fits shape old) → Fits shape (fillValue current entry.2))
    (h : Fits (.node children) (.obj permissions)) :
    Fits (.node children) (.obj (fillMissingPermissions permissions fields)) := by
  induction fields generalizing permissions with
  | nil => exact h
  | cons entry rest ih =>
    obtain ⟨key, value⟩ := entry
    obtain ⟨shape, hshape⟩ := Option.isSome_iff_exists.1 (hkeys (key, value) List.mem_cons_self)
    rw [fillMissingPermissions]
    apply ih
    · exact fun other hother => hkeys other (List.mem_cons_of_mem _ hother)
    · exact fun other hother => hvalues other (List.mem_cons_of_mem _ hother)
    · refine h.set hshape ?_
      apply hvalues (key, value) List.mem_cons_self shape hshape
      intro old hold
      obtain ⟨shape', hshape', hfits⟩ := h.of_lookup hold
      rw [hshape, Option.some.injEq] at hshape'
      exact hshape' ▸ hfits

theorem fits_fillValue (hvalue : Fits shape value) (current : Option Json)
    (hcurrent : ∀ old, current = some old → Fits shape old) : Fits shape (fillValue current value) := by
  induction hvalue generalizing current with
  | leaf b =>
    cases current with
    | none => exact .leaf b
    | some old => exact hcurrent old rfl
  | node children fields hkeys hknown hvalues ih =>
    cases current with
    | none => exact .node children fields hkeys hknown hvalues
    | some old =>
      cases hcurrent old rfl with
      | node _ permissions hkeys' hknown' hvalues' =>
        exact fits_fillMissing hknown ih (.node children permissions hkeys' hknown' hvalues')

variable {template defaultPermissions : Dict}

theorem fits_basePermissions (htemplate : Fits shape (.obj template))
    (hdefault : Fits shape (.obj defaultPermissions)) : Fits shape (.obj (basePermissions template defaultPermissions)) := by
  have hfill := fits_fillValue htemplate (some (.obj defaultPermissions)) (by rintro old ⟨⟩; exact hdefault)
  exact hfill

/-! ## Agreement -/

section Agreement

variable {permissions : Dict} {groups' : List Dict}

/-- The combined tree says `true` at a leaf where the defaults or a group say so. -/
theorem combineAll_leaf (hbase : Fits shape (.obj permissions)) (h : ∀ group ∈ groups, Fits shape (.obj group))
    (hleaf : shape.IsLeaf path) :
    ∃ r, combineAll (.obj permissions) groups = .ok r ∧ (valueAt path r = granted ↔
      (∃ group ∈ groups, valueAt path (.obj group) = granted) ∨ valueAt path (.obj permissions) = granted) := by
  obtain ⟨r, hr, -, hvalue⟩ := combineAll_valueAt hbase.boolTree (fun group hgroup => (h group hgroup).boolTree)
    (fun group hgroup => hbase.compatible (h group hgroup))
    (fun group hgroup group' hgroup' => (h group hgroup).compatible (h group' hgroup'))
  refine ⟨r, hr, ?_⟩
  have hle : ∀ {a : WithBot (WithTop Bool)}, a ≠ ⊤ → a ≤ granted := by
    intro a ha
    by_cases hfalse : a ≤ ((false : WithTop Bool) : WithBot (WithTop Bool))
    · refine hfalse.trans ?_
      exact WithBot.coe_le_coe.2 (WithTop.coe_le_coe.2 (Bool.false_le true))
    · exact ((eq_granted_iff ha).2 hfalse).le
  have hr' : valueAt path r ≠ ⊤ := by
    have hmost := (hvalue path granted).2
      ⟨hle (hbase.valueAt_leaf hleaf), fun group hgroup => hle ((h group hgroup).valueAt_leaf hleaf)⟩
    intro htop
    rw [htop, top_le_iff] at hmost
    exact WithTop.coe_ne_top (WithBot.coe_inj.1 hmost)
  rw [eq_granted_iff hr', hvalue, not_and_or, or_comm, eq_granted_iff (hbase.valueAt_leaf hleaf)]
  apply or_congr_left
  rw [not_forall]
  apply exists_congr
  intro group
  rw [Classical.not_imp]
  apply and_congr_right
  intro hgroup
  exact (eq_granted_iff ((h group hgroup).valueAt_leaf hleaf)).symm

theorem hasPermission_leaf {t : Tables} {userId permissionKey : String}
    (hbase : Fits shape (.obj (basePermissions template defaultPermissions)))
    (h : ∀ group ∈ (getGroupsByMemberId t userId true).map fun entry => entry.2.permissions.getD [],
      Fits shape (.obj group)) (hleaf : shape.IsLeaf (permissionHierarchy permissionKey)) :
    ∃ b, hasPermission template t userId permissionKey defaultPermissions = .ok b ∧ (b = true ↔
      (∃ group ∈ (getGroupsByMemberId t userId true).map fun entry => entry.2.permissions.getD [],
        valueAt (permissionHierarchy permissionKey) (.obj group) = granted) ∨
        valueAt (permissionHierarchy permissionKey) (.obj (basePermissions template defaultPermissions)) = granted) := by
  obtain ⟨b, hb, hgroups⟩ := anyGroupGrants_leaf h hleaf
  obtain ⟨b', hb', hdefaults⟩ := getPermission_leaf hbase hleaf
  refine ⟨b || b', ?_, ?_⟩
  · rw [hasPermission]
    simp only [hb, hb']
    cases b <;> rfl
  · rw [Bool.or_eq_true, hgroups, hdefaults]

end Agreement

/-- For permissions of one shape and a key that leads to a truth value, `has_permission` is true exactly if the tree of
`get_permissions` says so; where the groups come in another order, the one gives the same answer and the other an equal
tree. -/
theorem permission_checks_agree (shape : Shape) (template defaultPermissions : Dict) (t : Tables)
    (userId permissionKey : String) (htemplate : Fits shape (.obj template))
    (hdefault : Fits shape (.obj defaultPermissions))
    (hgroups : ∀ entry ∈ getGroupsByMemberId t userId true, Fits shape (.obj (entry.2.permissions.getD [])))
    (hleaf : shape.IsLeaf (permissionHierarchy permissionKey)) :
    ∃ r b, getPermissions template t userId defaultPermissions = .ok r ∧
      hasPermission template t userId permissionKey defaultPermissions = .ok b ∧
      (b = true ↔ valueAt (permissionHierarchy permissionKey) r = granted) ∧
      ∀ t' : Tables, ((getGroupsByMemberId t' userId true).map fun entry => entry.2.permissions.getD []).Perm
          ((getGroupsByMemberId t userId true).map fun entry => entry.2.permissions.getD []) →
        hasPermission template t' userId permissionKey defaultPermissions = .ok b ∧
          ∃ r', getPermissions template t' userId defaultPermissions = .ok r' ∧ r.eqv r' = true := by
  have hbase := fits_basePermissions htemplate hdefault
  have hfits : ∀ group ∈ (getGroupsByMemberId t userId true).map fun entry => entry.2.permissions.getD [],
      Fits shape (.obj group) := by
    intro group hgroup
    obtain ⟨entry, hentry, rfl⟩ := List.mem_map.1 hgroup
    exact hgroups entry hentry
  obtain ⟨r, hr, hvalue⟩ := combineAll_leaf hbase hfits hleaf
  obtain ⟨b, hb, hcheck⟩ := hasPermission_leaf hbase hfits hleaf
  refine ⟨r, b, hr, hb, hcheck.trans hvalue.symm, ?_⟩
  intro t' hperm
  have hfits' : ∀ group ∈ (getGroupsByMemberId t' userId true).map fun entry => entry.2.permissions.getD [],
      Fits shape (.obj group) := fun group hgroup => hfits group (hperm.mem_iff.1 hgroup)
  constructor
  · obtain ⟨b', hb', hcheck'⟩ := hasPermission_leaf hbase hfits' hleaf
    have hsame : b' = true ↔ b = true := by
      rw [hcheck', hcheck]
      simp only [hperm.mem_iff]
    rw [hb', Bool.eq_iff_iff.2 hsame]
  · obtain ⟨r₀, r', hr₀, hr', heqv⟩ := combineAll_eqv hbase.boolTree
      (fun group hgroup => (hfits group hgroup).boolTree) (fun group hgroup => (hfits' group hgroup).boolTree)
      (fun group hgroup => hbase.compatible (hfits group hgroup))
      (fun group hgroup => hbase.compatible (hfits' group hgroup))
      (fun group hgroup group' hgroup' => (hfits group hgroup).compatible (hfits group' hgroup'))
      (fun group hgroup group' hgroup' => (hfits' group hgroup).compatible (hfits' group' hgroup'))
      (fun path x => by simp only [hperm.mem_iff])
    rw [hr, Except.ok.injEq] at hr₀
    subst hr₀
    exact ⟨r', hr', heqv⟩

/-- Two groups of one user, of which one allows chats to be shared. -/
def twoGroups : Tables where
  groups :=
    (KeyedTable.empty.set "g" ⟨none, "admin", "G", "", none, some [("chat", .obj [("share", .bool true)])], 0, 2⟩).set "h"
      ⟨none, "admin", "H", "", none, none, 0, 1⟩
  members := [⟨"g", "u"⟩, ⟨"h", "u"⟩]
  grants := []

/-- The shape of a part of `DEFAULT_USER_PERMISSIONS`. -/
def chatShape : Shape := .node [("chat", .node [("share", .leaf), ("delete", .leaf)])]

theorem fits_chatShape (fields : Dict) (hkeys : (fields.map Prod.fst).Nodup)
    (hfields : ∀ entry ∈ fields, (entry.1 = "share" ∨ entry.1 = "delete") ∧ ∃ b, entry.2 = .bool b) :
    Fits chatShape (.obj [("chat", .obj fields)]) := by
  have hlookup : ∀ entry ∈ fields, List.lookup entry.1 [("share", Shape.leaf), ("delete", .leaf)] = some .leaf := by
    intro entry hentry
    rcases (hfields entry hentry).1 with heq | heq <;> rw [heq] <;> rfl
  have hinner : Fits (.node [("share", .leaf), ("delete", .leaf)]) (.obj fields) := by
    refine .node _ fields hkeys ?_ ?_
    · intro entry hentry
      rw [hlookup entry hentry]
      rfl
    · intro entry hentry shape hshape
      rw [hlookup entry hentry, Option.some.injEq] at hshape
      obtain ⟨b, hb⟩ := (hfields entry hentry).2
      rw [hb, ← hshape]
      exact .leaf b
  refine .node _ _ (by simp) ?_ ?_
  · rintro entry hentry
    rw [List.mem_singleton.1 hentry]
    rfl
  · intro entry hentry shape hshape
    rw [List.mem_singleton.1 hentry] at hshape ⊢
    obtain rfl := Option.some.inj hshape
    exact hinner

theorem permission_checks_agree_chat :
    ∃ r, getPermissions [("chat", .obj [("share", .bool false), ("delete", .bool true)])] twoGroups "u" [] = .ok r ∧
      valueAt ["chat", "share"] r = granted := by
  have hempty : Fits chatShape (.obj []) := .node _ [] List.nodup_nil (by simp) (by simp)
  have hgroups : ∀ entry ∈ getGroupsByMemberId twoGroups "u" true,
      Fits chatShape (.obj (entry.2.permissions.getD [])) := by
    intro entry hentry
    obtain ⟨hget, -⟩ := mem_getGroupsByMemberId.1 hentry
    rw [twoGroups, KeyedTable.get_set, KeyedTable.get_set] at hget
    split at hget
    · rw [← Option.some.inj hget]
      exact hempty
    · split at hget
      · rw [← Option.some.inj hget]
        exact fits_chatShape [("share", .bool true)] (by simp) (by simp)
      · cases hget
  obtain ⟨r, b, hr, hb, hagree, -⟩ := permission_checks_agree chatShape
    [("chat", .obj [("share", .bool false), ("delete", .bool true)])] [] twoGroups "u" "chat.share"
    (fits_chatShape [("share", .bool false), ("delete", .bool true)] (by simp) (by simp)) hempty hgroups rfl
  refine ⟨r, hr, hagree.1 ?_⟩
  have hcheck : hasPermission [("chat", .obj [("share", .bool false), ("delete", .bool true)])] twoGroups "u" "chat.share"
      [] = .ok true := by rfl
  rw [hcheck, Except.ok.injEq] at hb
  exact hb.symm

end RyanAI.Access
