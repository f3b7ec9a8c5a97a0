import RyanAI.Access.Groups
import RyanAI.Lib.BoolTree

/-!
# Permissions of a user

`get_permissions` of `utils/access_control/__init__.py` starts from the default permissions and goes through the groups
of the user, the one updated last first. For nested dictionaries of truth values, as documented, where no key is a
dictionary in one and a truth value in another, the result says at each path the most that the defaults and the groups
say (`combineAll_valueAt`), in any order of the groups (`combineAll_eqv`). Other values are combined by `or`, which
keeps the first one that counts as true.
-/

namespace RyanAI.Access

open Lib Lib.Json

/-! ## Filling and combining -/

mutual

def fillValue (current : Option Json) : Json → Json
  | .obj defaults => match current with
    | none => .obj defaults
    | some (.obj fields) => .obj (fillMissingPermissions fields defaults)
    | some value => value
  | .null => current.getD .null
  | .bool b => current.getD (.bool b)
  | .num q => current.getD (.num q)
  | .str s => current.getD (.str s)
  | .arr items => current.getD (.arr items)

/-- `fill_missing_permissions`. -/
def fillMissingPermissions (permissions : Dict) : List (String × Json) → Dict
  | [] => permissions
  | (key, value) :: rest =>
    fillMissingPermissions (Dict.set permissions key (fillValue (permissions.lookup key) value)) rest

end

mutual

def combineValue (current : Option Json) : Json → Except Raised Json
  | .obj fields => combinePermissions (current.getD (.obj [])) fields
  | .null => .ok ((current.map fun old => old.orElse .null).getD .null)
  | .bool b => .ok ((current.map fun old => old.orElse (.bool b)).getD (.bool b))
  | .num q => .ok ((current.map fun old => old.orElse (.num q)).getD (.num q))
  | .str s => .ok ((current.map fun old => old.orElse (.str s)).getD (.str s))
  | .arr items => .ok ((current.map fun old => old.orElse (.arr items)).getD (.arr items))

/-- `combine_permissions`; a key can be set in a dictionary only. -/
def combinePermissions (permissions : Json) : List (String × Json) → Except Raised Json
  | [] => .ok permissions
  | (key, value) :: rest => match permissions with
    | .obj fields => do
      let combined ← combineValue (fields.lookup key) value
      combinePermissions (.obj (Dict.set fields key combined)) rest
    | _ => .error .typeError

end

def combineAll (permissions : Json) (groupPermissions : List Dict) : Except Raised Json :=
  groupPermissions.foldlM combinePermissions permissions

/-- What `get_permissions` starts from. -/
def basePermissions (template defaultPermissions : Dict) : Dict := fillMissingPermissions defaultPermissions template

/-- `get_permissions`; `template` is `DEFAULT_USER_PERMISSIONS`. -/
def getPermissions (template : Dict) (t : Tables) (userId : String) (defaultPermissions : Dict) : Except Raised Json :=
  combineAll (.obj (basePermissions template defaultPermissions))
    ((getGroupsByMemberId t userId true).map fun entry => entry.2.permissions.getD [])

def Combines (current : Option Json) (value : Json) (result : Except Raised Json) : Prop :=
  ∃ r, result = .ok r ∧ BoolTree r ∧ ∀ path, valueAt path r = (current.map (valueAt path)).getD ⊥ ⊔ valueAt path value

theorem combineValue_bool (hcurrent : ∀ old, current = some old → BoolTree old ∧ Compatible old (.bool b)) :
    Combines current (.bool b) (combineValue current (.bool b)) := by
  cases current with
  | none =>
    refine ⟨.bool b, rfl, .bool b, ?_⟩
    intro path
    simp
  | some old =>
    obtain ⟨hold, hfits⟩ := hcurrent old rfl
    cases hold with
    | bool b' =>
      have horElse : (Json.bool b').orElse (.bool b) = .bool (b' ⊔ b) := by
        cases b' with
        | false => simp [orElse, truthy]
        | true => simp [orElse, truthy]
      refine ⟨.bool (b' ⊔ b), by rw [combineValue, Option.map_some, Option.getD_some, horElse], .bool _, ?_⟩
      intro path
      cases path with
      | nil =>
        rw [Option.map_some, Option.getD_some, valueAt_nil_bool, valueAt_nil_bool, valueAt_nil_bool,
          WithTop.coe_sup, WithBot.coe_sup]
      | cons key path => simp
    | obj fields _ _ =>
      -- a dictionary against a truth value does not fit
      rcases hfits [] with h | h | h
      · exact absurd h top_ne_bot
      · exact absurd h WithBot.coe_ne_bot
      · rw [valueAt_nil_obj, valueAt_nil_bool] at h
        exact absurd (WithBot.coe_inj.1 (h.1 rfl)) WithTop.coe_ne_top

theorem combinePermissions_fields (hkeys : (fields.map Prod.fst).Nodup)
    (hvalues : ∀ entry ∈ fields, ∀ current : Option Json,
      (∀ old, current = some old → BoolTree old ∧ Compatible old entry.2) →
        Combines current entry.2 (combineValue current entry.2)) (htree : BoolTree (.obj permissions))
    (hfits : Compatible (.obj permissions) (.obj fields)) :
    Combines (some (.obj permissions)) (.obj fields) (combinePermissions (.obj permissions) fields) := by
  induction fields generalizing permissions with
  | nil =>
    refine ⟨.obj permissions, rfl, htree, ?_⟩
    intro path
    cases path with
    | nil => simp
    | cons key path => simp
  | cons entry rest ih =>
    obtain ⟨key, value⟩ := entry
    rw [List.map_cons, List.nodup_cons] at hkeys
    have habsent : rest.lookup key = none := by
      apply Option.not_isSome_iff_eq_none.1
      intro hsome
      exact hkeys.1 (Dict.mem_keys_iff.2 hsome)
    have hread : ∀ key' path, valueAt (key' :: path) (.obj ((key, value) :: rest)) =
        if key' = key then valueAt path value else valueAt (key' :: path) (.obj rest) := by
      intro key' path
      rw [valueAt_cons_obj, Dict.lookup_cons]
      split <;> rfl
    obtain ⟨combined, hcombined, htree', hvalue⟩ := hvalues (key, value) List.mem_cons_self
      (permissions.lookup key) (by
        intro old hold
        refine ⟨htree.of_lookup hold, ?_⟩
        intro path
        have hpath := hfits (key :: path)
        rwa [hread, if_pos rfl, valueAt_cons_obj, hold] at hpath)
    have hfits' : Compatible (.obj (Dict.set permissions key combined)) (.obj rest) := by
      intro path
      cases path with
      | nil => exact .inr (.inr Iff.rfl)
      | cons key' path =>
        by_cases hkey : key' = key
        · subst hkey
          rw [valueAt_cons_obj key' path rest, habsent]
          exact .inr (.inl rfl)
        · have hpath := hfits (key' :: path)
          rw [hread, if_neg hkey] at hpath
          rwa [valueAt_set, if_neg hkey]
    obtain ⟨r, hr, hrtree, hrvalue⟩ := ih hkeys.2
      (List.forall_mem_of_forall_mem_cons hvalues) (htree.set key htree') hfits'
    refine ⟨r, ?_, hrtree, ?_⟩
    · rw [combinePermissions, hcombined]
      exact hr
    intro path
    rw [hrvalue, Option.map_some, Option.getD_some]
    cases path with
    | nil => simp
    | cons key' path =>
      rw [valueAt_set, hread]
      by_cases hkey : key' = key
      · subst hkey
        rw [if_pos rfl, if_pos rfl, valueAt_cons_obj key' path rest, habsent, hvalue path, Option.map_none,
          Option.getD_none, sup_bot_eq]
        rfl
      · rw [if_neg hkey, if_neg hkey]
        rfl

theorem combineValue_combines (hvalue : BoolTree value) (current : Option Json)
    (hcurrent : ∀ old, current = some old → BoolTree old ∧ Compatible old value) :
    Combines current value (combineValue current value) := by
  induction hvalue generalizing current with
  | bool b => exact combineValue_bool hcurrent
  | obj fields hkeys hvalues ih =>
    cases current with
    | none =>
      obtain ⟨r, hr, htree, hread⟩ := combinePermissions_fields hkeys ih boolTree_empty (compatible_empty fields)
      refine ⟨r, hr, htree, ?_⟩
      intro path
      rw [hread]
      cases path with
      | nil => simp
      | cons key path => simp
    | some old =>
      obtain ⟨hold, hfits⟩ := hcurrent old rfl
      cases hold with
      | bool b =>
        -- a truth value against a dictionary does not fit
        rcases hfits [] with h | h | h
        · exact absurd h WithBot.coe_ne_bot
        · exact absurd h top_ne_bot
        · rw [valueAt_nil_obj, valueAt_nil_bool] at h
          exact absurd (WithBot.coe_inj.1 (h.2 rfl)) WithTop.coe_ne_top
      | obj permissions hkeys' hvalues' =>
        exact combinePermissions_fields hkeys ih (.obj permissions hkeys' hvalues') hfits

theorem combineAll_valueAt (htree : BoolTree (.obj permissions)) (htrees : ∀ group ∈ groups, BoolTree (.obj group))
    (hfits : ∀ group ∈ groups, Compatible (.obj permissions) (.obj group))
    (hpair : ∀ group ∈ groups, ∀ group' ∈ groups, Compatible (.obj group) (.obj group')) :
    ∃ r, combineAll (.obj permissions) groups = .ok r ∧ BoolTree r ∧ ∀ path x, valueAt path r ≤ x ↔
      valueAt path (.obj permissions) ≤ x ∧ ∀ group ∈ groups, valueAt path (.obj group) ≤ x := by
  induction groups generalizing permissions with
  | nil => exact ⟨.obj permissions, rfl, htree, by simp⟩
  | cons group rest ih =>
    have hhead : Combines (some (.obj permissions)) (.obj group) (combinePermissions (.obj permissions) group) := by
      apply combineValue_combines (htrees group List.mem_cons_self) (some (.obj permissions))
      rintro old hold
      cases hold
      exact ⟨htree, hfits group List.mem_cons_self⟩
    obtain ⟨r, hr, hrtree, hrvalue⟩ := hhead
    -- the result of the first group is a dictionary again
    obtain ⟨fields, rfl⟩ : ∃ fields, r = .obj fields := by
      have hnil := hrvalue []
      cases hrtree with
      | bool b =>
        rw [valueAt_nil_bool, valueAt_nil_obj, sup_top_eq] at hnil
        exact absurd (WithBot.coe_inj.1 hnil) WithTop.coe_ne_top
      | obj fields _ _ => exact ⟨fields, rfl⟩
    have hfits' : ∀ group' ∈ rest, Compatible (.obj fields) (.obj group') := by
      intro group' hgroup'
      have hmem := List.mem_cons_of_mem group hgroup'
      exact (hfits group' hmem).sup (hpair group List.mem_cons_self group' hmem) hrvalue
    obtain ⟨r', hr', hr'tree, hr'value⟩ := ih hrtree
      (fun group' hgroup' => htrees group' (List.mem_cons_of_mem _ hgroup')) hfits'
      (fun a ha b hb => hpair a (List.mem_cons_of_mem _ ha) b (List.mem_cons_of_mem _ hb))
    refine ⟨r', ?_, hr'tree, ?_⟩
    · rw [combineAll, List.foldlM_cons, hr]
      exact hr'
    · intro path x
      rw [hr'value, hrvalue, Option.map_some, Option.getD_some, sup_le_iff, List.forall_mem_cons, and_assoc]

theorem combineAll_eqv {permissions : Dict} {groups groups' : List Dict} (htree : BoolTree (.obj permissions))
    (htrees : ∀ group ∈ groups, BoolTree (.obj group)) (htrees' : ∀ group ∈ groups', BoolTree (.obj group))
    (hfits : ∀ group ∈ groups, Compatible (.obj permissions) (.obj group))
    (hfits' : ∀ group ∈ groups', Compatible (.obj permissions) (.obj group))
    (hpair : ∀ group ∈ groups, ∀ group' ∈ groups, Compatible (.obj group) (.obj group'))
    (hpair' : ∀ group ∈ groups', ∀ group' ∈ groups', Compatible (.obj group) (.obj group'))
    (hsame : ∀ path x, (∀ group ∈ groups, valueAt path (.obj group) ≤ x) ↔
      ∀ group ∈ groups', valueAt path (.obj group) ≤ x) :
    ∃ r r', combineAll (.obj permissions) groups = .ok r ∧ combineAll (.obj permissions) groups' = .ok r' ∧
      r.eqv r' = true := by
  obtain ⟨r, hr, hrtree, hrvalue⟩ := combineAll_valueAt htree htrees hfits hpair
  obtain ⟨r', hr', hr'tree, hr'value⟩ := combineAll_valueAt htree htrees' hfits' hpair'
  refine ⟨r, r', hr, hr', (eqv_iff_valueAt hrtree hr'tree).2 ?_⟩
  intro path
  apply eq_of_forall_ge_iff
  intro x
  rw [hrvalue, hr'value, hsame]

end RyanAI.Access
