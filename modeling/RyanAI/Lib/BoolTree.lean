import Mathlib.Order.WithBot
import RyanAI.Lib.Json

/-!
# Nested objects of truth values

`BoolTree` holds of a JSON value that is a truth value or an object of such values. `valueAt` reads one at a
path: `⊥` where there is nothing, the truth value, or `⊤` where there is an object, so that the order goes from
what says least to what says most. Two of them are equal for Python exactly if they read the same everywhere
(`eqv_iff_valueAt`).
-/

namespace RyanAI.Lib

variable {value : Json} {fields : Dict}

namespace Json

/-! ## Reading at a path -/

inductive BoolTree : Json → Prop
  | bool (b : Bool) : BoolTree (.bool b)
  | obj (fields : Dict) (hkeys : (fields.map Prod.fst).Nodup)
      (hvalues : ∀ entry ∈ fields, BoolTree entry.2) : BoolTree (.obj fields)

def valueAt : List String → Json → WithBot (WithTop Bool)
  | [], .bool b => ((b : WithTop Bool) : WithBot (WithTop Bool))
  | [], .obj _ => ⊤
  | [], _ => ⊥
  | key :: path, .obj fields => ((fields.lookup key).map (valueAt path)).getD ⊥
  | _ :: _, _ => ⊥

@[simp]
theorem valueAt_nil_obj (fields : Dict) : valueAt [] (.obj fields) = ⊤ := rfl

@[simp]
theorem valueAt_nil_bool (b : Bool) : valueAt [] (.bool b) = ((b : WithTop Bool) : WithBot (WithTop Bool)) := rfl

@[simp]
theorem valueAt_cons_obj (key : String) (path : List String) (fields : Dict) :
    valueAt (key :: path) (.obj fields) = ((fields.lookup key).map (valueAt path)).getD ⊥ := rfl

@[simp]
theorem valueAt_cons_bool (key : String) (path : List String) (b : Bool) : valueAt (key :: path) (.bool b) = ⊥ := rfl

theorem BoolTree.valueAt_nil_ne_bot (h : BoolTree value) : valueAt [] value ≠ ⊥ := by
  cases h with
  | bool b => exact WithBot.coe_ne_bot
  | obj fields _ _ => exact top_ne_bot

theorem BoolTree.of_lookup (h : BoolTree (.obj fields)) (hlookup : fields.lookup key = some value) :
    BoolTree value := by
  cases h with
  | obj _ _ hvalues => exact hvalues (key, value) (Dict.mem_of_lookup hlookup)

theorem BoolTree.lookup_isSome_iff (h : BoolTree (.obj fields)) (key : String) :
    (fields.lookup key).isSome ↔ valueAt [key] (.obj fields) ≠ ⊥ := by
  rw [valueAt_cons_obj]
  cases hlookup : fields.lookup key with
  | none => simp
  | some value => simpa using (h.of_lookup hlookup).valueAt_nil_ne_bot

theorem BoolTree.set (h : BoolTree (.obj fields)) (key : String) (hvalue : BoolTree value) :
    BoolTree (.obj (Dict.set fields key value)) := by
  cases h with
  | obj _ hkeys hvalues =>
    refine .obj _ (Dict.nodup_set hkeys key value) ?_
    intro entry hentry
    rcases Dict.mem_set hentry with rfl | hold
    · exact hvalue
    · exact hvalues entry hold

theorem valueAt_set (fields : Dict) (key : String) (value : Json) (key' : String) (path : List String) :
    valueAt (key' :: path) (.obj (Dict.set fields key value)) =
      if key' = key then valueAt path value else valueAt (key' :: path) (.obj fields) := by
  rw [valueAt_cons_obj, Dict.lookup_set]
  split <;> rfl

theorem eqvFields_iff :
    eqvFields xs ys = true ↔ ∀ entry ∈ xs, ∃ w, ys.lookup entry.1 = some w ∧ eqv entry.2 w = true := by
  induction xs with
  | nil => simp [eqvFields]
  | cons entry rest ih =>
    obtain ⟨key, value⟩ := entry
    rw [eqvFields, Bool.and_eq_true, ih, List.forall_mem_cons]
    apply and_congr_left
    intro _
    cases ys.lookup key with
    | none => simp
    | some w => simp

theorem eqv_bool_iff (h : BoolTree value) : eqv (.bool b) value = true ↔ value = .bool b := by
  cases h with
  | bool b' =>
    cases b with
    | false => cases b' with
      | false => simp [eqv, number]
      | true => simp [eqv, number]
    | true => cases b' with
      | false => simp [eqv, number]
      | true => simp [eqv, number]
  | obj fields _ _ => simp [eqv, number]

theorem eqv_obj_iff (hxs : (xs.map Prod.fst).Nodup) (hys : (ys.map Prod.fst).Nodup) : eqv (.obj xs) (.obj ys) = true ↔
      (∀ key, (xs.lookup key).isSome ↔ (ys.lookup key).isSome) ∧
      ∀ key v w, xs.lookup key = some v → ys.lookup key = some w → eqv v w = true := by
  rw [eqv, Bool.and_eq_true, beq_iff_eq, eqvFields_iff]
  constructor
  · rintro ⟨hlength, hfields⟩
    have hsub : xs.map Prod.fst ⊆ ys.map Prod.fst := by
      intro key hkey
      obtain ⟨entry, hentry, rfl⟩ := List.mem_map.1 hkey
      obtain ⟨w, hw, _⟩ := hfields entry hentry
      exact Dict.mem_keys_iff.2 (Option.isSome_iff_exists.2 ⟨w, hw⟩)
    have hperm : (xs.map Prod.fst).Perm (ys.map Prod.fst) := by
      apply (hxs.subperm hsub).perm_of_length_le
      rw [List.length_map, List.length_map, hlength]
    refine ⟨?_, ?_⟩
    · intro key
      rw [← Dict.mem_keys_iff, ← Dict.mem_keys_iff]
      exact hperm.mem_iff
    · intro key v w hv hw
      obtain ⟨w', hw', heqv⟩ := hfields (key, v) (Dict.mem_of_lookup hv)
      rw [hw] at hw'
      cases hw'
      exact heqv
  · rintro ⟨hkeys, hvalues⟩
    have hperm : (xs.map Prod.fst).Perm (ys.map Prod.fst) := by
      apply (List.perm_ext_iff_of_nodup hxs hys).2
      intro key
      rw [Dict.mem_keys_iff, Dict.mem_keys_iff]
      exact hkeys key
    refine ⟨by simpa using hperm.length_eq, ?_⟩
    rintro ⟨key, v⟩ hentry
    have hv := Dict.lookup_of_mem hxs hentry
    obtain ⟨w, hw⟩ := Option.isSome_iff_exists.1 ((hkeys key).1 (Option.isSome_iff_exists.2 ⟨v, hv⟩))
    exact ⟨w, hw, hvalues key v w hv hw⟩

theorem eqv_iff_valueAt (hx : BoolTree x) (hy : BoolTree y) :
    eqv x y = true ↔ ∀ path, valueAt path x = valueAt path y := by
  induction hx generalizing y with
  | bool b =>
    rw [eqv_bool_iff hy]
    constructor
    · rintro rfl path
      rfl
    intro h
    have hnil := h []
    cases hy with
    | bool b' =>
      rw [valueAt_nil_bool, valueAt_nil_bool, WithBot.coe_inj, WithTop.coe_inj] at hnil
      rw [hnil]
    | obj fields _ _ =>
      rw [valueAt_nil_bool, valueAt_nil_obj] at hnil
      exact absurd (WithBot.coe_inj.1 hnil) WithTop.coe_ne_top
  | obj xs hkeys hvalues ih =>
    have hxs : BoolTree (.obj xs) := .obj xs hkeys hvalues
    cases hy with
    | bool b =>
      constructor
      · intro h
        simp [eqv] at h
      · intro h
        have hnil := h []
        rw [valueAt_nil_bool, valueAt_nil_obj] at hnil
        exact absurd (WithBot.coe_inj.1 hnil.symm) WithTop.coe_ne_top
    | obj ys hkeys' hvalues' =>
      have hys : BoolTree (.obj ys) := .obj ys hkeys' hvalues'
      rw [eqv_obj_iff hkeys hkeys']
      constructor
      · rintro ⟨hsame, heqv⟩ path
        cases path with
        | nil => rfl
        | cons key path =>
          rw [valueAt_cons_obj, valueAt_cons_obj]
          cases hv : xs.lookup key with
          | none =>
            have hw : ys.lookup key = none := by
              apply Option.not_isSome_iff_eq_none.1
              intro hsome
              have hsome' := (hsame key).2 hsome
              rw [hv] at hsome'
              cases hsome'
            rw [hw]
          | some v =>
            obtain ⟨w, hw⟩ := Option.isSome_iff_exists.1
              ((hsame key).1 (Option.isSome_iff_exists.2 ⟨v, hv⟩))
            have hv' := (ih (key, v) (Dict.mem_of_lookup hv) (hys.of_lookup hw)).1 (heqv key v w hv hw) path
            rw [hw, Option.map_some, Option.map_some, Option.getD_some, Option.getD_some]
            exact hv'
      · intro h
        refine ⟨?_, ?_⟩
        · intro key
          rw [hxs.lookup_isSome_iff, hys.lookup_isSome_iff, h [key]]
        intro key v w hv hw
        apply (ih (key, v) (Dict.mem_of_lookup hv) (hys.of_lookup hw)).2
        intro path
        have hpath := h (key :: path)
        simpa only [valueAt_cons_obj, hv, hw, Option.map_some, Option.getD_some] using hpath

def Compatible (x y : Json) : Prop :=
  ∀ path, valueAt path x = ⊥ ∨ valueAt path y = ⊥ ∨ (valueAt path x = ⊤ ↔ valueAt path y = ⊤)

theorem Compatible.refl (x : Json) : Compatible x x := fun _ => .inr (.inr Iff.rfl)

theorem boolTree_empty : BoolTree (.obj []) := by
  refine .obj [] List.nodup_nil ?_
  intro entry hentry
  cases hentry

theorem compatible_empty (fields : Dict) : Compatible (.obj []) (.obj fields) := by
  intro path
  cases path with
  | nil => exact .inr (.inr Iff.rfl)
  | cons key path => exact .inl rfl

theorem Compatible.sup (hx : Compatible x z) (hy : Compatible y z)
    (hr : ∀ path, valueAt path r = valueAt path x ⊔ valueAt path y) : Compatible r z := by
  intro path
  rw [hr]
  rcases hx path with hxbot | hz | hxz
  · rw [hxbot, bot_sup_eq]
    exact hy path
  · exact .inr (.inl hz)
  rcases hy path with hybot | hz | hyz
  · rw [hybot, sup_bot_eq]
    exact .inr (.inr hxz)
  · exact .inr (.inl hz)
  refine .inr (.inr ?_)
  rw [← hxz]
  constructor
  · intro htop
    rcases max_eq_iff.1 (htop : max (valueAt path x) (valueAt path y) = ⊤) with ⟨h, _⟩ | ⟨h, _⟩
    · exact h
    · exact hxz.2 (hyz.1 h)
  · intro h
    rw [h, top_sup_eq]

end Json

end RyanAI.Lib
