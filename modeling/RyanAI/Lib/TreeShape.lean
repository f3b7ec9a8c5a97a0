import RyanAI.Lib.BoolTree

/-!
# Objects of one shape

A shape says where there may be a truth value and where an object, and which keys. A JSON value fits a shape if it has
the one or the other where the shape has it; keys may be missing anywhere. Values that fit one shape do not
contradict one another (`Fits.compatible`), and at a leaf of the shape each of them has a truth value or nothing
(`Fits.valueAt_leaf`).
-/

namespace RyanAI.Lib

namespace Json

inductive Shape where
  | leaf
  | node (children : List (String × Shape))

/-- What the shape has at a path. -/
def Shape.under : List String → Shape → Option Shape
  | [], shape => some shape
  | _ :: _, .leaf => none
  | key :: path, .node children => (children.lookup key).bind (Shape.under path)

/-- The path leads to a truth value. -/
def Shape.IsLeaf (shape : Shape) (path : List String) : Prop := shape.under path = some .leaf

inductive Fits : Shape → Json → Prop
  | leaf (b : Bool) : Fits .leaf (.bool b)
  | node (children : List (String × Shape)) (fields : Dict) (hkeys : (fields.map Prod.fst).Nodup)
      (hknown : ∀ entry ∈ fields, (children.lookup entry.1).isSome = true)
      (hvalues : ∀ entry ∈ fields, ∀ shape, children.lookup entry.1 = some shape → Fits shape entry.2) :
      Fits (.node children) (.obj fields)

variable {shape : Shape} {value x y : Json} {children : List (String × Shape)} {fields : Dict} {key : String}
  {path : List String}

namespace Fits

theorem boolTree (h : Fits shape value) : BoolTree value := by
  induction h with
  | leaf b => exact .bool b
  | node children fields hkeys hknown _ ih =>
    refine .obj fields hkeys ?_
    intro entry hentry
    obtain ⟨shape, hshape⟩ := Option.isSome_iff_exists.1 (hknown entry hentry)
    exact ih entry hentry shape hshape

/-- The member of a key fits what the shape has under it. -/
theorem of_lookup (h : Fits (.node children) (.obj fields)) (hlookup : fields.lookup key = some value) :
    ∃ shape, children.lookup key = some shape ∧ Fits shape value := by
  cases h with
  | node _ _ _ hknown hvalues =>
    have hmem := Dict.mem_of_lookup hlookup
    obtain ⟨shape, hshape⟩ := Option.isSome_iff_exists.1 (hknown (key, value) hmem)
    exact ⟨shape, hshape, hvalues (key, value) hmem shape hshape⟩

theorem set (h : Fits (.node children) (.obj fields)) (hshape : children.lookup key = some shape)
    (hvalue : Fits shape value) : Fits (.node children) (.obj (Dict.set fields key value)) := by
  cases h with
  | node _ _ hkeys hknown hvalues =>
    refine .node children _ (Dict.nodup_set hkeys key value) ?_ ?_
    · intro entry hentry
      rcases Dict.mem_set hentry with rfl | hold
      · rw [hshape]
        rfl
      · exact hknown entry hold
    · intro entry hentry shape' hshape'
      rcases Dict.mem_set hentry with rfl | hold
      · rw [hshape, Option.some.injEq] at hshape'
        exact hshape' ▸ hvalue
      · exact hvalues entry hold shape' hshape'

/-- Where a value has something, the shape has it too, and of the same kind. -/
theorem under_of_valueAt (h : Fits shape value) (path : List String) (hsome : valueAt path value ≠ ⊥) :
    ∃ shape', shape.under path = some shape' ∧ (valueAt path value = ⊤ ↔ shape' ≠ .leaf) := by
  induction path generalizing shape value with
  | nil =>
    refine ⟨shape, rfl, ?_⟩
    cases h with
    | leaf b =>
      refine iff_of_false ?_ (not_not_intro rfl)
      exact fun htop => WithTop.coe_ne_top (WithBot.coe_inj.1 htop)
    | node children fields _ _ _ => exact iff_of_true rfl Shape.noConfusion
  | cons key path ih =>
    cases h with
    | leaf b => exact absurd rfl hsome
    | node children fields hkeys hknown hvalues =>
      rw [valueAt_cons_obj] at hsome ⊢
      cases hlookup : fields.lookup key with
      | none =>
        rw [hlookup] at hsome
        exact absurd rfl hsome
      | some member =>
        obtain ⟨shape, hshape, hfits⟩ := (Fits.node children fields hkeys hknown hvalues).of_lookup hlookup
        rw [hlookup] at hsome
        obtain ⟨shape', hunder, hkind⟩ := ih hfits hsome
        refine ⟨shape', ?_, hkind⟩
        rw [Shape.under, hshape]
        exact hunder

theorem compatible (hx : Fits shape x) (hy : Fits shape y) : Compatible x y := by
  intro path
  by_cases hxnone : valueAt path x = ⊥
  · exact .inl hxnone
  by_cases hynone : valueAt path y = ⊥
  · exact .inr (.inl hynone)
  obtain ⟨shape', hunder, hxkind⟩ := hx.under_of_valueAt path hxnone
  obtain ⟨shape'', hunder', hykind⟩ := hy.under_of_valueAt path hynone
  rw [hunder, Option.some.injEq] at hunder'
  subst hunder'
  exact .inr (.inr (hxkind.trans hykind.symm))

/-- At a leaf there is no object. -/
theorem valueAt_leaf (h : Fits shape value) (hleaf : shape.IsLeaf path) : valueAt path value ≠ ⊤ := by
  intro htop
  obtain ⟨shape', hunder, hkind⟩ := h.under_of_valueAt path (htop ▸ top_ne_bot)
  rw [hleaf, Option.some.injEq] at hunder
  exact hkind.1 htop hunder.symm

end Fits

end Json

end RyanAI.Lib
