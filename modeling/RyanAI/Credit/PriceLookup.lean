import RyanAI.Credit.Coverage

/-!
# The price lookup returns

`get_model_price` calls itself with the registered base model, whatever the links are. The routers turn down a model
that is its own base model, not two models that name each other. `has_base_model_access` follows the same links and
remembers the ids it has seen. By `price_returned` both return on every table.
-/

namespace RyanAI.Credit.Pricing

open RyanAI.Lib.Chain

/-- The loop of `has_base_model_access`; `none` is a loop not ended after the given tests. -/
def accessWalk (models : List ModelModel) (mayRead : ModelModel → Bool) (isAdmin : Bool) :
    Nat → List String → Option String → Option Bool
  | 0, _, _ => none
  | _ + 1, _, none => some true
  | n + 1, seen, some id =>
    if id = "" ∨ id ∈ seen then some true
    else
      match getModelByIdSync models (.str id) with
      | none => some isAdmin
      | some m =>
        if mayRead m then accessWalk models mayRead isAdmin n (id :: seen) m.baseModelId
        else some false

/-- `has_base_model_access`. -/
def hasBaseModelAccess (models : List ModelModel) (mayRead : ModelModel → Bool) (isAdmin : Bool)
    (tests : Nat) (m : ModelModel) : Option Bool :=
  accessWalk models mayRead isAdmin tests [m.id] m.baseModelId

def unseen (models : List ModelModel) (seen : List String) : List ModelModel := models.filter fun m => m.id ∉ seen

variable {models : List ModelModel}

theorem unseen_cons_lt {id : String} {m : ModelModel}
    (hrow : getModelByIdSync models (.str id) = some m) (hnew : id ∉ seen) :
    (unseen models (id :: seen)).length < (unseen models seen).length := by
  have hm : m ∈ models := List.mem_of_find?_eq_some hrow
  have hid : m.id = id := by simpa using List.find?_some hrow
  have hsplit : unseen models (id :: seen) = (unseen models seen).filter fun x => x.id ≠ id := by
    simp only [unseen, List.filter_filter]
    apply List.filter_congr
    intro x _
    simp
  rw [hsplit]
  -- the row of the id itself is filtered out
  apply List.length_filter_lt_length_iff_exists.2
  exact ⟨m, List.mem_filter.2 ⟨hm, by simpa [hid] using hnew⟩, by simp [hid]⟩

theorem accessWalk_isSome {mayRead : ModelModel → Bool}
    {seen : List String} {next : Option String} (h : (unseen models seen).length < n) :
    (accessWalk models mayRead isAdmin n seen next).isSome := by
  induction n generalizing seen next with
  | zero => omega
  | succ n ih =>
    cases next with
    | none => rfl
    | some id =>
      simp only [accessWalk]
      split
      · rfl
      rename_i hnew
      rw [not_or] at hnew
      split
      · rfl
      rename_i m hrow
      have hless := unseen_cons_lt hrow hnew.2
      split
      · exact ih (by omega)
      · rfl

theorem exists_walk_of_getModelPrice (models : List ModelModel) (limit : Nat) (m : ModelModel) :
    ∃ n e, n ≤ limit ∧ Walk (baseModel models) n m e ∧ (n = limit ∨ baseModel models e = none) ∧
      getModelPrice models limit (some m) = .ok e.ownPrice := by
  induction limit generalizing m with
  | zero => exact ⟨0, m, le_rfl, rfl, Or.inl rfl, rfl⟩
  | succ limit ih =>
    simp only [getModelPrice]
    cases hbase : baseModel models m with
    | none => exact ⟨0, m, Nat.zero_le _, rfl, Or.inr hbase, rfl⟩
    | some base =>
      obtain ⟨n, e, hn, hwalk, hend, hprice⟩ := ih base
      exact ⟨n + 1, e, by omega, ⟨base, hbase, hwalk⟩, hend.imp_left (congrArg (· + 1)), hprice⟩

/-- A price is returned for every table: that of the last model, or of the one where the stack has no more room. The
walk with the seen ids ends as well, within one test more than there are rows. -/
theorem price_returned (models : List ModelModel) (limit : Nat) (m : ModelModel) :
    (∃ n e, n ≤ limit ∧ Walk (baseModel models) n m e ∧ (n = limit ∨ baseModel models e = none) ∧
        getModelPrice models limit (some m) = .ok e.ownPrice) ∧
      getModelPrice models limit none = .ok (.perCall 0 0) ∧
      ∀ mayRead isAdmin, (hasBaseModelAccess models mayRead isAdmin (models.length + 1) m).isSome := by
  refine ⟨exists_walk_of_getModelPrice models limit m, by cases limit <;> rfl, ?_⟩
  intro mayRead isAdmin
  apply accessWalk_isSome
  have : (unseen models [m.id]).length ≤ models.length := List.length_filter_le _ _
  omega

/-- Two presets that name each other: the price is that of the one the recursion stops at. -/
example : getModelPrice [⟨"a", some "b", some ⟨some 1, none⟩⟩, ⟨"b", some "a", some ⟨some 2, none⟩⟩] 15
    (some ⟨"a", some "b", some ⟨some 1, none⟩⟩) = .ok (.perCall 2 0) := rfl

end RyanAI.Credit.Pricing
