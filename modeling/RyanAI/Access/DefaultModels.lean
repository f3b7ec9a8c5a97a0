import Mathlib.Data.Prod.Lex
import Mathlib.Data.String.Basic
import RyanAI.Access.Groups

/-!
# Default models of a user's groups

`resolve_group_default_models` gives every group a depth below the root, walking up from each group to one that
has a depth already, and takes the default models of the deepest group that has some. Where nobody is above
itself the depths are the distances to the root, in whatever order the groups come (`groupDepths_get`), and so
the result depends only on the rows (`resolveGroupDefaultModels_same`).
-/

namespace RyanAI.Access

open Lib

/-! ## Depths -/

/-- `by_id.get(current.parent_group_id)`. -/
def parentIn (groups : OrderedMap String Group) (id : String) : Option String :=
  (OrderedMap.get id groups).bind fun group =>
    group.parentGroupId.filter fun parentId => (OrderedMap.get parentId groups).isSome

def climb (parent : String → Option String) (depths : OrderedMap String ℤ) :
    ℕ → List String → Option String → List String × Option String
  | 0, path, current => (path, current)
  | _ + 1, path, none => (path, none)
  | n + 1, path, some id =>
    if (OrderedMap.get id depths).isSome ∨ id ∈ path then (path, some id)
    else climb parent depths n (id :: path) (parent id)

/-- `for group_id in reversed(path)`. -/
def assignDepths : ℤ → List String → OrderedMap String ℤ → OrderedMap String ℤ
  | _, [], depths => depths
  | depth, id :: rest, depths => assignDepths (depth + 1) rest (OrderedMap.set id (depth + 1) depths)

def depthAt (depths : OrderedMap String ℤ) (current : Option String) : ℤ :=
  (current.bind fun id => OrderedMap.get id depths).getD (-1)

def addDepths (groups : OrderedMap String Group) (depths : OrderedMap String ℤ) (id : String) : OrderedMap String ℤ :=
  let (path, current) := climb (parentIn groups) depths (groups.length + 1) [] (some id)
  assignDepths (depthAt depths current) path depths

def groupDepths (groups : OrderedMap String Group) : OrderedMap String ℤ :=
  (OrderedMap.keys groups).foldl (addDepths groups) []

def configuredGroups : List (String × Group) → Except Raised (List (String × Group × Json))
  | [] => .ok []
  | (id, group) :: rest => do
    let models ← groupDefaultModels group.data
    let configured ← configuredGroups rest
    return if models.truthy then (id, group, models) :: configured else configured

/-- `depths[group.id]`. -/
def depthOf (depths : OrderedMap String ℤ) (entry : String × Group × Json) : ℤ := (OrderedMap.get entry.1 depths).getD 0

/-- The comparison of the keys: the deepest group comes first, then the oldest. -/
def precedes (depths : OrderedMap String ℤ) (a b : String × Group × Json) : Bool :=
  depthOf depths b < depthOf depths a ||
    (depthOf depths a = depthOf depths b &&
      (a.2.1.createdAt < b.2.1.createdAt || (a.2.1.createdAt = b.2.1.createdAt && a.1 < b.1)))

/-- `min(configured, key=...)`. -/
def winner (depths : OrderedMap String ℤ) : List (String × Group × Json) → Option (String × Group × Json)
  | [] => none
  | entry :: rest => some (rest.foldl (fun best next => if precedes depths next best then next else best) entry)

/-- `resolve_group_default_models`: the models and the group they come from. -/
def resolveGroupDefaultModels (groups : List (String × Group)) : Except Raised (Json × Option String) := do
  let configured ← configuredGroups groups
  return match winner (groupDepths groups) configured with
    | none => (.null, none)
    | some entry => (entry.2.2, some entry.1)

/-! ## Distances to the root -/

variable {id : String} {a : Group}

section Depth

variable {parent : String → Option String}

inductive Depth (parent : String → Option String) : String → ℤ → Prop
  | root {id : String} (h : parent id = none) : Depth parent id 0
  | child {id parentId : String} {d : ℤ} (h : parent id = some parentId) (hparent : Depth parent parentId d) :
      Depth parent id (d + 1)

theorem Depth.unique (h : Depth parent id d) (h' : Depth parent id d') : d = d' := by
  induction h generalizing d' with
  | root hnone =>
    cases h' with
    | root _ => rfl
    | child hsome _ =>
      rw [hnone] at hsome
      cases hsome
  | child hsome _ ih =>
    cases h' with
    | root hnone =>
      rw [hsome] at hnone
      cases hnone
    | child hsome' hparent' =>
      rw [hsome] at hsome'
      cases hsome'
      rw [ih hparent']

def Linked (parent : String → Option String) : Option String → List String → Prop
  | _, [] => True
  | current, id :: rest => parent id = current ∧ Linked parent (some id) rest

theorem Linked.above (h : Linked parent (some current) path) (hid : id ∈ path) :
    Relation.TransGen (fun a b => parent a = some b) id current := by
  induction path generalizing current with
  | nil => cases hid
  | cons first rest ih =>
    rcases List.mem_cons.1 hid with rfl | hrest
    · exact .single h.1
    · exact (ih h.2 hrest).tail h.1

def Correct (parent : String → Option String) (depths : OrderedMap String ℤ) : Prop :=
  ∀ id d, OrderedMap.get id depths = some d → Depth parent id d

theorem climb_spec {depths : OrderedMap String ℤ} {ids : List String}
    (hacyclic : ∀ id, ¬ Relation.TransGen (fun a b => parent a = some b) id id)
    (hids : ∀ a b, parent a = some b → b ∈ ids) (n : ℕ) {path : List String} {current : Option String}
    (hnodup : path.Nodup) (hpath : path ⊆ ids) (hcurrent : ∀ id, current = some id → id ∈ ids)
    (hlinked : Linked parent current path) (hfuel : ids.length + 1 ≤ n + path.length) :
    Linked parent (climb parent depths n path current).2 (climb parent depths n path current).1 ∧
      (∀ id, (climb parent depths n path current).2 = some id → (OrderedMap.get id depths).isSome) ∧
      path ⊆ (climb parent depths n path current).1 ∧
      (∀ id, current = some id → id ∈ (climb parent depths n path current).1 ∨ (OrderedMap.get id depths).isSome) := by
  induction n generalizing path current with
  | zero =>
    have hlength := (hnodup.subperm hpath).length_le
    omega
  | succ n ih =>
    cases current with
    | none =>
      refine ⟨hlinked, ?_, List.Subset.refl _, ?_⟩
      · intro id h
        cases h
      · intro id h
        cases h
    | some id =>
      have hcycle : id ∉ path := fun hmem => hacyclic id (hlinked.above hmem)
      by_cases hdepth : (OrderedMap.get id depths).isSome
      · have hstop : climb parent depths (n + 1) path (some id) = (path, some id) := by simp [climb, hdepth]
        rw [hstop]
        refine ⟨hlinked, ?_, List.Subset.refl _, ?_⟩
        · rintro _ ⟨⟩
          exact hdepth
        · rintro _ ⟨⟩
          exact .inr hdepth
      · have hgo : climb parent depths (n + 1) path (some id) =
            climb parent depths n (id :: path) (parent id) := by simp [climb, hdepth, hcycle]
        have hmem : id ∈ ids := hcurrent id rfl
        obtain ⟨hlinked', hstop, hsub, _⟩ := @ih (id :: path) (parent id)
          (List.nodup_cons.2 ⟨hcycle, hnodup⟩) (List.cons_subset.2 ⟨hmem, hpath⟩)
          (fun a ha => hids id a ha) ⟨rfl, hlinked⟩ (by rw [List.length_cons]; omega)
        rw [hgo]
        refine ⟨hlinked', hstop, fun a ha => hsub (List.mem_cons_of_mem _ ha), ?_⟩
        rintro _ ⟨⟩
        exact .inl (hsub List.mem_cons_self)

theorem assignDepths_spec (hlinked : Linked parent current path)
    (hdepth : (current = none ∧ depth = -1) ∨ ∃ id, current = some id ∧ Depth parent id depth)
    (hcorrect : Correct parent depths) :
    Correct parent (assignDepths depth path depths) ∧
      (∀ id ∈ path, (OrderedMap.get id (assignDepths depth path depths)).isSome) ∧
      ∀ id, (OrderedMap.get id depths).isSome → (OrderedMap.get id (assignDepths depth path depths)).isSome := by
  induction path generalizing current depth depths with
  | nil =>
    refine ⟨hcorrect, ?_, fun _ h => h⟩
    intro id hid
    cases hid
  | cons first rest ih =>
    have hfirst : Depth parent first (depth + 1) := by
      rcases hdepth with ⟨rfl, rfl⟩ | ⟨id, rfl, hid⟩
      · exact .root hlinked.1
      · exact .child hlinked.1 hid
    have hset : Correct parent (OrderedMap.set first (depth + 1) depths) := by
      intro id d hget
      rw [OrderedMap.get_set] at hget
      split at hget
      · rename_i hid
        cases hget
        rw [hid]
        exact hfirst
      · exact hcorrect id d hget
    obtain ⟨hcorrect', hpath, hkeep⟩ := ih hlinked.2 (.inr ⟨first, rfl, hfirst⟩) hset
    refine ⟨hcorrect', ?_, ?_⟩
    · intro id hid
      rcases List.mem_cons.1 hid with rfl | hrest
      · exact hkeep id (by simp [OrderedMap.get_set])
      · exact hpath id hrest
    · intro id hid
      apply hkeep
      rw [OrderedMap.get_set]
      split
      · rfl
      · exact hid

end Depth

section Groups

variable {groups : OrderedMap String Group}

theorem parentIn_mem_keys {a b : String} (h : parentIn groups a = some b) : b ∈ OrderedMap.keys groups := by
  obtain ⟨group, _, hparent⟩ := Option.bind_eq_some_iff.1 h
  exact OrderedMap.mem_keys_iff.2 (Option.filter_eq_some_iff.1 hparent).2

theorem addDepths_spec (hacyclic : ∀ id, ¬ Relation.TransGen (fun a b => parentIn groups a = some b) id id)
    (hcorrect : Correct (parentIn groups) depths) (hid : id ∈ OrderedMap.keys groups) :
    Correct (parentIn groups) (addDepths groups depths id) ∧ (OrderedMap.get id (addDepths groups depths id)).isSome ∧
      ∀ id', (OrderedMap.get id' depths).isSome → (OrderedMap.get id' (addDepths groups depths id)).isSome := by
  have hlength : (OrderedMap.keys groups).length = groups.length := by simp [OrderedMap.keys]
  obtain ⟨hlinked, hstop, _, hstart⟩ := @climb_spec (parentIn groups) depths (OrderedMap.keys groups) hacyclic
    (fun a b h => parentIn_mem_keys h) (groups.length + 1) [] (some id) List.nodup_nil (List.nil_subset _)
    (by
      rintro _ ⟨⟩
      exact hid) trivial (by rw [hlength, List.length_nil])
  have hdepth : ((climb (parentIn groups) depths (groups.length + 1) [] (some id)).2 = none ∧
      depthAt depths (climb (parentIn groups) depths (groups.length + 1) [] (some id)).2 = -1) ∨
      ∃ id', (climb (parentIn groups) depths (groups.length + 1) [] (some id)).2 = some id' ∧
        Depth (parentIn groups) id' (depthAt depths (climb (parentIn groups) depths (groups.length + 1) [] (some id)).2) := by
    cases hend : (climb (parentIn groups) depths (groups.length + 1) [] (some id)).2 with
    | none => exact .inl ⟨rfl, rfl⟩
    | some id' =>
      obtain ⟨d, hd⟩ := Option.isSome_iff_exists.1 (hstop id' hend)
      refine .inr ⟨id', rfl, ?_⟩
      rw [depthAt, Option.bind_some, hd]
      exact hcorrect id' d hd
  obtain ⟨hcorrect', hpath, hkeep⟩ := assignDepths_spec hlinked hdepth hcorrect
  refine ⟨hcorrect', ?_, hkeep⟩
  rcases hstart id rfl with hmem | hsome
  · exact hpath id hmem
  · exact hkeep id hsome

theorem groupDepths_get (hacyclic : ∀ id, ¬ Relation.TransGen (fun a b => parentIn groups a = some b) id id)
    (hid : id ∈ OrderedMap.keys groups) :
    ∃ d, OrderedMap.get id (groupDepths groups) = some d ∧ Depth (parentIn groups) id d := by
  have hfold : ∀ (ids : List String) (depths : OrderedMap String ℤ), ids ⊆ OrderedMap.keys groups →
      Correct (parentIn groups) depths →
      Correct (parentIn groups) (ids.foldl (addDepths groups) depths) ∧
        ∀ id, (id ∈ ids ∨ (OrderedMap.get id depths).isSome) →
          (OrderedMap.get id (ids.foldl (addDepths groups) depths)).isSome := by
    intro ids
    induction ids with
    | nil =>
      intro depths _ hcorrect
      refine ⟨hcorrect, ?_⟩
      rintro id (hmem | hsome)
      · cases hmem
      · exact hsome
    | cons first rest ih =>
      intro depths hsub hcorrect
      obtain ⟨hcorrect', hfirst, hkeep⟩ := addDepths_spec hacyclic hcorrect (hsub List.mem_cons_self)
      obtain ⟨hcorrect'', hall⟩ := ih _ (fun a ha => hsub (List.mem_cons_of_mem _ ha)) hcorrect'
      refine ⟨hcorrect'', ?_⟩
      rintro id (hmem | hsome)
      · rcases List.mem_cons.1 hmem with rfl | hrest
        · exact hall id (.inr hfirst)
        · exact hall id (.inl hrest)
      · exact hall id (.inr (hkeep id hsome))
  obtain ⟨hcorrect, hall⟩ := hfold (OrderedMap.keys groups) [] (List.Subset.refl _) (by
    intro id d hget
    cases hget)
  obtain ⟨d, hd⟩ := Option.isSome_iff_exists.1 (hall id (.inl hid))
  exact ⟨d, hd, hcorrect id d hd⟩

end Groups

/-- The only way to fail is a `config` that has no fields. -/
theorem groupDefaultModels_error (h : groupDefaultModels data = .error e) : e = .attributeError := by
  rw [groupDefaultModels] at h
  cases hconfig : (Dict.get (data.getD []) "config").orElse (.obj []) with
  | obj fields =>
    rw [hconfig] at h
    cases h
  | _ =>
    rw [hconfig] at h
    cases h
    rfl

theorem configuredGroups_ok (h : configuredGroups groups = .ok configured) :
    (∀ row ∈ groups, ∃ models, groupDefaultModels row.2.data = .ok models) ∧
      ∀ entry, entry ∈ configured ↔ (entry.1, entry.2.1) ∈ groups ∧
        groupDefaultModels entry.2.1.data = .ok entry.2.2 ∧ entry.2.2.truthy = true := by
  induction groups generalizing configured with
  | nil =>
    cases h
    simp
  | cons row rest ih =>
    obtain ⟨id, group⟩ := row
    obtain ⟨models, hmodels, h⟩ := bind_eq_ok.1 h
    obtain ⟨configured', hrest, h⟩ := bind_eq_ok.1 h
    obtain ⟨hall, hmem⟩ := ih hrest
    refine ⟨List.forall_mem_cons.2 ⟨⟨models, hmodels⟩, hall⟩, ?_⟩
    rintro ⟨id', group', models'⟩
    cases h
    -- the entry of the first row is there if its models count as true
    have hfirst : (id', group') = (id, group) ∧ groupDefaultModels group'.data = .ok models' ∧
        models'.truthy = true ↔ models.truthy = true ∧ (id', group', models') = (id, group, models) := by
      constructor
      · rintro ⟨heq, hok, htruthy⟩
        cases heq
        rw [hmodels] at hok
        cases hok
        exact ⟨htruthy, rfl⟩
      · rintro ⟨htruthy, heq⟩
        cases heq
        exact ⟨rfl, hmodels, htruthy⟩
    rw [List.mem_cons, or_and_right, hfirst]
    split
    · rename_i htruthy
      rw [List.mem_cons, hmem]
      simp [htruthy]
    · rename_i htruthy
      rw [hmem]
      simp [htruthy]

theorem configuredGroups_error (h : configuredGroups groups = .error e) :
    e = .attributeError ∧ ∃ row ∈ groups, groupDefaultModels row.2.data = .error .attributeError := by
  induction groups with
  | nil => cases h
  | cons row rest ih =>
    obtain ⟨id, group⟩ := row
    rw [configuredGroups] at h
    cases hmodels : groupDefaultModels group.data with
    | error e' =>
      have he' := groupDefaultModels_error hmodels
      rw [hmodels] at h
      cases h
      exact ⟨he', (id, group), List.mem_cons_self, by rw [hmodels, he']⟩
    | ok models =>
      cases hrest : configuredGroups rest with
      | error e' =>
        rw [hmodels, hrest] at h
        cases h
        obtain ⟨he, row, hrow, herror⟩ := ih hrest
        exact ⟨he, row, List.mem_cons_of_mem _ hrow, herror⟩
      | ok configured =>
        rw [hmodels, hrest] at h
        cases h

section Winner

variable {depths : OrderedMap String ℤ}

noncomputable def winnerKey (depths : OrderedMap String ℤ) (entry : String × Group × Json) : ℤ ×ₗ ℤ ×ₗ String :=
  toLex (-depthOf depths entry, toLex (entry.2.1.createdAt, entry.1))

theorem precedes_iff {a b : String × Group × Json} :
    precedes depths a b = true ↔ winnerKey depths a < winnerKey depths b := by
  simp only [precedes, winnerKey, Prod.Lex.toLex_lt_toLex, Bool.or_eq_true, Bool.and_eq_true, decide_eq_true_eq,
    neg_lt_neg_iff, neg_inj]

theorem winner_minimal (h : winner depths configured = some best) :
    best ∈ configured ∧ ∀ entry ∈ configured, winnerKey depths best ≤ winnerKey depths entry := by
  have hfold : ∀ (rest : List (String × Group × Json)) (first : String × Group × Json),
      let last := rest.foldl (fun best next => if precedes depths next best then next else best) first
      last ∈ first :: rest ∧ ∀ entry ∈ first :: rest, winnerKey depths last ≤ winnerKey depths entry := by
    intro rest
    induction rest with
    | nil =>
      intro first
      simp
    | cons next rest ih =>
      intro first
      rw [List.foldl_cons]
      obtain ⟨hmem, hmin⟩ := ih (if precedes depths next first then next else first)
      -- the better of the first two is before both
      have hboth : winnerKey depths (if precedes depths next first then next else first) ≤ winnerKey depths first ∧
          winnerKey depths (if precedes depths next first then next else first) ≤ winnerKey depths next := by
        split
        · rename_i hlt
          exact ⟨(precedes_iff.1 hlt).le, le_rfl⟩
        · rename_i hnot
          rw [precedes_iff, not_lt] at hnot
          exact ⟨le_rfl, hnot⟩
      have hhead := hmin _ List.mem_cons_self
      refine ⟨?_, ?_⟩
      · rcases List.mem_cons.1 hmem with heq | hrest
        · rw [heq]
          split
          · exact List.mem_cons_of_mem _ List.mem_cons_self
          · exact List.mem_cons_self
        · exact List.mem_cons_of_mem _ (List.mem_cons_of_mem _ hrest)
      · intro entry hentry
        rcases List.mem_cons.1 hentry with rfl | hentry
        · exact hhead.trans hboth.1
        rcases List.mem_cons.1 hentry with rfl | hentry
        · exact hhead.trans hboth.2
        · exact hmin entry (List.mem_cons_of_mem _ hentry)
  cases configured with
  | nil => cases h
  | cons first rest =>
    cases h
    exact hfold rest first

theorem winner_eq_none : winner depths configured = none ↔ configured = [] := by
  cases configured with
  | nil => simp [winner]
  | cons first rest => simp [winner]

end Winner

/-! ## Two lists of the same groups -/

/-- `==` of two results that may have failed. -/
def SameResult (a b : Except Raised Json) : Prop := a = b ∨ ∃ x y, a = .ok x ∧ b = .ok y ∧ x.eqv y = true

theorem not_sameResult {a b : Except Raised Json} {x y : Json} (ha : a = .ok x) (hb : b = .ok y) (hne : x ≠ y)
    (heqv : x.eqv y = false) : ¬ SameResult a b := by
  subst ha hb
  rintro (heq | ⟨x', y', hx, hy, hsame⟩)
  · exact hne (Except.ok.inj heq)
  · cases hx
    cases hy
    rw [heqv] at hsame
    cases hsame

theorem truthy_eq_of_eqv {x y : Json} (h : x.eqv y = true) : x.truthy = y.truthy := by
  have hlists : ∀ xs ys, Json.eqvList xs ys = true → xs.isEmpty = ys.isEmpty := by
    intro xs ys heqv
    cases xs <;> cases ys <;> simp_all [Json.eqvList]
  have hfields : ∀ xs ys : Dict, xs.length = ys.length → xs.isEmpty = ys.isEmpty := by
    intro xs ys hlength
    cases xs <;> cases ys <;> simp_all
  cases x with
  | null => cases y with
    | null => rfl
    | _ => simp [Json.eqv] at h
  | bool b => cases y with
    | bool b' =>
      cases b with
      | false => cases b' with
        | false => rfl
        | true => simp [Json.eqv, Json.number] at h
      | true => cases b' with
        | false => simp [Json.eqv, Json.number] at h
        | true => rfl
    | num q =>
      cases b with
      | false =>
        have hq : q = 0 := by simpa [Json.eqv, Json.number] using h
        simp [Json.truthy, hq]
      | true =>
        have hq : q = 1 := by simpa [Json.eqv, Json.number] using h
        simp [Json.truthy, hq]
    | _ => simp [Json.eqv, Json.number] at h
  | num q => cases y with
    | bool b' =>
      cases b' with
      | false =>
        have hq : 0 = q := by simpa [Json.eqv, Json.number] using h
        simp [Json.truthy, ← hq]
      | true =>
        have hq : 1 = q := by simpa [Json.eqv, Json.number] using h
        simp [Json.truthy, ← hq]
    | num q' =>
      have hq : q' = q := by simpa [Json.eqv, Json.number] using h
      rw [hq]
    | _ => simp [Json.eqv, Json.number] at h
  | str s => cases y with
    | str s' =>
      have hs : s = s' := by simpa [Json.eqv] using h
      rw [hs]
    | _ => simp [Json.eqv] at h
  | arr xs => cases y with
    | arr ys =>
      rw [Json.eqv] at h
      simp [Json.truthy, hlists xs ys h]
    | _ => simp [Json.eqv] at h
  | obj xs => cases y with
    | obj ys =>
      rw [Json.eqv, Bool.and_eq_true, beq_iff_eq] at h
      simp [Json.truthy, hfields xs ys h.1]
    | _ => simp [Json.eqv] at h

structure ResolvesAlike (a b : Group) : Prop where
  parent : a.parentGroupId = b.parentGroupId
  created : a.createdAt = b.createdAt
  models : SameResult (groupDefaultModels a.data) (groupDefaultModels b.data)

structure SameGroups (groups groups' : OrderedMap String Group) : Prop where
  distinct : OrderedMap.Distinct groups
  distinct' : OrderedMap.Distinct groups'
  ids : ∀ id, (OrderedMap.get id groups).isSome ↔ (OrderedMap.get id groups').isSome
  alike : ∀ id a b, OrderedMap.get id groups = some a → OrderedMap.get id groups' = some b → ResolvesAlike a b

namespace SameGroups

variable {groups groups' : OrderedMap String Group}

variable (h : SameGroups groups groups')

include h

theorem row (hmem : (id, a) ∈ groups) : ∃ b, (id, b) ∈ groups' ∧ ResolvesAlike a b := by
  have ha := OrderedMap.get_of_mem h.distinct hmem
  obtain ⟨b, hb⟩ := Option.isSome_iff_exists.1 ((h.ids id).1 (Option.isSome_iff_exists.2 ⟨a, ha⟩))
  exact ⟨b, OrderedMap.mem_of_get hb, h.alike id a b ha hb⟩

theorem row' (hmem : (id, b) ∈ groups') : ∃ a, (id, a) ∈ groups ∧ ResolvesAlike a b := by
  have hb := OrderedMap.get_of_mem h.distinct' hmem
  obtain ⟨a, ha⟩ := Option.isSome_iff_exists.1 ((h.ids id).2 (Option.isSome_iff_exists.2 ⟨b, hb⟩))
  exact ⟨a, OrderedMap.mem_of_get ha, h.alike id a b ha hb⟩

theorem parentIn_eq : parentIn groups' = parentIn groups := by
  have hfilter : ∀ parentId : Option String,
      (parentId.filter fun id => (OrderedMap.get id groups').isSome) =
        parentId.filter fun id => (OrderedMap.get id groups).isSome := by
    intro parentId
    congr 1
    funext id
    exact Bool.eq_iff_iff.2 (h.ids id).symm
  funext id
  rw [parentIn, parentIn]
  cases ha : OrderedMap.get id groups with
  | none =>
    have hb : OrderedMap.get id groups' = none := by
      apply Option.not_isSome_iff_eq_none.1
      rw [← h.ids, ha]
      simp
    rw [hb]
    rfl
  | some a =>
    obtain ⟨b, hb⟩ := Option.isSome_iff_exists.1 ((h.ids id).1 (Option.isSome_iff_exists.2 ⟨a, ha⟩))
    rw [hb, Option.bind_some, Option.bind_some, (h.alike id a b ha hb).parent, hfilter]

theorem depths_eq
    (hacyclic : ∀ id, ¬ Relation.TransGen (fun a b => parentIn groups a = some b) id id) (hmem : (id, a) ∈ groups) :
    OrderedMap.get id (groupDepths groups') = OrderedMap.get id (groupDepths groups) := by
  obtain ⟨b, hmem', _⟩ := h.row hmem
  have hacyclic' : ∀ id, ¬ Relation.TransGen (fun a b => parentIn groups' a = some b) id id := by
    rw [h.parentIn_eq]
    exact hacyclic
  obtain ⟨d, hd, hdepth⟩ := groupDepths_get hacyclic (List.mem_map.2 ⟨(id, a), hmem, rfl⟩)
  obtain ⟨d', hd', hdepth'⟩ := groupDepths_get hacyclic' (List.mem_map.2 ⟨(id, b), hmem', rfl⟩)
  rw [h.parentIn_eq] at hdepth'
  rw [hd, hd', hdepth'.unique hdepth]

theorem winnerKey_eq (hacyclic : ∀ id, ¬ Relation.TransGen (fun a b => parentIn groups a = some b) id id)
    (hmem : (id, a) ∈ groups) (hlike : ResolvesAlike a b) (x y : Json) :
    winnerKey (groupDepths groups') (id, b, y) = winnerKey (groupDepths groups) (id, a, x) := by
  simp only [winnerKey, depthOf, h.depths_eq hacyclic hmem, hlike.created]

theorem configured :
    (configuredGroups groups = .error .attributeError ∧ configuredGroups groups' = .error .attributeError) ∨
      ∃ configured configured', configuredGroups groups = .ok configured ∧
        configuredGroups groups' = .ok configured' := by
  cases hconf : configuredGroups groups with
  | error e =>
    obtain ⟨rfl, ⟨id, a⟩, hmem, herror⟩ := configuredGroups_error hconf
    obtain ⟨b, hmem', hlike⟩ := h.row hmem
    cases hconf' : configuredGroups groups' with
    | error e =>
      obtain ⟨rfl, _⟩ := configuredGroups_error hconf'
      exact .inl ⟨rfl, rfl⟩
    | ok configured' =>
      obtain ⟨models, hmodels⟩ := (configuredGroups_ok hconf').1 _ hmem'
      rcases hlike.models with heq | ⟨x, y, hx, _⟩
      · rw [heq, hmodels] at herror
        cases herror
      · rw [hx] at herror
        cases herror
  | ok configured =>
    cases hconf' : configuredGroups groups' with
    | error e =>
      obtain ⟨rfl, ⟨id, b⟩, hmem', herror'⟩ := configuredGroups_error hconf'
      obtain ⟨a, hmem, hlike⟩ := h.row' hmem'
      obtain ⟨models, hmodels⟩ := (configuredGroups_ok hconf).1 _ hmem
      rcases hlike.models with heq | ⟨x, y, _, hy, _⟩
      · rw [← heq, hmodels] at herror'
        cases herror'
      · rw [hy] at herror'
        cases herror'
    | ok configured' => exact .inr ⟨configured, configured', rfl, rfl⟩

variable {configured configured' : List (String × Group × Json)}

theorem entry (hacyclic : ∀ id, ¬ Relation.TransGen (fun a b => parentIn groups a = some b) id id)
    (hconf : configuredGroups groups = .ok configured) (hconf' : configuredGroups groups' = .ok configured')
    {entry : String × Group × Json} (hentry : entry ∈ configured) :
    ∃ entry' ∈ configured', winnerKey (groupDepths groups') entry' = winnerKey (groupDepths groups) entry ∧
      (entry.2.2 = entry'.2.2 ∨ entry.2.2.eqv entry'.2.2 = true) := by
  obtain ⟨id, a, x⟩ := entry
  obtain ⟨hmem, hmodels, htruthy⟩ := ((configuredGroups_ok hconf).2 _).1 hentry
  obtain ⟨b, hmem', hlike⟩ := h.row hmem
  rcases hlike.models with heq | ⟨x', y, hx, hy, heqv⟩
  · refine ⟨(id, b, x), ((configuredGroups_ok hconf').2 _).2 ⟨hmem', ?_, htruthy⟩, ?_, .inl rfl⟩
    · exact heq.symm.trans hmodels
    · exact h.winnerKey_eq hacyclic hmem hlike x x
  · rw [hmodels] at hx
    cases hx
    refine ⟨(id, b, y), ((configuredGroups_ok hconf').2 _).2 ⟨hmem', hy, ?_⟩, ?_, .inr heqv⟩
    · exact (truthy_eq_of_eqv heqv).symm.trans htruthy
    · exact h.winnerKey_eq hacyclic hmem hlike x y

theorem entry' (hacyclic : ∀ id, ¬ Relation.TransGen (fun a b => parentIn groups a = some b) id id)
    (hconf : configuredGroups groups = .ok configured) (hconf' : configuredGroups groups' = .ok configured')
    {entry' : String × Group × Json} (hentry : entry' ∈ configured') :
    ∃ entry ∈ configured, winnerKey (groupDepths groups') entry' = winnerKey (groupDepths groups) entry := by
  obtain ⟨id, b, y⟩ := entry'
  obtain ⟨hmem', hmodels, htruthy⟩ := ((configuredGroups_ok hconf').2 _).1 hentry
  obtain ⟨a, hmem, hlike⟩ := h.row' hmem'
  rcases hlike.models with heq | ⟨x, y', hx, hy, heqv⟩
  · exact ⟨(id, a, y), ((configuredGroups_ok hconf).2 _).2 ⟨hmem, heq.trans hmodels, htruthy⟩,
      h.winnerKey_eq hacyclic hmem hlike y y⟩
  · rw [hmodels] at hy
    cases hy
    exact ⟨(id, a, x), ((configuredGroups_ok hconf).2 _).2 ⟨hmem, hx, (truthy_eq_of_eqv heqv).trans htruthy⟩,
      h.winnerKey_eq hacyclic hmem hlike x y⟩

theorem entry_unique (hconf' : configuredGroups groups' = .ok configured')
    {a b : String × Group × Json} (ha : a ∈ configured') (hb : b ∈ configured')
    (hkey : winnerKey (groupDepths groups') a = winnerKey (groupDepths groups') b) : a = b := by
  obtain ⟨id, group, x⟩ := a
  obtain ⟨id', group', y⟩ := b
  have hid : id = id' := by
    have hinner := (Prod.ext_iff.1 (toLex_inj.1 hkey)).2
    exact (Prod.ext_iff.1 (toLex_inj.1 hinner)).2
  subst hid
  obtain ⟨hmema, hx, _⟩ := ((configuredGroups_ok hconf').2 _).1 ha
  obtain ⟨hmemb, hy, _⟩ := ((configuredGroups_ok hconf').2 _).1 hb
  have hgroup := (OrderedMap.get_of_mem h.distinct' hmema).symm.trans (OrderedMap.get_of_mem h.distinct' hmemb)
  cases hgroup
  rw [hx] at hy
  cases hy
  rfl

end SameGroups

theorem resolveGroupDefaultModels_error {e : Raised} (h : configuredGroups groups = .error e) :
    resolveGroupDefaultModels groups = .error e := by
  rw [resolveGroupDefaultModels, h]
  rfl

variable {configured : List (String × Group × Json)}

theorem resolveGroupDefaultModels_none
    (h : configuredGroups groups = .ok configured) (hwinner : winner (groupDepths groups) configured = none) :
    resolveGroupDefaultModels groups = .ok (.null, none) := by
  rw [resolveGroupDefaultModels, h]
  simp only [bind, Except.bind, hwinner, pure, Except.pure]

theorem resolveGroupDefaultModels_some {entry : String × Group × Json}
    (h : configuredGroups groups = .ok configured) (hwinner : winner (groupDepths groups) configured = some entry) :
    resolveGroupDefaultModels groups = .ok (entry.2.2, some entry.1) := by
  rw [resolveGroupDefaultModels, h]
  simp only [bind, Except.bind, hwinner, pure, Except.pure]

theorem resolveGroupDefaultModels_same (h : SameGroups groups groups')
    (hacyclic : ∀ id, ¬ Relation.TransGen (fun a b => parentIn groups a = some b) id id) :
    SameResult ((resolveGroupDefaultModels groups).map Prod.fst)
      ((resolveGroupDefaultModels groups').map Prod.fst) := by
  rcases h.configured with ⟨hconf, hconf'⟩ | ⟨configured, configured', hconf, hconf'⟩
  · refine .inl ?_
    rw [resolveGroupDefaultModels_error hconf, resolveGroupDefaultModels_error hconf']
  cases hbest : winner (groupDepths groups) configured with
  | none =>
    have hnil := winner_eq_none.1 hbest
    have hbest' : winner (groupDepths groups') configured' = none := by
      rw [winner_eq_none, List.eq_nil_iff_forall_not_mem]
      intro entry' hentry'
      obtain ⟨entry, hentry, _⟩ := h.entry' hacyclic hconf hconf' hentry'
      rw [hnil] at hentry
      cases hentry
    refine .inl ?_
    rw [resolveGroupDefaultModels_none hconf hbest, resolveGroupDefaultModels_none hconf' hbest']
  | some best =>
    obtain ⟨hmem, hmin⟩ := winner_minimal hbest
    obtain ⟨image, himage, hkey, hmodels⟩ := h.entry hacyclic hconf hconf' hmem
    cases hbest' : winner (groupDepths groups') configured' with
    | none =>
      rw [winner_eq_none.1 hbest'] at himage
      cases himage
    | some best' =>
      obtain ⟨hmem', hmin'⟩ := winner_minimal hbest'
      obtain ⟨source, hsource, hkey'⟩ := h.entry' hacyclic hconf hconf' hmem'
      -- each of the two winners is before the image of the other
      have heq : best' = image := by
        apply h.entry_unique hconf' hmem' himage
        apply le_antisymm (hmin' image himage)
        rw [hkey, hkey']
        exact hmin source hsource
      subst heq
      rw [resolveGroupDefaultModels_some hconf hbest, resolveGroupDefaultModels_some hconf' hbest']
      rcases hmodels with hsame | heqv
      · exact .inl (congrArg Except.ok hsame)
      · exact .inr ⟨_, _, rfl, rfl, heqv⟩

end RyanAI.Access
