import Mathlib.Tactic
import Mathlib.Data.List.Count

/-!
# Links between parents and children, stored twice

A node names its parent and lists its children. `Links` gives both for every node that exists, and
`Linked` says that the two agree: a node is listed by its parent once and by no other node. Nodes that do
not exist may be named and listed.

Three rules build linked nodes: `LinkedBut.place` puts one node in place and adds it to the list of its
parent, `Linked.splice` removes a node with its children and moves the children of these up, and
`linked_rebuild` computes all lists from the parents. `LinkedBut` leaves out nodes that are still to be
placed.
-/

namespace RyanAI.Lib

universe u

abbrev Links (α : Type u) := α → Option (Option α × List α)

namespace Links

variable {α : Type u} [DecidableEq α]

/-- How often a node of the given parent has to be listed by `p`. -/
def due (parent : Option α) (p : α) : ℕ := if parent = some p then 1 else 0

def Linked (g : Links α) : Prop := ∀ p kp c kc, g p = some kp → g c = some kc → kp.2.count c = due kc.1 p

/-- The same while the nodes in `S` are not in place. -/
def LinkedBut (S : α → Prop) (g : Links α) : Prop :=
  ∀ p kp c kc, ¬ S p → g p = some kp → g c = some kc → ¬ S c → kp.2.count c = due kc.1 p

theorem linkedBut_of_linked (h : Linked g) (S : α → Prop) : LinkedBut S g := by
  intro p kp c kc _ hp hc _
  exact h p kp c kc hp hc

theorem linked_of_linkedBut {S : α → Prop} (h : LinkedBut S g) (hS : ∀ c, ¬ S c) : Linked g := by
  intro p kp c kc hp hc
  exact h p kp c kc (hS p) hp hc (hS c)

theorem LinkedBut.mono {S S' : α → Prop} (h : LinkedBut S g) (hS : ∀ c, S c → S' c) : LinkedBut S' g := by
  intro p kp c kc hp hgp hgc hc
  exact h p kp c kc (fun hs => hp (hS p hs)) hgp hgc fun hs => hc (hS c hs)

/-! ## Putting a node in place -/

def put (id : α) (k : Option α × List α) (g : Links α) : Links α := Function.update g id (some k)

/-- The node `id` at the end of the list of its parent, unless it is listed. -/
def addChild (parent : Option α) (id : α) (g : Links α) : Links α :=
  match parent with
  | none => g
  | some p =>
    match g p with
    | none => g
    | some k => if id ∈ k.2 then g else put p (k.1, k.2 ++ [id]) g

/-- The node `id` with its new links, listed by its parent. -/
def place (id : α) (parent : Option α) (children : List α) (g : Links α) : Links α :=
  addChild parent id (put id (parent, children) g)

/-- Only its parent lists `id`, and it lists its children; those in `S` are not in place yet. -/
structure Fits (S : α → Prop) (g : Links α) (id : α) (parent : Option α) (children : List α) : Prop where
  listed : ∀ q kq, q ≠ id → ¬ S q → g q = some kq → kq.2.count id ≤ due parent q
  lists : ∀ c kc, c ≠ id → ¬ S c → g c = some kc → children.count c = due kc.1 id
  self : children.count id ≤ due parent id

variable {g : Links α}

theorem addChild_cases {id q : α} {k' : Option α × List α} (h : addChild parent id g q = some k') :
    ∃ k, g q = some k ∧ k'.1 = k.1 ∧ (∀ c, c ≠ id → k'.2.count c = k.2.count c) ∧
      (k.2.count id ≤ due parent q → k'.2.count id = due parent q) := by
  -- where nothing is added, the child is listed or not due
  have hsame : g q = some k' → (parent = some q → id ∈ k'.2) →
      ∃ k, g q = some k ∧ k'.1 = k.1 ∧ (∀ c, c ≠ id → k'.2.count c = k.2.count c) ∧
        (k.2.count id ≤ due parent q → k'.2.count id = due parent q) := by
    intro hg hlisted
    refine ⟨k', hg, rfl, fun _ _ => rfl, fun hle => ?_⟩
    by_cases hq : parent = some q
    · have hpos := List.count_pos_iff.2 (hlisted hq)
      have hdue : due parent q = 1 := if_pos hq
      omega
    · have hdue : due parent q = 0 := if_neg hq
      omega
  unfold addChild at h
  cases parent with
  | none => exact hsame h nofun
  | some p =>
    cases hp : g p with
    | none =>
      simp only [hp] at h
      refine hsame h fun hpq => ?_
      cases hpq
      rw [hp] at h
      cases h
    | some k =>
      simp only [hp] at h
      split at h
      · rename_i hmem
        refine hsame h fun hpq => ?_
        cases hpq
        rw [hp, Option.some.injEq] at h
        exact h ▸ hmem
      rename_i hmem
      by_cases hq : q = p
      · subst hq
        simp only [put, Function.update_self] at h
        cases h
        have hzero : k.2.count id = 0 := List.count_eq_zero_of_not_mem hmem
        refine ⟨k, hp, rfl, fun c hc => ?_, fun _ => ?_⟩
        · have hone : [id].count c = 0 := List.count_eq_zero_of_not_mem (by simpa using hc)
          rw [List.count_append, hone, Nat.add_zero]
        · rw [List.count_append, hzero]
          simp [due]
      · rw [put, Function.update_of_ne hq] at h
        exact hsame h fun hpq => absurd (Option.some.inj hpq).symm hq

theorem LinkedBut.place {S : α → Prop} {id : α} {parent : Option α} {children : List α}
    (h : LinkedBut S g) (hfits : Fits S g id parent children) :
    LinkedBut (fun c => S c ∧ c ≠ id) (Links.place id parent children g) := by
  have hother : ∀ c, ¬ (S c ∧ c ≠ id) → c ≠ id → ¬ S c := fun c hno hne hs => hno ⟨hs, hne⟩
  intro p kp c kc hSp hp hc hSc
  obtain ⟨kp', hp', -, hothers, hid⟩ := addChild_cases hp
  obtain ⟨kc', hc', hparent, -, -⟩ := addChild_cases hc
  rw [hparent]
  -- the list of `p` and the parent of `c` before the node is listed
  by_cases hcid : c = id
  · subst hcid
    simp only [put, Function.update_self] at hc'
    cases hc'
    apply hid
    by_cases hpid : p = c
    · subst hpid
      simp only [put, Function.update_self] at hp'
      cases hp'
      exact hfits.self
    · rw [put, Function.update_of_ne hpid] at hp'
      exact hfits.listed p kp' hpid (hother p hSp hpid) hp'
  · rw [hothers c hcid]
    rw [put, Function.update_of_ne hcid] at hc'
    by_cases hpid : p = id
    · subst hpid
      simp only [put, Function.update_self] at hp'
      cases hp'
      exact hfits.lists c kc' hcid (hother c hSc hcid) hc'
    · rw [put, Function.update_of_ne hpid] at hp'
      exact h p kp' c kc' (hother p hSp hpid) hp' hc' (hother c hSc hcid)

theorem place_cases {id q : α} {parent : Option α} {children : List α}
    {k' : Option α × List α} (h : place id parent children g q = some k') :
    ∃ k, put id (parent, children) g q = some k ∧ k'.1 = k.1 ∧ ∀ c, c ≠ id → k'.2.count c = k.2.count c := by
  obtain ⟨k, hk, hparent, hcount, -⟩ := addChild_cases h
  exact ⟨k, hk, hparent, hcount⟩

variable {k : Option α × List α}

theorem addChild_of_mem {p id : α} (hp : g p = some k) (hmem : id ∈ k.2) : addChild (some p) id g = g := by
  simp only [addChild, hp, if_pos hmem]

theorem addChild_of_not_mem {id : α} (h : ∀ p k, parent = some p → g p = some k → id ∉ k.2) (q : α) :
    addChild parent id g q = if parent = some q then (g q).map fun k => (k.1, k.2 ++ [id]) else g q := by
  cases parent with
  | none => simp [addChild]
  | some p =>
    cases hp : g p with
    | none =>
      simp only [addChild, hp, Option.some.injEq]
      split
      · rename_i heq
        rw [← heq, hp]
        rfl
      · rfl
    | some k =>
      simp only [addChild, hp, if_neg (h p k rfl hp), put, Option.some.injEq]
      by_cases hq : p = q
      · subst hq
        rw [Function.update_self, if_pos rfl, hp]
        rfl
      · rw [Function.update_of_ne (Ne.symm hq), if_neg hq]

/-- The nodes of `ids` are removed, and `parent` lists them no longer. -/
def drop (ids : List α) (parent : Option α) (g : Links α) : Links α := fun q =>
  if q ∈ ids then none
  else (g q).map fun k => (k.1, if parent = some q then k.2.filter (· ∉ ids) else k.2)

theorem drop_eq_some (h : drop ids parent g q = some k) :
    q ∉ ids ∧ ∃ k₀, g q = some k₀ ∧ k.1 = k₀.1 ∧ (∀ c ∈ k.2, c ∈ k₀.2) ∧ (parent = some q → ∀ c ∈ k.2, c ∉ ids) := by
  unfold drop at h
  by_cases hq : q ∈ ids
  · rw [if_pos hq] at h
    cases h
  rw [if_neg hq] at h
  obtain ⟨k₀, hk₀, rfl⟩ := Option.map_eq_some_iff.1 h
  refine ⟨hq, k₀, hk₀, rfl, fun c hc => ?_, fun hp c hc => ?_⟩
  · split at hc
    · exact List.mem_of_mem_filter hc
    · exact hc
  · simp only [if_pos hp] at hc
    simpa using (List.mem_filter.1 hc).2

theorem Linked.drop (h : Linked g) (ids : List α) (parent : Option α) : Linked (Links.drop ids parent g) := by
  intro p kp c kc hp hc
  simp only [Links.drop] at hp hc
  split at hp
  · cases hp
  split at hc
  · cases hc
  rename_i hcids
  obtain ⟨kp₀, hp₀, rfl⟩ := Option.map_eq_some_iff.1 hp
  obtain ⟨kc₀, hc₀, rfl⟩ := Option.map_eq_some_iff.1 hc
  have hcount := h p kp₀ c kc₀ hp₀ hc₀
  split
  · rw [List.count_filter (by simpa using hcids)]
    exact hcount
  · exact hcount

def existing (g : Links α) (ids : List α) : List α := ids.filter fun c => (g c).isSome

def childrenOf (g : Links α) (ids : List α) : List α := ids.flatMap fun c => existing g (((g c).map Prod.snd).getD [])

/-- `id` and the nodes of `cs` are removed; the nodes of `gs` move to `parent`. -/
def splice (id : α) (parent : Option α) (cs gs : List α) (g : Links α) : Links α := fun q =>
  if q = id ∨ q ∈ cs then none
  else (g q).map fun k =>
    (if q ∈ gs then parent else k.1, if parent = some q then k.2.filter (· ≠ id) ++ gs else k.2)

/-- `childrenOf` lists existing nodes as often as the nodes do. -/
theorem Linked.count_childrenOf (h : Linked g) {kc : Option α × List α}
    (hc : g c = some kc) (hnodup : ids.Nodup) (hids : ∀ d ∈ ids, (g d).isSome = true) :
    (childrenOf g ids).count c = if ∃ d ∈ ids, kc.1 = some d then 1 else 0 := by
  induction ids with
  | nil => simp [childrenOf]
  | cons d rest ih =>
    obtain ⟨hd, hrest⟩ := List.nodup_cons.1 hnodup
    have ih' := ih hrest fun e he => hids e (List.mem_cons_of_mem _ he)
    obtain ⟨kd, hkd⟩ := Option.isSome_iff_exists.1 (hids d List.mem_cons_self)
    have hcount : (existing g (((g d).map Prod.snd).getD [])).count c = due kc.1 d := by
      rw [hkd, Option.map_some, Option.getD_some, existing, List.count_filter (by simp [hc])]
      exact h d kd c kc hkd hc
    have hcons : childrenOf g (d :: rest) =
        existing g (((g d).map Prod.snd).getD []) ++ childrenOf g rest := by
      simp [childrenOf]
    rw [hcons, List.count_append, hcount, ih', due]
    by_cases hparent : kc.1 = some d
    · have hno : ¬ ∃ e ∈ rest, kc.1 = some e := by
        rintro ⟨e, he, heq⟩
        rw [hparent, Option.some.injEq] at heq
        exact hd (heq ▸ he)
      rw [if_pos hparent, if_neg hno, if_pos ⟨d, List.mem_cons_self, hparent⟩]
    have hiff : (∃ e ∈ d :: rest, kc.1 = some e) ↔ ∃ e ∈ rest, kc.1 = some e := by
      constructor
      · rintro ⟨e, he, heq⟩
        rcases List.mem_cons.1 he with rfl | he
        · exact absurd heq hparent
        · exact ⟨e, he, heq⟩
      · rintro ⟨e, he, heq⟩
        exact ⟨e, List.mem_cons_of_mem _ he, heq⟩
    rw [if_neg hparent, Nat.zero_add]
    simp only [hiff]

theorem Linked.splice {id : α} (h : Linked g) (hid : g id = some k) :
    Linked (Links.splice id k.1 (existing g k.2) (childrenOf g (existing g k.2)) g) := by
  have hsome : ∀ d ∈ existing g k.2, (g d).isSome = true := fun d hd => by
    simpa using (List.mem_filter.1 hd).2
  have hnodup : (existing g k.2).Nodup := by
    rw [List.nodup_iff_count_le_one]
    intro d
    by_cases hd : (g d).isSome = true
    · obtain ⟨kd, hkd⟩ := Option.isSome_iff_exists.1 hd
      rw [existing, List.count_filter (by simp [hkd]), h id k d kd hid hkd, due]
      split <;> simp
    · rw [List.count_eq_zero_of_not_mem fun hmem => hd (hsome d hmem)]
      exact Nat.zero_le _
  intro p kp c kc hp hc
  simp only [Links.splice] at hp hc
  split at hp
  · cases hp
  rename_i hpkeep
  split at hc
  · cases hc
  rename_i hckeep
  obtain ⟨kp₀, hp₀, rfl⟩ := Option.map_eq_some_iff.1 hp
  obtain ⟨kc₀, hc₀, rfl⟩ := Option.map_eq_some_iff.1 hc
  have hcp := h p kp₀ c kc₀ hp₀ hc₀
  have hgs := h.count_childrenOf hc₀ hnodup hsome
  -- `c` moves up exactly when its parent is removed as a child of `id`
  have hmoved : c ∈ childrenOf g (existing g k.2) ↔ ∃ d ∈ existing g k.2, kc₀.1 = some d := by
    rw [← List.count_pos_iff, hgs]
    split
    · rename_i hex
      simp only [hex, iff_true]
      exact Nat.one_pos
    · rename_i hex
      simp [hex]
  have hcid : c ≠ id := fun heq => hckeep (.inl heq)
  have hfilter : (kp₀.2.filter (· ≠ id)).count c = kp₀.2.count c := List.count_filter (by simpa using hcid)
  by_cases hmem : c ∈ childrenOf g (existing g k.2)
  · obtain ⟨d, hd, hparent⟩ := hmoved.1 hmem
    have hzero : kp₀.2.count c = 0 := by
      rw [hcp, due, if_neg]
      intro heq
      rw [hparent, Option.some.injEq] at heq
      exact hpkeep (.inr (heq ▸ hd))
    have hone : (childrenOf g (existing g k.2)).count c = 1 := by
      rw [hgs, if_pos ⟨d, hd, hparent⟩]
    simp only [if_pos hmem, due]
    split
    · rw [List.count_append, hfilter, hzero, hone]
    · exact hzero
  · have hzero : (childrenOf g (existing g k.2)).count c = 0 := List.count_eq_zero_of_not_mem hmem
    simp only [if_neg hmem]
    split
    · rw [List.count_append, hfilter, hzero, Nat.add_zero]
      exact hcp
    · exact hcp

/-- Every node lists the nodes whose parent it is, in the order of `ids`. -/
def rebuild (ids : List α) (parentOf : α → Option α) : Links α := fun q =>
  if q ∈ ids then some (parentOf q, ids.filter fun c => parentOf c = some q) else none

theorem linked_rebuild (hnodup : ids.Nodup) (parentOf : α → Option α) : Linked (rebuild ids parentOf) := by
  intro p kp c kc hp hc
  simp only [rebuild] at hp hc
  split at hp
  · split at hc
    · rename_i hcmem
      cases hp
      cases hc
      simp only [due]
      split
      · rename_i hparent
        rw [List.count_filter (by simpa using hparent)]
        exact List.count_eq_one_of_mem hnodup hcmem
      · rename_i hparent
        apply List.count_eq_zero_of_not_mem
        intro hmem
        exact hparent (by simpa using (List.mem_filter.1 hmem).2)
    · cases hc
  · cases hp

end Links

end RyanAI.Lib
