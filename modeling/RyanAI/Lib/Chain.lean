import Mathlib.Tactic
import Mathlib.Logic.Relation
import Mathlib.Data.Fintype.Card
import Mathlib.Data.Set.Finite.List

/-!
# Following links to the end

`chainEnd link n a` follows `link` from `a` through at most `n` elements and returns the last one, `none` when that is
no end. More steps never change the answer (`chainEnd_mono`), and over finitely many elements without a cycle every
chain ends (`exists_chainEnd_of_acyclic`). `Walk` counts the links between two elements.
-/

namespace RyanAI.Lib.Chain

universe u

variable {α : Type u}

/-- The element without a link that the chain of `a` ends in. -/
def chainEnd (link : α → Option α) : Nat → α → Option α
  | 0, _ => none
  | n + 1, a =>
    match link a with
    | none => some a
    | some b => chainEnd link n b

def Acyclic (link : α → Option α) : Prop := ∀ a, ¬ Relation.TransGen (fun x y => link x = some y) a a

variable {link : α → Option α} {a b : α} {n : Nat}

theorem chainEnd_mono (h : chainEnd link n a = some e) (hnm : n ≤ m) : chainEnd link m a = some e := by
  induction n generalizing a m with
  | zero => cases h
  | succ n ih =>
    obtain ⟨m, rfl⟩ : ∃ k, m = k + 1 := ⟨m - 1, by omega⟩
    simp only [chainEnd] at h ⊢
    cases hl : link a with
    | none =>
      rw [hl] at h
      exact h
    | some b =>
      rw [hl] at h
      exact ih h (by omega)

theorem exists_chainEnd_of_acyclic {elems : List α} (hclosed : ∀ a b, link a = some b → b ∈ elems)
    (hacyclic : Acyclic link) (a : α) :
    ∃ n e, chainEnd link n a = some e := by
  -- the elements of the list, each below those that reach it
  let r : {x // x ∈ elems} → {x // x ∈ elems} → Prop :=
    fun x y => Relation.TransGen (fun x y => link x = some y) y.1 x.1
  have : Finite {x // x ∈ elems} := (List.finite_toSet elems).to_subtype
  have : IsTrans _ r := ⟨fun x y z hxy hyz => hyz.trans hxy⟩
  have : Std.Irrefl r := ⟨fun x hx => hacyclic x.1 hx⟩
  have hwf : WellFounded r := Finite.wellFounded_of_trans_of_irrefl r
  have hmem : ∀ x : {x // x ∈ elems}, ∃ n e, chainEnd link n x.1 = some e := by
    intro x
    induction x using hwf.induction with
    | h x ih =>
      cases hl : link x.1 with
      | none => exact ⟨1, x.1, by simp [chainEnd, hl]⟩
      | some b =>
        obtain ⟨n, e, he⟩ := ih ⟨b, hclosed _ _ hl⟩ (Relation.TransGen.single hl)
        exact ⟨n + 1, e, by simp [chainEnd, hl, he]⟩
  cases hl : link a with
  | none => exact ⟨1, a, by simp [chainEnd, hl]⟩
  | some b =>
    obtain ⟨n, e, he⟩ := hmem ⟨b, hclosed _ _ hl⟩
    exact ⟨n + 1, e, by simp [chainEnd, hl, he]⟩

/-! ## Walks -/

/-- Following `n` links from the first element leads to the second. -/
def Walk (link : α → Option α) : Nat → α → α → Prop
  | 0, a, b => a = b
  | n + 1, a, b => ∃ c, link a = some c ∧ Walk link n c b

theorem Walk.split (h : Walk link (n + k) a c) : ∃ b, Walk link n a b ∧ Walk link k b c := by
  induction n generalizing a with
  | zero => exact ⟨a, rfl, by rwa [Nat.zero_add] at h⟩
  | succ n ih =>
    rw [Nat.succ_add] at h
    obtain ⟨d, hd, hrest⟩ := h
    obtain ⟨b, hb, hc⟩ := ih hrest
    exact ⟨b, ⟨d, hd, hb⟩, hc⟩

theorem Walk.unique (h : Walk link n a b) (h' : Walk link n a c) : b = c := by
  induction n generalizing a with
  | zero => exact (show a = b from h).symm.trans h'
  | succ n ih =>
    obtain ⟨d, hd, hb⟩ := h
    obtain ⟨e, he, hc⟩ := h'
    obtain rfl : d = e := Option.some.inj (hd.symm.trans he)
    exact ih hb hc

theorem Walk.reflTransGen (h : Walk link n a b) : Relation.ReflTransGen (fun x y => link x = some y) a b := by
  induction n generalizing a with
  | zero =>
    obtain rfl : a = b := h
    exact .refl
  | succ n ih =>
    obtain ⟨c, hc, hrest⟩ := h
    exact .head hc (ih hrest)

def ReachesCycle (link : α → Option α) (a : α) : Prop :=
  ∃ b, Relation.ReflTransGen (fun x y => link x = some y) a b ∧
    Relation.TransGen (fun x y => link x = some y) b b

theorem ReachesCycle.next (h : ReachesCycle link a) : ∃ c, link a = some c ∧ ReachesCycle link c := by
  obtain ⟨b, hab, hbb⟩ := h
  rcases hab.cases_head with rfl | ⟨c, hac, hcb⟩
  · obtain ⟨c, hac, hcb⟩ := Relation.TransGen.head'_iff.1 hbb
    exact ⟨c, hac, a, hcb, hbb⟩
  · exact ⟨c, hac, b, hcb, hbb⟩

theorem ReachesCycle.exists_walk (h : ReachesCycle link a) (n : Nat) : ∃ b, Walk link n a b := by
  induction n generalizing a with
  | zero => exact ⟨a, rfl⟩
  | succ n ih =>
    obtain ⟨c, hac, hc⟩ := h.next
    obtain ⟨b, hb⟩ := ih hc
    exact ⟨b, c, hac, hb⟩

/-! ## Arrivals -/

/-- Following `n` links from the element leads to `top`, and no fewer links do. -/
def ArrivesAfter (link : α → Option α) (top : α) : Nat → α → Prop
  | 0, a => a = top
  | n + 1, a => a ≠ top ∧ ∃ b, link a = some b ∧ ArrivesAfter link top n b

theorem ArrivesAfter.unique (h : ArrivesAfter link top m a) (h' : ArrivesAfter link top n a) : m = n := by
  induction m generalizing n a with
  | zero =>
    cases n with
    | zero => rfl
    | succ n => exact absurd h h'.1
  | succ m ih =>
    cases n with
    | zero => exact absurd h' h.1
    | succ n =>
      obtain ⟨-, b, hb, hrest⟩ := h
      obtain ⟨-, c, hc, hrest'⟩ := h'
      obtain rfl : b = c := Option.some.inj (hb.symm.trans hc)
      rw [ih hrest hrest']

theorem ArrivesAfter.reflTransGen (h : ArrivesAfter link top n a) :
    Relation.ReflTransGen (fun x y => link y = some x) top a := by
  induction n generalizing a with
  | zero =>
    obtain rfl : a = top := h
    exact .refl
  | succ n ih =>
    obtain ⟨-, b, hb, hrest⟩ := h
    exact (ih hrest).tail hb

end RyanAI.Lib.Chain
