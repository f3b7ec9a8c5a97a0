import Mathlib.Data.List.Nodup
import Mathlib.Data.List.Perm.Subperm
import Mathlib.Tactic

/-!
# Outlines

The nodes of a forest in one list, each named by `id` and pointing to its parent. An outline keeps every subtree
together and puts the parent first: `Listed par xs` says that `xs` are the subtrees of some children of `par`, one after
another. `Within xs r k` says that `k` is `r` or below it.

`explore` builds an outline from an arbitrary list with a stack (`listed_of_covers`), always within as many steps as
there are nodes if ids are unique (`explore_spec`), and leaves an outline as it is (`covers_of_listed`). `subtreeIds`
collects a subtree in one pass over the list, which is right on outlines (`mem_subtreeIds_iff`).
-/

namespace RyanAI.Lib.Outline

universe u v

variable {ν : Type u} {κ : Type v} (id : ν → κ) (parent : ν → Option κ)

/-- The subtrees of children of `par`, each parent first. -/
inductive Listed : Option κ → List ν → Prop
  | nil (par : Option κ) : Listed par []
  | node {par : Option κ} {x : ν} {sub rest : List ν} :
      parent x = par → Listed (some (id x)) sub → Listed par rest → Listed par (x :: (sub ++ rest))

/-- `k` is `r`, or a node of `xs` whose parent is within `r`. -/
inductive Within (xs : List ν) (r : κ) : κ → Prop
  | root : Within xs r r
  | child {x : ν} {p : κ} : x ∈ xs → parent x = some p → Within xs r p → Within xs r (id x)

/-- `while stack`: the first node, with its children in front. -/
def explore (children : κ → List ν) : ℕ → List ν → List ν → Option (List ν)
  | _, [], done => some done
  | 0, _ :: _, _ => none
  | n + 1, x :: stack, done => explore children n (children (id x) ++ stack) (done ++ [x])

inductive Covers (children : κ → List ν) : List ν → List ν → Prop
  | nil : Covers children [] []
  | cons {x : ν} {stack sub rest : List ν} :
      Covers children (children (id x)) sub → Covers children stack rest →
      Covers children (x :: stack) (x :: (sub ++ rest))

/-- The subtree of `root`, collected in one pass. -/
def subtreeIds [DecidableEq κ] (xs : List ν) (root : κ) : List κ :=
  xs.foldl (fun found x => if (parent x).any (· ∈ found) then id x :: found else found) [root]

variable {id parent}

section Listed

variable {par : Option κ} {xs ys : List ν}

theorem Listed.parent_before (h : Listed id parent par xs) (hx : xs = a ++ x :: b) :
    parent x = par ∨ ∃ y ∈ a, parent x = some (id y) := by
  induction h generalizing a b x with
  | nil => simp at hx
  | @node par z sub rest hz hsub hrest ihsub ihrest =>
    cases a with
    | nil =>
      simp only [List.nil_append, List.cons.injEq] at hx
      exact Or.inl (hx.1 ▸ hz)
    | cons c a =>
      simp only [List.cons_append, List.cons.injEq] at hx
      obtain ⟨rfl, hx⟩ := hx
      rcases List.append_eq_append_iff.1 hx with ⟨c', rfl, hrest'⟩ | ⟨c', rfl, hcons⟩
      · -- the node comes after the first subtree
        rcases ihrest hrest' with hp | ⟨y, hy, hp⟩
        · exact Or.inl hp
        · exact Or.inr ⟨y, by simp [hy], hp⟩
      cases c' with
      | nil =>
        simp only [List.nil_append] at hcons
        rcases ihrest (a := []) hcons.symm with hp | ⟨y, hy, -⟩
        · exact Or.inl hp
        · cases hy
      | cons d c' =>
        simp only [List.cons_append, List.cons.injEq] at hcons
        obtain ⟨rfl, -⟩ := hcons
        rcases ihsub rfl with hp | ⟨y, hy, hp⟩
        · exact Or.inr ⟨z, List.mem_cons_self, hp⟩
        · exact Or.inr ⟨y, List.mem_cons_of_mem _ hy, hp⟩

theorem Listed.parent_mem (h : Listed id parent par xs) (hx : x ∈ xs) :
    parent x = par ∨ ∃ y ∈ xs, parent x = some (id y) := by
  obtain ⟨a, b, rfl⟩ := List.append_of_mem hx
  rcases h.parent_before rfl with hp | ⟨y, hy, hp⟩
  · exact Or.inl hp
  · exact Or.inr ⟨y, List.mem_append_left _ hy, hp⟩

theorem Listed.map (h : Listed id parent par xs) {f : ν → ν} (hid : ∀ x ∈ xs, id (f x) = id x)
    (hparent : ∀ x ∈ xs, parent (f x) = parent x) : Listed id parent par (xs.map f) := by
  induction h with
  | nil => exact .nil _
  | @node par x sub rest hx _ _ ihsub ihrest =>
    have hsub := ihsub (fun y hy => hid y (by simp [hy])) fun y hy => hparent y (by simp [hy])
    have hrest := ihrest (fun y hy => hid y (by simp [hy])) fun y hy => hparent y (by simp [hy])
    rw [List.map_cons, List.map_append]
    exact .node ((hparent x List.mem_cons_self).trans hx) ((hid x List.mem_cons_self).symm ▸ hsub) hrest

theorem mem_ids_of_within (h : Within id parent xs r k) : k = r ∨ k ∈ xs.map id := by
  cases h with
  | root => exact Or.inl rfl
  | child hx _ _ => exact Or.inr (List.mem_map_of_mem hx)

/-- The nodes listed under something within `r` are within `r`. -/
theorem within_of_listed (h : Listed id parent par xs) (hp : par = some p)
    (hwithin : Within id parent ys r p) (hsub : ∀ x ∈ xs, x ∈ ys) : ∀ x ∈ xs, Within id parent ys r (id x) := by
  induction h generalizing p with
  | nil => simp
  | @node par z sub rest hz _ _ ihsub ihrest =>
    have hself : Within id parent ys r (id z) := .child (hsub z List.mem_cons_self) (hz.trans hp) hwithin
    intro x hx
    rcases List.mem_cons.1 hx with rfl | hx
    · exact hself
    rcases List.mem_append.1 hx with hx | hx
    · exact ihsub rfl hself (fun y hy => hsub y (List.mem_cons_of_mem _ (List.mem_append_left _ hy))) x hx
    · exact ihrest hp hwithin (fun y hy => hsub y (List.mem_cons_of_mem _ (List.mem_append_right _ hy))) x hx

theorem mem_ids_of_piece {a sub b : List ν} {p : κ} (h : p = id x ∨ p ∈ sub.map id) :
    p ∈ (a ++ x :: (sub ++ b)).map id := by
  rcases h with rfl | hm
  · simp
  · simp only [List.map_append, List.map_cons, List.mem_append, List.mem_cons]
    exact Or.inr (Or.inr (Or.inl hm))

theorem apart_of_node {par : Option κ} {z : ν} {sub rest : List ν}
    (hnodup : ((z :: (sub ++ rest)).map id).Nodup) (hpar : ∀ p, par = some p → p ∉ (z :: (sub ++ rest)).map id) :
    (id z ∉ sub.map id ∧ id z ∉ rest.map id) ∧ (sub.map id).Nodup ∧ (rest.map id).Nodup ∧
      (∀ a ∈ sub.map id, ∀ b ∈ rest.map id, a ≠ b) ∧ par ≠ some (id z) ∧
      (∀ p, par = some p → p ∉ sub.map id) ∧ ∀ p, par = some p → p ∉ rest.map id := by
  simp only [List.map_cons, List.map_append, List.nodup_cons, List.nodup_append, List.mem_append, List.mem_cons,
    not_or] at hnodup hpar
  obtain ⟨hz, hnsub, hnrest, hdisjoint⟩ := hnodup
  exact ⟨hz, hnsub, hnrest, hdisjoint, fun hp => (hpar _ hp).1 rfl, fun p hp => (hpar p hp).2.1,
    fun p hp => (hpar p hp).2.2⟩

theorem Listed.piece (h : Listed id parent par xs) (hnodup : (xs.map id).Nodup)
    (hpar : ∀ p, par = some p → p ∉ xs.map id) (hx : x ∈ xs) :
    ∃ a sub b, xs = a ++ x :: (sub ++ b) ∧ Listed id parent (some (id x)) sub ∧
      ∀ y ∈ a ++ b, ∀ p, parent y = some p → p ≠ id x ∧ p ∉ sub.map id := by
  induction h with
  | nil => cases hx
  | @node par z sub rest hz hsub hrest ihsub ihrest =>
    obtain ⟨⟨hzsub, hzrest⟩, hnsub, hnrest, hdisjoint, hparz, hparsub, hparrest⟩ := apart_of_node hnodup hpar
    rcases List.mem_cons.1 hx with rfl | hx
    · refine ⟨[], sub, rest, rfl, hsub, fun y hy p hp => ?_⟩
      rcases hrest.parent_mem hy with hq | ⟨w, hw, hq⟩
      · have hpp : par = some p := hq ▸ hp
        exact ⟨fun heq => hparz (heq ▸ hpp), hparsub p hpp⟩
      · obtain rfl : id w = p := Option.some.inj (hq ▸ hp)
        refine ⟨fun heq => hzrest (heq ▸ List.mem_map_of_mem hw), fun hmem => ?_⟩
        exact hdisjoint _ hmem _ (List.mem_map_of_mem hw) rfl
    rcases List.mem_append.1 hx with hx | hx
    · obtain ⟨a, sub', b, rfl, hlisted, hout⟩ := ihsub hnsub
        (fun p hp => by
          cases hp
          exact hzsub) hx
      refine ⟨z :: a, sub', b ++ rest, by simp, hlisted, fun y hy p hp => ?_⟩
      rw [← not_or]
      simp only [List.cons_append, List.mem_cons, List.mem_append] at hy
      rcases hy with rfl | hy | hy | hy
      · exact fun hin => hparsub p (hz ▸ hp) (mem_ids_of_piece hin)
      · exact not_or.2 (hout y (List.mem_append_left _ hy) p hp)
      · exact not_or.2 (hout y (List.mem_append_right _ hy) p hp)
      intro hin
      rcases hrest.parent_mem hy with hq | ⟨w, hw, hq⟩
      · exact hparsub p (hq ▸ hp) (mem_ids_of_piece hin)
      · obtain rfl : id w = p := Option.some.inj (hq ▸ hp)
        exact hdisjoint _ (mem_ids_of_piece hin) _ (List.mem_map_of_mem hw) rfl
    · obtain ⟨a, sub', b, rfl, hlisted, hout⟩ := ihrest hnrest hparrest hx
      refine ⟨z :: (sub ++ a), sub', b, by simp, hlisted, fun y hy p hp => ?_⟩
      rw [← not_or]
      simp only [List.cons_append, List.mem_cons, List.mem_append] at hy
      rcases hy with rfl | (hy | hy) | hy
      · exact fun hin => hparrest p (hz ▸ hp) (mem_ids_of_piece hin)
      · intro hin
        rcases hsub.parent_mem hy with hq | ⟨w, hw, hq⟩
        · obtain rfl : id z = p := Option.some.inj (hq ▸ hp)
          exact hzrest (mem_ids_of_piece hin)
        · obtain rfl : id w = p := Option.some.inj (hq ▸ hp)
          exact hdisjoint _ (List.mem_map_of_mem hw) _ (mem_ids_of_piece hin) rfl
      · exact not_or.2 (hout y (List.mem_append_left _ hy) p hp)
      · exact not_or.2 (hout y (List.mem_append_right _ hy) p hp)

theorem Listed.contiguous (h : Listed id parent par xs) (hnodup : (xs.map id).Nodup)
    (hpar : ∀ p, par = some p → p ∉ xs.map id) (hx : x ∈ xs) :
    ∃ a sub b, xs = a ++ x :: (sub ++ b) ∧ Listed id parent (some (id x)) sub ∧
      ∀ y ∈ xs, Within id parent xs (id x) (id y) ↔ y = x ∨ y ∈ sub := by
  obtain ⟨a, sub, b, heq, hlisted, hout⟩ := h.piece hnodup hpar hx
  have hinj : ∀ y ∈ xs, ∀ z ∈ xs, id y = id z → y = z := fun y hy z hz he =>
    List.inj_on_of_nodup_map hnodup hy hz he
  have hsub : ∀ y ∈ sub, y ∈ xs := fun y hy => by simp [heq, hy]
  refine ⟨a, sub, b, heq, hlisted, fun y hy => ⟨fun hwithin => ?_, ?_⟩⟩
  · have hkey : ∀ k, Within id parent xs (id x) k → ∀ y ∈ xs, id y = k → y = x ∨ y ∈ sub := by
      intro k hk
      induction hk with
      | root => exact fun y hy he => Or.inl (hinj y hy x hx he)
      | @child w p hw hp hwithin ih =>
        intro y hy he
        obtain rfl := hinj y hy w hw he
        by_contra hno
        -- a node outside the piece has its parent outside
        have hyout : y ∈ a ++ b := by
          rw [heq] at hy
          simp only [List.mem_append, List.mem_cons] at hy ⊢
          rcases hy with hy | hy | hy | hy
          · exact Or.inl hy
          · exact absurd (Or.inl hy) hno
          · exact absurd (Or.inr hy) hno
          · exact Or.inr hy
        obtain ⟨hpx, hpsub⟩ := hout y hyout p hp
        rcases mem_ids_of_within hwithin with rfl | hmem
        · exact hpx rfl
        · obtain ⟨v, hv, rfl⟩ := List.mem_map.1 hmem
          rcases ih v hv rfl with rfl | hvsub
          · exact hpx rfl
          · exact hpsub (List.mem_map_of_mem hvsub)
    exact hkey _ hwithin y hy rfl
  · rintro (rfl | hysub)
    · exact .root
    · exact within_of_listed hlisted rfl .root hsub y hysub

end Listed

/-! ## Exploring -/

section Explore

variable {children : κ → List ν} {stack done out : List ν} {n : ℕ}

theorem covers_append (h : Covers id children (s₁ ++ s₂) out) :
    ∃ o₁ o₂, out = o₁ ++ o₂ ∧ Covers id children s₁ o₁ ∧ Covers id children s₂ o₂ := by
  induction s₁ generalizing out with
  | nil => exact ⟨[], out, rfl, .nil, h⟩
  | cons x s₁ ih =>
    cases h with
    | @cons _ _ sub rest hsub hrest =>
      obtain ⟨o₁, o₂, rfl, h₁, h₂⟩ := ih hrest
      exact ⟨x :: (sub ++ o₁), o₂, by simp, .cons hsub h₁, h₂⟩

theorem covers_of_explore (h : explore id children n stack done = some all) :
    ∃ out, all = done ++ out ∧ Covers id children stack out := by
  induction n generalizing stack done with
  | zero =>
    cases stack with
    | nil =>
      cases h
      exact ⟨[], by simp, .nil⟩
    | cons x stack => cases h
  | succ n ih =>
    cases stack with
    | nil =>
      cases h
      exact ⟨[], by simp, .nil⟩
    | cons x stack =>
      obtain ⟨out, rfl, hcovers⟩ := ih h
      obtain ⟨sub, rest, rfl, hsub, hrest⟩ := covers_append hcovers
      exact ⟨x :: (sub ++ rest), by simp, .cons hsub hrest⟩

theorem explore_of_covers (h : Covers id children stack out) (hn : out.length ≤ n) :
    explore id children n stack done = some (done ++ out) := by
  -- the children go in front of a stack, so the statement is about what is left behind them as well
  have hgeneral : ∀ {stack out : List ν}, Covers id children stack out → ∀ (m : ℕ) (below done : List ν),
      explore id children (out.length + m) (stack ++ below) done = explore id children m below (done ++ out) := by
    intro stack out h
    induction h with
    | nil =>
      intro m below done
      simp
    | @cons x stack sub rest _ _ ihsub ihrest =>
      intro m below done
      have hlen : (x :: (sub ++ rest)).length + m = (sub.length + (rest.length + m)) + 1 := by
        simp only [List.length_cons, List.length_append]
        omega
      rw [hlen, List.cons_append, explore, ihsub, ihrest]
      simp
  have hrun := hgeneral h (n - out.length) [] done
  rw [Nat.add_sub_cancel' hn, List.append_nil] at hrun
  rw [hrun]
  cases n - out.length <;> rfl

theorem listed_of_covers (hchildren : ∀ k, ∀ x ∈ children k, parent x = some k)
    (h : Covers id children stack out) (hstack : ∀ x ∈ stack, parent x = par) : Listed id parent par out := by
  induction h generalizing par with
  | nil => exact .nil par
  | @cons x stack sub rest _ _ ihsub ihrest =>
    exact .node (hstack x List.mem_cons_self) (ihsub (hchildren (id x)))
      (ihrest fun y hy => hstack y (List.mem_cons_of_mem _ hy))

end Explore

section Children

variable [DecidableEq κ] {par : Option κ} {all xs : List ν}

theorem covers_of_listed (h : Listed id parent par xs) (hnodup : (xs.map id).Nodup)
    (hpar : ∀ p, par = some p → p ∉ xs.map id)
    (hchildren : ∀ x ∈ xs, all.filter (fun y => parent y = some (id x)) = xs.filter fun y => parent y = some (id x)) :
    Covers id (fun k => all.filter fun y => parent y = some k) (xs.filter fun y => parent y = par) xs := by
  induction h with
  | nil => exact .nil
  | @node par z sub rest hz hsub hrest ihsub ihrest =>
    obtain ⟨⟨hzsub, hzrest⟩, hnsub, hnrest, hdisjoint, hparz, hparsub, hparrest⟩ := apart_of_node hnodup hpar
    -- the parents in the subtree are neither `par` nor in the rest, and the other way round
    have hsubpar : ∀ y ∈ sub, parent y ≠ par := by
      intro y hy heq
      rcases hsub.parent_mem hy with hq | ⟨w, hw, hq⟩
      · exact hparz (heq.symm.trans hq)
      · exact hparsub _ (heq.symm.trans hq) (List.mem_map_of_mem hw)
    have hsubrest : ∀ y ∈ sub, ∀ x ∈ rest, parent y ≠ some (id x) := by
      intro y hy x hx heq
      rcases hsub.parent_mem hy with hq | ⟨w, hw, hq⟩
      · exact hzrest (Option.some.inj (hq.symm.trans heq) ▸ List.mem_map_of_mem hx)
      · exact hdisjoint _ (List.mem_map_of_mem hw) _ (List.mem_map_of_mem hx)
          (Option.some.inj (hq.symm.trans heq))
    have hrestin : ∀ y ∈ rest, ∀ k, k = id z ∨ k ∈ sub.map id → parent y ≠ some k := by
      intro y hy k hk heq
      rcases hrest.parent_mem hy with hq | ⟨w, hw, hq⟩
      · rcases hk with rfl | hk
        · exact hparz (hq.symm.trans heq)
        · exact hparsub k (hq.symm.trans heq) hk
      · obtain rfl := Option.some.inj (hq.symm.trans heq)
        rcases hk with hk | hk
        · exact hzrest (hk ▸ List.mem_map_of_mem hw)
        · exact hdisjoint _ hk _ (List.mem_map_of_mem hw) rfl
    have hfilter : ∀ k : Option κ, (∀ y ∈ rest, parent y ≠ k) → par ≠ k →
        (z :: (sub ++ rest)).filter (fun y => parent y = k) = sub.filter fun y => parent y = k := by
      intro k hk hpk
      have hnil : rest.filter (fun y => parent y = k) = [] :=
        List.filter_eq_nil_iff.2 fun y hy => by simpa using hk y hy
      rw [List.filter_cons_of_neg (by simpa [hz] using hpk), List.filter_append, hnil, List.append_nil]
    have htop : (z :: (sub ++ rest)).filter (fun y => parent y = par) =
        z :: rest.filter fun y => parent y = par := by
      rw [List.filter_cons_of_pos (by simpa using hz), List.filter_append,
        List.filter_eq_nil_iff.2 fun y hy => by simpa using hsubpar y hy, List.nil_append]
    rw [htop]
    refine .cons ?_ ?_
    · have hroot := hchildren z List.mem_cons_self
      rw [hfilter _ (fun y hy => hrestin y hy _ (Or.inl rfl)) hparz] at hroot
      rw [hroot]
      refine ihsub hnsub (fun p hp => Option.some.inj hp ▸ hzsub) fun x hx => ?_
      rw [hchildren x (List.mem_cons_of_mem _ (List.mem_append_left _ hx))]
      have hparx : par ≠ some (id x) := fun hp => hparsub _ hp (List.mem_map_of_mem hx)
      exact hfilter _ (fun y hy => hrestin y hy _ (Or.inr (List.mem_map_of_mem hx))) hparx
    · refine ihrest hnrest hparrest fun x hx => ?_
      rw [hchildren x (List.mem_cons_of_mem _ (List.mem_append_right _ hx))]
      have hparx : ¬ parent z = some (id x) := fun hp =>
        hparrest _ (hz ▸ hp) (List.mem_map_of_mem hx)
      rw [List.filter_cons_of_neg (by simpa using hparx), List.filter_append,
        List.filter_eq_nil_iff.2 fun y hy => by simpa using hsubrest y hy x hx, List.nil_append]

theorem explore_spec (hnodup : (all.map id).Nodup)
    (hunique : ((done ++ stack).map id).Nodup) (hmem : ∀ x ∈ done ++ stack, x ∈ all)
    (hdone : ∀ x ∈ done ++ stack, ∀ p, parent x = some p → ∃ y ∈ done, id y = p) (hn : all.length ≤ n + done.length) :
    ∃ out, explore id (fun k => all.filter fun y => parent y = some k) n stack done = some out ∧
      (out.map id).Nodup ∧ ∀ x ∈ out, x ∈ all := by
  induction n generalizing stack done with
  | zero =>
    cases stack with
    | nil => exact ⟨done, rfl, by simpa using hunique, by simpa using hmem⟩
    | cons x stack =>
      -- there is no room for another node
      have hsub : (done ++ x :: stack).map id ⊆ all.map id := by
        intro k hk
        obtain ⟨y, hy, rfl⟩ := List.mem_map.1 hk
        exact List.mem_map_of_mem (hmem y hy)
      have hlen := (hunique.subperm hsub).length_le
      simp only [List.length_map, List.length_append, List.length_cons] at hlen
      omega
  | succ n ih =>
    cases stack with
    | nil => exact ⟨done, rfl, by simpa using hunique, by simpa using hmem⟩
    | cons x stack =>
      have hinj : ∀ y ∈ all, ∀ z ∈ all, id y = id z → y = z := fun y hy z hz he =>
        List.inj_on_of_nodup_map hnodup hy hz he
      have hx : x ∈ all := hmem x (by simp)
      -- the children of `x` are new, since `x` is
      have hnew : ∀ c ∈ all.filter (fun y => parent y = some (id x)), ∀ y ∈ done ++ x :: stack, id y ≠ id c := by
        intro c hc y hy heq
        simp only [List.mem_filter, decide_eq_true_eq] at hc
        obtain rfl := hinj y (hmem y hy) c hc.1 heq
        obtain ⟨w, hw, hwx⟩ := hdone y hy (id x) hc.2
        simp only [List.map_append, List.map_cons, List.nodup_append] at hunique
        exact hunique.2.2 (id w) (List.mem_map_of_mem hw) (id x) List.mem_cons_self hwx
      rw [explore]
      apply ih
      · have hperm : ((done ++ [x] ++ (all.filter (fun y => parent y = some (id x)) ++ stack)).map id).Perm
            ((done ++ x :: stack).map id ++ (all.filter fun y => parent y = some (id x)).map id) := by
          rw [← List.map_append]
          apply List.Perm.map
          simp only [List.append_assoc, List.cons_append, List.nil_append]
          exact List.Perm.append_left _ (List.Perm.cons _ List.perm_append_comm)
        rw [hperm.nodup_iff, List.nodup_append]
        refine ⟨hunique, hnodup.sublist (List.filter_sublist.map id), ?_⟩
        rintro k hk k' hk' rfl
        obtain ⟨y, hy, rfl⟩ := List.mem_map.1 hk
        obtain ⟨c, hc, he⟩ := List.mem_map.1 hk'
        exact hnew c hc y hy he.symm
      · intro y hy
        simp only [List.append_assoc, List.mem_append, List.mem_singleton, List.mem_filter] at hy
        rcases hy with hy | rfl | ⟨hy, -⟩ | hy
        · exact hmem y (by simp [hy])
        · exact hx
        · exact hy
        · exact hmem y (by simp [hy])
      · intro y hy p hp
        simp only [List.append_assoc, List.mem_append, List.mem_singleton, List.mem_filter, decide_eq_true_eq] at hy
        rcases hy with hy | rfl | ⟨-, hc⟩ | hy
        · obtain ⟨w, hw, he⟩ := hdone y (by simp [hy]) p hp
          exact ⟨w, by simp [hw], he⟩
        · obtain ⟨w, hw, he⟩ := hdone y (by simp) p hp
          exact ⟨w, by simp [hw], he⟩
        · exact ⟨x, by simp, Option.some.inj (hc.symm.trans hp)⟩
        · obtain ⟨w, hw, he⟩ := hdone y (by simp [hy]) p hp
          exact ⟨w, by simp [hw], he⟩
      · simp only [List.length_append, List.length_singleton]
        omega

theorem subtreeIds_append (xs : List ν) (x : ν) (root : κ) : subtreeIds id parent (xs ++ [x]) root =
      if (parent x).any (· ∈ subtreeIds id parent xs root) then id x :: subtreeIds id parent xs root
      else subtreeIds id parent xs root := by
  unfold subtreeIds
  rw [List.foldl_append]
  rfl

omit [DecidableEq κ] in
theorem within_mono (hsub : ∀ x ∈ xs, x ∈ ys) (h : Within id parent xs r k) : Within id parent ys r k := by
  induction h with
  | root => exact .root
  | child hx hp _ ih => exact .child (hsub _ hx) hp ih

theorem mem_subtreeIds_iff (h : Listed id parent none xs) (hnodup : (xs.map id).Nodup) (root k : κ) :
    k ∈ subtreeIds id parent xs root ↔ Within id parent xs root k := by
  -- the pass has found what is within `root` among the nodes it has gone through
  have hpass : ∀ a b, xs = a ++ b → ∀ k, k ∈ subtreeIds id parent a root ↔ Within id parent a root k := by
    intro a
    induction a using List.reverseRecOn with
    | nil =>
      intro b _ k
      simp only [subtreeIds, List.foldl_nil, List.mem_singleton]
      constructor
      · rintro rfl
        exact .root
      · intro hw
        exact (mem_ids_of_within hw).resolve_right (by simp)
    | append_singleton a x ih =>
      intro b hb k
      have hb' : xs = a ++ x :: b := by simp [hb]
      have iha := ih (x :: b) hb'
      have hnew : id x ∉ a.map id := by
        rw [hb', List.map_append, List.map_cons, List.nodup_append] at hnodup
        exact fun hm => hnodup.2.2 (id x) hm (id x) List.mem_cons_self rfl
      have hmono : ∀ k, Within id parent a root k → Within id parent (a ++ [x]) root k :=
        fun k => within_mono fun y hy => List.mem_append_left _ hy
      -- no earlier node is a child of `x`
      have hlast : ∀ k, Within id parent (a ++ [x]) root k → Within id parent a root k ∨
          k = id x ∧ (parent x).any (fun p => p ∈ subtreeIds id parent a root) = true := by
        intro k hk
        induction hk with
        | root => exact Or.inl .root
        | @child y p hy hp hwithin ihk =>
          have hin : p ∈ a.map id ∨ p ≠ id x := by
            by_cases hpx : p = id x
            · left
              rcases List.mem_append.1 hy with hya | hyx
              · obtain ⟨a₁, a₂, rfl⟩ := List.append_of_mem hya
                have hbefore := h.parent_before (a := a₁) (b := a₂ ++ x :: b) (x := y) (by simp [hb'])
                rcases hbefore with hnone | ⟨w, hw, hq⟩
                · rw [hp] at hnone
                  cases hnone
                · obtain rfl := Option.some.inj (hp.symm.trans hq)
                  simp only [List.map_append, List.mem_append]
                  exact Or.inl (List.mem_map_of_mem hw)
              · obtain rfl := List.mem_singleton.1 hyx
                rcases h.parent_before hb' with hnone | ⟨w, hw, hq⟩
                · rw [hp] at hnone
                  cases hnone
                · obtain rfl := Option.some.inj (hp.symm.trans hq)
                  exact List.mem_map_of_mem hw
            · exact Or.inr hpx
          have hpa : Within id parent a root p := by
            rcases ihk with hpa | ⟨hpx, -⟩
            · exact hpa
            · rcases hin with hin | hne
              · exact absurd (hpx ▸ hin) hnew
              · exact absurd hpx hne
          rcases List.mem_append.1 hy with hya | hyx
          · exact Or.inl (.child hya hp hpa)
          · obtain rfl := List.mem_singleton.1 hyx
            refine Or.inr ⟨rfl, ?_⟩
            rw [hp, Option.any_some, decide_eq_true_eq]
            exact (iha p).2 hpa
      rw [subtreeIds_append]
      constructor
      · intro hk
        split at hk
        · rename_i hany
          rcases List.mem_cons.1 hk with rfl | hk
          · cases hpx : parent x with
            | none =>
              rw [hpx] at hany
              cases hany
            | some p =>
              rw [hpx, Option.any_some, decide_eq_true_eq] at hany
              exact .child (by simp) hpx (hmono p ((iha p).1 hany))
          · exact hmono k ((iha k).1 hk)
        · exact hmono k ((iha k).1 hk)
      · intro hk
        rcases hlast k hk with hk | ⟨rfl, hany⟩
        · split
          · exact List.mem_cons_of_mem _ ((iha k).2 hk)
          · exact (iha k).2 hk
        · rw [if_pos hany]
          exact List.mem_cons_self
  exact hpass xs [] (by simp) k

end Children

end RyanAI.Lib.Outline
