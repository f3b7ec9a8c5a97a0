import Mathlib

/-!
# Going down where nothing is below itself

`next` gives the nodes below a node, all of them out of finitely many. Where nothing is below itself, going down comes
to an end (`wellFounded_of_acyclic`), and every node has a cost: one for itself and the costs of the nodes below it
(`exists_cost`). A traversal that visits a node once for each way to it takes as many steps as that.
-/

namespace RyanAI.Lib.Descent

universe u

variable {α : Type u} {next : α → List α} {ids : List α}

theorem wellFounded_of_acyclic (hids : ∀ a, ∀ b ∈ next a, b ∈ ids)
    (hacyclic : ∀ a, ¬ Relation.TransGen (fun a b => b ∈ next a) a a) :
    WellFounded fun b a => b ∈ next a := by
  classical
  -- going down leaves fewer of the nodes below
  let below : α → Finset α := fun a => ids.toFinset.filter (Relation.TransGen (fun a b => b ∈ next a) a)
  refine Subrelation.wf ?_ (measure fun a => (below a).card).wf
  intro b a hb
  apply Finset.card_lt_card
  refine Finset.ssubset_iff_subset_ne.2 ⟨?_, ?_⟩
  · intro c hc
    obtain ⟨hmem, hbelow⟩ := Finset.mem_filter.1 hc
    exact Finset.mem_filter.2 ⟨hmem, .head hb hbelow⟩
  · intro heq
    have hself : b ∈ below a := Finset.mem_filter.2 ⟨List.mem_toFinset.2 (hids a b hb), .single hb⟩
    rw [← heq] at hself
    exact hacyclic b (Finset.mem_filter.1 hself).2

variable (ids) in
theorem exists_cost (hids : ∀ a, ∀ b ∈ next a, b ∈ ids)
    (hacyclic : ∀ a, ¬ Relation.TransGen (fun a b => b ∈ next a) a a) :
    ∃ cost : α → ℕ, ∀ a, cost a = 1 + ((next a).map cost).sum := by
  have hwf := wellFounded_of_acyclic hids hacyclic
  refine ⟨hwf.fix fun a rec => 1 + ((next a).attach.map fun b => rec b.1 b.2).sum, ?_⟩
  intro a
  rw [hwf.fix_eq]
  congr 1
  rw [List.map_attach_eq_pmap, List.pmap_eq_map]

theorem cost_lt {cost : α → ℕ} (hcost : ∀ a, cost a = 1 + ((next a).map cost).sum) {a b : α} (hb : b ∈ next a) :
    cost b < cost a := by
  have hle : cost b ≤ ((next a).map cost).sum := List.single_le_sum (by simp) _ (List.mem_map_of_mem hb)
  rw [hcost a]
  omega

end RyanAI.Lib.Descent
