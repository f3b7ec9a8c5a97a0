import Mathlib.Data.List.Nodup
import Mathlib.Data.List.Perm.Subperm

/-!
# Vouchers

A process is issued vouchers, each with a number of its own and a kind, and uses each once at most. Whatever the order
in which the processes are issued theirs and use them, no more vouchers of any kinds are used than were issued
(`Sound.countP_le`).
-/

namespace RyanAI.Lib.Vouchers

variable {ι κ : Type}

structure Sound (issued : List (ℕ × ι × κ)) (used : List (ι × κ)) : Prop where
  numbers : (issued.map fun v => v.2.1).Nodup
  once : (used.map Prod.fst).Nodup
  used_issued : ∀ v ∈ used, v ∈ issued.map Prod.snd

/-- The process `i` has a voucher that it has not used. -/
structure Unused (issued : List (ℕ × ι × κ)) (used : List (ι × κ)) (i : ℕ) (v : ι × κ) : Prop where
  issued : (i, v) ∈ issued
  unused : v.1 ∉ used.map Prod.fst

variable {issued : List (ℕ × ι × κ)} {used : List (ι × κ)} {i j : ℕ} {v w : ι × κ}

theorem sound_nil : Sound ([] : List (ℕ × ι × κ)) [] :=
  ⟨List.nodup_nil, List.nodup_nil, fun _ h => absurd h List.not_mem_nil⟩

theorem Sound.issue (h : Sound issued used) (hv : v.1 ∉ issued.map fun v => v.2.1) : Sound ((i, v) :: issued) used where
  numbers := List.nodup_cons.2 ⟨hv, h.numbers⟩
  once := h.once
  used_issued u hu := List.mem_cons_of_mem v (h.used_issued u hu)

theorem Sound.unused_new (h : Sound issued used) (hv : v.1 ∉ issued.map fun v => v.2.1) :
    Unused ((i, v) :: issued) used i v := by
  refine ⟨List.mem_cons_self, ?_⟩
  intro hused
  obtain ⟨u, hu, heq⟩ := List.mem_map.1 hused
  obtain ⟨w, hw, rfl⟩ := List.mem_map.1 (h.used_issued u hu)
  exact hv (heq ▸ List.mem_map_of_mem (f := fun v : ℕ × ι × κ => v.2.1) hw)

theorem Unused.issue (h : Unused issued used i v) : Unused ((j, w) :: issued) used i v :=
  ⟨List.mem_cons_of_mem _ h.issued, h.unused⟩

theorem Sound.use (h : Sound issued used) (hv : Unused issued used i v) : Sound issued (v :: used) where
  numbers := h.numbers
  once := List.nodup_cons.2 ⟨hv.unused, h.once⟩
  used_issued u hu := by
    rcases List.mem_cons.1 hu with rfl | hu
    · exact List.mem_map_of_mem (f := Prod.snd) hv.issued
    · exact h.used_issued u hu

theorem Unused.use (hi : Unused issued used i v) (h : Sound issued used) (hj : Unused issued used j w) (hij : i ≠ j) :
    Unused issued (w :: used) i v := by
  refine ⟨hi.issued, ?_⟩
  intro hused
  rcases List.mem_cons.1 hused with heq | hused
  · have hsame : (i, v) = (j, w) := List.inj_on_of_nodup_map h.numbers hi.issued hj.issued heq
    exact hij (congrArg Prod.fst hsame)
  · exact hi.unused hused

theorem Sound.countP_le (h : Sound issued used) (p : κ → Bool) :
    (used.countP fun v => p v.2) ≤ issued.countP fun v => p v.2.2 := by
  have hnodup : used.Nodup := h.once.of_map Prod.fst
  have hsub : (used.filter fun v => p v.2) ⊆ (issued.map Prod.snd).filter fun v => p v.2 := by
    intro v hv
    obtain ⟨hv, hp⟩ := List.mem_filter.1 hv
    exact List.mem_filter.2 ⟨h.used_issued v hv, hp⟩
  have hle := (List.subperm_of_subset (hnodup.filter _) hsub).length_le
  rwa [← List.countP_eq_length_filter, ← List.countP_eq_length_filter, List.countP_map] at hle

end RyanAI.Lib.Vouchers
