import Mathlib.Order.Lattice
import Mathlib.Order.BoundedOrder.Lattice
import Mathlib.Tactic.Common

/-!
# State-based merging

Updates that each carry a state, and are merged by joining it. The order and the repetitions do not matter, and a part
of the updates may be replaced by one that carries what they have been merged to (`merged_snapshot`).
-/

namespace RyanAI.Lib.StateMerge

universe u v

variable {σ : Type u} {υ : Type v} [SemilatticeSup σ] [OrderBot σ] {content : υ → σ}

def merged (content : υ → σ) (updates : List υ) : σ := updates.foldl (fun state update => state ⊔ content update) ⊥

theorem foldl_join (state : σ) (updates : List υ) :
    updates.foldl (fun state update => state ⊔ content update) state = state ⊔ merged content updates := by
  induction updates generalizing state with
  | nil => exact (sup_bot_eq state).symm
  | cons update rest ih =>
    rw [merged, List.foldl_cons, List.foldl_cons, ih, ih, bot_sup_eq, sup_assoc]

theorem merged_cons (update : υ) (rest : List υ) : merged content (update :: rest) = content update ⊔ merged content rest := by
  rw [merged, List.foldl_cons, foldl_join, bot_sup_eq]

theorem merged_append (updates rest : List υ) :
    merged content (updates ++ rest) = merged content updates ⊔ merged content rest := by
  rw [merged, List.foldl_append, foldl_join]
  rfl

theorem merged_snapshot {snapshot : υ} {updates : List υ} (h : content snapshot = merged content updates)
    (rest : List υ) : merged content (snapshot :: rest) = merged content (updates ++ rest) := by
  rw [merged_cons, merged_append, h]

end RyanAI.Lib.StateMerge
