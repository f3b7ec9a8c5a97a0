import Mathlib.Tactic

/-!
# Walks that stop where they have been

`walk next n visited x` follows `next` from `x` until there is no next node or the node was visited, in at
most `n` steps. Where only finitely many nodes have a next one, their number is enough steps
(`walk_fuel`), and the walk visits the nodes that can be reached (`mem_walk_iff`). It is the same for
another function that agrees on these (`walk_congr`).
-/

namespace RyanAI.Lib

universe u

variable {α : Type u} [DecidableEq α]

def walk (next : α → Option α) : ℕ → List α → α → List α
  | 0, _, _ => []
  | n + 1, visited, x =>
    if x ∈ visited then []
    else x :: match next x with
      | none => []
      | some y => walk next n (x :: visited) y

variable {next : α → Option α} {ids : List α}

theorem walk_fuel_of_visited (hids : ∀ x y, next x = some y → x ∈ ids) :
    ∀ (n m : ℕ) (visited : List α) (x : α), visited.Nodup → visited ⊆ ids →
      ids.length + 1 ≤ n + visited.length → ids.length + 1 ≤ m + visited.length →
      walk next n visited x = walk next m visited x := by
  intro n
  induction n with
  | zero =>
    intro m visited x hnodup hsub hn _
    have hle := (hnodup.subperm hsub).length_le
    omega
  | succ n ih =>
    intro m visited x hnodup hsub hn hm
    have hle := (hnodup.subperm hsub).length_le
    cases m with
    | zero => omega
    | succ m =>
      simp only [walk]
      split
      · rfl
      rename_i hx
      cases hnext : next x with
      | none => rfl
      | some y =>
        have hcons : (x :: visited) ⊆ ids := List.cons_subset.2 ⟨hids x y hnext, hsub⟩
        have ih' := ih m (x :: visited) y (List.nodup_cons.2 ⟨hx, hnodup⟩) hcons
          (by simp only [List.length_cons]; omega) (by simp only [List.length_cons]; omega)
        simp only [ih']

theorem walk_fuel (hids : ∀ x y, next x = some y → x ∈ ids) {n : ℕ} (hn : ids.length < n) (x : α) :
    walk next n [] x = walk next (ids.length + 1) [] x :=
  walk_fuel_of_visited hids n (ids.length + 1) [] x List.nodup_nil (List.nil_subset _) (by simpa using hn)
    (by simp)

theorem walk_congr {next' : α → Option α} (n : ℕ) (visited : List α) (x : α)
    (h : ∀ y ∈ walk next n visited x, next' y = next y) :
    walk next' n visited x = walk next n visited x := by
  induction n generalizing visited x with
  | zero => rfl
  | succ n ih =>
    simp only [walk] at h ⊢
    split
    · rfl
    rename_i hx
    rw [if_neg hx] at h
    have hhead := h x List.mem_cons_self
    rw [hhead]
    cases hnext : next x with
    | none => rfl
    | some y =>
      rw [hnext] at h
      have hrest := ih (x :: visited) y fun z hz => h z (List.mem_cons_of_mem _ hz)
      simp only [hrest]

theorem reach_of_mem_walk (n : ℕ) (visited : List α) (x : α) {y : α} (h : y ∈ walk next n visited x) :
    Relation.ReflTransGen (fun a b => next a = some b) x y := by
  induction n generalizing visited x with
  | zero => cases h
  | succ n ih =>
    simp only [walk] at h
    split at h
    · cases h
    rcases List.mem_cons.1 h with rfl | hrest
    · exact .refl
    cases hnext : next x with
    | none =>
      rw [hnext] at hrest
      cases hrest
    | some z =>
      rw [hnext] at hrest
      exact .head hnext (ih (x :: visited) z hrest)

variable (hids : ∀ x y, next x = some y → x ∈ ids)

include hids

theorem walk_closed (n : ℕ) (visited : List α) (x : α)
    (hnodup : visited.Nodup) (hsub : visited ⊆ ids) (hn : ids.length + 1 ≤ n + visited.length) {y z : α}
    (hy : y ∈ walk next n visited x) (hz : next y = some z) : z ∈ visited ∨ z ∈ walk next n visited x := by
  induction n generalizing visited x with
  | zero => cases hy
  | succ n ih =>
    simp only [walk] at hy ⊢
    split at hy
    · cases hy
    rename_i hx
    rw [if_neg hx]
    cases hnext : next x with
    | none =>
      rw [hnext] at hy
      cases List.mem_singleton.1 hy
      rw [hnext] at hz
      cases hz
    | some w =>
      rw [hnext] at hy
      have hcons : (x :: visited) ⊆ ids := List.cons_subset.2 ⟨hids x w hnext, hsub⟩
      have hnodup' : (x :: visited).Nodup := List.nodup_cons.2 ⟨hx, hnodup⟩
      have hle := (hnodup'.subperm hcons).length_le
      rw [List.length_cons] at hle
      -- the next node is visited, or the walk goes on from it
      have hw : w ∈ x :: visited ∨ w ∈ walk next n (x :: visited) w := by
        by_cases hmem : w ∈ x :: visited
        · exact .inl hmem
        right
        cases n with
        | zero => omega
        | succ n =>
          rw [walk, if_neg hmem]
          exact List.mem_cons_self
      have hcases : z ∈ x :: visited ∨ z ∈ walk next n (x :: visited) w := by
        rcases List.mem_cons.1 hy with rfl | hrest
        · rw [hnext, Option.some.injEq] at hz
          exact hz ▸ hw
        · exact ih (x :: visited) w hnodup' hcons (by rw [List.length_cons]; omega) hrest
      rcases hcases with hmem | hmem
      · rcases List.mem_cons.1 hmem with rfl | hmem
        · exact .inr List.mem_cons_self
        · exact .inl hmem
      · exact .inr (List.mem_cons_of_mem _ hmem)

theorem mem_walk_iff {n : ℕ} (hn : ids.length < n) (x y : α) :
    y ∈ walk next n [] x ↔ Relation.ReflTransGen (fun a b => next a = some b) x y := by
  constructor
  · exact reach_of_mem_walk n [] x
  intro h
  induction h with
  | refl =>
    cases n with
    | zero => omega
    | succ n => simp [walk]
  | tail _ hstep ih =>
    rcases walk_closed hids n [] x List.nodup_nil (List.nil_subset _) (by simpa using hn) ih hstep with
      hmem | hmem
    · cases hmem
    · exact hmem

theorem getLast?_walk_of_visited
    (hacyclic : ∀ x, ¬ Relation.TransGen (fun a b => next a = some b) x x) (n : ℕ) (visited : List α) (x : α)
    (hnodup : visited.Nodup) (hsub : visited ⊆ ids) (hn : ids.length + 1 ≤ n + visited.length)
    (hvisited : ∀ v ∈ visited, Relation.TransGen (fun a b => next a = some b) v x) :
    ∃ y, (walk next n visited x).getLast? = some y ∧ next y = none ∧
      Relation.ReflTransGen (fun a b => next a = some b) x y := by
  induction n generalizing visited x with
  | zero =>
    have hle := (hnodup.subperm hsub).length_le
    omega
  | succ n ih =>
    have hx : x ∉ visited := fun hmem => hacyclic x (hvisited x hmem)
    rw [walk, if_neg hx]
    cases hnext : next x with
    | none => exact ⟨x, rfl, hnext, .refl⟩
    | some z =>
      obtain ⟨y, hlast, hend, hreach⟩ := ih (x :: visited) z (List.nodup_cons.2 ⟨hx, hnodup⟩)
        (List.cons_subset.2 ⟨hids x z hnext, hsub⟩) (by rw [List.length_cons]; omega) (by
          intro v hv
          rcases List.mem_cons.1 hv with rfl | hv
          · exact .single hnext
          · exact (hvisited v hv).tail hnext)
      refine ⟨y, ?_, hend, .head hnext hreach⟩
      rw [List.getLast?_cons, hlast]
      rfl

theorem getLast?_walk (hacyclic : ∀ x, ¬ Relation.TransGen (fun a b => next a = some b) x x) (x : α) :
    ∃ y, (walk next (ids.length + 1) [] x).getLast? = some y ∧ next y = none ∧
      Relation.ReflTransGen (fun a b => next a = some b) x y :=
  getLast?_walk_of_visited hids hacyclic _ [] x List.nodup_nil (List.nil_subset _) (by simp) (by simp)

end RyanAI.Lib
