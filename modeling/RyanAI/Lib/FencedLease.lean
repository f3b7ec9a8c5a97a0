import Mathlib.Tactic

/-!
# Leases with fencing tokens

A slot stores at most one lease with its deadline; a lease past it counts as absent. A new lease is stored only if none
is current and takes the next number of the slot's counter as its token. Renewal and release act only if the lease they
name is the current one. `Sound` ties the slot to the history of its grants: a lease that its own record shows to be
live is the stored one, so no two are live at a time (`Sound.live_unique`), and tokens increase along the history.
-/

namespace RyanAI.Lib.FencedLease

universe u

variable {α : Type u}

structure Slot (α : Type u) where
  held : Option (α × ℕ)
  counter : ℕ

variable {v : α} {s' : Slot α}

namespace Slot

def current (now : ℕ) (s : Slot α) : Option α :=
  match s.held with
  | some (v, deadline) => if now < deadline then some v else none
  | none => none

def grant (now ttl : ℕ) (make : ℕ → α) (s : Slot α) : Option (α × Slot α) :=
  match s.current now with
  | some _ => none
  | none => some (make (s.counter + 1), ⟨some (make (s.counter + 1), now + ttl), s.counter + 1⟩)

variable [DecidableEq α]

def renew (now ttl : ℕ) (v : α) (s : Slot α) : Option (Slot α) :=
  if s.current now = some v then some { s with held := some (v, now + ttl) } else none

def release (now : ℕ) (v : α) (s : Slot α) : Option (Slot α) :=
  if s.current now = some v then some { s with held := none } else none

omit [DecidableEq α] in
theorem current_eq_some {s : Slot α} :
    s.current now = some v ↔ ∃ deadline, s.held = some (v, deadline) ∧ now < deadline := by
  obtain ⟨held, counter⟩ := s
  cases held with
  | none => simp [current]
  | some stored =>
    obtain ⟨w, deadline⟩ := stored
    by_cases hlt : now < deadline
    · simp only [current, if_pos hlt, Option.some.injEq, Prod.mk.injEq]
      constructor
      · rintro rfl
        exact ⟨deadline, ⟨rfl, rfl⟩, hlt⟩
      · rintro ⟨d, ⟨rfl, -⟩, -⟩
        rfl
    · simp only [current, if_neg hlt, Option.some.injEq, Prod.mk.injEq]
      constructor
      · intro h
        cases h
      · rintro ⟨d, ⟨-, rfl⟩, hd⟩
        exact absurd hd hlt

end Slot

/-! ## Histories -/

structure Grant (α : Type u) where
  value : α
  deadline : ℕ
  released : Bool

def Grant.Live (now : ℕ) (g : Grant α) : Prop := g.released = false ∧ now < g.deadline

section History

variable [DecidableEq α]

def amend (v : α) (f : Grant α → Grant α) (gs : List (Grant α)) : List (Grant α) :=
  gs.map fun g => if g.value = v then f g else g

def extend (v : α) (deadline : ℕ) (gs : List (Grant α)) : List (Grant α) :=
  amend v (fun g => { g with deadline := deadline }) gs

def giveBack (v : α) (gs : List (Grant α)) : List (Grant α) := amend v (fun g => { g with released := true }) gs

end History

structure Sound (token : α → ℕ) (now : ℕ) (s : Slot α) (gs : List (Grant α)) : Prop where
  increasing : gs.Pairwise fun g h => token g.value < token h.value
  bounded : ∀ g ∈ gs, token g.value ≤ s.counter
  live : ∀ g ∈ gs, g.Live now → s.held = some (g.value, g.deadline)
  stored : ∀ v d, s.held = some (v, d) → ⟨v, d, false⟩ ∈ gs

namespace Sound

variable {token : α → ℕ} {now : ℕ} {s : Slot α} {gs : List (Grant α)}

theorem nil (h : ∀ v d, s.held ≠ some (v, d)) : Sound token now s [] where
  increasing := List.Pairwise.nil
  bounded := by simp
  live := by simp
  stored := fun v d hv => absurd hv (h v d)

section

variable (h : Sound token now s gs)

include h

theorem later (hle : now ≤ now') : Sound token now' s gs where
  increasing := h.increasing
  bounded := h.bounded
  live := fun g hg hlive => h.live g hg ⟨hlive.1, lt_of_le_of_lt hle hlive.2⟩
  stored := h.stored

theorem live_unique (hg : g ∈ gs) (hg' : g' ∈ gs) (hlive : g.Live now) (hlive' : g'.Live now) : g = g' := by
  have hheld := h.live g hg hlive
  rw [h.live g' hg' hlive', Option.some.injEq, Prod.mk.injEq] at hheld
  obtain ⟨v, d, r⟩ := g
  obtain ⟨v', d', r'⟩ := g'
  obtain ⟨hr, -⟩ := hlive
  obtain ⟨hr', -⟩ := hlive'
  simp only at hheld hr hr'
  obtain ⟨rfl, rfl⟩ := hheld
  rw [hr, hr']

theorem current_iff : s.current now = some v ↔ ∃ g ∈ gs, g.Live now ∧ g.value = v := by
  rw [Slot.current_eq_some]
  constructor
  · rintro ⟨d, hheld, hlt⟩
    exact ⟨⟨v, d, false⟩, h.stored v d hheld, ⟨rfl, hlt⟩, rfl⟩
  · rintro ⟨g, hg, hlive, rfl⟩
    exact ⟨g.deadline, h.live g hg hlive, hlive.2⟩

theorem grant {make : ℕ → α} (hmake : ∀ n, token (make n) = n)
    (hs : s.grant now ttl make = some (v, s')) : Sound token now s' (gs ++ [⟨v, now + ttl, false⟩]) := by
  cases hcur : s.current now with
  | some w => simp [Slot.grant, hcur] at hs
  | none =>
    simp only [Slot.grant, hcur] at hs
    cases hs
    -- an earlier lease that were still live would be the current one
    have hdead : ∀ g ∈ gs, ¬ g.Live now := by
      intro g hg hlive
      have hsome := h.current_iff.2 ⟨g, hg, hlive, rfl⟩
      rw [hcur] at hsome
      cases hsome
    constructor
    · rw [List.pairwise_append]
      refine ⟨h.increasing, List.pairwise_singleton _ _, fun g hg g' hg' => ?_⟩
      rw [List.mem_singleton.1 hg']
      have hle := h.bounded g hg
      rw [hmake]
      omega
    · intro g hg
      rcases List.mem_append.1 hg with hold | hnew
      · have hle := h.bounded g hold
        change token g.value ≤ s.counter + 1
        omega
      · rw [List.mem_singleton.1 hnew]
        exact (hmake _).le
    · intro g hg hlive
      rcases List.mem_append.1 hg with hold | hnew
      · exact absurd hlive (hdead g hold)
      · rw [List.mem_singleton.1 hnew]
    · intro v d hv
      cases hv
      simp

variable [DecidableEq α]

theorem amend (hcur : s.current now = some v) {f : Grant α → Grant α} (hf : ∀ g, (f g).value = g.value)
    (hlive : ∀ g ∈ gs, g.value = v → (f g).Live now → held = some (v, (f g).deadline))
    (hstored : ∀ w d, held = some (w, d) → ⟨w, d, false⟩ ∈ FencedLease.amend v f gs) :
    Sound token now { s with held := held } (FencedLease.amend v f gs) := by
  have hval : ∀ g : Grant α, (if g.value = v then f g else g).value = g.value := by
    intro g
    split
    · exact hf g
    · rfl
  constructor
  · rw [FencedLease.amend, List.pairwise_map]
    simp only [hval]
    exact h.increasing
  · intro g hg
    obtain ⟨g₀, hg₀, rfl⟩ := List.mem_map.1 hg
    rw [hval]
    exact h.bounded g₀ hg₀
  · intro g hg hg'
    obtain ⟨g₀, hg₀, rfl⟩ := List.mem_map.1 hg
    by_cases hv : g₀.value = v
    · rw [if_pos hv] at hg' ⊢
      rw [hf, hv]
      exact hlive g₀ hg₀ hv hg'
    · -- another lease is not live beside the current one
      rw [if_neg hv] at hg'
      have hsome := h.current_iff.2 ⟨g₀, hg₀, hg', rfl⟩
      rw [hcur, Option.some.injEq] at hsome
      exact absurd hsome.symm hv
  · exact hstored

theorem renew (hs : s.renew now ttl v = some s') : Sound token now s' (extend v (now + ttl) gs) := by
  rw [Slot.renew] at hs
  split at hs
  · rename_i hcur
    cases hs
    apply h.amend hcur
    · exact fun g => rfl
    · exact fun g _ _ _ => rfl
    intro w d hw
    cases hw
    obtain ⟨g, hg, hlive, hgv⟩ := h.current_iff.1 hcur
    refine List.mem_map.2 ⟨g, hg, ?_⟩
    rw [if_pos hgv]
    simp only [hgv, hlive.1]
  · cases hs

theorem release (hs : s.release now v = some s') : Sound token now s' (giveBack v gs) := by
  rw [Slot.release] at hs
  split at hs
  · rename_i hcur
    cases hs
    apply h.amend hcur
    · exact fun g => rfl
    · intro g _ _ hlive
      cases hlive.1
    · intro w d hw
      cases hw
  · cases hs

end

end Sound

end RyanAI.Lib.FencedLease
