import Mathlib.Tactic.Common

/-!
# One-shot jobs

A job waits, is claimed by a holder, and the holder, once it has looked at the job, fires it, puts it back or gives up.
A revocation of a waiting job takes effect in two moments, noting that the job is to be cancelled and closing it; that
of a claimed job is not noted.

`Step calm` holds every move. Whatever the moves, a job fires once at most (`Step.sound`). Where no revocation meets a
claimed job and no holder looks at a job with a cancellation under way, it never fires after its revocation
(`Step.obeys`).
-/

namespace RyanAI.Lib.OneShot

inductive Status where
  | waiting
  | claimed
  | closed
  deriving DecidableEq

/-- The holder has not looked at the job, fires it or puts it back, or leaves. -/
inductive Stage where
  | fresh
  | armed
  | leaving
  deriving DecidableEq

structure Job where
  status : Status
  holder : Option Stage
  /-- A cancellation has noted the job and not closed it yet. -/
  cancelling : Prop
  /-- The job was revoked. -/
  revoked : Prop
  fired : ℕ
  /-- The job fired after it was revoked. -/
  late : Prop

def Job.new : Job := ⟨.waiting, none, False, False, 0, False⟩

inductive Step (calm : Prop) : Job → Job → Prop
  | stay (j : Job) : Step calm j j
  | claim {j : Job} : j.status = .waiting → Step calm j { j with status := .claimed, holder := some .fresh }
  | arm {j : Job} : j.status = .claimed → j.holder = some .fresh → (calm → ¬ j.cancelling) →
      Step calm j { j with holder := some .armed }
  | leave {j : Job} : Step calm j { j with holder := none }
  | putBack {j : Job} : j.holder = some .armed → Step calm j { j with status := .waiting, holder := none }
  | fire {j : Job} : j.holder = some .armed →
      Step calm j { j with status := .closed, holder := some .leaving, fired := j.fired + 1,
                           late := j.late ∨ j.revoked }
  | giveUp {j : Job} : j.holder = some .armed ∨ j.holder = some .leaving →
      Step calm j { j with holder := some .leaving }
  | close {j : Job} : j.holder = some .leaving → Step calm j { j with status := .closed, holder := none }
  | revoke {j : Job} : (calm → j.status ≠ .claimed) →
      Step calm j { j with cancelling := j.cancelling ∨ j.status = .waiting, revoked := True }
  | cancel {j : Job} {left : Prop} : j.cancelling → (left → j.cancelling) →
      Step calm j { j with status := .closed, cancelling := left }

structure Sound (j : Job) : Prop where
  unheld : j.status = .waiting → j.holder = none
  once : j.fired ≤ 1
  spent : j.fired ≠ 0 → j.status ≠ .waiting ∧ (j.holder = none ∨ j.holder = some .leaving)

/-- A job about to fire is claimed, and a revoked one closed or being cancelled. -/
structure Obeys (j : Job) : Prop where
  armed : j.holder = some .armed → j.status = .claimed ∧ ¬ j.cancelling
  revoked : j.revoked → j.holder ≠ some .armed ∧ (j.status = .closed ∨ j.cancelling)
  punctual : ¬ j.late

theorem sound_new : Sound Job.new := ⟨fun _ => rfl, Nat.zero_le _, fun h => absurd rfl h⟩

theorem obeys_new : Obeys Job.new := ⟨nofun, nofun, nofun⟩

theorem Sound.fired_eq_zero {j : Job} (h : Sound j) {stage : Stage} (hstage : j.holder = some stage)
    (hne : stage ≠ .leaving) : j.fired = 0 := by
  by_contra hfired
  rcases (h.spent hfired).2 with hnone | hleaving
  · rw [hnone] at hstage
    cases hstage
  · rw [hleaving] at hstage
    exact hne (Option.some.inj hstage).symm

theorem Step.sound {calm : Prop} {j j' : Job} (hstep : Step calm j j') (h : Sound j) : Sound j' := by
  cases hstep with
  | stay => exact h
  | claim hwaiting =>
    have hzero : j.fired = 0 := by
      by_contra hfired
      exact (h.spent hfired).1 hwaiting
    exact ⟨nofun, h.once, fun hfired => absurd hzero hfired⟩
  | arm hclaimed hfresh _ =>
    refine ⟨?_, h.once, fun hfired => absurd (h.fired_eq_zero hfresh nofun) hfired⟩
    intro hwaiting
    have hcontra := hwaiting.symm.trans hclaimed
    cases hcontra
  | leave => exact ⟨fun _ => rfl, h.once, fun hfired => ⟨(h.spent hfired).1, .inl rfl⟩⟩
  | putBack harmed =>
    exact ⟨fun _ => rfl, h.once, fun hfired => absurd (h.fired_eq_zero harmed nofun) hfired⟩
  | fire harmed =>
    refine ⟨nofun, ?_, fun _ => ⟨nofun, .inr rfl⟩⟩
    have hzero := h.fired_eq_zero harmed nofun
    show j.fired + 1 ≤ 1
    omega
  | giveUp hholder =>
    refine ⟨?_, h.once, fun hfired => ⟨(h.spent hfired).1, .inr rfl⟩⟩
    intro hwaiting
    rw [h.unheld hwaiting] at hholder
    rcases hholder with hholder | hholder <;> cases hholder
  | close _ => exact ⟨nofun, h.once, fun _ => ⟨nofun, .inl rfl⟩⟩
  | revoke _ => exact ⟨h.unheld, h.once, h.spent⟩
  | cancel _ _ => exact ⟨nofun, h.once, fun hfired => ⟨nofun, (h.spent hfired).2⟩⟩

theorem Step.obeys {j j' : Job} (hstep : Step True j j') (h : Obeys j) : Obeys j' := by
  cases hstep with
  | stay => exact h
  | claim hwaiting =>
    refine ⟨nofun, fun hrevoked => ⟨nofun, .inr ?_⟩, h.punctual⟩
    -- a revoked job that waits is being cancelled
    rcases (h.revoked hrevoked).2 with hclosed | hcancelling
    · rw [hwaiting] at hclosed
      cases hclosed
    · exact hcancelling
  | arm hclaimed _ hcalm =>
    refine ⟨fun _ => ⟨hclaimed, hcalm trivial⟩, ?_, h.punctual⟩
    intro hrevoked
    rcases (h.revoked hrevoked).2 with hclosed | hcancelling
    · rw [hclaimed] at hclosed
      cases hclosed
    · exact absurd hcancelling (hcalm trivial)
  | leave => exact ⟨nofun, fun hrevoked => ⟨nofun, (h.revoked hrevoked).2⟩, h.punctual⟩
  | putBack harmed => exact ⟨nofun, fun hrevoked => absurd harmed (h.revoked hrevoked).1, h.punctual⟩
  | fire harmed =>
    refine ⟨nofun, fun _ => ⟨nofun, .inl rfl⟩, ?_⟩
    rintro (hlate | hrevoked)
    · exact h.punctual hlate
    · exact (h.revoked hrevoked).1 harmed
  | giveUp _ => exact ⟨nofun, fun hrevoked => ⟨nofun, (h.revoked hrevoked).2⟩, h.punctual⟩
  | close _ => exact ⟨nofun, fun _ => ⟨nofun, .inl rfl⟩, h.punctual⟩
  | revoke hcalm =>
    have hclaimed : j.status ≠ .claimed := hcalm trivial
    refine ⟨fun harmed => absurd (h.armed harmed).1 hclaimed, fun _ => ⟨?_, ?_⟩, h.punctual⟩
    · intro harmed
      exact hclaimed (h.armed harmed).1
    · cases hstatus : j.status with
      | waiting => exact .inr (.inr rfl)
      | claimed => exact absurd hstatus hclaimed
      | closed => exact .inl rfl
  | cancel hcancelling _ =>
    have harmed : j.holder ≠ some .armed := fun harmed => (h.armed harmed).2 hcancelling
    exact ⟨fun hholder => absurd hholder harmed, fun _ => ⟨harmed, .inl rfl⟩, h.punctual⟩

end RyanAI.Lib.OneShot
