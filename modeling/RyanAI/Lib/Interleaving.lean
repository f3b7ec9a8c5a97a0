import Mathlib.Tactic
import Mathlib.Logic.Relation
import Mathlib.Algebra.BigOperators.Group.List.Basic

/-!
# Interleaved processes over a shared state

A configuration is a shared state with a list of processes. One step lets one process, found by its position, act
through an executable `next`, whose last argument resolves the choices of the environment; `none` means that it is
finished or has to wait.

`invariant_of_frame` is the proof rule: a global assertion `G` and one local assertion `L` per process hold along every
run when each step re-establishes `G` and the acting process's own assertion, and leaves those of the others intact.
`sum_map_set` and `countP_set_add` account for one process in a sum or a count.
-/

namespace RyanAI.Lib.Interleaving

universe u v w

variable {σ : Type u} {π : Type v} {κ : Type w}

structure Conf (σ : Type u) (π : Type v) where
  shared : σ
  procs : List π

/-- The process at position `i` makes the choice `k`. -/
def act (next : Nat → σ → π → κ → Option (σ × π)) (c : Conf σ π) (i : Nat) (k : κ) : Option (Conf σ π) :=
  match c.procs[i]? with
  | none => none
  | some p => (next i c.shared p k).map fun r => ⟨r.1, c.procs.set i r.2⟩

def runSchedule (next : Nat → σ → π → κ → Option (σ × π)) : Conf σ π → List (Nat × κ) → Option (Conf σ π)
  | c, [] => some c
  | c, (i, k) :: rest => (act next c i k).bind fun c' => runSchedule next c' rest

/-- Every step, from the configuration it meets, satisfies `P`. -/
def Along (next : Nat → σ → π → κ → Option (σ × π)) (P : Conf σ π → Nat → κ → Prop) : Conf σ π → List (Nat × κ) → Prop
  | _, [] => True
  | c, (i, k) :: rest => P c i k ∧ ∀ c', act next c i k = some c' → Along next P c' rest

/-- One step of one process, where `ok` holds of it. -/
inductive StepWhere (next : Nat → σ → π → κ → Option (σ × π)) (ok : Nat → σ → π → Prop) :
    Conf σ π → Conf σ π → Prop
  | act {s s' : σ} {ps : List π} {p p' : π} (i : Nat) (k : κ) :
      ps[i]? = some p → ok i s p → next i s p k = some (s', p') →
      StepWhere next ok ⟨s, ps⟩ ⟨s', ps.set i p'⟩

/-- Runs all of whose steps satisfy `ok`. -/
abbrev ReachesWhere (next : Nat → σ → π → κ → Option (σ × π)) (ok : Nat → σ → π → Prop) : Conf σ π → Conf σ π → Prop :=
  Relation.ReflTransGen (StepWhere next ok)

abbrev Reaches (next : Nat → σ → π → κ → Option (σ × π)) : Conf σ π → Conf σ π → Prop :=
  ReachesWhere next fun _ _ _ => True

def Holds (G : σ → Prop) (L : Nat → π → σ → Prop) (c : Conf σ π) : Prop :=
  G c.shared ∧ ∀ i p, c.procs[i]? = some p → L i p c.shared

variable {c c' : Conf σ π} {i : Nat} {acts : List (Nat × κ)} {p : π}

section Runs

variable {next : Nat → σ → π → κ → Option (σ × π)} {ok : Nat → σ → π → Prop}

theorem act_eq_some {k : κ} (h : act next c i k = some c') :
    ∃ p s' p', c.procs[i]? = some p ∧ next i c.shared p k = some (s', p') ∧ c' = ⟨s', c.procs.set i p'⟩ := by
  simp only [act] at h
  cases hp : c.procs[i]? with
  | none => simp [hp] at h
  | some p =>
    simp only [hp, Option.map_eq_some_iff] at h
    obtain ⟨⟨s', p'⟩, hn, rfl⟩ := h
    exact ⟨p, s', p', rfl, hn, rfl⟩

theorem step_of_act {k : κ} (h : act next c i k = some c') : StepWhere next (fun _ _ _ => True) c c' := by
  obtain ⟨p, s', p', hp, hn, rfl⟩ := act_eq_some h
  exact .act i k hp trivial hn

theorem reaches_of_runSchedule (h : runSchedule next c acts = some c') : Reaches next c c' := by
  induction acts generalizing c with
  | nil =>
    simp only [runSchedule] at h
    cases h
    exact Relation.ReflTransGen.refl
  | cons a rest ih =>
    obtain ⟨i, k⟩ := a
    simp only [runSchedule, Option.bind_eq_some_iff] at h
    obtain ⟨c₁, h₁, h₂⟩ := h
    exact Relation.ReflTransGen.head (step_of_act h₁) (ih h₂)

variable {P : Conf σ π → Nat → κ → Prop}

/-- Steps that satisfy `P` keep the invariant to the end. -/
theorem invariant_along {I : Conf σ π → Prop}
    (hstep : ∀ c i k c', I c → P c i k → act next c i k = some c' → I c') (hP : Along next P c acts)
    (hr : runSchedule next c acts = some c') (hI : I c) : I c' := by
  induction acts generalizing c with
  | nil =>
    simp only [runSchedule, Option.some.injEq] at hr
    exact hr ▸ hI
  | cons a rest ih =>
    obtain ⟨i, k⟩ := a
    simp only [runSchedule, Option.bind_eq_some_iff] at hr
    obtain ⟨d, hd, hr⟩ := hr
    exact ih (hP.2 d hd) hr (hstep c i k d hI hP.1 hd)

/-- If a step keeps `I` exactly where it satisfies `P`, all configurations satisfy `I` exactly when
all steps satisfy `P`. -/
theorem along_iff_passes {I : Conf σ π → Prop} (hstep : ∀ c i k c', I c → act next c i k = some c' → (I c' ↔ P c i k))
    (hr : runSchedule next c acts = some c') (hI : I c) :
    (∀ n d, runSchedule next c (acts.take n) = some d → I d) ↔ Along next P c acts := by
  induction acts generalizing c with
  | nil =>
    refine iff_of_true (fun n d hd => ?_) trivial
    simp only [List.take_nil, runSchedule, Option.some.injEq] at hd
    exact hd ▸ hI
  | cons a rest ih =>
    obtain ⟨i, k⟩ := a
    simp only [runSchedule, Option.bind_eq_some_iff] at hr
    obtain ⟨e, he, hr⟩ := hr
    constructor
    · intro h
      have hIe : I e := h 1 e (by simp [runSchedule, he])
      refine ⟨(hstep c i k e hI he).1 hIe, fun e' he' => ?_⟩
      obtain rfl : e = e' := Option.some.inj (he.symm.trans he')
      refine (ih hr hIe).1 fun n d hd => h (n + 1) d ?_
      simpa [runSchedule, he] using hd
    · rintro ⟨hP, hrest⟩ n d hd
      have hIe : I e := (hstep c i k e hI he).2 hP
      cases n with
      | zero =>
        simp only [List.take_zero, runSchedule, Option.some.injEq] at hd
        exact hd ▸ hI
      | succ n =>
        simp only [List.take_succ_cons, runSchedule, he, Option.bind_some] at hd
        exact (ih hr hIe).2 (hrest e he) n d hd

/-- A run of the guarded processes is one whose steps satisfy `ok`. -/
theorem reachesWhere_of_guarded [∀ i s p, Decidable (ok i s p)]
    (h : Reaches (fun i s p k => if ok i s p then next i s p k else none) c c') :
    ReachesWhere next ok c c' := by
  induction h with
  | refl => exact Relation.ReflTransGen.refl
  | tail _ hs ih =>
    obtain ⟨i, k, hp, -, hn⟩ := hs
    split at hn
    · rename_i hok
      exact ih.tail (.act i k hp hok hn)
    · cases hn

theorem invariant_of_frame {G : σ → Prop} {L : Nat → π → σ → Prop}
    (own : ∀ i k s p s' p', ok i s p → G s → L i p s → next i s p k = some (s', p') →
      G s' ∧ L i p' s') (frame : ∀ i j k s p s' p' q, i ≠ j → ok i s p → G s → L i p s → L j q s →
      next i s p k = some (s', p') → L j q s') (hr : ReachesWhere next ok c c') (hc : Holds G L c) :
    Holds G L c' := by
  induction hr with
  | refl => exact hc
  | tail _ hstep ih =>
    obtain ⟨i, k, hp, hok, hn⟩ := hstep
    obtain ⟨hG, hL⟩ := ih
    have hi := hL i _ hp
    obtain ⟨hG', hi'⟩ := own i k _ _ _ _ hok hG hi hn
    refine ⟨hG', fun j q hq => ?_⟩
    by_cases hij : i = j
    · subst hij
      obtain ⟨hlt, -⟩ := List.getElem?_eq_some_iff.1 hp
      rw [List.getElem?_set_self hlt, Option.some.injEq] at hq
      exact hq ▸ hi'
    · rw [List.getElem?_set_ne hij] at hq
      exact frame i j k _ _ _ _ q hij hok hG hi (hL j q hq) hn

theorem proc_persists {P : π → Prop} (hstep : ∀ i k s p s' p', next i s p k = some (s', p') → P p → P p')
    (hr : ReachesWhere next ok c c') (hp : c.procs[i]? = some p) (h : P p) :
    ∃ p', c'.procs[i]? = some p' ∧ P p' := by
  induction hr with
  | refl => exact ⟨p, hp, h⟩
  | tail _ hs ih =>
    obtain ⟨q, hq, hPq⟩ := ih
    obtain ⟨j, k, hj, -, hn⟩ := hs
    by_cases hij : j = i
    · subst hij
      rw [hj] at hq
      cases hq
      obtain ⟨hlt, -⟩ := List.getElem?_eq_some_iff.1 hj
      exact ⟨_, List.getElem?_set_self hlt, hstep _ _ _ _ _ _ hn hPq⟩
    · exact ⟨q, by rw [List.getElem?_set_ne hij]; exact hq, hPq⟩

end Runs

theorem sum_map_set {A : Type w} [AddCommGroup A] (f : π → A) {ps : List π} (p' : π) (h : ps[i]? = some p) :
    ((ps.set i p').map f).sum = (ps.map f).sum - f p + f p' := by
  induction ps generalizing i with
  | nil => simp at h
  | cons q qs ih =>
    cases i with
    | zero =>
      simp only [List.getElem?_cons_zero] at h
      cases h
      simp only [List.set_cons_zero, List.map_cons, List.sum_cons]
      abel
    | succ n =>
      simp only [List.getElem?_cons_succ] at h
      simp only [List.set_cons_succ, List.map_cons, List.sum_cons, ih h]
      abel

theorem countP_set_add (f : π → Bool) {ps : List π} (p' : π) (h : ps[i]? = some p) :
    (ps.set i p').countP f + (if f p then 1 else 0) = ps.countP f + (if f p' then 1 else 0) := by
  induction ps generalizing i with
  | nil => simp at h
  | cons q qs ih =>
    cases i with
    | zero =>
      simp only [List.getElem?_cons_zero] at h
      cases h
      simp only [List.set_cons_zero, List.countP_cons]
      omega
    | succ n =>
      simp only [List.getElem?_cons_succ] at h
      have ih' := ih h
      simp only [List.set_cons_succ, List.countP_cons]
      omega

end RyanAI.Lib.Interleaving
