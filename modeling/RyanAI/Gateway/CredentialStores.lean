import RyanAI.Lib.HttpError
import RyanAI.Lib.Interleaving

/-!
# The two credential stores

`_save_authoritative_credential` writes the credentials of a connection to SQL, hands them to the sidecar, and puts SQL
back to what it read at the beginning when the sidecar refuses. Any number of calls run for one connection, one
statement or request at a time; while one is in flight the stores may differ. `Fresh` says what a call needs that ends
alone: nobody has written SQL since its own write, or, if it has to restore, the sidecar still holds what it read. The
stores agree whenever no call is in flight exactly when every step is fresh (`stores_agree_iff`).
-/

namespace RyanAI.Gateway.CredentialStores

open RyanAI.Lib
open RyanAI.Lib.Interleaving

universe u

variable {κ : Type u}

/-- The credentials in `bot_gateway_credential` and in the sidecar. -/
structure Stores (κ : Type u) where
  sql : Option κ
  sidecar : Option κ

/-- The answers of SQL and sidecar: two `BotGatewayBindingError`s and a
`BotGatewayCredentialError`. -/
inductive Answer where
  | ok
  | accountAlreadyBound
  | bindingError (code : String)
  | credentialError
  | failed
deriving DecidableEq

inductive Outcome where
  | returned
  | http (e : HttpError)
  | raised (e : Answer)
deriving DecidableEq

/-- Where a call stands, with `previous_credentials`. -/
inductive Phase (κ : Type u) where
  | read
  | save (previous : Option κ)
  | put (previous : Option κ)
  | restore (previous : Option κ) (e : Answer)
  | done (o : Outcome)

structure Call (κ : Type u) where
  credentials : κ
  phase : Phase κ

/-- What a refused `get_credential` or `save_credential` raises. -/
def sqlError : Answer → Outcome
  | .accountAlreadyBound => .http ⟨409, "account_already_bound"⟩
  | .credentialError => .http ⟨400, "Invalid bot credentials"⟩
  | e => .raised e

/-- One request of `_save_authoritative_credential` and its answer; without the credential center
only the sidecar's. -/
def step (credentialCenterEnabled : Bool) (s : Stores κ) (c : Call κ) (answer : Answer) : Option (Stores κ × Call κ) :=
  match c.phase with
  | .read =>
    if credentialCenterEnabled then
      match answer with
      | .ok => some (s, { c with phase := .save s.sql })
      | e => some (s, { c with phase := .done (sqlError e) })
    else some (s, { c with phase := .put none })
  | .save previous =>
    match answer with
    | .ok => some ({ s with sql := some c.credentials }, { c with phase := .put previous })
    | e => some (s, { c with phase := .done (sqlError e) })
  | .put previous =>
    match answer with
    | .ok => some ({ s with sidecar := some c.credentials }, { c with phase := .done .returned })
    | e =>
      if credentialCenterEnabled then some (s, { c with phase := .restore previous e })
      else some (s, { c with phase := .done (.raised e) })
  | .restore previous e =>
    match answer with
    -- `delete_credential` when nothing was stored before, else `save_credential`
    | .ok => some ({ s with sql := previous }, { c with phase := .done (.raised e) })
    | _ => some (s, { c with phase := .done (.raised e) })
  | .done _ => none

/-- The center is enabled and SQL succeeds; `accepted` is the sidecar's choice. -/
def next (_ : Nat) (s : Stores κ) (c : Call κ) (accepted : Bool) : Option (Stores κ × Call κ) :=
  step true s c (match c.phase with
    | .put _ => if accepted then .ok else .failed
    | _ => .ok)

/-- The calls before their first statement, with both stores holding the same. -/
def start (stored : Option κ) (requests : List κ) : Conf (Stores κ) (Call κ) :=
  ⟨⟨stored, stored⟩, requests.map fun credentials => ⟨credentials, .read⟩⟩

def Call.InFlight (c : Call κ) : Prop :=
  match c.phase with
  | .put _ | .restore _ _ => True
  | _ => False

def AtRest (c : Conf (Stores κ) (Call κ)) : Prop := ∀ p ∈ c.procs, ¬ p.InFlight

def Finished (c : Conf (Stores κ) (Call κ)) : Prop := ∀ p ∈ c.procs, ∃ o, p.phase = .done o

def AgreeAtRest (c : Conf (Stores κ) (Call κ)) : Prop := AtRest c → c.shared.sql = c.shared.sidecar

/-- A call that ends alone finds its own credentials in SQL, or the previous ones in the sidecar. -/
def Fresh (c : Conf (Stores κ) (Call κ)) (i : Nat) (accepted : Bool) : Prop :=
  ∀ p, c.procs[i]? = some p → (∀ j q, j ≠ i → c.procs[j]? = some q → ¬ q.InFlight) →
    match p.phase with
    | .put _ => accepted = true → c.shared.sql = some p.credentials
    | .restore previous _ => previous = c.shared.sidecar
    | _ => True

theorem next_cases (h : next i s c accepted = some (s', c')) :
    (c.phase = .read ∧ s' = s ∧ c' = { c with phase := .save s.sql }) ∨
    (∃ previous, c.phase = .save previous ∧ s' = { s with sql := some c.credentials } ∧
      c' = { c with phase := .put previous }) ∨
    (∃ previous, c.phase = .put previous ∧ accepted = true ∧
      s' = { s with sidecar := some c.credentials } ∧ c' = { c with phase := .done .returned }) ∨
    (∃ previous, c.phase = .put previous ∧ accepted = false ∧ s' = s ∧
      c' = { c with phase := .restore previous .failed }) ∨
    (∃ previous e, c.phase = .restore previous e ∧ s' = { s with sql := previous } ∧
      c' = { c with phase := .done (.raised e) }) := by
  obtain ⟨credentials, ph⟩ := c
  cases ph with
  | read =>
    simp only [next, step, if_true, Option.some.injEq, Prod.mk.injEq] at h
    exact .inl ⟨rfl, h.1.symm, h.2.symm⟩
  | save previous =>
    simp only [next, step, Option.some.injEq, Prod.mk.injEq] at h
    exact .inr (.inl ⟨previous, rfl, h.1.symm, h.2.symm⟩)
  | put previous =>
    cases accepted with
    | true =>
      simp only [next, step, if_true, Option.some.injEq, Prod.mk.injEq] at h
      exact .inr (.inr (.inl ⟨previous, rfl, rfl, h.1.symm, h.2.symm⟩))
    | false =>
      simp only [next, step, Bool.false_eq_true, if_false, if_true, Option.some.injEq, Prod.mk.injEq] at h
      exact .inr (.inr (.inr (.inl ⟨previous, rfl, rfl, h.1.symm, h.2.symm⟩)))
  | restore previous e =>
    simp only [next, step, Option.some.injEq, Prod.mk.injEq] at h
    exact .inr (.inr (.inr (.inr ⟨previous, e, rfl, h.1.symm, h.2.symm⟩)))
  | done o => cases h

section Steps

variable {c : Conf (Stores κ) (Call κ)} {i : Nat} {p : Call κ}

theorem atRest_set_iff (hp : c.procs[i]? = some p) (h' : ¬ p'.InFlight) :
    AtRest ⟨s', c.procs.set i p'⟩ ↔ ∀ j q, j ≠ i → c.procs[j]? = some q → ¬ q.InFlight := by
  constructor
  · intro h j q hji hq
    refine h q (List.mem_of_getElem? (i := j) ?_)
    rw [List.getElem?_set_ne (Ne.symm hji)]
    exact hq
  intro h q hq
  obtain ⟨j, hj⟩ := List.getElem?_of_mem hq
  by_cases hij : i = j
  · subst hij
    obtain ⟨hlt, -⟩ := List.getElem?_eq_some_iff.1 hp
    rw [List.getElem?_set_self hlt, Option.some.injEq] at hj
    exact hj ▸ h'
  · rw [List.getElem?_set_ne hij] at hj
    exact h j q (Ne.symm hij) hj

theorem agreeAtRest_of_inFlight (hp : c.procs[i]? = some p)
    (h' : p'.InFlight) : AgreeAtRest ⟨s', c.procs.set i p'⟩ := by
  intro hrest
  obtain ⟨hlt, -⟩ := List.getElem?_eq_some_iff.1 hp
  exact absurd h' (hrest p' (List.mem_of_getElem? (i := i) (List.getElem?_set_self hlt)))

theorem agreeAtRest_act_iff (hc : AgreeAtRest c)
    (h : act next c i accepted = some c') : AgreeAtRest c' ↔ Fresh c i accepted := by
  obtain ⟨p, s', p', hp, hn, rfl⟩ := act_eq_some h
  have hfresh : Fresh c i accepted ↔
      ((∀ j q, j ≠ i → c.procs[j]? = some q → ¬ q.InFlight) →
        match p.phase with
        | .put _ => accepted = true → c.shared.sql = some p.credentials
        | .restore previous _ => previous = c.shared.sidecar
        | _ => True) := by
    constructor
    · exact fun hf => hf p hp
    · intro hf q hq
      obtain rfl : p = q := Option.some.inj (hp.symm.trans hq)
      exact hf
  rw [hfresh]
  -- a call that has written SQL is in flight until it is accepted or has restored
  obtain ⟨hph, rfl, rfl⟩ | ⟨previous, hph, rfl, rfl⟩ | ⟨previous, hph, rfl, rfl, rfl⟩ |
    ⟨previous, hph, rfl, rfl, rfl⟩ | ⟨previous, e, hph, rfl, rfl⟩ := next_cases hn
  · -- the read leaves the stores and the calls in flight as they are
    refine iff_of_true (fun hrest => hc fun q hq => ?_) (by simp [hph])
    obtain ⟨j, hj⟩ := List.getElem?_of_mem hq
    by_cases hij : j = i
    · subst hij
      obtain rfl : p = q := Option.some.inj (hp.symm.trans hj)
      simp [Call.InFlight, hph]
    · exact (atRest_set_iff hp (by simp [Call.InFlight])).1 hrest j q hij hj
  · exact iff_of_true (agreeAtRest_of_inFlight hp (by simp [Call.InFlight])) (by simp [hph])
  · rw [AgreeAtRest, atRest_set_iff hp (by simp [Call.InFlight])]
    simp [hph]
  · exact iff_of_true (agreeAtRest_of_inFlight hp (by simp [Call.InFlight])) (by simp [hph])
  · rw [AgreeAtRest, atRest_set_iff hp (by simp [Call.InFlight])]
    simp [hph]

end Steps

theorem agreeAtRest_start (stored : Option κ) (requests : List κ) : AgreeAtRest (start stored requests) := fun _ => rfl

theorem Finished.atRest (h : Finished c) : AtRest c := by
  intro p hp
  obtain ⟨o, ho⟩ := h p hp
  simp [Call.InFlight, ho]

def crossed : List (Nat × Bool) := [(0, true), (1, true), (0, true), (1, true), (1, true), (0, true)]

/-- The stores agree whenever nothing is in flight exactly when every step is fresh. -/
theorem stores_agree_iff (stored : Option κ) (requests : List κ) (acts : List (Nat × Bool))
    (c : Conf (Stores κ) (Call κ)) (hrun : runSchedule next (start stored requests) acts = some c) :
    ((∀ n d, runSchedule next (start stored requests) (acts.take n) = some d → AgreeAtRest d) ↔
      Along next Fresh (start stored requests) acts) ∧
    (Along next Fresh (start stored requests) acts → Finished c → c.shared.sql = c.shared.sidecar) := by
  have hiff := along_iff_passes (P := Fresh) (I := AgreeAtRest)
    (fun _ _ _ _ hI h => agreeAtRest_act_iff hI h) hrun (agreeAtRest_start stored requests)
  refine ⟨hiff, fun hfresh hfin => ?_⟩
  have hc : AgreeAtRest c := invariant_along
    (fun _ _ _ _ hI hP h => (agreeAtRest_act_iff hI h).2 hP) hfresh hrun
    (agreeAtRest_start stored requests)
  exact hc hfin.atRest

theorem stores_agree_iff_refused :
    ∃ c, runSchedule next (start (some "old") ["new"]) [(0, true), (0, true), (0, false), (0, true)] =
        some c ∧
      ((∀ n d, runSchedule next (start (some "old") ["new"])
          ([(0, true), (0, true), (0, false), (0, true)].take n) = some d → AgreeAtRest d) ↔
        Along next Fresh (start (some "old") ["new"]) [(0, true), (0, true), (0, false), (0, true)]) ∧
      (Along next Fresh (start (some "old") ["new"]) [(0, true), (0, true), (0, false), (0, true)] →
        Finished c → c.shared.sql = c.shared.sidecar) :=
  ⟨_, rfl, stores_agree_iff (some "old") ["new"] [(0, true), (0, true), (0, false), (0, true)] _ rfl⟩

/-- Both return, and the stores hold different credentials. -/
theorem stores_differ_of_crossed : ∃ c, runSchedule next (start none ["a", "b"]) crossed = some c ∧ Finished c ∧
      c.shared.sql = some "b" ∧ c.shared.sidecar = some "a" := by
  refine ⟨⟨⟨some "b", some "a"⟩, [⟨"a", .done .returned⟩, ⟨"b", .done .returned⟩]⟩, rfl,
    fun p hp => ?_, rfl, rfl⟩
  simp only [List.mem_cons, List.not_mem_nil, or_false] at hp
  rcases hp with rfl | rfl <;> exact ⟨.returned, rfl⟩

end RyanAI.Gateway.CredentialStores
