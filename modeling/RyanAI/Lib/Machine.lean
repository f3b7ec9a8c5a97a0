import Mathlib.Tactic

/-!
# Runs of a machine

A machine takes events one at a time; `step` returns `none` where an event is not possible. `Run`
relates the two ends of a run to the events in between, all of them taken where `ok` allows it.
`Run.invariant` is the induction over runs, packed once: what every allowed step keeps holds at the
end if it holds at the start.
-/

namespace RyanAI.Lib.Machine

universe u v

variable {σ : Type u} {ε : Type v}

inductive Run (step : σ → ε → Option σ) (ok : σ → ε → Prop) : σ → List ε → σ → Prop
  | nil (s : σ) : Run step ok s [] s
  | cons {s s' s'' : σ} {e : ε} {es : List ε} :
      ok s e → step s e = some s' → Run step ok s' es s'' → Run step ok s (e :: es) s''

abbrev AnyRun (step : σ → ε → Option σ) : σ → List ε → σ → Prop := Run step fun _ _ => True

def exec (step : σ → ε → Option σ) : σ → List ε → Option σ
  | s, [] => some s
  | s, e :: es => (step s e).bind fun s' => exec step s' es

variable {step : σ → ε → Option σ} {ok : σ → ε → Prop}

variable {s s' : σ} {es : List ε}

theorem Run.any (h : Run step ok s es s') : AnyRun step s es s' := by
  induction h with
  | nil s => exact .nil s
  | cons _ hs _ ih => exact .cons trivial hs ih

theorem Run.invariant {I : σ → Prop} (hstep : ∀ s e s', I s → ok s e → step s e = some s' → I s')
    (h : Run step ok s es s') (hs : I s) : I s' := by
  induction h with
  | nil => exact hs
  | cons hok he _ ih => exact ih (hstep _ _ _ hs hok he)

theorem run_of_exec [∀ s e, Decidable (ok s e)]
    (h : exec (fun s e => if ok s e then step s e else none) s es = some s') :
    Run step ok s es s' := by
  induction es generalizing s with
  | nil =>
    cases h
    exact .nil _
  | cons e es ih =>
    simp only [exec, Option.bind_eq_some_iff] at h
    obtain ⟨t, ht, hrest⟩ := h
    split at ht
    · rename_i hok
      exact .cons hok ht (ih hrest)
    · cases ht

theorem anyRun_of_exec (h : exec step s es = some s') : AnyRun step s es s' := by
  apply run_of_exec
  simpa using h

end RyanAI.Lib.Machine
