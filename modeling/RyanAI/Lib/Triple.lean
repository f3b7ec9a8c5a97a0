import Mathlib.Tactic

/-!
# Pre- and postconditions of computations that may raise

A computation in `EStateM` changes a state and returns or raises; what it has done to the state when it raises
stays done. `Triple P c Q E` says that from a state with `P` the computation returns into `Q`, or raises into `E`.
There is one rule for each way to build a computation.
-/

namespace RyanAI.Lib

variable {ε σ α β : Type}

def EndsIn (Q : α → σ → Prop) (E : ε → σ → Prop) : EStateM.Result ε σ α → Prop
  | .ok a s => Q a s
  | .error e s => E e s

def Triple (P : σ → Prop) (c : EStateM ε σ α) (Q : α → σ → Prop) (E : ε → σ → Prop) : Prop :=
  ∀ s, P s → EndsIn Q E (c s)

def change (f : σ → σ) : EStateM ε σ Unit := fun s => .ok () (f s)

def attempt (x : Except ε α) : EStateM ε σ α := fun s =>
  match x with
  | .ok a => .ok a s
  | .error e => .error e s

def forEach (body : α → EStateM ε σ Unit) : List α → EStateM ε σ Unit
  | [] => pure ()
  | a :: rest => do
    body a
    forEach body rest

namespace Triple

variable {P P' : σ → Prop} {Q Q' : α → σ → Prop} {E E' : ε → σ → Prop} {c : EStateM ε σ α}

theorem consequence (h : Triple P c Q E) (hpre : ∀ s, P' s → P s) (hpost : ∀ a s, Q a s → Q' a s)
    (hraise : ∀ e s, E e s → E' e s) : Triple P' c Q' E' := by
  intro s hs
  have hend := h s (hpre s hs)
  cases hc : c s with
  | ok a s' =>
    rw [hc] at hend
    exact hpost a s' hend
  | error e s' =>
    rw [hc] at hend
    exact hraise e s' hend

theorem pure {a : α} (h : ∀ s, P s → Q a s) : Triple P (Pure.pure a : EStateM ε σ α) Q E := h

theorem bind {R : β → σ → Prop} {f : α → EStateM ε σ β} (h : Triple P c Q E) (hf : ∀ a, Triple (Q a) (f a) R E) :
    Triple P (c >>= f) R E := by
  intro s hs
  have hend := h s hs
  show EndsIn R E (EStateM.bind c f s)
  rw [EStateM.bind]
  cases hc : c s with
  | ok a s' =>
    rw [hc] at hend
    exact hf a s' hend
  | error e s' =>
    rw [hc] at hend
    exact hend

theorem change {f : σ → σ} {Q : Unit → σ → Prop} (h : ∀ s, P s → Q () (f s)) :
    Triple P (Lib.change f : EStateM ε σ Unit) Q E := h

theorem get {Q : σ → σ → Prop} (h : ∀ s, P s → Q s s) : Triple P (MonadState.get : EStateM ε σ σ) Q E := h

theorem throw {e : ε} (h : ∀ s, P s → E e s) : Triple P (MonadExcept.throw e : EStateM ε σ α) Q E := h

theorem attempt {x : Except ε α} (hok : ∀ a s, x = .ok a → P s → Q a s) (herror : ∀ e s, x = .error e → P s → E e s) :
    Triple P (Lib.attempt x) Q E := by
  intro s hs
  cases x with
  | ok a => exact hok a s rfl hs
  | error e => exact herror e s rfl hs

theorem forEach {body : β → EStateM ε σ Unit} {items : List β}
    (h : ∀ b ∈ items, Triple P (body b) (fun _ => P) E) : Triple P (Lib.forEach body items) (fun _ => P) E := by
  induction items with
  | nil => exact pure fun _ hs => hs
  | cons b rest ih =>
    apply bind (h b List.mem_cons_self)
    intro _
    exact ih fun b' hb' => h b' (List.mem_cons_of_mem _ hb')

theorem forEachPrefix {I : List β → σ → Prop} {body : β → EStateM ε σ Unit}
    (h : ∀ before b, Triple (I before) (body b) (fun _ => I (before ++ [b])) E) (items before : List β) :
    Triple (I before) (Lib.forEach body items) (fun _ => I (before ++ items)) E := by
  induction items generalizing before with
  | nil =>
    rw [List.append_nil]
    exact pure fun _ hs => hs
  | cons b rest ih =>
    rw [List.append_cons]
    apply bind (h before b)
    intro _
    exact ih (before ++ [b])

theorem assume {p : Prop} (h : p → Triple P c Q E) : Triple (fun s => p ∧ P s) c Q E := by
  rintro s ⟨hp, hs⟩
  exact h hp s hs

end Triple

end RyanAI.Lib
