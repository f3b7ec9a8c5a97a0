import Mathlib.Tactic

/-!
# Programs that ask their environment

A program asks its environment one question at a time and continues with the answer, until it returns or throws. `E`
holds the questions and `R` the type of the answers to each. `Runs` relates a program to the questions and answers of
one run and to its result. `andThen` continues with a result of either kind; sequencing and catching are instances.

A protocol says in which phase which question may be asked, and to which phase an answer leads. `Follows` says that a
program keeps to it whatever the answers are, and that its result fits the phase in which it ends.
-/

namespace RyanAI.Lib

variable {E : Type} {R : E → Type} {ε α β : Type}

inductive Program (R : E → Type) (ε α : Type) where
  | done (result : Except ε α)
  | ask (e : E) (next : R e → Program R ε α)

namespace Program

def andThen : Program R ε α → (Except ε α → Program R ε β) → Program R ε β
  | .done result, k => k result
  | .ask e next, k => .ask e fun r => (next r).andThen k

def perform (e : E) : Program R ε (R e) := .ask e fun r => .done (.ok r)

instance : Monad (Program R ε) where
  pure a := .done (.ok a)
  bind p f := p.andThen fun
    | .ok a => f a
    | .error err => .done (.error err)

instance : MonadExceptOf ε (Program R ε) where
  throw err := .done (.error err)
  tryCatch p f := p.andThen fun
    | .ok a => .done (.ok a)
    | .error err => f err

inductive Runs : Program R ε α → List ((e : E) × R e) → Except ε α → Prop
  | done (result : Except ε α) : Runs (.done result) [] result
  | ask {e : E} {next : R e → Program R ε α} {r : R e} {trace : List ((e : E) × R e)}
      {result : Except ε α} :
      Runs (next r) trace result → Runs (.ask e next) (⟨e, r⟩ :: trace) result

def run (answer : (e : E) → R e) : Program R ε α → List ((e : E) × R e) × Except ε α
  | .done result => ([], result)
  | .ask e next =>
    let (trace, result) := run answer (next (answer e))
    (⟨e, answer e⟩ :: trace, result)

theorem runs_run (answer : (e : E) → R e) (p : Program R ε α) : Runs p (p.run answer).1 (p.run answer).2 := by
  induction p with
  | done result => exact .done result
  | ask e next ih => exact .ask (ih (answer e))

variable {trace : List ((e : E) × R e)}

@[simp]
theorem runs_done : Runs (.done result : Program R ε α) trace result' ↔ trace = [] ∧ result' = result := by
  constructor
  · rintro ⟨⟩
    exact ⟨rfl, rfl⟩
  · rintro ⟨rfl, rfl⟩
    exact .done _

@[simp]
theorem runs_ask {next : R e → Program R ε α} : Runs (.ask e next) trace result ↔
      ∃ r rest, trace = ⟨e, r⟩ :: rest ∧ Runs (next r) rest result := by
  constructor
  · intro h
    cases h with
    | ask h => exact ⟨_, _, rfl, h⟩
  · rintro ⟨r, rest, rfl, h⟩
    exact .ask h

variable {k : Except ε α → Program R ε β}

theorem runs_andThen : Runs (p.andThen k) trace result ↔
      ∃ before mid after, trace = before ++ after ∧ Runs p before mid ∧ Runs (k mid) after result := by
  -- the questions of the first part come off the trace one by one
  induction p generalizing trace with
  | done r =>
    constructor
    · intro h
      exact ⟨[], r, trace, rfl, .done r, h⟩
    · rintro ⟨before, mid, after, rfl, hp, hk⟩
      obtain ⟨rfl, rfl⟩ := runs_done.1 hp
      exact hk
  | ask e next ih =>
    simp only [andThen, runs_ask, ih]
    constructor
    · rintro ⟨r, rest, rfl, before, mid, after, rfl, hp, hk⟩
      exact ⟨⟨e, r⟩ :: before, mid, after, rfl, ⟨r, before, rfl, hp⟩, hk⟩
    · rintro ⟨before, mid, after, rfl, ⟨r, rest, rfl, hp⟩, hk⟩
      exact ⟨r, rest ++ after, rfl, rest, mid, after, rfl, hp, hk⟩

@[simp]
theorem runs_pure : Runs (pure a : Program R ε α) trace result ↔ trace = [] ∧ result = .ok a := runs_done

@[simp]
theorem runs_throw : Runs (throw err : Program R ε α) trace result ↔ trace = [] ∧ result = .error err := runs_done

variable {f : α → Program R ε β}

theorem runs_bind : Runs (p >>= f) trace result ↔
      (∃ err, Runs p trace (.error err) ∧ result = .error err) ∨
        ∃ before a after, trace = before ++ after ∧ Runs p before (.ok a) ∧ Runs (f a) after result := by
  constructor
  · intro h
    obtain ⟨before, mid, after, rfl, hp, hk⟩ := runs_andThen.1 h
    cases mid with
    -- what the first part throws is the result, and nothing is asked after it
    | error err =>
      obtain ⟨rfl, rfl⟩ := runs_done.1 hk
      exact Or.inl ⟨err, by rwa [List.append_nil], rfl⟩
    | ok a => exact Or.inr ⟨before, a, after, rfl, hp, hk⟩
  · rintro (⟨err, hp, rfl⟩ | ⟨before, a, after, rfl, hp, hk⟩)
    · exact runs_andThen.2 ⟨trace, _, [], (List.append_nil _).symm, hp, .done _⟩
    · exact runs_andThen.2 ⟨before, _, after, rfl, hp, hk⟩

theorem runs_tryCatch {f : ε → Program R ε α} : Runs (tryCatch p f) trace result ↔
      (∃ a, Runs p trace (.ok a) ∧ result = .ok a) ∨
        ∃ before err after, trace = before ++ after ∧ Runs p before (.error err) ∧ Runs (f err) after result := by
  constructor
  · intro h
    obtain ⟨before, mid, after, rfl, hp, hk⟩ := runs_andThen.1 h
    cases mid with
    | ok a =>
      obtain ⟨rfl, rfl⟩ := runs_done.1 hk
      exact Or.inl ⟨a, by rwa [List.append_nil], rfl⟩
    | error err => exact Or.inr ⟨before, err, after, rfl, hp, hk⟩
  · rintro (⟨a, hp, rfl⟩ | ⟨before, err, after, rfl, hp, hk⟩)
    · exact runs_andThen.2 ⟨trace, _, [], (List.append_nil _).symm, hp, .done _⟩
    · exact runs_andThen.2 ⟨before, _, after, rfl, hp, hk⟩

theorem runs_perform : Runs (perform e : Program R ε (R e)) trace result ↔
      ∃ r, trace = [⟨e, r⟩] ∧ result = .ok r := by
  simp [perform]

/-! ## Protocols -/

section Protocols

variable {P : Type}

structure Protocol (R : E → Type) (P : Type) where
  may : P → E → Prop
  after : P → (e : E) → R e → P

variable {proto : Protocol R P}

def Follows (proto : Protocol R P) (post : P → Except ε α → Prop) : P → Program R ε α → Prop
  | phase, .done result => post phase result
  | phase, .ask e next => proto.may phase e ∧ ∀ r, Follows proto post (proto.after phase e r) (next r)

variable {p : Program R ε α}

theorem Follows.mono {post post' : P → Except ε α → Prop}
    (hpost : ∀ phase result, post phase result → post' phase result)
    (h : p.Follows proto post phase) : p.Follows proto post' phase := by
  induction p generalizing phase with
  | done result => exact hpost phase result h
  | ask e next ih =>
    refine ⟨h.1, ?_⟩
    intro r
    exact ih r (h.2 r)

variable {mid : P → Except ε α → Prop}

variable {post : P → Except ε β → Prop}

theorem Follows.andThen (h : p.Follows proto mid phase)
    (hk : ∀ phase result, mid phase result → (k result).Follows proto post phase) :
    (p.andThen k).Follows proto post phase := by
  induction p generalizing phase with
  | done result => exact hk phase result h
  | ask e next ih =>
    refine ⟨h.1, ?_⟩
    intro r
    exact ih r (h.2 r)

theorem Follows.bind (h : p.Follows proto mid phase)
    (herror : ∀ phase err, mid phase (.error err) → post phase (.error err))
    (hok : ∀ phase a, mid phase (.ok a) → (f a).Follows proto post phase) : (p >>= f).Follows proto post phase := by
  apply Follows.andThen h
  intro phase' result hmid
  cases result with
  | ok a => exact hok phase' a hmid
  | error err => exact herror phase' err hmid

theorem Follows.tryCatch {mid post : P → Except ε α → Prop} {f : ε → Program R ε α} (h : p.Follows proto mid phase)
    (hok : ∀ phase a, mid phase (.ok a) → post phase (.ok a))
    (herror : ∀ phase err, mid phase (.error err) → (f err).Follows proto post phase) :
    (tryCatch p f).Follows proto post phase := by
  apply Follows.andThen h
  intro phase' result hmid
  cases result with
  | ok a => exact hok phase' a hmid
  | error err => exact herror phase' err hmid

def Returns (Q : P → α → Prop) : P → Except ε α → Prop
  | phase, .ok a => Q phase a
  | _, .error _ => True

variable {Q : P → α → Prop}

theorem Follows.returned (h : Q phase a) : (pure a : Program R ε α).Follows proto (Returns Q) phase := h

theorem Follows.thrown (err : ε) : (throw err : Program R ε α).Follows proto (Returns Q) phase := trivial

theorem Follows.weaken {Q Q' : P → α → Prop}
    (h : p.Follows proto (Returns Q) phase) (hQ : ∀ phase a, Q phase a → Q' phase a) :
    p.Follows proto (Returns Q') phase := by
  refine h.mono fun phase result hresult => ?_
  cases result with
  | ok a => exact hQ phase a hresult
  | error err => trivial

theorem Follows.seq {Q' : P → β → Prop}
    (h : p.Follows proto (Returns Q) phase) (hf : ∀ phase a, Q phase a → (f a).Follows proto (Returns Q') phase) :
    (p >>= f).Follows proto (Returns Q') phase :=
  h.bind (fun _ _ _ => trivial) hf

theorem Follows.caught {f : ε → Program R ε α}
    (h : p.Follows proto (Returns Q) phase) (hf : ∀ phase err, (f err).Follows proto (Returns Q) phase) :
    (MonadExcept.tryCatch p f).Follows proto (Returns Q) phase :=
  h.tryCatch (fun _ _ ha => ha) fun phase err _ => hf phase err

end Protocols

end Program

end RyanAI.Lib
