import Mathlib.Tactic

/-!
# Transactions on one connection

A connection sees the committed database, and a working copy of it while a transaction is open. `transaction` brackets
an operation with BEGIN and COMMIT and rolls back whatever is thrown in between. Each of the statements may fail for
reasons of the engine, and the process may end at any moment, which leaves what has been committed.

The operation is a function on the database. After the bracket no transaction is open, and the committed database is
either the old one or the one that the operation returns (`transaction_spec`).
-/

namespace RyanAI.Lib

structure Session (δ : Type) where
  committed : δ
  working : Option δ

inductive Mishap (δ ε : Type) where
  /-- BEGIN fails. -/
  | begins (e : ε)
  /-- A statement of the operation fails, with the working copy as it is then, if there still is one. -/
  | statement (e : ε) (reached : Option δ)
  | commits (e : ε) (rolledBack : Bool)
  /-- The process ends before COMMIT has taken effect. -/
  | endsBefore
  /-- The process ends after it. -/
  | endsAfter
  deriving DecidableEq

inductive Answered (ε α : Type) where
  | returned (a : α)
  | threw (e : ε)
  | gone
  deriving DecidableEq

def Answered.isReturned {ε α : Type} : Answered ε α → Bool
  | .returned _ => true
  | _ => false

namespace Session

variable {δ ε α : Type}

def open_ (db : δ) : Session δ := ⟨db, none⟩

def rollback (s : Session δ) : Session δ := { s with working := none }

def commit (s : Session δ) : Session δ := { s with committed := s.working.getD s.committed, working := none }

end Session

variable {δ ε α : Type}

/-- BEGIN, the operation, COMMIT; ROLLBACK if the operation or COMMIT throws. -/
def transaction (operation : δ → Except ε (α × δ)) (mishap : Option (Mishap δ ε)) (s : Session δ) :
    Answered ε α × Session δ :=
  match mishap with
  | some (.begins e) => (.threw e, s)
  | some .endsBefore => (.gone, .open_ s.committed)
  | _ =>
    let s := { s with working := some s.committed }
    match mishap with
    | some (.statement e reached) => (.threw e, { s with working := reached }.rollback)
    | _ =>
      match operation s.committed with
      | .error e => (.threw e, s.rollback)
      | .ok (a, db) =>
        let s := { s with working := some db }
        match mishap with
        | some (.commits e rolledBack) =>
          (.threw e, (if rolledBack then { s with working := none } else s).rollback)
        | some .endsAfter => (.gone, .open_ s.commit.committed)
        | _ => (.returned a, s.commit)

def Commits : Option (Mishap δ ε) → Bool
  | none => true
  | some .endsAfter => true
  | _ => false

theorem transaction_spec (operation : δ → Except ε (α × δ)) (mishap : Option (Mishap δ ε)) (db : δ) :
    let r := transaction operation mishap (.open_ db)
    r.2.working = none ∧
      ((r.2.committed = db ∧ r.1.isReturned = false ∧
          (Commits mishap = false ∨ ∃ e, operation db = .error e)) ∨
        ∃ a db', operation db = .ok (a, db') ∧ Commits mishap = true ∧ r.2.committed = db' ∧
          (r.1 = .returned a ∨ r.1 = .gone)) := by
  cases hop : operation db with
  | error e =>
    rcases mishap with - | ⟨e' | ⟨e', reached⟩ | ⟨e', rolledBack⟩ | - | -⟩ <;>
      simp [transaction, Session.open_, Session.rollback, Commits, Answered.isReturned, hop]
  | ok result =>
    obtain ⟨a, db'⟩ := result
    rcases mishap with - | ⟨e' | ⟨e', reached⟩ | ⟨e', rolledBack⟩ | - | -⟩
    case some.commits => cases rolledBack <;> simp [transaction, Session.open_, Session.rollback, Commits, Answered.isReturned, hop]
    all_goals simp [transaction, Session.open_, Session.rollback, Session.commit, Commits, Answered.isReturned, hop]

end RyanAI.Lib
