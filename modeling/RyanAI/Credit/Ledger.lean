import RyanAI.Lib.Interleaving
import RyanAI.Lib.ReadCommitted
import RyanAI.Lib.FixedPoint

/-!
# The credit ledger

`models/credits.py` and `routers/checkin.py` share one row per user in the table `credit`. `add_credit_by_user_id`
changes the balance by a conditional relative `UPDATE`; `_create_checkin_record` reads it and writes an absolute value
back. Every request is a small program of SQL statements; `next` executes one of them, and a run interleaves the
requests under READ COMMITTED. A statement may be refused, which leads to the exception handler.

`Trans` lists what one statement can do (`trans_of_next`).
-/

namespace RyanAI.Credit.Ledger

open RyanAI.Lib
open RyanAI.Lib.Interleaving
open RyanAI.Lib.ReadCommitted (Table UniqueKeys HoldsNone HoldsOnly Untouched committedAt pendingAt)

/-! ## Data model -/

structure Config where
  defaultCredit : ℚ
  noCreditMsg : String

/-- A row of `credit_log`; the id of a row is the request that wrote it. -/
structure CreditLog (δ : Type) where
  id : Nat
  userId : String
  credit : ℚ
  detail : δ

/-- A `lottery_draw` row without its key `(user_id, draw_date)`. -/
structure CheckinRecord where
  id : Nat
  reward : ℚ

/-- The three tables. `credit` is keyed by its unique column `user_id`. -/
structure Db (δ : Type) where
  credit : Table String ℚ
  draws : Table (String × String) CheckinRecord
  log : List (CreditLog δ)

inductive Request (δ : Type) where
  | addCredit (userId : String) (amount : ℚ) (detail : δ)
  | setCredit (userId : String) (credit : ℚ) (detail : δ)
  | resetAllCredits (value : ℚ)
  | checkin (userId today : String) (reward : ℚ) (duplicateDetail : String)

/-- An `HTTPException`, or the driver's error. -/
inductive Failure where
  | http (statusCode : Nat) (detail : String)
  | database
  deriving DecidableEq

/-- `init_credit_by_user_id`: look up, insert, commit, load back. -/
inductive InitPhase where
  | lookup
  | insert
  | insertCommit
  | refresh
  | relookup

/-- The next statement, with its local variables; `produced` is the balance of the request's own
`UPDATE`. -/
inductive Phase where
  | init (ph : InitPhase)
  | addUpdate
  | addSelect (produced : ℚ)
  | addCommit (produced balance : ℚ)
  | addReturn (produced : ℚ)
  | addReturned (produced : ℚ)
  | setUpdate
  | setCommit
  | setReturn
  | resetUpdate
  | resetCommit (affected : Nat)
  | checkinInsert
  | checkinLookup
  | checkinInsertCredit
  | checkinUpdate (currentCredit : ℚ)
  | checkinCommit
  | returned
  | raised (failure : Failure)

structure Call (δ : Type) where
  request : Request δ
  phase : Phase

variable {δ : Type}

def Request.userId : Request δ → String
  | .addCredit u _ _ => u
  | .setCredit u _ _ => u
  | .resetAllCredits _ => ""
  | .checkin u _ _ _ => u

def Request.start : Request δ → Phase
  | .addCredit .. => .init .lookup
  | .setCredit .. => .init .lookup
  | .resetAllCredits _ => .resetUpdate
  | .checkin .. => .checkinInsert

/-- Where a request continues after `init_credit_by_user_id`. -/
def Request.afterInit : Request δ → Phase
  | .setCredit .. => .setUpdate
  | _ => .addUpdate

/-- The value the `NUMERIC(24, 12)` columns store. -/
@[irreducible] def toColumn (x : ℚ) : Option ℚ := FixedPoint.toColumn 24 12 x

theorem toColumn_eq (x : ℚ) : toColumn x = FixedPoint.toColumn 24 12 x := by
  -- the equation that Lean derives for the definition computes the bound of the column
  delta toColumn
  rfl

def balance (cfg : Config) (db : Db δ) (u : String) : ℚ :=
  (committedAt db.credit u).getD (FixedPoint.roundTo 12 cfg.defaultCredit)

def Db.commit (i : Nat) (db : Db δ) : Db δ :=
  { db with credit := ReadCommitted.commit i db.credit, draws := ReadCommitted.commit i db.draws }

def Db.rollback (i : Nat) (db : Db δ) : Db δ :=
  { db with credit := ReadCommitted.rollback i db.credit, draws := ReadCommitted.rollback i db.draws }

/-! ## One statement -/

def raise (i : Nat) (db : Db δ) (req : Request δ) (e : Failure) : Option (Db δ × Call δ) :=
  some (db.rollback i, ⟨req, .raised e⟩)

/-- `init_credit_by_user_id`, whose calls swallow every exception. -/
def nextInit (cfg : Config) (i : Nat) (db : Db δ) (req : Request δ) (ok : Bool) : InitPhase → Option (Db δ × Call δ)
  | .lookup =>
    if ok && (ReadCommitted.select i req.userId db.credit).isSome then
      some (db, ⟨req, req.afterInit⟩)
    else some (db, ⟨req, .init .insert⟩)
  | .insert =>
    match ok, toColumn cfg.defaultCredit with
    | true, some v =>
      match ReadCommitted.insert i req.userId v db.credit with
      | .waits => none
      | .conflict => some (db, ⟨req, .init .relookup⟩)
      | .done tbl => some ({ db with credit := tbl }, ⟨req, .init .insertCommit⟩)
    | _, _ => some (db, ⟨req, .init .relookup⟩)
  | .insertCommit =>
    if ok then some (db.commit i, ⟨req, .init .refresh⟩)
    else some (db.rollback i, ⟨req, .init .relookup⟩)
  | .refresh =>
    if ok then some (db, ⟨req, req.afterInit⟩) else some (db, ⟨req, .init .relookup⟩)
  | .relookup =>
    if ok && (ReadCommitted.select i req.userId db.credit).isSome then
      some (db, ⟨req, req.afterInit⟩)
    else raise i db req (.http 500 "credit initialize failed")

/-- The `WHERE` clause of the `UPDATE`: a debit needs the balance to cover it. -/
def covers (amount credit : ℚ) : Bool := decide (amount < 0 → -amount ≤ credit)

/-- `add_credit_by_user_id` after the row exists. -/
def nextAdd (cfg : Config) (i : Nat) (db : Db δ) (u : String) (amount : ℚ) (detail : δ) (ok : Bool) :
    Phase → Option (Db δ × Call δ)
  | .addUpdate =>
    if ok then
      match ReadCommitted.update i u (covers amount) (fun c => toColumn (c + amount)) db.credit with
      | .waits => none
      | .fails => raise i db (.addCredit u amount detail) .database
      | .rows updated tbl =>
        if updated = 1 then
          match (ReadCommitted.select i u db.credit).bind fun c => toColumn (c + amount) with
          | some produced =>
            some ({ db with credit := tbl }, ⟨.addCredit u amount detail, .addSelect produced⟩)
          | none => none
        else raise i db (.addCredit u amount detail) (.http 403 cfg.noCreditMsg)
    else raise i db (.addCredit u amount detail) .database
  | .addSelect produced =>
    match ok, ReadCommitted.select i u db.credit with
    | true, some b => some (db, ⟨.addCredit u amount detail, .addCommit produced b⟩)
    | _, _ => raise i db (.addCredit u amount detail) .database
  | .addCommit produced b =>
    if ok then
      some ({ db.commit i with log := db.log ++ [⟨i, u, b, detail⟩] },
        ⟨.addCredit u amount detail, .addReturn produced⟩)
    else raise i db (.addCredit u amount detail) .database
  | .addReturn produced => some (db, ⟨.addCredit u amount detail, .addReturned produced⟩)
  | _ => none

/-- `set_credit_by_user_id` after the row exists. -/
def nextSet (i : Nat) (db : Db δ) (u : String) (credit : ℚ) (detail : δ) (ok : Bool) : Phase → Option (Db δ × Call δ)
  | .setUpdate =>
    if ok then
      match ReadCommitted.update i u (fun _ => true) (fun _ => toColumn credit) db.credit with
      | .waits => none
      | .fails => raise i db (.setCredit u credit detail) .database
      | .rows _ tbl => some ({ db with credit := tbl }, ⟨.setCredit u credit detail, .setCommit⟩)
    else raise i db (.setCredit u credit detail) .database
  | .setCommit =>
    match ok, toColumn credit with
    | true, some v =>
      some ({ db.commit i with log := db.log ++ [⟨i, u, v, detail⟩] },
        ⟨.setCredit u credit detail, .setReturn⟩)
    | _, _ => raise i db (.setCredit u credit detail) .database
  | .setReturn => some (db, ⟨.setCredit u credit detail, .returned⟩)
  | _ => none

/-- `reset_all_credits`. -/
def nextReset (i : Nat) (db : Db δ) (value : ℚ) (ok : Bool) : Phase → Option (Db δ × Call δ)
  | .resetUpdate =>
    match ok, toColumn value with
    | true, some v =>
      match ReadCommitted.updateAll i v db.credit with
      | .waits => none
      | .fails => raise i db (.resetAllCredits value) .database
      | .rows n tbl => some ({ db with credit := tbl }, ⟨.resetAllCredits value, .resetCommit n⟩)
    | _, _ => raise i db (.resetAllCredits value) .database
  | .resetCommit _ =>
    if ok then some (db.commit i, ⟨.resetAllCredits value, .returned⟩)
    else raise i db (.resetAllCredits value) .database
  | _ => none

/-- What `_create_checkin_record` makes of an error but a duplicate. -/
def awardFailed : Failure := .http 500 "Failed to award check-in reward"

/-- `_create_checkin_record`. -/
def nextCheckin (cfg : Config) (i : Nat) (db : Db δ) (u today : String) (reward : ℚ) (dup : String)
    (ok : Bool) : Phase → Option (Db δ × Call δ)
  | .checkinInsert =>
    match ok, toColumn reward with
    | true, some r =>
      match ReadCommitted.insert i (u, today) ⟨i, r⟩ db.draws with
      | .waits => none
      | .conflict => raise i db (.checkin u today reward dup) (.http 400 dup)
      | .done tbl => some ({ db with draws := tbl }, ⟨.checkin u today reward dup, .checkinLookup⟩)
    | _, _ => raise i db (.checkin u today reward dup) awardFailed
  | .checkinLookup =>
    if ok then
      match ReadCommitted.select i u db.credit with
      | some c => some (db, ⟨.checkin u today reward dup, .checkinUpdate c⟩)
      | none => some (db, ⟨.checkin u today reward dup, .checkinInsertCredit⟩)
    else raise i db (.checkin u today reward dup) awardFailed
  | .checkinInsertCredit =>
    match ok, toColumn cfg.defaultCredit with
    | true, some v =>
      match ReadCommitted.insert i u v db.credit with
      | .waits => none
      | .conflict => raise i db (.checkin u today reward dup) (.http 400 dup)
      | .done tbl =>
        some ({ db with credit := tbl },
          ⟨.checkin u today reward dup, .checkinUpdate cfg.defaultCredit⟩)
    | _, _ => raise i db (.checkin u today reward dup) awardFailed
  | .checkinUpdate current =>
    if ok then
      match ReadCommitted.update i u (fun _ => true) (fun _ => toColumn (current + reward))
          db.credit with
      | .waits => none
      | .fails => raise i db (.checkin u today reward dup) awardFailed
      | .rows _ tbl => some ({ db with credit := tbl }, ⟨.checkin u today reward dup, .checkinCommit⟩)
    else raise i db (.checkin u today reward dup) awardFailed
  | .checkinCommit =>
    if ok then some (db.commit i, ⟨.checkin u today reward dup, .returned⟩)
    else raise i db (.checkin u today reward dup) awardFailed
  | _ => none

/-- One statement of the request `i`; `ok = false` lets the database refuse it. -/
def next (cfg : Config) (i : Nat) (db : Db δ) (c : Call δ) (ok : Bool) : Option (Db δ × Call δ) :=
  match c.phase with
  | .init ph => nextInit cfg i db c.request ok ph
  | ph =>
    match c.request with
    | .addCredit u amount detail => nextAdd cfg i db u amount detail ok ph
    | .setCredit u credit detail => nextSet i db u credit detail ok ph
    | .resetAllCredits value => nextReset i db value ok ph
    | .checkin u today reward dup => nextCheckin cfg i db u today reward dup ok ph

def Phase.finished : Phase → Bool
  | .addReturned _ => true
  | .returned => true
  | .raised _ => true
  | _ => false

structure Db.AtRest (db : Db δ) : Prop where
  credit_keys : UniqueKeys db.credit
  draws_keys : UniqueKeys db.draws
  credit_free : ∀ u, pendingAt db.credit u = none
  draws_free : ∀ k, pendingAt db.draws k = none

structure Started (c : Conf (Db δ) (Call δ)) : Prop where
  atRest : c.shared.AtRest
  log : ∀ row ∈ c.shared.log, c.procs.length ≤ row.id
  phase : ∀ call ∈ c.procs, call.phase = call.request.start

/-- The statements with their effects: the ways in which `next` succeeds. -/
inductive Trans (cfg : Config) (i : Nat) (db : Db δ) : Call δ → Db δ → Call δ → Prop
  | found {req : Request δ} {ph : InitPhase} : ph = .lookup ∨ ph = .refresh ∨ ph = .relookup →
      Trans cfg i db ⟨req, .init ph⟩ db ⟨req, req.afterInit⟩
  | missing {req : Request δ} : Trans cfg i db ⟨req, .init .lookup⟩ db ⟨req, .init .insert⟩
  | retry {req : Request δ} {ph : InitPhase} : ph = .insert ∨ ph = .refresh →
      Trans cfg i db ⟨req, .init ph⟩ db ⟨req, .init .relookup⟩
  | inserted {req : Request δ} {v : ℚ} {tbl : Table String ℚ} : toColumn cfg.defaultCredit = some v →
      ReadCommitted.insert i req.userId v db.credit = .done tbl →
      Trans cfg i db ⟨req, .init .insert⟩ { db with credit := tbl } ⟨req, .init .insertCommit⟩
  | insertCommitted {req : Request δ} :
      Trans cfg i db ⟨req, .init .insertCommit⟩ (db.commit i) ⟨req, .init .refresh⟩
  | insertAborted {req : Request δ} :
      Trans cfg i db ⟨req, .init .insertCommit⟩ (db.rollback i) ⟨req, .init .relookup⟩
  | added {u : String} {amount : ℚ} {detail : δ} {c produced : ℚ} :
      ReadCommitted.select i u db.credit = some c → (amount < 0 → -amount ≤ c) →
      toColumn (c + amount) = some produced →
      (∀ owner w, pendingAt db.credit u = some (owner, w) → owner = i) →
      Trans cfg i db ⟨.addCredit u amount detail, .addUpdate⟩
        { db with credit := ReadCommitted.write i u produced db.credit }
        ⟨.addCredit u amount detail, .addSelect produced⟩
  | refused {u : String} {amount : ℚ} {detail : δ} :
      Trans cfg i db ⟨.addCredit u amount detail, .addUpdate⟩ (db.rollback i)
        ⟨.addCredit u amount detail, .raised (.http 403 cfg.noCreditMsg)⟩
  | addRead {u : String} {amount : ℚ} {detail : δ} {produced b : ℚ} :
      ReadCommitted.select i u db.credit = some b →
      Trans cfg i db ⟨.addCredit u amount detail, .addSelect produced⟩ db
        ⟨.addCredit u amount detail, .addCommit produced b⟩
  | addCommitted {u : String} {amount : ℚ} {detail : δ} {produced b : ℚ} :
      Trans cfg i db ⟨.addCredit u amount detail, .addCommit produced b⟩
        { db.commit i with log := db.log ++ [⟨i, u, b, detail⟩] }
        ⟨.addCredit u amount detail, .addReturn produced⟩
  | addReturned {u : String} {amount : ℚ} {detail : δ} {produced : ℚ} :
      Trans cfg i db ⟨.addCredit u amount detail, .addReturn produced⟩ db
        ⟨.addCredit u amount detail, .addReturned produced⟩
  | setWritten {u : String} {credit : ℚ} {detail : δ} {v : ℚ} : toColumn credit = some v →
      (∀ owner w, pendingAt db.credit u = some (owner, w) → owner = i) →
      Trans cfg i db ⟨.setCredit u credit detail, .setUpdate⟩
        { db with credit := ReadCommitted.write i u v db.credit } ⟨.setCredit u credit detail, .setCommit⟩
  | setMissed {u : String} {credit : ℚ} {detail : δ} :
      Trans cfg i db ⟨.setCredit u credit detail, .setUpdate⟩ db ⟨.setCredit u credit detail, .setCommit⟩
  | setCommitted {u : String} {credit : ℚ} {detail : δ} {v : ℚ} : toColumn credit = some v →
      Trans cfg i db ⟨.setCredit u credit detail, .setCommit⟩
        { db.commit i with log := db.log ++ [⟨i, u, v, detail⟩] } ⟨.setCredit u credit detail, .setReturn⟩
  | setReturned {u : String} {credit : ℚ} {detail : δ} :
      Trans cfg i db ⟨.setCredit u credit detail, .setReturn⟩ db ⟨.setCredit u credit detail, .returned⟩
  | resetWritten {value v : ℚ} {n : Nat} {tbl : Table String ℚ} : toColumn value = some v →
      ReadCommitted.updateAll i v db.credit = .rows n tbl →
      Trans cfg i db ⟨.resetAllCredits value, .resetUpdate⟩ { db with credit := tbl }
        ⟨.resetAllCredits value, .resetCommit n⟩
  | resetCommitted {value : ℚ} {n : Nat} :
      Trans cfg i db ⟨.resetAllCredits value, .resetCommit n⟩ (db.commit i)
        ⟨.resetAllCredits value, .returned⟩
  | recorded {u today : String} {reward r : ℚ} {dup : String}
      {tbl : Table (String × String) CheckinRecord} : toColumn reward = some r →
      ReadCommitted.insert i (u, today) ⟨i, r⟩ db.draws = .done tbl →
      Trans cfg i db ⟨.checkin u today reward dup, .checkinInsert⟩ { db with draws := tbl }
        ⟨.checkin u today reward dup, .checkinLookup⟩
  | creditFound {u today : String} {reward c : ℚ} {dup : String} :
      ReadCommitted.select i u db.credit = some c →
      Trans cfg i db ⟨.checkin u today reward dup, .checkinLookup⟩ db
        ⟨.checkin u today reward dup, .checkinUpdate c⟩
  | creditMissing {u today : String} {reward : ℚ} {dup : String} :
      Trans cfg i db ⟨.checkin u today reward dup, .checkinLookup⟩ db
        ⟨.checkin u today reward dup, .checkinInsertCredit⟩
  | creditInserted {u today : String} {reward v : ℚ} {dup : String} {tbl : Table String ℚ} :
      toColumn cfg.defaultCredit = some v → ReadCommitted.insert i u v db.credit = .done tbl →
      Trans cfg i db ⟨.checkin u today reward dup, .checkinInsertCredit⟩ { db with credit := tbl }
        ⟨.checkin u today reward dup, .checkinUpdate cfg.defaultCredit⟩
  | awarded {u today : String} {reward current c v : ℚ} {dup : String} :
      ReadCommitted.select i u db.credit = some c → toColumn (current + reward) = some v →
      (∀ owner w, pendingAt db.credit u = some (owner, w) → owner = i) →
      Trans cfg i db ⟨.checkin u today reward dup, .checkinUpdate current⟩
        { db with credit := ReadCommitted.write i u v db.credit } ⟨.checkin u today reward dup, .checkinCommit⟩
  | awardMissed {u today : String} {reward current : ℚ} {dup : String} :
      ReadCommitted.select i u db.credit = none →
      Trans cfg i db ⟨.checkin u today reward dup, .checkinUpdate current⟩ db
        ⟨.checkin u today reward dup, .checkinCommit⟩
  | awardCommitted {u today : String} {reward : ℚ} {dup : String} :
      Trans cfg i db ⟨.checkin u today reward dup, .checkinCommit⟩ (db.commit i)
        ⟨.checkin u today reward dup, .returned⟩
  | failed {req : Request δ} {ph : Phase} {e : Failure} : ph.finished = false →
      ph ≠ .init .insertCommit → (∀ p, ph ≠ .addReturn p) → (∀ msg, e ≠ .http 403 msg) →
      Trans cfg i db ⟨req, ph⟩ (db.rollback i) ⟨req, .raised e⟩

variable {cfg : Config} {i : Nat} {db db' : Db δ} {c' : Call δ} {ph : Phase} {u : String}

theorem trans_of_raise (hf : ph.finished = false)
    (hi : ph ≠ .init .insertCommit) (hr : ∀ p, ph ≠ .addReturn p) (he : ∀ msg, e ≠ .http 403 msg)
    (h : raise i db req e = some (db', c')) : Trans cfg i db ⟨req, ph⟩ db' c' := by
  simp only [raise] at h
  cases h
  exact .failed hf hi hr he

theorem trans_of_nextInit (ok : Bool) {ph : InitPhase} (h : nextInit cfg i db req ok ph = some (db', c')) :
    Trans cfg i db ⟨req, .init ph⟩ db' c' := by
  cases ph with
  | lookup =>
    simp only [nextInit] at h
    split at h
    · cases h
      exact .found (Or.inl rfl)
    · cases h
      exact .missing
  | insert =>
    simp only [nextInit] at h
    split at h
    · rename_i v hv
      split at h
      · cases h
      · cases h
        exact .retry (Or.inl rfl)
      · rename_i tbl ht
        cases h
        exact .inserted hv ht
    · cases h
      exact .retry (Or.inl rfl)
  | insertCommit =>
    simp only [nextInit] at h
    split at h
    · cases h
      exact .insertCommitted
    · cases h
      exact .insertAborted
  | refresh =>
    simp only [nextInit] at h
    split at h
    · cases h
      exact .found (Or.inr (Or.inl rfl))
    · cases h
      exact .retry (Or.inr rfl)
  | relookup =>
    simp only [nextInit] at h
    split at h
    · cases h
      exact .found (Or.inr (Or.inr rfl))
    · exact trans_of_raise rfl (by simp) (by simp) (by simp) h

theorem trans_of_nextAdd (ok : Bool) (h : nextAdd cfg i db u amount detail ok ph = some (db', c')) :
    Trans cfg i db ⟨.addCredit u amount detail, ph⟩ db' c' := by
  cases ph with
  | addUpdate =>
    simp only [nextAdd] at h
    split at h
    · split at h
      · cases h
      · exact trans_of_raise rfl (by simp) (by simp) (by simp) h
      · rename_i n tbl hu
        rcases ReadCommitted.update_rows hu with ⟨rfl, rfl, -⟩ | ⟨c, v, rfl, hs, hc, hv, hfree, rfl⟩
        · simp only [Nat.zero_ne_one, if_false, raise] at h
          cases h
          exact .refused
        · simp only [if_true, hs, Option.bind_some, hv] at h
          cases h
          exact .added hs (of_decide_eq_true hc) hv hfree
    · exact trans_of_raise rfl (by simp) (by simp) (by simp) h
  | addSelect produced =>
    simp only [nextAdd] at h
    split at h
    · rename_i b hb
      cases h
      exact .addRead hb
    · exact trans_of_raise rfl (by simp) (by simp) (by simp) h
  | addCommit produced b =>
    simp only [nextAdd] at h
    split at h
    · cases h
      exact .addCommitted
    · exact trans_of_raise rfl (by simp) (by simp) (by simp) h
  | addReturn produced =>
    simp only [nextAdd] at h
    cases h
    exact .addReturned
  | _ => simp [nextAdd] at h

theorem trans_of_nextSet (ok : Bool) (h : nextSet i db u credit detail ok ph = some (db', c')) :
    Trans cfg i db ⟨.setCredit u credit detail, ph⟩ db' c' := by
  cases ph with
  | setUpdate =>
    simp only [nextSet] at h
    split at h
    · split at h
      · cases h
      · exact trans_of_raise rfl (by simp) (by simp) (by simp) h
      · rename_i n tbl hu
        rcases ReadCommitted.update_rows hu with ⟨-, rfl, -⟩ | ⟨c, v, -, -, -, hv, hfree, rfl⟩
        · cases h
          exact .setMissed
        · cases h
          exact .setWritten hv hfree
    · exact trans_of_raise rfl (by simp) (by simp) (by simp) h
  | setCommit =>
    simp only [nextSet] at h
    split at h
    · rename_i v hv
      cases h
      exact .setCommitted hv
    · exact trans_of_raise rfl (by simp) (by simp) (by simp) h
  | setReturn =>
    simp only [nextSet] at h
    cases h
    exact .setReturned
  | _ => simp [nextSet] at h

theorem trans_of_nextReset (ok : Bool) (h : nextReset i db value ok ph = some (db', c')) :
    Trans cfg i db ⟨.resetAllCredits value, ph⟩ db' c' := by
  cases ph with
  | resetUpdate =>
    simp only [nextReset] at h
    split at h
    · rename_i v hv
      split at h
      · cases h
      · exact trans_of_raise rfl (by simp) (by simp) (by simp) h
      · rename_i n tbl hu
        cases h
        exact .resetWritten hv hu
    · exact trans_of_raise rfl (by simp) (by simp) (by simp) h
  | resetCommit n =>
    simp only [nextReset] at h
    split at h
    · cases h
      exact .resetCommitted
    · exact trans_of_raise rfl (by simp) (by simp) (by simp) h
  | _ => simp [nextReset] at h

theorem trans_of_nextCheckin (ok : Bool) (hdup : ph ≠ .init .insertCommit)
    (h : nextCheckin cfg i db u today reward dup ok ph = some (db', c')) :
    Trans cfg i db ⟨.checkin u today reward dup, ph⟩ db' c' := by
  cases ph with
  | checkinInsert =>
    simp only [nextCheckin] at h
    split at h
    · rename_i r hr
      split at h
      · cases h
      · exact trans_of_raise rfl hdup (by simp) (by simp) h
      · rename_i tbl ht
        cases h
        exact .recorded hr ht
    · exact trans_of_raise rfl hdup (by simp) (by simp [awardFailed]) h
  | checkinLookup =>
    simp only [nextCheckin] at h
    split at h
    · split at h
      · rename_i c hc
        cases h
        exact .creditFound hc
      · cases h
        exact .creditMissing
    · exact trans_of_raise rfl hdup (by simp) (by simp [awardFailed]) h
  | checkinInsertCredit =>
    simp only [nextCheckin] at h
    split at h
    · rename_i v hv
      split at h
      · cases h
      · exact trans_of_raise rfl hdup (by simp) (by simp) h
      · rename_i tbl ht
        cases h
        exact .creditInserted hv ht
    · exact trans_of_raise rfl hdup (by simp) (by simp [awardFailed]) h
  | checkinUpdate current =>
    simp only [nextCheckin] at h
    split at h
    · split at h
      · cases h
      · exact trans_of_raise rfl hdup (by simp) (by simp [awardFailed]) h
      · rename_i n tbl hu
        rcases ReadCommitted.update_rows hu with ⟨-, rfl, hno⟩ | ⟨c, v, -, hs, -, hv, hfree, rfl⟩
        · cases h
          refine .awardMissed ?_
          cases hsel : ReadCommitted.select i u db.credit with
          | none => rfl
          | some c => simpa using hno c hsel
        · cases h
          exact .awarded hs hv hfree
    · exact trans_of_raise rfl hdup (by simp) (by simp [awardFailed]) h
  | checkinCommit =>
    simp only [nextCheckin] at h
    split at h
    · cases h
      exact .awardCommitted
    · exact trans_of_raise rfl hdup (by simp) (by simp [awardFailed]) h
  | _ => simp [nextCheckin] at h

theorem trans_of_next (h : next cfg i db c ok = some (db', c')) : Trans cfg i db c db' c' := by
  obtain ⟨req, ph⟩ := c
  cases ph with
  | init p => exact trans_of_nextInit ok h
  | _ =>
    cases req with
    | addCredit u amount detail => exact trans_of_nextAdd ok h
    | setCredit u credit detail => exact trans_of_nextSet ok h
    | resetAllCredits value => exact trans_of_nextReset ok h
    | checkin u today reward dup => exact trans_of_nextCheckin ok (by simp) h

end RyanAI.Credit.Ledger
