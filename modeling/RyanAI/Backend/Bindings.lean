import RyanAI.Lib.Interleaving
import RyanAI.Lib.ReadCommitted
import RyanAI.Gateway.Event

/-!
# Binding codes

How `models/bot_gateway.py` binds external identities to accounts: `bind_with_code`, `ensure_owner_binding`,
`block_binding`, `unblock_binding` and `unbind`. Each call is a transaction of SQL statements under READ COMMITTED, and
a run interleaves the calls statement by statement. On PostgreSQL `bind_with_code` locks the rows it reads. The database
may refuse any statement; a call that raises is rolled back. `Trans` lists what one statement can do (`trans_of_next`).
-/

namespace RyanAI.Backend.Bindings

open RyanAI.Lib
open RyanAI.Lib.Interleaving
open RyanAI.Lib.ReadCommitted (Table Row UniqueKeys HoldsNone HoldsOnly Untouched committedAt pendingAt)
open RyanAI.Gateway (Channel)

/-- A row of `bot_gateway_binding` besides its unique identity. -/
structure Binding where
  id : String
  userId : String
  displayName : Option String
  enabled : Bool
  blocked : Bool
  blockedAt : Option ℕ
  blockedBy : Option String
  unbindRequestedAt : Option ℕ
  lastSeenAt : Option ℕ
  createdAt : ℕ
  updatedAt : ℕ
  deriving DecidableEq

/-- A row of `bot_gateway_binding_code` besides its unique `code_hash`. -/
structure Code where
  id : String
  userId : String
  channel : Option Channel
  expiresAt : ℕ
  consumedAt : Option ℕ
  consumedByBindingId : Option String
  deriving DecidableEq

/-- The identity of a binding: `connection_id` and `external_user_id`. -/
abbrev Identity := String × String

/-- The three tables, `none` for a deleted conversation. `bound` records the calls of `bind_with_code`
that have committed with their codes. -/
structure Db where
  bindings : Table Identity Binding
  conversations : Table String (Option String)
  codes : Table String Code
  bound : List (String × ℕ)

def Db.commit (i : ℕ) (db : Db) : Db :=
  { db with
    bindings := ReadCommitted.commit i db.bindings
    conversations := ReadCommitted.commit i db.conversations
    codes := ReadCommitted.commit i db.codes }

def Db.rollback (i : ℕ) (db : Db) : Db :=
  { db with
    bindings := ReadCommitted.rollback i db.bindings
    conversations := ReadCommitted.rollback i db.conversations
    codes := ReadCommitted.rollback i db.codes }

/-- `SELECT … FOR UPDATE`: the lock is an uncommitted version with the old value; `none` waits. -/
def selectForUpdate {κ α : Type} [DecidableEq κ] (postgres : Bool) (i : ℕ) (k : κ) (tbl : Table κ α) :
    Option (Option α × Table κ α) :=
  if postgres then
    match ReadCommitted.update i k (fun _ => true) some tbl with
    | .waits => none
    | .fails => none
    | .rows _ tbl' => some (ReadCommitted.select i k tbl, tbl')
  else some (ReadCommitted.select i k tbl, tbl)

/-- The identity of the binding with an id, as call `i` sees it. -/
def identityOf (i : ℕ) (id : String) (tbl : Table Identity Binding) : Option Identity :=
  (tbl.find? fun r => (r.visible i).any fun b => b.id = id).map Row.key

/-- `UPDATE … WHERE id = …`. -/
def updateById (i : ℕ) (id : String) (cond : Binding → Bool) (set : Binding → Binding)
    (tbl : Table Identity Binding) : ReadCommitted.Update Identity Binding :=
  match identityOf i id tbl with
  | none => .rows 0 tbl
  | some k => ReadCommitted.update i k (fun b => b.id = id ∧ cond b) (fun b => some (set b)) tbl

def idTaken (id : String) (tbl : Table Identity Binding) : Bool :=
  tbl.any fun r => r.committed.any (fun b => b.id = id) || r.pending.any fun p => p.2.id = id

/-- `INSERT` with the primary key and the unique identity checked. -/
def insertBinding (i : ℕ) (k : Identity) (b : Binding) (tbl : Table Identity Binding) :
    ReadCommitted.Insert Identity Binding :=
  if idTaken b.id tbl then .conflict else ReadCommitted.insert i k b tbl

/-- `DELETE FROM bot_gateway_conversation WHERE binding_id = …`. -/
def deleteConversations (i : ℕ) (bindingId : String) (tbl : Table String (Option String)) :
    ReadCommitted.Update String (Option String) :=
  ReadCommitted.updateWhere i (fun c => c = some bindingId) (fun _ => none) tbl

/-! ## Calls -/

/-- A `BotGatewayBindingError`, or the driver's error. -/
inductive BindingError where
  | invalidOrExpiredCode
  | channelMismatch
  | userUnavailable
  | identityBlocked
  | identityAlreadyBound
  | database
  deriving DecidableEq

/-- The code of a `BotGatewayBindingError`. -/
def BindingError.code : BindingError → Option String
  | .invalidOrExpiredCode => some "invalid_or_expired_code"
  | .channelMismatch => some "channel_mismatch"
  | .userUnavailable => some "user_unavailable"
  | .identityBlocked => some "identity_blocked"
  | .identityAlreadyBound => some "identity_already_bound"
  | .database => none

/-- A connection as `ensure_owner_binding` reads it. -/
structure Connection where
  ownerUserId : Option String
  trustedExternalUserId : String

/-- Whether the database executes a statement, the clock, a `uuid4()`, and what is read of other
tables. -/
structure Choice where
  ok : Bool
  now : ℕ
  uuid : String
  role : Option String
  connection : Option Connection

/-- The arguments of `bind_with_code`. -/
structure BindArgs where
  connectionId : String
  channel : Channel
  externalUserId : String
  displayName : Option String
  codeHash : String

/-- The next statement of `bind_with_code`, with its local variables. -/
inductive BindPhase where
  | selectCode
  | getUser (now : ℕ) (code : Code)
  | selectBinding (now : ℕ) (code : Code)
  | insert (now : ℕ) (code : Code)
  | rebind (now : ℕ) (code : Code) (bindingId : String)
  | deleteConversations (now : ℕ) (code : Code) (bindingId : String)
  | consume (now : ℕ) (code : Code) (bindingId : String) (isNew : Bool)
  | commit (bindingId : String) (isNew : Bool)
  | refresh (bindingId : String) (isNew : Bool)
  | bound (bindingId : String) (isNew : Bool)
  | raised (error : BindingError)

/-- The arguments of `ensure_owner_binding`. -/
structure OwnerArgs where
  connectionId : String
  externalUserId : String
  displayName : Option String

inductive OwnerPhase where
  | selectConnection
  | selectBinding (owner : String)
  | selectActive (owner : String) (now : ℕ)
  | insert (owner : String) (now : ℕ)
  | touch (bindingId : String) (now : ℕ)
  | commit (bindingId : String)
  | refresh (bindingId : String)
  | returned (bindingId : Option String)
  | raised

/-- The statements of `block_binding` and `unblock_binding`. -/
inductive AdminPhase where
  | update
  | delete
  | commit (result : Bool)
  | returned (result : Bool)
  | raised

inductive UnbindPhase where
  | get
  | update (item : Binding) (now : ℕ)
  | delete
  | commit
  | returned (result : Bool)
  | raised

inductive Call where
  | bind (args : BindArgs) (phase : BindPhase)
  | owner (args : OwnerArgs) (phase : OwnerPhase)
  | block (bindingId blockedBy : String) (phase : AdminPhase)
  | unblock (bindingId : String) (phase : AdminPhase)
  | unbind (bindingId : String) (userId : Option String) (requireConfirmation : Bool) (phase : UnbindPhase)

def BindArgs.identity (a : BindArgs) : Identity := (a.connectionId, a.externalUserId)

def OwnerArgs.identity (a : OwnerArgs) : Identity := (a.connectionId, a.externalUserId)

/-! ## One statement -/

/-- The row that `bind_with_code` inserts. -/
def BindArgs.newBinding (a : BindArgs) (id : String) (code : Code) (now : ℕ) : Binding where
  id := id
  userId := code.userId
  displayName := a.displayName
  enabled := true
  blocked := false
  blockedAt := none
  blockedBy := none
  unbindRequestedAt := none
  lastSeenAt := some now
  createdAt := now
  updatedAt := now

/-- The row that `bind_with_code` makes of an old one. -/
def BindArgs.rebound (a : BindArgs) (code : Code) (now : ℕ) (b : Binding) : Binding :=
  { b with
    userId := code.userId
    displayName := a.displayName
    enabled := true
    unbindRequestedAt := none
    lastSeenAt := some now
    updatedAt := now }

/-- The `WHERE` clause of the statement that consumes a code. -/
def consumable (code : Code) (now : ℕ) (c : Code) : Bool := c.id = code.id ∧ c.consumedAt = none ∧ now < c.expiresAt

def consumed (bindingId : String) (now : ℕ) (c : Code) : Code :=
  { c with consumedAt := some now, consumedByBindingId := some bindingId }

/-- The checks of `bind_with_code` on the code it has read. -/
def checkCode (a : BindArgs) (now : ℕ) : Option Code → Except BindingError Code
  | none => .error .invalidOrExpiredCode
  | some code =>
    if code.consumedAt ≠ none ∨ code.expiresAt ≤ now then .error .invalidOrExpiredCode
    else if code.channel ≠ none ∧ code.channel ≠ some a.channel then .error .channelMismatch
    else .ok code

/-- The checks of `bind_with_code` on the binding, and the next statement. -/
def checkBinding (now : ℕ) (code : Code) : Option Binding → BindPhase
  | none => .insert now code
  | some b =>
    if b.blocked then .raised .identityBlocked
    else if b.enabled ∧ b.userId ≠ code.userId then .raised .identityAlreadyBound
    else .rebind now code b.id

def raise (i : ℕ) (db : Db) (e : BindingError) : Option (Db × BindPhase) := some (db.rollback i, .raised e)

/-- One statement of `bind_with_code`. -/
def nextBind (postgres : Bool) (i : ℕ) (db : Db) (a : BindArgs) (k : Choice) : BindPhase → Option (Db × BindPhase)
  | .selectCode => do
    let (code, codes) ← selectForUpdate postgres i a.codeHash db.codes
    if k.ok then
      match checkCode a k.now code with
      | .error e => raise i db e
      | .ok code => some ({ db with codes }, .getUser k.now code)
    else raise i db .database
  | .getUser now code =>
    if k.ok then
      if k.role = some "user" ∨ k.role = some "admin" then some (db, .selectBinding now code)
      else raise i db .userUnavailable
    else raise i db .database
  | .selectBinding now code => do
    let (binding, bindings) ← selectForUpdate postgres i a.identity db.bindings
    if k.ok then
      match checkBinding now code binding with
      | .raised e => raise i db e
      | phase => some ({ db with bindings }, phase)
    else raise i db .database
  | .insert now code =>
    if k.ok then
      match insertBinding i a.identity (a.newBinding k.uuid code now) db.bindings with
      | .waits => none
      | .conflict => raise i db .database
      | .done bindings => some ({ db with bindings }, .consume now code k.uuid true)
    else raise i db .database
  | .rebind now code bindingId =>
    if k.ok then
      match updateById i bindingId (fun b => !b.blocked) (a.rebound code now) db.bindings with
      | .waits => none
      | .fails => raise i db .database
      | .rows n bindings =>
        if n = 1 then some ({ db with bindings }, .deleteConversations now code bindingId)
        else raise i db .identityBlocked
    else raise i db .database
  | .deleteConversations now code bindingId =>
    if k.ok then
      match deleteConversations i bindingId db.conversations with
      | .waits => none
      | .fails => raise i db .database
      | .rows _ conversations => some ({ db with conversations }, .consume now code bindingId false)
    else raise i db .database
  | .consume now code bindingId isNew =>
    if k.ok then
      match ReadCommitted.update i a.codeHash (consumable code now) (fun c => some (consumed bindingId now c))
          db.codes with
      | .waits => none
      | .fails => raise i db .database
      | .rows n codes =>
        if n = 1 then some ({ db with codes }, .commit bindingId isNew)
        else raise i db .invalidOrExpiredCode
    else raise i db .database
  | .commit bindingId isNew =>
    if k.ok then
      some ({ db.commit i with bound := db.bound ++ [(a.codeHash, i)] }, .refresh bindingId isNew)
    else raise i db .database
  -- the row is read again in a new transaction; a failure here undoes nothing
  | .refresh bindingId isNew =>
    if k.ok then some (db, .bound bindingId isNew) else raise i db .database
  | .bound _ _ => none
  | .raised _ => none

/-- Some binding of the connection is active, as call `i` sees it. -/
def hasActive (i : ℕ) (connectionId : String) (tbl : Table Identity Binding) : Bool :=
  tbl.any fun r => r.key.1 = connectionId ∧ (r.visible i).any fun b => b.enabled ∧ ¬ b.blocked

/-- The row that `ensure_owner_binding` inserts. -/
def OwnerArgs.newBinding (a : OwnerArgs) (id owner : String) (now : ℕ) : Binding where
  id := id
  userId := owner
  displayName := a.displayName
  enabled := true
  blocked := false
  blockedAt := none
  blockedBy := none
  unbindRequestedAt := none
  lastSeenAt := none
  createdAt := now
  updatedAt := now

/-- The columns that `ensure_owner_binding` writes to a binding that exists. -/
def OwnerArgs.touched (a : OwnerArgs) (now : ℕ) (b : Binding) : Binding :=
  { b with
    updatedAt := now
    displayName := if (a.displayName.getD "") = "" then b.displayName else a.displayName }

def trustedOwner (a : OwnerArgs) (connection : Option Connection) : Option String :=
  match connection with
  | none => none
  | some c =>
    if c.trustedExternalUserId ≠ "" ∧ c.trustedExternalUserId = a.externalUserId then
      c.ownerUserId.filter fun owner => owner ≠ ""
    else none

/-- One statement of `ensure_owner_binding`. -/
def nextOwner (i : ℕ) (db : Db) (a : OwnerArgs) (k : Choice) : OwnerPhase → Option (Db × OwnerPhase)
  | .selectConnection =>
    if k.ok then
      match trustedOwner a k.connection with
      | none => some (db.rollback i, .returned none)
      | some owner => some (db, .selectBinding owner)
    else some (db.rollback i, .raised)
  | .selectBinding owner =>
    if k.ok then
      match ReadCommitted.select i a.identity db.bindings with
      | none => some (db, .selectActive owner k.now)
      | some b =>
        if b.userId ≠ owner ∨ b.blocked ∨ ¬ b.enabled then some (db.rollback i, .returned none)
        else some (db, .touch b.id k.now)
    else some (db.rollback i, .raised)
  | .selectActive owner now =>
    if k.ok then
      if hasActive i a.connectionId db.bindings then some (db.rollback i, .returned none)
      else some (db, .insert owner now)
    else some (db.rollback i, .raised)
  | .insert owner now =>
    if k.ok then
      match insertBinding i a.identity (a.newBinding k.uuid owner now) db.bindings with
      | .waits => none
      | .conflict => some (db.rollback i, .raised)
      | .done bindings => some ({ db with bindings }, .commit k.uuid)
    else some (db.rollback i, .raised)
  | .touch bindingId now =>
    if k.ok then
      match updateById i bindingId (fun _ => true) (a.touched now) db.bindings with
      | .waits => none
      | .fails => some (db.rollback i, .raised)
      | .rows n bindings =>
        if n = 1 then some ({ db with bindings }, .commit bindingId) else some (db.rollback i, .raised)
    else some (db.rollback i, .raised)
  | .commit bindingId =>
    if k.ok then some (db.commit i, .refresh bindingId) else some (db.rollback i, .raised)
  | .refresh bindingId =>
    if k.ok then some (db, .returned (some bindingId)) else some (db.rollback i, .raised)
  | .returned _ => none
  | .raised => none

/-- The row that `block_binding` writes. -/
def blockedRow (blockedBy : String) (now : ℕ) (b : Binding) : Binding :=
  { b with
    enabled := false
    blocked := true
    blockedAt := some now
    blockedBy := some blockedBy
    unbindRequestedAt := none
    updatedAt := now }

/-- One statement of `block_binding`. -/
def nextBlock (i : ℕ) (db : Db) (bindingId blockedBy : String) (k : Choice) : AdminPhase → Option (Db × AdminPhase)
  | .update =>
    if k.ok then
      match updateById i bindingId (fun _ => true) (blockedRow blockedBy k.now) db.bindings with
      | .waits => none
      | .fails => some (db.rollback i, .raised)
      | .rows n bindings =>
        if n = 1 then some ({ db with bindings }, .delete) else some (db.rollback i, .returned false)
    else some (db.rollback i, .raised)
  | .delete =>
    if k.ok then
      match deleteConversations i bindingId db.conversations with
      | .waits => none
      | .fails => some (db.rollback i, .raised)
      | .rows _ conversations => some ({ db with conversations }, .commit true)
    else some (db.rollback i, .raised)
  | .commit result =>
    if k.ok then some (db.commit i, .returned result) else some (db.rollback i, .raised)
  | .returned _ => none
  | .raised => none

/-- The row that `unblock_binding` writes. -/
def unblockedRow (now : ℕ) (b : Binding) : Binding :=
  { b with enabled := false, blocked := false, blockedAt := none, blockedBy := none, updatedAt := now }

/-- One statement of `unblock_binding`. -/
def nextUnblock (i : ℕ) (db : Db) (bindingId : String) (k : Choice) : AdminPhase → Option (Db × AdminPhase)
  | .update =>
    if k.ok then
      match updateById i bindingId (fun b => b.blocked) (unblockedRow k.now) db.bindings with
      | .waits => none
      | .fails => some (db.rollback i, .raised)
      | .rows n bindings => some ({ db with bindings }, .commit (n = 1))
    else some (db.rollback i, .raised)
  | .delete => none
  | .commit result =>
    if k.ok then some (db.commit i, .returned result) else some (db.rollback i, .raised)
  | .returned _ => none
  | .raised => none

def unboundRow (item : Binding) (now : ℕ) (b : Binding) : Binding :=
  { b with
    enabled := if item.enabled then false else b.enabled
    unbindRequestedAt := if item.unbindRequestedAt.isSome then none else b.unbindRequestedAt
    updatedAt := now }

/-- The binding is the user's, and confirmed in the last five minutes if it has to be. -/
def mayUnbind (userId : Option String) (requireConfirmation : Bool) (now : ℕ) (item : Binding) : Bool :=
  (userId = none ∨ userId = some item.userId) ∧
    (requireConfirmation = true → ∃ requestedAt ∈ item.unbindRequestedAt, now ≤ requestedAt + 5 * 60)

/-- One statement of `unbind`. -/
def nextUnbind (i : ℕ) (db : Db) (bindingId : String) (userId : Option String) (requireConfirmation : Bool)
    (k : Choice) : UnbindPhase → Option (Db × UnbindPhase)
  | .get =>
    if k.ok then
      match (identityOf i bindingId db.bindings).bind fun key => ReadCommitted.select i key db.bindings with
      | none => some (db.rollback i, .returned false)
      | some item =>
        if mayUnbind userId requireConfirmation k.now item then some (db, .update item k.now)
        else some (db.rollback i, .returned false)
    else some (db.rollback i, .raised)
  | .update item now =>
    if k.ok then
      match updateById i bindingId (fun _ => true) (unboundRow item now) db.bindings with
      | .waits => none
      | .fails => some (db.rollback i, .raised)
      | .rows n bindings =>
        if n = 1 then some ({ db with bindings }, .delete) else some (db.rollback i, .raised)
    else some (db.rollback i, .raised)
  | .delete =>
    if k.ok then
      match deleteConversations i bindingId db.conversations with
      | .waits => none
      | .fails => some (db.rollback i, .raised)
      | .rows _ conversations => some ({ db with conversations }, .commit)
    else some (db.rollback i, .raised)
  | .commit => if k.ok then some (db.commit i, .returned true) else some (db.rollback i, .raised)
  | .returned _ => none
  | .raised => none

def next (postgres : Bool) (i : ℕ) (db : Db) : Call → Choice → Option (Db × Call)
  | .bind a phase, k => (nextBind postgres i db a k phase).map fun r => (r.1, .bind a r.2)
  | .owner a phase, k => (nextOwner i db a k phase).map fun r => (r.1, .owner a r.2)
  | .block id admin phase, k => (nextBlock i db id admin k phase).map fun r => (r.1, .block id admin r.2)
  | .unblock id phase, k => (nextUnblock i db id k phase).map fun r => (r.1, .unblock id r.2)
  | .unbind id user confirm phase, k =>
    (nextUnbind i db id user confirm k phase).map fun r => (r.1, .unbind id user confirm r.2)

/-! ## What a statement can do -/

def Call.code : Call → Option String
  | .bind a _ => some a.codeHash
  | _ => none

inductive Stage where
  | working
  | consumed (bindingId : String)
  | bound (bindingId : String)
  | ended

def BindPhase.stage : BindPhase → Stage
  | .commit bindingId _ => .consumed bindingId
  | .refresh bindingId _ => .bound bindingId
  | .bound bindingId _ => .bound bindingId
  | .raised _ => .ended
  | _ => .working

def OwnerPhase.stage : OwnerPhase → Stage
  | .refresh _ => .ended
  | .returned _ => .ended
  | .raised => .ended
  | _ => .working

def AdminPhase.stage : AdminPhase → Stage
  | .returned _ => .ended
  | .raised => .ended
  | _ => .working

def UnbindPhase.stage : UnbindPhase → Stage
  | .returned _ => .ended
  | .raised => .ended
  | _ => .working

def Call.stage : Call → Stage
  | .bind _ phase => phase.stage
  | .owner _ phase => phase.stage
  | .block _ _ phase => phase.stage
  | .unblock _ phase => phase.stage
  | .unbind _ _ _ phase => phase.stage

def Binding.Valid (b : Binding) : Prop := b.blocked = true → b.enabled = false

/-- No other call than `i` holds the row `k`. -/
def Free {κ α : Type} [DecidableEq κ] (i : ℕ) (k : κ) (tbl : Table κ α) : Prop :=
  ∀ owner w, pendingAt tbl k = some (owner, w) → owner = i

inductive Work (i : ℕ) (code : Option String) : Db → Db → Prop
  | read (db : Db) : Work i code db db
  | lockCode {db : Db} {h : String} {c : Code} : code = some h → ReadCommitted.select i h db.codes = some c →
      Free i h db.codes → Work i code db { db with codes := ReadCommitted.write i h c db.codes }
  | write {db : Db} {k : Identity} {b b' : Binding} : ReadCommitted.select i k db.bindings = some b →
      Free i k db.bindings → (b.Valid → b'.Valid) →
      Work i code db { db with bindings := ReadCommitted.write i k b' db.bindings }
  | insert {db : Db} {k : Identity} {b : Binding} {bindings : Table Identity Binding} : b.Valid →
      ReadCommitted.insert i k b db.bindings = .done bindings → Work i code db { db with bindings }
  | delete {db : Db} {bindingId : String} {n : ℕ} {conversations : Table String (Option String)} :
      deleteConversations i bindingId db.conversations = .rows n conversations →
      Work i code db { db with conversations }

inductive Trans (i : ℕ) (code : Option String) : Db → Stage → Db → Stage → Prop
  | work {db db' : Db} : Work i code db db' → Trans i code db .working db' .working
  | consume {db : Db} {h bindingId : String} {now : ℕ} {c : Code} : code = some h →
      ReadCommitted.select i h db.codes = some c → c.consumedAt = none → Free i h db.codes →
      Trans i code db .working
        { db with codes := ReadCommitted.write i h (consumed bindingId now c) db.codes } (.consumed bindingId)
  | commitBound {db : Db} {h bindingId : String} : code = some h →
      Trans i code db (.consumed bindingId) { db.commit i with bound := db.bound ++ [(h, i)] } (.bound bindingId)
  | commit {db : Db} : code = none → Trans i code db .working (db.commit i) .ended
  | read (db : Db) (stage : Stage) : Trans i code db stage db stage
  | rollback {db : Db} {stage : Stage} : Trans i code db stage (db.rollback i) .ended

variable {i n : ℕ} {postgres : Bool} {id : String} {db db' : Db} {bindings : Table Identity Binding} {k : Choice}

/-- `FOR UPDATE` reads a row and may lock it. -/
theorem selectForUpdate_cases {κ α : Type} [DecidableEq κ] {k : κ} {tbl tbl' : Table κ α} {v : Option α}
    (h : selectForUpdate postgres i k tbl = some (v, tbl')) :
    v = ReadCommitted.select i k tbl ∧
      (tbl' = tbl ∨ ∃ w, v = some w ∧ Free i k tbl ∧ tbl' = ReadCommitted.write i k w tbl) := by
  unfold selectForUpdate at h
  split_ifs at h
  · split at h
    · cases h
    · cases h
    next n tbl'' hupdate =>
      cases h
      refine ⟨rfl, ?_⟩
      rcases ReadCommitted.update_rows hupdate with ⟨-, htbl, -⟩ | ⟨w, w', -, hselect, -, hw, hfree, htbl⟩
      · exact .inl htbl
      · cases hw
        exact .inr ⟨w, hselect, hfree, htbl⟩
  · cases h
    exact ⟨rfl, .inl rfl⟩

theorem updateById_rows {cond : Binding → Bool} {set : Binding → Binding}
    (h : updateById i id cond set tbl = .rows n tbl') :
    tbl' = tbl ∨ ∃ k b, ReadCommitted.select i k tbl = some b ∧ cond b = true ∧ Free i k tbl ∧
      tbl' = ReadCommitted.write i k (set b) tbl := by
  unfold updateById at h
  split at h
  · cases h
    exact .inl rfl
  next k hk =>
    rcases ReadCommitted.update_rows h with ⟨-, htbl, -⟩ | ⟨b, b', -, hselect, hcond, hset, hfree, htbl⟩
    · exact .inl htbl
    · cases hset
      simp only [decide_eq_true_eq] at hcond
      exact .inr ⟨k, b, hselect, hcond.2, hfree, htbl⟩

theorem work_of_updateById {cond : Binding → Bool} {set : Binding → Binding}
    (hvalid : ∀ b, cond b = true → b.Valid → (set b).Valid)
    (h : updateById i id cond set db.bindings = .rows n bindings) : Work i code db { db with bindings } := by
  rcases updateById_rows h with rfl | ⟨k, b, hselect, hcond, hfree, rfl⟩
  · exact .read db
  · exact .write hselect hfree (hvalid b hcond)

theorem work_of_insertBinding {k : Identity} {b : Binding} (hvalid : b.Valid)
    (h : insertBinding i k b db.bindings = .done bindings) : Work i code db { db with bindings } := by
  unfold insertBinding at h
  split_ifs at h
  exact .insert hvalid h

theorem trans_of_raise (h : raise i db e = some (db', phase)) : Trans i code db stage db' phase.stage := by
  cases h
  exact .rollback

theorem checkBinding_stage (h : ∀ e, checkBinding now code binding ≠ .raised e) :
    (checkBinding now code binding).stage = .working := by
  unfold checkBinding at h ⊢
  split
  · rfl
  · split_ifs with hblocked hother
    · simp [hblocked] at h
    · simp [hblocked, hother] at h
    · rfl

theorem work_of_selectCode {h : String} {code : Option Code} {codes : Table String Code}
    (hselect : selectForUpdate postgres i h db.codes = some (code, codes)) :
    Work i (some h) db { db with codes } := by
  obtain ⟨hcode, hcodes⟩ := selectForUpdate_cases hselect
  rcases hcodes with rfl | ⟨c, hc, hfree, rfl⟩
  · exact .read db
  · exact .lockCode rfl (hcode.symm.trans hc) hfree

theorem work_of_selectBinding {code : Option String} {k : Identity} {binding : Option Binding}
    (hselect : selectForUpdate postgres i k db.bindings = some (binding, bindings)) :
    Work i code db { db with bindings } := by
  obtain ⟨hbinding, hbindings⟩ := selectForUpdate_cases hselect
  rcases hbindings with rfl | ⟨b, hb, hfree, rfl⟩
  · exact .read db
  · exact .write (hbinding.symm.trans hb) hfree id

theorem trans_of_consumeUpdate (hn : n = 1) (hupdate : ReadCommitted.update i h (consumable code now)
      (fun c => some (consumed bindingId now c)) db.codes = .rows n codes) :
    Trans i (some h) db .working { db with codes } (.consumed bindingId) := by
  rcases ReadCommitted.update_rows hupdate with ⟨hzero, -, -⟩ | ⟨c, c', -, hc, hcond, hset, hfree, rfl⟩
  · omega
  · cases hset
    simp only [consumable, decide_eq_true_eq] at hcond
    exact .consume rfl hc hcond.2.1 hfree

theorem trans_of_nextBind {a : BindArgs} {phase phase' : BindPhase}
    (h : nextBind postgres i db a k phase = some (db', phase')) :
    Trans i (some a.codeHash) db phase.stage db' phase'.stage := by
  cases phase with
  | selectCode =>
    obtain ⟨⟨code, codes⟩, hselect, h⟩ := Option.bind_eq_some_iff.mp h
    dsimp only at h
    split_ifs at h
    · split at h
      -- a code that fails its checks is not locked any more
      · exact trans_of_raise h
      · cases h
        exact .work (work_of_selectCode hselect)
    · exact trans_of_raise h
  | getUser now code =>
    simp only [nextBind] at h
    split_ifs at h
    · cases h
      exact .work (.read db)
    · exact trans_of_raise h
    · exact trans_of_raise h
  | selectBinding now code =>
    obtain ⟨⟨binding, bindings⟩, hselect, h⟩ := Option.bind_eq_some_iff.mp h
    dsimp only at h
    split_ifs at h
    · split at h
      · exact trans_of_raise h
      next hgo =>
        cases h
        -- whatever the binding is, the next statement is still part of the work
        rw [checkBinding_stage hgo]
        exact .work (work_of_selectBinding hselect)
    · exact trans_of_raise h
  | insert now code =>
    simp only [nextBind] at h
    split_ifs at h
    · split at h
      · cases h
      · exact trans_of_raise h
      next bindings hinsert =>
        cases h
        apply Trans.work
        apply work_of_insertBinding _ hinsert
        intro hblocked
        cases hblocked
    · exact trans_of_raise h
  | rebind now code bindingId =>
    simp only [nextBind] at h
    split_ifs at h
    · split at h
      · cases h
      · exact trans_of_raise h
      next n bindings hupdate =>
        split_ifs at h
        · cases h
          apply Trans.work
          apply work_of_updateById _ hupdate
          -- the row is enabled only because the statement has seen that it is not blocked
          intro b hcond _ hblocked
          have hblocked' : b.blocked = true := hblocked
          simp [hblocked'] at hcond
        · exact trans_of_raise h
    · exact trans_of_raise h
  | deleteConversations now code bindingId =>
    simp only [nextBind] at h
    split_ifs at h
    · split at h
      · cases h
      · exact trans_of_raise h
      next n conversations hdelete =>
        cases h
        exact .work (.delete hdelete)
    · exact trans_of_raise h
  | consume now code bindingId isNew =>
    simp only [nextBind] at h
    split_ifs at h
    · split at h
      · cases h
      · exact trans_of_raise h
      next n codes hupdate =>
        split_ifs at h with hn
        · cases h
          exact trans_of_consumeUpdate hn hupdate
        -- another call has consumed the code in between
        · exact trans_of_raise h
    · exact trans_of_raise h
  | commit bindingId isNew =>
    simp only [nextBind] at h
    split_ifs at h
    · cases h
      exact .commitBound rfl
    · exact trans_of_raise h
  | refresh bindingId isNew =>
    simp only [nextBind] at h
    split_ifs at h
    · cases h
      exact .read db _
    · exact trans_of_raise h
  | bound bindingId isNew => cases h
  | raised e => cases h

theorem trans_of_nextOwner
    (h : nextOwner i db a k phase = some (db', phase')) : Trans i none db phase.stage db' phase'.stage := by
  cases phase with
  | selectConnection =>
    simp only [nextOwner] at h
    split_ifs at h
    · split at h <;> cases h
      · exact .rollback
      · exact .work (.read db)
    · cases h
      exact .rollback
  | selectBinding owner =>
    simp only [nextOwner] at h
    split_ifs at h
    · split at h
      · cases h
        exact .work (.read db)
      · split_ifs at h <;> cases h
        · exact .rollback
        · exact .work (.read db)
    · cases h
      exact .rollback
  | selectActive owner now =>
    simp only [nextOwner] at h
    split_ifs at h <;> cases h
    · exact .rollback
    · exact .work (.read db)
    · exact .rollback
  | insert owner now =>
    simp only [nextOwner] at h
    split_ifs at h
    · split at h
      · cases h
      · cases h
        exact .rollback
      next bindings hinsert =>
        cases h
        apply Trans.work
        apply work_of_insertBinding _ hinsert
        intro hblocked
        cases hblocked
    · cases h
      exact .rollback
  | touch bindingId now =>
    simp only [nextOwner] at h
    split_ifs at h
    · split at h
      · cases h
      · cases h
        exact .rollback
      next n bindings hupdate =>
        split_ifs at h <;> cases h
        · apply Trans.work
          apply work_of_updateById _ hupdate
          intro b _ hvalid
          exact hvalid
        · exact .rollback
    · cases h
      exact .rollback
  | commit bindingId =>
    simp only [nextOwner] at h
    split_ifs at h <;> cases h
    · exact .commit rfl
    · exact .rollback
  | refresh bindingId =>
    simp only [nextOwner] at h
    split_ifs at h <;> cases h
    · exact .read db _
    · exact .rollback
  | returned result => cases h
  | raised => cases h

theorem trans_of_nextBlock (h : nextBlock i db id admin k phase = some (db', phase')) :
    Trans i none db phase.stage db' phase'.stage := by
  cases phase with
  | update =>
    simp only [nextBlock] at h
    split_ifs at h
    · split at h
      · cases h
      · cases h
        exact .rollback
      next n bindings hupdate =>
        split_ifs at h <;> cases h
        · exact .work (work_of_updateById (fun b _ _ _ => rfl) hupdate)
        · exact .rollback
    · cases h
      exact .rollback
  | delete =>
    simp only [nextBlock] at h
    split_ifs at h
    · split at h
      · cases h
      · cases h
        exact .rollback
      next n conversations hdelete =>
        cases h
        exact .work (.delete hdelete)
    · cases h
      exact .rollback
  | commit result =>
    simp only [nextBlock] at h
    split_ifs at h <;> cases h
    · exact .commit rfl
    · exact .rollback
  | returned result => cases h
  | raised => cases h

theorem trans_of_nextUnblock (h : nextUnblock i db id k phase = some (db', phase')) :
    Trans i none db phase.stage db' phase'.stage := by
  cases phase with
  | update =>
    simp only [nextUnblock] at h
    split_ifs at h
    · split at h
      · cases h
      · cases h
        exact .rollback
      next n bindings hupdate =>
        cases h
        exact .work (work_of_updateById (fun b _ _ _ => rfl) hupdate)
    · cases h
      exact .rollback
  | delete => cases h
  | commit result =>
    simp only [nextUnblock] at h
    split_ifs at h <;> cases h
    · exact .commit rfl
    · exact .rollback
  | returned result => cases h
  | raised => cases h

/-- `unbind` never enables a binding. -/
theorem Binding.Valid.unbound (h : b.Valid) (item : Binding) (now : ℕ) : (unboundRow item now b).Valid := by
  intro hblocked
  simp only [unboundRow]
  split
  · rfl
  · exact h hblocked

theorem trans_of_nextUnbind (h : nextUnbind i db id user confirm k phase = some (db', phase')) :
    Trans i none db phase.stage db' phase'.stage := by
  cases phase with
  | get =>
    simp only [nextUnbind] at h
    split_ifs at h
    · split at h
      · cases h
        exact .rollback
      · split_ifs at h <;> cases h
        · exact .work (.read db)
        · exact .rollback
    · cases h
      exact .rollback
  | update item now =>
    simp only [nextUnbind] at h
    split_ifs at h
    · split at h
      · cases h
      · cases h
        exact .rollback
      next n bindings hupdate =>
        split_ifs at h <;> cases h
        · exact .work (work_of_updateById (fun b _ hvalid => hvalid.unbound item now) hupdate)
        · exact .rollback
    · cases h
      exact .rollback
  | delete =>
    simp only [nextUnbind] at h
    split_ifs at h
    · split at h
      · cases h
      · cases h
        exact .rollback
      next n conversations hdelete =>
        cases h
        exact .work (.delete hdelete)
    · cases h
      exact .rollback
  | commit =>
    simp only [nextUnbind] at h
    split_ifs at h <;> cases h
    · exact .commit rfl
    · exact .rollback
  | returned result => cases h
  | raised => cases h

/-- Every statement of every call is one of `Trans`, and a call keeps its code. -/
theorem trans_of_next (h : next postgres i db call k = some (db', call')) :
    Trans i call.code db call.stage db' call'.stage ∧ call'.code = call.code := by
  cases call with
  | bind a phase =>
    obtain ⟨⟨db₁, phase₁⟩, hnext, heq⟩ := Option.map_eq_some_iff.mp h
    cases heq
    exact ⟨trans_of_nextBind hnext, rfl⟩
  | owner a phase =>
    obtain ⟨⟨db₁, phase₁⟩, hnext, heq⟩ := Option.map_eq_some_iff.mp h
    cases heq
    exact ⟨trans_of_nextOwner hnext, rfl⟩
  | block id admin phase =>
    obtain ⟨⟨db₁, phase₁⟩, hnext, heq⟩ := Option.map_eq_some_iff.mp h
    cases heq
    exact ⟨trans_of_nextBlock hnext, rfl⟩
  | unblock id phase =>
    obtain ⟨⟨db₁, phase₁⟩, hnext, heq⟩ := Option.map_eq_some_iff.mp h
    cases heq
    exact ⟨trans_of_nextUnblock hnext, rfl⟩
  | unbind id user confirm phase =>
    obtain ⟨⟨db₁, phase₁⟩, hnext, heq⟩ := Option.map_eq_some_iff.mp h
    cases heq
    exact ⟨trans_of_nextUnbind hnext, rfl⟩

end RyanAI.Backend.Bindings
