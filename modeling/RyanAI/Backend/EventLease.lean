import RyanAI.Lib.Interleaving
import RyanAI.Lib.Json
import RyanAI.Lib.OrderedMap
import RyanAI.Gateway.Event

/-!
# The event leases of the backend

`claim_event`, `renew_event_lease`, `set_event_target`, `complete_event` and `fail_event` of `models/bot_gateway.py`. A
row is leased to the nonce that claimed it; every later write names the nonce in its `WHERE` clause. A statement and its
commit are one step. `claim_event` makes up to four: the `INSERT`, and after a conflict the `SELECT`, the conditional
`UPDATE` and the refresh. Clock readings and ids are choices of the environment; the database may refuse a statement.

`Trans` lists what one step can do. `Accounted` counts: `attempts` is the number of granted claims, and a row is
completed exactly when one call has completed it.
-/

namespace RyanAI.Backend.EventLease

open RyanAI.Lib
open RyanAI.Lib.Interleaving
open RyanAI.Gateway (ConversationType)

inductive EventStatus where
  | processing
  | completed
  | failed
  deriving DecidableEq

/-- A row of `bot_gateway_event` besides its primary key `id`. -/
structure EventRow where
  connectionId : String
  eventId : String
  requestHash : String
  requestNonce : String
  status : EventStatus
  conversationType : Option ConversationType
  externalConversationId : Option String
  externalSenderId : Option String
  bindingId : Option String
  conversationId : Option String
  chatId : Option String
  assistantMessageId : Option String
  response : Option Json
  error : Option String
  attempts : ℕ
  receivedAt : ℤ
  completedAt : Option ℤ
  updatedAt : ℤ

/-- The table, keyed by `id`. -/
abbrev Events := KeyedTable String EventRow

/-- The arguments of `claim_event`. -/
structure Claim where
  connectionId : String
  eventId : String
  requestHash : String
  requestNonce : String
  conversationType : ConversationType
  externalConversationId : String
  externalSenderId : String
  leaseSeconds : ℤ

/-- The arguments of `set_event_target`. -/
structure Target where
  bindingId : String
  conversationId : String
  chatId : String
  assistantMessageId : String

def Claim.row (a : Claim) (now : ℤ) : EventRow where
  connectionId := a.connectionId
  eventId := a.eventId
  requestHash := a.requestHash
  requestNonce := a.requestNonce
  status := .processing
  conversationType := some a.conversationType
  externalConversationId := some a.externalConversationId
  externalSenderId := some a.externalSenderId
  bindingId := none
  conversationId := none
  chatId := none
  assistantMessageId := none
  response := none
  error := none
  attempts := 1
  receivedAt := now
  completedAt := none
  updatedAt := now

/-! ## Statements -/

def EventRow.isFor (connectionId eventId : String) (r : EventRow) : Bool :=
  r.connectionId = connectionId ∧ r.eventId = eventId

def clashes (id : String) (row : EventRow) (t : Events) : Bool :=
  (t.get id).isSome || (t.find? (EventRow.isFor row.connectionId row.eventId)).isSome

/-- `UPDATE … SET set WHERE id = id AND cond`, and `rowcount == 1`. -/
def updateById (id : String) (cond : EventRow → Bool) (set : EventRow → EventRow) (t : Events) : Events × Bool :=
  match t.get id with
  | some r => if cond r then (t.set id (set r), true) else (t, false)
  | none => (t, false)

def reclaimable (requestHash : String) (leaseCutoff : ℤ) (r : EventRow) : Bool :=
  r.requestHash = requestHash ∧ (r.status = .failed ∨ r.status = .processing ∧ r.updatedAt ≤ leaseCutoff)

/-- The `SET` clause of the reclaim. -/
def Claim.take (a : Claim) (now : ℤ) (r : EventRow) : EventRow :=
  { r with
    requestNonce := a.requestNonce
    status := .processing
    error := none
    completedAt := none
    attempts := r.attempts + 1
    updatedAt := now }

def EventRow.heldBy (requestNonce : String) (r : EventRow) : Bool :=
  r.status = .processing ∧ r.requestNonce = requestNonce

/-- An `UPDATE` by the holder of a lease. -/
def updateHeld (id requestNonce : String) (set : EventRow → EventRow) (t : Events) : Events × Bool :=
  updateById id (EventRow.heldBy requestNonce) set t

def EventRow.renewed (now : ℤ) (r : EventRow) : EventRow := { r with updatedAt := now }

def EventRow.targeted (target : Target) (now : ℤ) (r : EventRow) : EventRow :=
  { r with
    bindingId := some target.bindingId
    conversationId := some target.conversationId
    chatId := some target.chatId
    assistantMessageId := some target.assistantMessageId
    updatedAt := now }

def EventRow.completedWith (response : Json) (now : ℤ) (r : EventRow) : EventRow :=
  { r with
    status := .completed
    response := some response
    error := none
    completedAt := some now
    updatedAt := now }

/-- `error[:4000]` is kept. -/
def EventRow.failedWith (error : String) (now : ℤ) (r : EventRow) : EventRow :=
  { r with
    status := .failed
    error := some (String.ofList (error.toList.take 4000))
    completedAt := some now
    updatedAt := now }

/-- `renew_event_lease`. -/
def renewEventLease (id requestNonce : String) (now : ℤ) (t : Events) : Events × Bool :=
  updateHeld id requestNonce (EventRow.renewed now) t

/-- `set_event_target`. -/
def setEventTarget (id requestNonce : String) (target : Target) (now : ℤ) (t : Events) : Events × Bool :=
  updateHeld id requestNonce (EventRow.targeted target now) t

/-- `complete_event`. -/
def completeEvent (id requestNonce : String) (response : Json) (now : ℤ) (t : Events) : Events × Bool :=
  updateHeld id requestNonce (EventRow.completedWith response now) t

/-- `fail_event`. -/
def failEvent (id requestNonce : String) (error : String) (now : ℤ) (t : Events) : Events × Bool :=
  updateHeld id requestNonce (EventRow.failedWith error now) t

/-! ## Calls -/

inductive Call where
  | claimEvent (a : Claim)
  | renewEventLease (id requestNonce : String)
  | setEventTarget (id requestNonce : String) (target : Target)
  | completeEvent (id requestNonce : String) (response : Json)
  | failEvent (id requestNonce : String) (error : String)

/-- A claim returns its row and whether it was granted, or raises; the driver's error may come after
a committed reclaim. -/
inductive Outcome where
  | claimed (id : String) (row : EventRow) (granted : Bool)
  | conflict
  | integrity
  | updated (ok : Bool)
  | refused (granted : Option String)

/-- The next statement of a call; `now` is the clock reading of the claim. -/
inductive Phase where
  | start
  | selecting (now : ℤ)
  | reclaiming (now : ℤ) (existing : String)
  | refreshing (existing : String) (granted : Bool)
  | finished (o : Outcome)

structure Worker where
  call : Call
  phase : Phase

structure Choice where
  now : ℤ
  uuid : String
  refuses : Bool

/-- The phases of `claim_event`. -/
def nextClaim (a : Claim) (k : Choice) (t : Events) : Phase → Option (Events × Phase)
  | .start =>
    -- the insert fails on a key that is taken, and the transaction starts over with the row that is there
    if clashes k.uuid (a.row k.now) t then some (t, .selecting k.now)
    else some (t.set k.uuid (a.row k.now), .finished (.claimed k.uuid (a.row k.now) true))
  | .selecting now =>
    match t.find? (EventRow.isFor a.connectionId a.eventId) with
    | none => some (t, .finished .integrity)
    | some (id, r) =>
      if r.requestHash ≠ a.requestHash then some (t, .finished .conflict)
      else if r.status = .completed then some (t, .finished (.claimed id r false))
      else some (t, .reclaiming now id)
  | .reclaiming now id =>
    let leaseCutoff := now - max 1 a.leaseSeconds
    let (t', granted) := updateById id (reclaimable a.requestHash leaseCutoff) (a.take now) t
    some (t', .refreshing id granted)
  | .refreshing id granted =>
    match t.get id with
    | some r => some (t, .finished (.claimed id r granted))
    -- the refresh finds no row
    | none => some (t, .finished (.refused (if granted then some id else none)))
  | .finished _ => none

/-- The other calls make one `UPDATE`. -/
def nextUpdate (call : Call) (k : Choice) (t : Events) : Option (Events × Bool) :=
  match call with
  | .claimEvent _ => none
  | .renewEventLease id nonce => some (renewEventLease id nonce k.now t)
  | .setEventTarget id nonce target => some (setEventTarget id nonce target k.now t)
  | .completeEvent id nonce response => some (completeEvent id nonce response k.now t)
  | .failEvent id nonce error => some (failEvent id nonce error k.now t)

def Phase.reclaimed : Phase → Option String
  | .refreshing id true => some id
  | _ => none

def next (_ : Nat) (t : Events) (w : Worker) (k : Choice) : Option (Events × Worker) :=
  match w.phase with
  | .finished _ => none
  | phase =>
    -- what was committed before the refused statement stays
    if k.refuses then some (t, ⟨w.call, .finished (.refused phase.reclaimed)⟩)
    else
      match w.call with
      | .claimEvent a => (nextClaim a k t phase).map fun r => (r.1, ⟨w.call, r.2⟩)
      | call => (nextUpdate call k t).map fun r => (r.1, ⟨call, .finished (.updated r.2)⟩)

/-! ## What a step can do -/

def Call.lease : Call → Option (String × String)
  | .claimEvent _ => none
  | .renewEventLease id nonce => some (id, nonce)
  | .setEventTarget id nonce _ => some (id, nonce)
  | .completeEvent id nonce _ => some (id, nonce)
  | .failEvent id nonce _ => some (id, nonce)

def Call.written (now : ℤ) : Call → EventRow → EventRow
  | .claimEvent _ => fun r => r
  | .renewEventLease _ _ => EventRow.renewed now
  | .setEventTarget _ _ target => EventRow.targeted target now
  | .completeEvent _ _ response => EventRow.completedWith response now
  | .failEvent _ _ error => EventRow.failedWith error now

def Call.completes : Call → Option String
  | .completeEvent id _ _ => some id
  | _ => none

def Phase.granted : Phase → Option String
  | .refreshing id true => some id
  | .finished (.claimed id _ true) => some id
  | .finished (.refused granted) => granted
  | _ => none

def Worker.granted (w : Worker) : Option String :=
  match w.call with
  | .claimEvent _ => w.phase.granted
  | _ => none

def Worker.completed (w : Worker) : Option String :=
  match w.phase with
  | .finished (.updated true) => w.call.completes
  | _ => none

theorem nextUpdate_eq (call : Call) (k : Choice) (t : Events) :
    nextUpdate call k t = call.lease.map fun l => updateHeld l.1 l.2 (call.written k.now) t := by
  cases call with
  | claimEvent a => rfl
  | renewEventLease id nonce => rfl
  | setEventTarget id nonce target => rfl
  | completeEvent id nonce response => rfl
  | failEvent id nonce error => rfl

/-- A row is inserted, taken over, or written to under its nonce, or nothing happens. -/
inductive Trans (t : Events) : Worker → Events → Worker → Prop
  | quiet {w w' : Worker} : w'.call = w.call → w'.granted = w.granted → w'.completed = w.completed → Trans t w t w'
  | inserted {a : Claim} {id : String} {now : ℤ} : clashes id (a.row now) t = false →
      Trans t ⟨.claimEvent a, .start⟩ (t.set id (a.row now))
        ⟨.claimEvent a, .finished (.claimed id (a.row now) true)⟩
  | reclaimed {a : Claim} {id : String} {now : ℤ} {r : EventRow} : t.get id = some r →
      reclaimable a.requestHash (now - max 1 a.leaseSeconds) r = true →
      Trans t ⟨.claimEvent a, .reclaiming now id⟩ (t.set id (a.take now r))
        ⟨.claimEvent a, .refreshing id true⟩
  | written {call : Call} {phase : Phase} {id nonce : String} {now : ℤ} {r : EventRow} :
      call.lease = some (id, nonce) → t.get id = some r → r.heldBy nonce = true →
      (∀ o, phase ≠ .finished o) →
      Trans t ⟨call, phase⟩ (t.set id (call.written now r)) ⟨call, .finished (.updated true)⟩

/-- What an `UPDATE` by id does. -/
theorem updateById_cases (id : String) (cond : EventRow → Bool) (set : EventRow → EventRow) (t : Events) :
    (∃ r, t.get id = some r ∧ cond r = true ∧ updateById id cond set t = (t.set id (set r), true)) ∨
      ((∀ r, t.get id = some r → cond r = false) ∧ updateById id cond set t = (t, false)) := by
  cases hget : t.get id with
  | none =>
    right
    refine ⟨fun r hr => ?_, by simp [updateById, hget]⟩
    cases hr
  | some r =>
    cases hcond : cond r with
    | true => exact Or.inl ⟨r, rfl, hcond, by simp [updateById, hget, hcond]⟩
    | false =>
      right
      refine ⟨fun r' hr' => ?_, by simp [updateById, hget, hcond]⟩
      cases hr'
      exact hcond

variable {t t' : Events} {k : Choice} {w w' : Worker} {i : Nat} {call : Call} {nonce id : String} {r r' : EventRow}
    {c c' : Conf Events Worker} {ws : List Worker}

theorem trans_of_nextClaim (h : nextClaim a k t phase = some (t', phase')) :
    Trans t ⟨.claimEvent a, phase⟩ t' ⟨.claimEvent a, phase'⟩ := by
  cases phase with
  | start =>
    simp only [nextClaim] at h
    split at h
    · cases h
      exact .quiet rfl rfl rfl
    · rename_i hfree
      cases h
      apply Trans.inserted
      simpa using hfree
  | selecting now =>
    simp only [nextClaim] at h
    split at h
    · cases h
      exact .quiet rfl rfl rfl
    split at h
    · cases h
      exact .quiet rfl rfl rfl
    split at h
    · cases h
      exact .quiet rfl rfl rfl
    · cases h
      exact .quiet rfl rfl rfl
  | reclaiming now id =>
    simp only [nextClaim, Option.some.injEq, Prod.mk.injEq] at h
    rcases updateById_cases id (reclaimable a.requestHash (now - max 1 a.leaseSeconds)) (a.take now) t
      with ⟨r, hget, hcond, heq⟩ | ⟨-, heq⟩
    · rw [heq] at h
      obtain ⟨rfl, rfl⟩ := h
      exact .reclaimed hget hcond
    · rw [heq] at h
      obtain ⟨rfl, rfl⟩ := h
      exact .quiet rfl rfl rfl
  | refreshing id granted =>
    simp only [nextClaim] at h
    split at h
    · cases h
      cases granted with
      | true => exact .quiet rfl rfl rfl
      | false => exact .quiet rfl rfl rfl
    · cases h
      cases granted with
      | true => exact .quiet rfl rfl rfl
      | false => exact .quiet rfl rfl rfl
  | finished o => cases h

theorem granted_refused (phase : Phase) (h : ∀ o, phase ≠ .finished o) :
    (Phase.finished (.refused phase.reclaimed)).granted = phase.granted := by
  cases phase with
  | finished o => exact absurd rfl (h o)
  | refreshing id granted =>
    cases granted with
    | true => rfl
    | false => rfl
  | start => rfl
  | selecting now => rfl
  | reclaiming now id => rfl

theorem completed_of_unfinished (h : ∀ o, w.phase ≠ .finished o) : w.completed = none := by
  obtain ⟨call, phase⟩ := w
  cases phase with
  | finished o => exact absurd rfl (h o)
  | start => rfl
  | selecting now => rfl
  | reclaiming now id => rfl
  | refreshing id granted => rfl

theorem next_eq (h : ∀ o, w.phase ≠ .finished o) : next i t w k =
      if k.refuses then some (t, ⟨w.call, .finished (.refused w.phase.reclaimed)⟩)
      else
        match w.call with
        | .claimEvent a => (nextClaim a k t w.phase).map fun r => (r.1, ⟨w.call, r.2⟩)
        | call => (nextUpdate call k t).map fun r => (r.1, ⟨call, .finished (.updated r.2)⟩) := by
  obtain ⟨call, phase⟩ := w
  cases phase with
  | finished o => exact absurd rfl (h o)
  | start => rfl
  | selecting now => rfl
  | reclaiming now id => rfl
  | refreshing id granted => rfl

theorem unfinished_of_next {r : Events × Worker} (h : next i t w k = some r) : ∀ o, w.phase ≠ .finished o := by
  intro o ho
  simp [next, ho] at h

theorem trans_of_nextUpdate (hcall : ∀ a, call ≠ .claimEvent a)
    (hphase : ∀ o, phase ≠ .finished o) (h : nextUpdate call k t = some (t', ok)) :
    Trans t ⟨call, phase⟩ t' ⟨call, .finished (.updated ok)⟩ := by
  have hgranted : ∀ ph, (Worker.mk call ph).granted = none := by
    intro ph
    cases call with
    | claimEvent a => exact absurd rfl (hcall a)
    | renewEventLease id nonce => rfl
    | setEventTarget id nonce target => rfl
    | completeEvent id nonce response => rfl
    | failEvent id nonce error => rfl
  rw [nextUpdate_eq, Option.map_eq_some_iff] at h
  obtain ⟨⟨id, nonce⟩, hlease, hupdate⟩ := h
  simp only [updateHeld] at hupdate
  rcases updateById_cases id (EventRow.heldBy nonce) (call.written k.now) t
    with ⟨r, hget, hheld, heq⟩ | ⟨-, heq⟩
  · rw [heq] at hupdate
    cases hupdate
    exact .written hlease hget hheld hphase
  rw [heq] at hupdate
  cases hupdate
  apply Trans.quiet
  · rfl
  · rw [hgranted, hgranted]
  · have hnone : (Worker.mk call phase).completed = none := completed_of_unfinished hphase
    rw [hnone]
    rfl

theorem trans_of_next (h : next i t w k = some (t', w')) : Trans t w t' w' := by
  have hphase := unfinished_of_next h
  rw [next_eq hphase] at h
  obtain ⟨call, phase⟩ := w
  split at h
  · cases h
    apply Trans.quiet
    · rfl
    · cases call with
      | claimEvent a => exact granted_refused phase hphase
      | renewEventLease id nonce => rfl
      | setEventTarget id nonce target => rfl
      | completeEvent id nonce response => rfl
      | failEvent id nonce error => rfl
    · rw [completed_of_unfinished hphase]
      rfl
  · split at h
    · rename_i a hcall
      subst hcall
      rw [Option.map_eq_some_iff] at h
      obtain ⟨⟨t₁, phase₁⟩, hclaim, heq⟩ := h
      cases heq
      exact trans_of_nextClaim hclaim
    · rename_i hcall
      rw [Option.map_eq_some_iff] at h
      obtain ⟨⟨t₁, ok⟩, hupdate, heq⟩ := h
      cases heq
      exact trans_of_nextUpdate hcall hphase hupdate

theorem Trans.call_eq (h : Trans t w t' w') : w'.call = w.call := by
  cases h with
  | quiet hc _ _ => exact hc
  | inserted _ => rfl
  | reclaimed _ _ => rfl
  | written _ _ _ _ => rfl

structure RowKept (r r' : EventRow) : Prop where
  connectionId : r'.connectionId = r.connectionId
  eventId : r'.eventId = r.eventId
  requestHash : r'.requestHash = r.requestHash
  completed : r.status = .completed → r' = r

theorem RowKept.refl (r : EventRow) : RowKept r r := ⟨rfl, rfl, rfl, fun _ => rfl⟩

theorem rowKept_written (h : r.heldBy nonce = true) : RowKept r (call.written now r) := by
  have hstatus : r.status ≠ .completed := by
    simp only [EventRow.heldBy, decide_eq_true_eq] at h
    simp [h.1]
  cases call with
  | claimEvent a => exact .refl r
  | renewEventLease id n => exact ⟨rfl, rfl, rfl, fun hc => absurd hc hstatus⟩
  | setEventTarget id n target => exact ⟨rfl, rfl, rfl, fun hc => absurd hc hstatus⟩
  | completeEvent id n response => exact ⟨rfl, rfl, rfl, fun hc => absurd hc hstatus⟩
  | failEvent id n error => exact ⟨rfl, rfl, rfl, fun hc => absurd hc hstatus⟩

theorem status_of_reclaimable {hash : String} {cutoff : ℤ} (h : reclaimable hash cutoff r = true) :
    r.status ≠ .completed := by
  simp only [reclaimable, decide_eq_true_eq] at h
  rcases h.2 with hf | ⟨hp, -⟩
  · simp [hf]
  · simp [hp]

theorem kept_of_set (hget : t.get id = some r) (hkept : RowKept r r') (h : t.get id₁ = some r₁) :
    ∃ r₂, (t.set id r').get id₁ = some r₂ ∧ RowKept r₁ r₂ := by
  by_cases hid : id₁ = id
  · subst hid
    rw [hget] at h
    cases h
    exact ⟨r', by simp, hkept⟩
  · exact ⟨r₁, by simp [hid, h], .refl r₁⟩

theorem Trans.row_kept (h : Trans t w t' w') (hr : t.get id = some r) : ∃ r', t'.get id = some r' ∧ RowKept r r' := by
  cases h with
  | quiet _ _ _ => exact ⟨r, hr, .refl r⟩
  | @inserted a id' now hfree =>
    have hne : id ≠ id' := by
      rintro rfl
      simp [clashes, hr] at hfree
    exact ⟨r, by simp [hne, hr], .refl r⟩
  | @reclaimed a id' now r₀ hget hre =>
    apply kept_of_set hget ?_ hr
    exact ⟨rfl, rfl, rfl, fun hc => absurd hc (status_of_reclaimable hre)⟩
  | written _ hget hheld _ => exact kept_of_set hget (rowKept_written hheld) hr

theorem RowKept.trans (h : RowKept r r₁) (h' : RowKept r₁ r₂) : RowKept r r₂ := by
  refine ⟨h'.connectionId.trans h.connectionId, h'.eventId.trans h.eventId,
    h'.requestHash.trans h.requestHash, fun hc => ?_⟩
  have heq := h.completed hc
  subst heq
  exact h'.completed hc

theorem row_kept_of_reaches (hr : Reaches next c c') (h : c.shared.get id = some r) :
    ∃ r', c'.shared.get id = some r' ∧ RowKept r r' := by
  induction hr with
  | refl => exact ⟨r, h, .refl r⟩
  | tail _ hstep ih =>
    obtain ⟨i, k, -, -, hn⟩ := hstep
    obtain ⟨r₁, h₁, hkept⟩ := ih
    obtain ⟨r₂, h₂, hkept'⟩ := (trans_of_next hn).row_kept h₁
    exact ⟨r₂, h₂, hkept.trans hkept'⟩

/-! ## Counting grants and completions -/

def grants (id : String) (ws : List Worker) : ℕ := ws.countP fun w => w.granted = some id

def completions (id : String) (ws : List Worker) : ℕ := ws.countP fun w => w.completed = some id

def RowAccount (row : Option EventRow) (granted completed : ℕ) : Prop :=
  match row with
  | none => granted = 0 ∧ completed = 0
  | some r => r.attempts = granted ∧ completed = if r.status = .completed then 1 else 0

def Accounted (c : Conf Events Worker) : Prop :=
  ∀ id, RowAccount (c.shared.get id) (grants id c.procs) (completions id c.procs)

theorem grants_set (w' : Worker) (h : ws[i]? = some w) (id : String) :
    grants id (ws.set i w') + (if w.granted = some id then 1 else 0) =
      grants id ws + (if w'.granted = some id then 1 else 0) := by
  simpa [grants] using countP_set_add (fun w => decide (w.granted = some id)) w' h

theorem completions_set (w' : Worker) (h : ws[i]? = some w) (id : String) :
    completions id (ws.set i w') + (if w.completed = some id then 1 else 0) =
      completions id ws + (if w'.completed = some id then 1 else 0) := by
  simpa [completions] using countP_set_add (fun w => decide (w.completed = some id)) w' h

theorem written_keeps (call : Call) (now : ℤ) (r : EventRow) :
    (call.written now r).attempts = r.attempts ∧ (call.written now r).requestNonce = r.requestNonce := by
  cases call with
  | claimEvent a => exact ⟨rfl, rfl⟩
  | renewEventLease id nonce => exact ⟨rfl, rfl⟩
  | setEventTarget id nonce target => exact ⟨rfl, rfl⟩
  | completeEvent id nonce response => exact ⟨rfl, rfl⟩
  | failEvent id nonce error => exact ⟨rfl, rfl⟩

/-- It completes the row exactly when it is a call of `complete_event` for it. -/
theorem written_completed (hlease : call.lease = some (id, nonce)) (hheld : r.heldBy nonce = true) :
    (call.written now r).status = .completed ↔ call.completes = some id := by
  have hstatus : r.status = .processing := by
    simp only [EventRow.heldBy, decide_eq_true_eq] at hheld
    exact hheld.1
  cases call with
  | claimEvent a => cases hlease
  | renewEventLease id' n => simp [Call.written, EventRow.renewed, Call.completes, hstatus]
  | setEventTarget id' n target => simp [Call.written, EventRow.targeted, Call.completes, hstatus]
  | completeEvent id' n response =>
    simp only [Call.lease, Option.some.injEq, Prod.mk.injEq] at hlease
    simp [Call.written, EventRow.completedWith, Call.completes, hlease.1]
  | failEvent id' n error => simp [Call.written, EventRow.failedWith, Call.completes]

theorem completes_of_lease (hlease : call.lease = some (id, nonce)) (h : call.completes = some id') : id' = id := by
  cases call with
  | claimEvent a => cases hlease
  | renewEventLease id₁ n => cases h
  | setEventTarget id₁ n target => cases h
  | completeEvent id₁ n response =>
    cases hlease
    cases h
    rfl
  | failEvent id₁ n error => cases h

theorem granted_of_lease (h : call.lease = some l) (phase : Phase) : (Worker.mk call phase).granted = none := by
  cases call with
  | claimEvent a => cases h
  | renewEventLease id nonce => rfl
  | setEventTarget id nonce target => rfl
  | completeEvent id nonce response => rfl
  | failEvent id nonce error => rfl

theorem accounted_grant (ha : Accounted ⟨t, ws⟩) (hw : ws[i]? = some w) (hbefore : w.granted = none)
    (hafter : w'.granted = some id') (hcompleted : w'.completed = w.completed)
    (hattempts : r'.attempts = grants id' ws + 1) (hstatus : r'.status ≠ .completed) (hnone : completions id' ws = 0) :
    Accounted ⟨t.set id' r', ws.set i w'⟩ := by
  intro id
  have hg := grants_set w' hw id
  have hc := completions_set w' hw id
  rw [hbefore, hafter] at hg
  rw [hcompleted] at hc
  have hc' : completions id (ws.set i w') = completions id ws := by omega
  simp only [KeyedTable.get_set]
  rw [hc']
  by_cases hid : id = id'
  · subst hid
    simp at hg
    rw [if_pos rfl, hg]
    exact ⟨hattempts, by rw [if_neg hstatus]; exact hnone⟩
  -- the account of another row stays as it is
  · simp [Ne.symm hid] at hg
    rw [if_neg hid, hg]
    exact ha id

theorem Trans.accounted (h : Trans t w t' w') (hw : ws[i]? = some w) (ha : Accounted ⟨t, ws⟩) :
    Accounted ⟨t', ws.set i w'⟩ := by
  cases h with
  | quiet _ hgr hco =>
    intro id
    have hrow := ha id
    have hg := grants_set w' hw id
    have hc := completions_set w' hw id
    rw [hgr] at hg
    rw [hco] at hc
    have hg' : grants id (ws.set i w') = grants id ws := by omega
    have hc' : completions id (ws.set i w') = completions id ws := by omega
    rw [hg', hc']
    exact hrow
  | @inserted a id' now hfree =>
    have hget : t.get id' = none := by
      simp only [clashes, Bool.or_eq_false_iff, Option.isSome_eq_false_iff, Option.isNone_iff_eq_none] at hfree
      exact hfree.1
    -- a row that is not there has an empty account
    have haccount := ha id'
    rw [hget] at haccount
    refine accounted_grant ha hw rfl rfl rfl ?_ ?_ haccount.2
    · rw [haccount.1]
      rfl
    · intro hstatus
      cases hstatus
  | @reclaimed a id' now r hget hre =>
    have hopen := status_of_reclaimable hre
    have haccount := ha id'
    rw [hget] at haccount
    have hnone : completions id' ws = 0 := haccount.2.trans (if_neg hopen)
    refine accounted_grant ha hw rfl rfl rfl ?_ ?_ hnone
    · rw [← haccount.1]
      rfl
    · intro hstatus
      cases hstatus
  | @written call phase id' nonce now r hlease hget hheld hphase =>
    intro id
    have hrow := ha id
    have hg := grants_set (.mk call (.finished (.updated true))) hw id
    have hc := completions_set (.mk call (.finished (.updated true))) hw id
    simp only at hrow ⊢
    have hbefore : (Worker.mk call phase).completed = none := completed_of_unfinished hphase
    have hafter : (Worker.mk call (.finished (.updated true))).completed = call.completes := rfl
    rw [granted_of_lease hlease, granted_of_lease hlease] at hg
    rw [hbefore, hafter] at hc
    by_cases hid : id = id'
    · subst hid
      rw [hget] at hrow
      obtain ⟨h₁, h₂⟩ := hrow
      have hstatus : r.status ≠ .completed := by
        simp only [EventRow.heldBy, decide_eq_true_eq] at hheld
        simp [hheld.1]
      rw [if_neg hstatus] at h₂
      simp only [KeyedTable.get_set, if_true, RowAccount]
      refine ⟨?_, ?_⟩
      · rw [(written_keeps call now r).1]
        omega
      · simp only [written_completed hlease hheld]
        simp at hc
        omega
    · have hother : call.completes ≠ some id := fun h => hid (completes_of_lease hlease h)
      simp [hother] at hc
      have hg' : grants id (ws.set i ⟨call, .finished (.updated true)⟩) = grants id ws := by omega
      rw [KeyedTable.get_set, if_neg hid, hg', hc]
      exact hrow

def Initial (c : Conf Events Worker) : Prop := c.shared = KeyedTable.empty ∧ ∀ w ∈ c.procs, w.phase = .start

theorem accounted_initial (h : Initial c) : Accounted c := by
  intro id
  rw [h.1, KeyedTable.get_empty]
  refine ⟨?_, ?_⟩
  · apply List.countP_eq_zero.2
    intro w hw
    obtain ⟨call, phase⟩ := w
    have hphase := h.2 _ hw
    subst hphase
    cases call <;> simp [Worker.granted, Phase.granted]
  · apply List.countP_eq_zero.2
    intro w hw
    have hphase := h.2 _ hw
    simp [Worker.completed, hphase]

theorem accounted_of_reaches (hr : Reaches next c c') (h : Accounted c) : Accounted c' := by
  induction hr with
  | refl => exact h
  | tail _ hstep ih =>
    obtain ⟨i, k, hp, -, hn⟩ := hstep
    exact (trans_of_next hn).accounted hp ih

/-! ## Nonces -/

def DistinctNonces (calls : List Call) : Prop :=
  calls.Pairwise fun x y => ∀ a b, x = .claimEvent a → y = .claimEvent b → a.requestNonce ≠ b.requestNonce

def calls (c : Conf Events Worker) : List Call := c.procs.map Worker.call

theorem calls_step (h : StepWhere next (fun _ _ _ => True) c c') : calls c' = calls c := by
  obtain ⟨i, k, hp, -, hn⟩ := h
  have hcall := (trans_of_next hn).call_eq
  apply List.ext_getElem?
  intro j
  by_cases hij : i = j
  · subst hij
    obtain ⟨hlt, -⟩ := List.getElem?_eq_some_iff.1 hp
    simp only [calls, List.getElem?_map, List.getElem?_set_self hlt, hp, Option.map_some, hcall]
  · simp [calls, List.getElem?_set_ne hij]

theorem calls_of_reaches (hr : Reaches next c c') : calls c' = calls c := by
  induction hr with
  | refl => rfl
  | tail _ hs ih => exact (calls_step hs).trans ih

theorem nonce_ne (hd : DistinctNonces (calls c)) (hij : i ≠ j)
    (hw : c.procs[i]? = some w) (hv : c.procs[j]? = some v) (ha : w.call = .claimEvent a) (hb : v.call = .claimEvent b) :
    a.requestNonce ≠ b.requestNonce := by
  obtain ⟨hi, hwi⟩ := List.getElem?_eq_some_iff.1 hw
  obtain ⟨hj, hvj⟩ := List.getElem?_eq_some_iff.1 hv
  have hpair := List.pairwise_iff_getElem.1 hd
  rcases Nat.lt_or_gt_of_ne hij with hlt | hlt
  · apply hpair i j (by simpa [calls] using hi) (by simpa [calls] using hj) hlt
    · simp [calls, hwi, ha]
    · simp [calls, hvj, hb]
  · apply Ne.symm
    apply hpair j i (by simpa [calls] using hj) (by simpa [calls] using hi) hlt
    · simp [calls, hvj, hb]
    · simp [calls, hwi, ha]

/-- The claim at position `i`, made under the nonce, has been granted the row. -/
def GrantedTo (i : Nat) (id nonce : String) (c : Conf Events Worker) : Prop :=
  ∃ w a, c.procs[i]? = some w ∧ w.call = .claimEvent a ∧ a.requestNonce = nonce ∧ w.granted = some id

theorem Trans.granted_cases (h : Trans t w t' w') : w'.granted = w.granted ∨
      w.granted = none ∧ ∃ a id r', w.call = .claimEvent a ∧ w'.granted = some id ∧
        t'.get id = some r' ∧ r'.requestNonce = a.requestNonce := by
  cases h with
  | quiet _ hg _ => exact Or.inl hg
  | @inserted a id now _ => exact Or.inr ⟨rfl, a, id, a.row now, rfl, rfl, by simp, rfl⟩
  | @reclaimed a id now r _ _ => exact Or.inr ⟨rfl, a, id, a.take now r, rfl, rfl, by simp, rfl⟩
  | written hlease _ _ _ =>
    left
    rw [granted_of_lease hlease, granted_of_lease hlease]

theorem grantedTo_step (hs : StepWhere next (fun _ _ _ => True) c c') (h : GrantedTo i id nonce c) :
    GrantedTo i id nonce c' := by
  obtain ⟨j, k, hp, -, hn⟩ := hs
  obtain ⟨w, a, hw, hcall, hnonce, hgranted⟩ := h
  by_cases hij : j = i
  · subst hij
    rw [hp] at hw
    cases hw
    obtain ⟨hlt, -⟩ := List.getElem?_eq_some_iff.1 hp
    have htrans := trans_of_next hn
    refine ⟨_, a, List.getElem?_set_self hlt, htrans.call_eq.trans hcall, hnonce, ?_⟩
    rcases htrans.granted_cases with hsame | ⟨hnone, -⟩
    · rw [hsame, hgranted]
    · rw [hnone] at hgranted
      cases hgranted
  · exact ⟨w, a, by rw [List.getElem?_set_ne hij]; exact hw, hcall, hnonce, hgranted⟩

theorem grantedTo_of_reaches (hr : Reaches next c c') (h : GrantedTo i id nonce c) : GrantedTo i id nonce c' := by
  induction hr with
  | refl => exact h
  | tail _ hs ih => exact grantedTo_step hs ih

theorem row_of_grantedTo (ha : Accounted c) (h : GrantedTo i id nonce c) : ∃ r, c.shared.get id = some r := by
  obtain ⟨w, a, hw, -, -, hgranted⟩ := h
  have hrow := ha id
  cases hget : c.shared.get id with
  | some r => exact ⟨r, rfl⟩
  | none =>
    rw [hget] at hrow
    have hzero := List.countP_eq_zero.1 hrow.1 w (List.mem_of_getElem? hw)
    simp [hgranted] at hzero

theorem Trans.nonce_cases (h : Trans t w t' w') (hr : t.get id = some r) (hr' : t'.get id = some r') :
    r'.requestNonce = r.requestNonce ∨
      w.granted = none ∧ ∃ a, w.call = .claimEvent a ∧ r'.requestNonce = a.requestNonce := by
  cases h with
  | quiet _ _ _ =>
    rw [hr, Option.some.injEq] at hr'
    exact Or.inl (by rw [hr'])
  | @inserted a id' now _ =>
    rw [KeyedTable.get_set] at hr'
    split at hr'
    · cases hr'
      exact Or.inr ⟨rfl, a, rfl, rfl⟩
    · rw [hr, Option.some.injEq] at hr'
      exact Or.inl (by rw [hr'])
  | @reclaimed a id' now r₀ _ _ =>
    rw [KeyedTable.get_set] at hr'
    split at hr'
    · cases hr'
      exact Or.inr ⟨rfl, a, rfl, rfl⟩
    · rw [hr, Option.some.injEq] at hr'
      exact Or.inl (by rw [hr'])
  | @written call phase id' nonce now r₀ _ hget _ _ =>
    rw [KeyedTable.get_set] at hr'
    split at hr'
    · rename_i hid
      subst hid
      cases hr'
      rw [hr] at hget
      cases hget
      exact Or.inl (written_keeps call now r).2
    · rw [hr, Option.some.injEq] at hr'
      exact Or.inl (by rw [hr'])

theorem grantedTo_of_step (hp : ws[j]? = some w) (htrans : Trans t w t' w') (h : GrantedTo m id n ⟨t', ws.set j w'⟩) :
    GrantedTo m id n ⟨t, ws⟩ ∨ w.granted = none ∧ ∃ a r', w.call = .claimEvent a ∧ t'.get id = some r' ∧
        r'.requestNonce = a.requestNonce := by
  obtain ⟨v, a, hv, hcall, hn, hgranted⟩ := h
  by_cases hmj : j = m
  · subst hmj
    obtain ⟨hlt, -⟩ := List.getElem?_eq_some_iff.1 hp
    simp only [List.getElem?_set_self hlt] at hv
    cases hv
    rcases htrans.granted_cases with hsame | ⟨hnone, b, id', r', hb, hg', hget, hr'⟩
    · exact Or.inl ⟨w, a, hp, htrans.call_eq ▸ hcall, hn, hsame ▸ hgranted⟩
    · rw [hg'] at hgranted
      cases hgranted
      exact Or.inr ⟨hnone, b, r', hb, hget, hr'⟩
  · simp only [List.getElem?_set_ne hmj] at hv
    exact Or.inl ⟨v, a, hv, hcall, hn, hgranted⟩

theorem no_grant_step (ha : Accounted c) (hd : DistinctNonces (calls c)) (hi : GrantedTo i id nonce c)
    (hs : StepWhere next (fun _ _ _ => True) c c') (hr' : c'.shared.get id = some r') (hnonce : r'.requestNonce = nonce) :
    (∃ r, c.shared.get id = some r ∧ r.requestNonce = nonce) ∧ ∀ m n, GrantedTo m id n c' → GrantedTo m id n c := by
  obtain ⟨r₀, hr₀⟩ := row_of_grantedTo ha hi
  obtain ⟨w₀, a₀, hw₀, hcall₀, hnonce₀, hgranted₀⟩ := hi
  obtain @⟨t, t', ws, w, w', j, k, hp, -, hn⟩ := hs
  have htrans := trans_of_next hn
  -- a claim without a grant is not the claim at `i`, and its nonce is another one
  have hother : ∀ a, w.granted = none → w.call = .claimEvent a → a.requestNonce ≠ nonce := by
    intro a hnone hcall
    have hij : j ≠ i := by
      rintro rfl
      rw [hp, Option.some.injEq] at hw₀
      rw [hw₀, hgranted₀] at hnone
      cases hnone
    rw [← hnonce₀]
    exact nonce_ne hd hij hp hw₀ hcall hcall₀
  refine ⟨⟨r₀, hr₀, ?_⟩, fun m n hm => ?_⟩
  · rcases htrans.nonce_cases hr₀ hr' with hsame | ⟨hnone, a, hcall, hra⟩
    · rw [← hsame, hnonce]
    · exact absurd (hra.symm.trans hnonce) (hother a hnone hcall)
  · rcases grantedTo_of_step hp htrans hm with hbefore | ⟨hnone, a, r₁, hcall, hr₁, hra⟩
    · exact hbefore
    · rw [hr', Option.some.injEq] at hr₁
      rw [← hr₁] at hra
      exact absurd (hra.symm.trans hnonce) (hother a hnone hcall)

theorem no_grant_while_held (ha : Accounted c) (hd : DistinctNonces (calls c)) (hi : GrantedTo i id nonce c)
    (hr : Reaches next c c') (hr' : c'.shared.get id = some r') (hnonce : r'.requestNonce = nonce) :
    ∀ m n, GrantedTo m id n c' → GrantedTo m id n c := by
  induction hr generalizing r' with
  | refl => exact fun _ _ h => h
  | @tail b c'' hcb hs ih =>
    have hib : GrantedTo i id nonce b := grantedTo_of_reaches hcb hi
    have hdb : DistinctNonces (calls b) := by
      rw [calls_of_reaches hcb]
      exact hd
    obtain ⟨⟨r, hrb, hn⟩, hgrants⟩ := no_grant_step (accounted_of_reaches hcb ha) hdb hib hs hr' hnonce
    intro m n hm
    exact ih hrb hn m n (hgrants m n hm)

theorem next_of_not_held (hlease : w.call.lease = some (id, nonce))
    (hfree : ∀ r, t.get id = some r → r.requestNonce ≠ nonce) (h : next i t w k = some (t', w')) :
    t' = t ∧ w'.phase ≠ .finished (.updated true) := by
  rw [next_eq (unfinished_of_next h)] at h
  split at h
  · cases h
    exact ⟨rfl, by simp⟩
  split at h
  · rename_i a hcall
    rw [hcall] at hlease
    cases hlease
  rw [nextUpdate_eq, hlease] at h
  simp only [Option.map_some, Option.some.injEq, updateHeld] at h
  rcases updateById_cases id (EventRow.heldBy nonce) (w.call.written k.now) t
    with ⟨r, hget, hheld, -⟩ | ⟨-, heq⟩
  · simp only [EventRow.heldBy, decide_eq_true_eq] at hheld
    exact absurd hheld.2 (hfree r hget)
  · rw [heq] at h
    cases h
    exact ⟨rfl, by simp⟩

/-- Under distinct nonces: one completion for good, `attempts` counts the grants, and an earlier
nonce has no effect. -/
theorem event_lease_safe {c₀ c c' c'' : Conf Events Worker} (h₀ : Initial c₀)
    (hd : DistinctNonces (calls c₀)) (hr : Reaches next c₀ c) (hr' : Reaches next c c')
    (hr'' : Reaches next c' c'') :
    (∀ id r, c.shared.get id = some r → r.status = .completed → c'.shared.get id = some r) ∧
      (∀ id, completions id c.procs ≤ 1) ∧
      (∀ id r, c.shared.get id = some r → r.attempts = grants id c.procs) ∧
      ∀ i j id nonce nonce', GrantedTo i id nonce c → ¬ GrantedTo j id nonce' c →
        GrantedTo j id nonce' c' → ∀ m w k t' w', c''.procs[m]? = some w →
          w.call.lease = some (id, nonce) → next m c''.shared w k = some (t', w') →
          t' = c''.shared ∧ w'.phase ≠ .finished (.updated true) := by
  have hacc := accounted_of_reaches hr (accounted_initial h₀)
  refine ⟨fun id r hget hc => ?_, fun id => ?_, fun id r hget => ?_, ?_⟩
  · obtain ⟨r', hget', hkept⟩ := row_kept_of_reaches hr' hget
    rw [hget', hkept.completed hc]
  · have hrow := hacc id
    cases hget : c.shared.get id with
    | none =>
      rw [hget] at hrow
      rw [hrow.2]
      exact Nat.zero_le 1
    | some r =>
      rw [hget] at hrow
      rw [hrow.2]
      split <;> omega
  · have hrow := hacc id
    rw [hget] at hrow
    exact hrow.1
  · intro i j id nonce nonce' hi hj hj' m w k t' w' hw hlease hn
    apply next_of_not_held hlease ?_ hn
    intro r hget hnonce
    have hdc : DistinctNonces (calls c) := by
      rw [calls_of_reaches hr]
      exact hd
    have hj'' : GrantedTo j id nonce' c'' := grantedTo_of_reaches hr'' hj'
    exact hj (no_grant_while_held hacc hdc hi (hr'.trans hr'') hget hnonce j nonce' hj'')

def sampleClaim (nonce : String) : Claim := ⟨"conn", "event", "hash", nonce, .private_, "chat", "sender", 10⟩

def sampleStart : Conf Events Worker where
  shared := KeyedTable.empty
  procs :=
    [⟨.claimEvent (sampleClaim "a"), .start⟩, ⟨.claimEvent (sampleClaim "b"), .start⟩,
      ⟨.completeEvent "row" "b" .null, .start⟩, ⟨.completeEvent "row" "a" .null, .start⟩]

def sampleGranted : Conf Events Worker := (runSchedule next sampleStart [(0, ⟨0, "row", false⟩)]).getD sampleStart

def sampleTakenOver : Conf Events Worker :=
  (runSchedule next sampleGranted
    [(1, ⟨10, "other", false⟩), (1, ⟨10, "other", false⟩), (1, ⟨10, "other", false⟩)]).getD sampleStart

theorem event_lease_safe_takeover :
    Reaches next sampleStart sampleGranted ∧ Reaches next sampleGranted sampleTakenOver ∧
      GrantedTo 0 "row" "a" sampleGranted ∧ ¬ GrantedTo 1 "row" "b" sampleGranted ∧
      GrantedTo 1 "row" "b" sampleTakenOver ∧
      ∀ t' w', next 3 sampleTakenOver.shared ⟨.completeEvent "row" "a" .null, .start⟩ ⟨11, "", false⟩ =
        some (t', w') → t' = sampleTakenOver.shared ∧ w'.phase ≠ .finished (.updated true) := by
  have hs : runSchedule next sampleStart [(0, ⟨0, "row", false⟩)] = some sampleGranted := rfl
  have hs' : runSchedule next sampleGranted
      [(1, ⟨10, "other", false⟩), (1, ⟨10, "other", false⟩), (1, ⟨10, "other", false⟩)] =
      some sampleTakenOver := rfl
  have hr := reaches_of_runSchedule hs
  have hr' := reaches_of_runSchedule hs'
  have h₀ : Initial sampleStart := ⟨rfl, by simp [sampleStart]⟩
  have hd : DistinctNonces (calls sampleStart) := by
    simp [DistinctNonces, calls, sampleStart, sampleClaim]
  have hi : GrantedTo 0 "row" "a" sampleGranted := ⟨_, sampleClaim "a", rfl, rfl, rfl, rfl⟩
  have hj : ¬ GrantedTo 1 "row" "b" sampleGranted := by
    rintro ⟨w, a, hw, -, -, hg⟩
    cases hw
    cases hg
  have hj' : GrantedTo 1 "row" "b" sampleTakenOver := ⟨_, sampleClaim "b", rfl, rfl, rfl, rfl⟩
  refine ⟨hr, hr', hi, hj, hj', fun t' w' hn => ?_⟩
  have hsafe := event_lease_safe h₀ hd hr hr' .refl
  exact hsafe.2.2.2 0 1 "row" "a" "b" hi hj hj' 3 _ _ t' w' rfl rfl hn

end RyanAI.Backend.EventLease
