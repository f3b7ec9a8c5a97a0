import RyanAI.Gateway.StateStore
import RyanAI.Lib.Program

/-!
# Handling an inbound event

`handleSafely` of `gateway.ts` claims an event in the state store, waits for the fair queue and for the queue of its
conversation, and then delivers it: a program that asks its environment for the store, the queues, the transport and the
clock. Metrics and logging are left out. `handle` returns its promise, also to deliveries of the same event that arrive
before it settles.

A claimed event should be completed or released when the promise settles. A rejection by the fair queue is a
`QueueAdmissionError`, which completes the event. A rejection by the queue of the conversation is a plain `Error`; the
outer handler answers the event and leaves its claim behind, also when a request to the store fails.
-/

namespace RyanAI.Gateway

open RyanAI.Lib

/-! ## Environment -/

inductive StoreAnswer (α : Type) where
  | ok (value : α)
  | failed (applied : Bool)

namespace StoreAnswer

variable {α : Type}

def isOk : StoreAnswer α → Bool
  | .ok _ => true
  | .failed _ => false

def applied : StoreAnswer α → Bool
  | .ok _ => true
  | .failed applied => applied

end StoreAnswer

/-- A `RyanAiTransportError` with its code, or another error. -/
inductive SendError where
  | transport (code : String)
  | failure

def SendError.thrown : SendError → Thrown
  | .transport code => .transport code
  | .failure => .failure

/-- `fence` is `staleFenceHandler`, whose errors are only logged. -/
inductive Effect where
  | now
  | store (r : Request)
  | fairQueue (connectionId : String) (bytes : Nat)
  | serialQueue (key : String)
  | send (event : GatewayInboundEvent)
  | fence (shardId : String)

@[reducible]
def Effect.Answer : Effect → Type
  | .now => ℤ
  | .store r => StoreAnswer r.Value
  | .fairQueue _ _ => Except AdmissionCode Unit
  | .serialQueue _ => Except SerialError Unit
  | .send _ => Except SendError RyanAiResult
  | .fence _ => Unit

abbrev Handler (α : Type) := Program Effect.Answer Thrown α

abbrev Trace := List ((e : Effect) × e.Answer)

namespace Handler

variable {α : Type}

def lift : Except Thrown α → Handler α := Program.done

/-- `GatewayStateStore.send`. -/
def request (r : Request) : Handler r.Value :=
  .ask (.store r) fun
    | .ok value => .done (.ok value)
    | .failed _ => .done (.error .store)

def claimEvent (key : String) : Handler ReplayClaim := do
  let now ← Program.perform .now
  request (.claimEvent key now)

def completeEvent (key : String) (reply : GatewayReply) : Handler Unit := do
  let now ← Program.perform .now
  request (.completeEvent key reply.stored now)

def releaseEvent (key : String) : Handler Unit := request (.releaseEvent key)

/-- `fairQueue.run`, up to the end of the task. -/
def runFair (connectionId : String) (bytes : Nat) (task : Handler α) : Handler α :=
  .ask (.fairQueue connectionId bytes) fun
    | .ok _ => task
    | .error code => .done (.error (.admission code))

/-- `serialQueue.run`, up to the end of the task. -/
def runSerial (key : String) (task : Handler α) : Handler α :=
  .ask (.serialQueue key) fun
    | .ok _ => task
    | .error error => .done (.error (.serial error))

def send (event : GatewayInboundEvent) : Handler RyanAiResult :=
  .ask (.send event) fun
    | .ok result => .done (.ok result)
    | .error error => .done (.error error.thrown)

end Handler

/-! ## The gateway -/

section Handling

variable (cfg : Config)

/-- The status of an error code of the form `http_503`. -/
def statusCode (code : String) : Option Nat :=
  match code.toList with
  | ['h', 't', 't', 'p', '_', a, b, c] =>
    if a.isDigit && b.isDigit && c.isDigit then
      some (100 * (a.toNat - 48) + 10 * (b.toNat - 48) + (c.toNat - 48))
    else none
  | _ => none

/-- `error instanceof RyanAiTransportError && error.retryable`. -/
def retryable : Thrown → Bool
  | .transport code =>
    code = "timeout" || code = "network_error" ||
      (statusCode code).any fun status => status = 408 || status = 425 || status = 429 || 500 ≤ status
  | _ => false

def isGroup (event : GatewayInboundEvent) : Bool := event.conversation.type = .group

def groupKey (event : GatewayInboundEvent) : GroupKey := ⟨event.channel, event.connectionId, event.conversation.id⟩

def discoverGroup (event : GatewayInboundEvent) : Handler Unit :=
  if isGroup event then
    let name := event.conversation.name.filter fun name => !name.isEmpty
    Handler.request (.upsertGroup (groupKey event) ⟨false, name, event.occurredAt⟩)
  else pure ()

def groupDisabled (event : GatewayInboundEvent) : Handler Bool :=
  if isGroup event then do
    let group ← Handler.request (.getGroup (groupKey event))
    return !(Option.any GroupRow.enabled group)
  else pure false

def replyTo (event : GatewayInboundEvent) (result : RyanAiResult) : Except Thrown GatewayReply := do
  let all := match result.messages with
    | some (message :: rest) => message :: rest
    | _ => result.text.toList
  let messages := all.filter fun message => !message.isEmpty
  if messages.isEmpty then return ignored event.eventId
  let chunks ← messages.mapM fun message => chunkText message (cfg.replyChunkChars event.channel)
  return ⟨event.eventId, chunks.flatten, false, false, .ryanai⟩

def finishWith (replayKey : String) (reply : GatewayReply) : Handler GatewayReply := do
  Handler.completeEvent replayKey reply
  return reply

def staleShard (event : GatewayInboundEvent) : Thrown → Option String
  | .transport code =>
    if code = "stale_fence" then event.shardId.filter fun shardId => !shardId.isEmpty else none
  | _ => none

/-- What the `catch` of `handleClaimedSerial` does, with what follows it. -/
def recover (event : GatewayInboundEvent) (replayKey : String) (error : Thrown) : Handler GatewayReply :=
  match staleShard event error with
  | some shardId => do
    let reply ← finishWith replayKey (ignored event.eventId)
    let _ ← Program.perform (Effect.fence shardId)
    return reply
  | none => do
    let reply ← Handler.lift (safeError cfg event.eventId event.channel false)
    if retryable error then
      Handler.releaseEvent replayKey
      return reply
    else finishWith replayKey reply

def deliver (event : GatewayInboundEvent) (replayKey : String) : Handler GatewayReply :=
  let attempt : Handler GatewayReply := do
    let result ← Handler.send event
    Handler.lift (replyTo cfg event result)
  attempt.andThen fun
    | .ok reply => finishWith replayKey reply
    | .error error => recover cfg event replayKey error

/-- `handleClaimedSerial`. -/
def handleClaimedSerial (event : GatewayInboundEvent) (replayKey : String) : Handler GatewayReply := do
  discoverGroup event
  if isGroup event && !event.message.mentionsBot then finishWith replayKey (ignored event.eventId)
  else
    let disabled ← groupDisabled event
    if disabled then finishWith replayKey (ignored event.eventId)
    else deliver cfg event replayKey

def handleClaimed (event : GatewayInboundEvent) (replayKey : String) : Handler GatewayReply :=
  tryCatch
    (Handler.runFair event.connectionId (eventPayloadBytes event)
      (Handler.runSerial (conversationKey event) (handleClaimedSerial cfg event replayKey)))
    fun error =>
      match error with
      | .admission _ => do
        let reply ← Handler.lift (safeError cfg event.eventId event.channel false)
        finishWith replayKey reply
      | error => throw error

variable (validateEvent : GatewayInboundEvent → Except Thrown GatewayInboundEvent)

/-- The body of the outer `try` of `handleSafely`. -/
def handleValidated (input : GatewayInboundEvent) : Handler GatewayReply := do
  let event ← Handler.lift (validateEvent input)
  let replayKey := eventKey event
  match ← Handler.claimEvent replayKey with
  | .completed reply => return ⟨event.eventId, reply.chunks, reply.isError, true, .replay⟩
  | .processing => Handler.lift (safeError cfg event.eventId event.channel true)
  | .new => handleClaimed cfg event replayKey

/-- `handleSafely`. -/
def handleSafely (input : GatewayInboundEvent) : Handler GatewayReply :=
  tryCatch (handleValidated cfg validateEvent input) fun _ =>
    let eventId := if input.eventId.isEmpty then "unknown" else input.eventId
    Handler.lift (safeError cfg eventId input.channel false)

end Handling

/-! ## Ending a claim -/

def applied (trace : Trace) : List Request :=
  trace.filterMap fun
    | ⟨.store r, answer⟩ => if answer.applied then some r else none
    | _ => none

def fails : (e : Effect) × e.Answer → Bool
  | ⟨.serialQueue _, .error _⟩ => true
  | ⟨.store r, answer⟩ => if r.aboutGroup then !answer.isOk else !answer.applied
  | _ => false

def EndsClaim (key : String) (result : Except Thrown GatewayReply) : (e : Effect) × e.Answer → Prop
  | ⟨.store (.completeEvent eventId stored _), answer⟩ =>
    eventId = key ∧ answer.applied = true ∧ (answer.isOk = true → ∃ reply, result = .ok reply ∧ stored = reply.stored)
  | ⟨.store (.releaseEvent eventId), answer⟩ => eventId = key ∧ answer.applied = true
  | _ => False

def Ended (key : String) (reply : GatewayReply) (trace : Trace) : Prop := ∃ s ∈ trace, EndsClaim key (.ok reply) s

def Redeliverable (ttl : Nat) (key : String) (trace : Trace) : Prop :=
  ∀ (st : Store) (rs : List Request) (now : ℤ), (applied trace).Sublist rs →
    rs.countP (Request.claims key) = 1 →
    ((st.after ttl rs).claimEvent ttl key now).1 ≠ .processing

def Quiet (trace : Trace) : Prop := (∀ s ∈ trace, fails s = false) ∧ ∀ r ∈ applied trace, r.aboutGroup = true

inductive Verdict (key : String) (trace : Trace) (result : Except Thrown GatewayReply) : Prop
  | ended : (∀ s ∈ trace, fails s = false) → (∃ s ∈ trace, EndsClaim key result s) → Verdict key trace result
  | left : (∃ s ∈ trace, fails s = true) → (∀ r ∈ applied trace, r.aboutGroup = true) → Verdict key trace result

theorem applied_append (before after : Trace) : applied (before ++ after) = applied before ++ applied after :=
  List.filterMap_append

theorem quiet_nil : Quiet [] := by
  refine ⟨?_, ?_⟩
  · intro s hs
    cases hs
  · intro r hr
    cases hr

theorem Quiet.append {before after : Trace} (h : Quiet before) (h' : Quiet after) : Quiet (before ++ after) := by
  refine ⟨?_, ?_⟩
  · intro s hs
    rcases List.mem_append.1 hs with hs | hs
    · exact h.1 s hs
    · exact h'.1 s hs
  · intro r hr
    rw [applied_append] at hr
    rcases List.mem_append.1 hr with hr | hr
    · exact h.2 r hr
    · exact h'.2 r hr

variable {key : String} {result : Except Thrown GatewayReply} {after trace : Trace} {r : Request}
    {reply : GatewayReply} {α : Type} {cfg : Config} {event : GatewayInboundEvent}

theorem Verdict.prepend (hq : Quiet before) (h : Verdict key after result) : Verdict key (before ++ after) result := by
  cases h with
  | ended hno hends =>
    obtain ⟨s, hs, hs'⟩ := hends
    refine .ended ?_ ⟨s, List.mem_append_right before hs, hs'⟩
    intro t ht
    rcases List.mem_append.1 ht with ht | ht
    · exact hq.1 t ht
    · exact hno t ht
  | left hfail hgroups =>
    obtain ⟨s, hs, hs'⟩ := hfail
    refine .left ⟨s, List.mem_append_right before hs, hs'⟩ ?_
    intro r hr
    rw [applied_append] at hr
    rcases List.mem_append.1 hr with hr | hr
    · exact hq.2 r hr
    · exact hgroups r hr

/-! ### Requests -/

theorem runs_request {result : Except Thrown r.Value} : Program.Runs (Handler.request r) trace result ↔
      ∃ answer : StoreAnswer r.Value, trace = [⟨.store r, answer⟩] ∧
        result = match answer with
          | .ok value => .ok value
          | .failed _ => .error .store := by
  simp only [Handler.request, Program.runs_ask]
  constructor
  · rintro ⟨answer, rest, rfl, hrest⟩
    cases answer with
    | ok value =>
      obtain ⟨rfl, rfl⟩ := Program.runs_done.1 hrest
      exact ⟨.ok value, rfl, rfl⟩
    | failed reached =>
      obtain ⟨rfl, rfl⟩ := Program.runs_done.1 hrest
      exact ⟨.failed reached, rfl, rfl⟩
  · rintro ⟨answer, rfl, rfl⟩
    refine ⟨answer, [], rfl, ?_⟩
    cases answer <;> exact .done _

theorem runs_completeEvent {result : Except Thrown Unit}
    (h : Program.Runs (Handler.completeEvent key reply) trace result) :
    ∃ (now : ℤ) (answer : StoreAnswer Unit),
      trace = [⟨.now, now⟩, ⟨.store (.completeEvent key reply.stored now), answer⟩] ∧
        result = if answer.isOk then .ok () else .error .store := by
  rcases Program.runs_bind.1 h with ⟨err, hnow, -⟩ | ⟨before, now, after, rfl, hnow, hreq⟩
  · obtain ⟨_, -, heq⟩ := Program.runs_perform.1 hnow
    cases heq
  obtain ⟨_, rfl, heq⟩ := Program.runs_perform.1 hnow
  cases heq
  obtain ⟨answer, rfl, rfl⟩ := runs_request.1 hreq
  refine ⟨now, answer, rfl, ?_⟩
  cases answer <;> rfl

theorem quiet_singleton (hfails : fails s = false) (happlied : applied [s] = []) : Quiet [s] := by
  refine ⟨?_, ?_⟩
  · intro t ht
    rw [List.mem_singleton.1 ht]
    exact hfails
  · intro r hr
    rw [happlied] at hr
    cases hr

theorem verdict_of_request (hr : r.aboutGroup = false)
    (hafter : Quiet after) (hends : answer.applied = true → EndsClaim key result ⟨.store r, answer⟩) :
    Verdict key (⟨.store r, answer⟩ :: after) result := by
  -- a request that is not about a group fails if it does not reach the store
  have hfails : fails ⟨.store r, answer⟩ = !answer.applied := by simp [fails, hr]
  cases happlied : answer.applied with
  | true =>
    refine .ended ?_ ⟨_, List.mem_cons_self, hends happlied⟩
    intro s hs
    rcases List.mem_cons.1 hs with rfl | hs
    · rw [hfails, happlied]
      rfl
    · exact hafter.1 s hs
  | false =>
    refine .left ⟨_, List.mem_cons_self, by rw [hfails, happlied]; rfl⟩ ?_
    have hnot : applied (⟨.store r, answer⟩ :: after) = applied after := by
      simp [applied, happlied]
    rw [hnot]
    exact hafter.2

structure Handled (key : String) (trace : Trace) (result : Except Thrown GatewayReply) : Prop where
  verdict : Verdict key trace result
  thrown : ∀ err, result = .error err → err = .store

theorem Handled.prepend (hq : Quiet before) (h : Handled key after result) : Handled key (before ++ after) result :=
  ⟨h.verdict.prepend hq, h.thrown⟩

theorem handled_complete (key : String) (reply : GatewayReply) (now : ℤ) (answer : StoreAnswer Unit)
    (hafter : Quiet after) :
    Handled key (⟨.now, now⟩ :: ⟨.store (.completeEvent key reply.stored now), answer⟩ :: after)
      (if answer.isOk then .ok reply else .error .store) := by
  have htail : Handled key (⟨.store (.completeEvent key reply.stored now), answer⟩ :: after)
      (if answer.isOk then .ok reply else .error .store) := by
    refine ⟨verdict_of_request rfl hafter ?_, ?_⟩
    · intro happlied
      refine ⟨rfl, happlied, ?_⟩
      intro hok
      exact ⟨reply, if_pos hok, rfl⟩
    · intro err herr
      split at herr
      · cases herr
      · cases herr
        rfl
  exact htail.prepend (quiet_singleton rfl rfl)

theorem runs_finishWith (h : Program.Runs (finishWith key reply) trace result) :
    ∃ (now : ℤ) (answer : StoreAnswer Unit),
      trace = [⟨.now, now⟩, ⟨.store (.completeEvent key reply.stored now), answer⟩] ∧
        result = if answer.isOk then .ok reply else .error .store := by
  rcases Program.runs_bind.1 h with ⟨err, hcomplete, rfl⟩ | ⟨before, _, after, rfl, hcomplete, hret⟩
  · obtain ⟨now, answer, rfl, hresult⟩ := runs_completeEvent hcomplete
    refine ⟨now, answer, rfl, ?_⟩
    -- a completion throws only if it was not acknowledged
    cases hok : answer.isOk <;> rw [hok] at hresult <;> cases hresult
    rfl
  · obtain ⟨now, answer, rfl, hresult⟩ := runs_completeEvent hcomplete
    obtain ⟨rfl, rfl⟩ := Program.runs_pure.1 hret
    refine ⟨now, answer, List.append_nil _, ?_⟩
    cases hok : answer.isOk <;> rw [hok] at hresult <;> cases hresult
    rfl

theorem handled_finishWith (h : Program.Runs (finishWith key reply) trace result) : Handled key trace result := by
  obtain ⟨now, answer, rfl, rfl⟩ := runs_finishWith h
  exact handled_complete key reply now answer quiet_nil

theorem handled_release (h : Program.Runs (Handler.releaseEvent key >>= fun _ => pure reply) trace result) :
    Handled key trace result := by
  rcases Program.runs_bind.1 h with ⟨err, hrelease, rfl⟩ | ⟨before, _, after, rfl, hrelease, hret⟩
  · obtain ⟨answer, rfl, hresult⟩ := runs_request.1 hrelease
    refine ⟨verdict_of_request rfl quiet_nil fun happlied => ⟨rfl, happlied⟩, ?_⟩
    intro err' herr
    cases herr
    cases answer <;> cases hresult
    rfl
  · obtain ⟨answer, rfl, -⟩ := runs_request.1 hrelease
    obtain ⟨rfl, rfl⟩ := Program.runs_pure.1 hret
    refine ⟨verdict_of_request rfl quiet_nil fun happlied => ⟨rfl, happlied⟩, ?_⟩
    intro err' herr
    cases herr

theorem runs_fence (h : Program.Runs (Program.perform (Effect.fence shardId) >>= fun _ => (pure reply : Handler _))
      trace result) : ∃ answer, trace = [⟨.fence shardId, answer⟩] ∧ result = .ok reply := by
  rcases Program.runs_bind.1 h with ⟨err, hfence, -⟩ | ⟨before, _, after, rfl, hfence, hret⟩
  · obtain ⟨_, -, heq⟩ := Program.runs_perform.1 hfence
    cases heq
  · obtain ⟨answer, rfl, -⟩ := Program.runs_perform.1 hfence
    obtain ⟨rfl, rfl⟩ := Program.runs_pure.1 hret
    exact ⟨answer, rfl, rfl⟩

theorem runs_lift {x : Except Thrown α} {result : Except Thrown α}
    (h : Program.Runs (Handler.lift x) trace result) : trace = [] ∧ result = x :=
  Program.runs_done.1 h

theorem runs_safeError {f : GatewayReply → Handler GatewayReply}
    (h : Program.Runs (Handler.lift (safeError cfg eventId channel replayed) >>= f) trace result) :
    ∃ reply, Program.Runs (f reply) trace result := by
  obtain ⟨reply, hreply⟩ := safeError_ok cfg eventId channel replayed
  rw [hreply] at h
  exact ⟨reply, h⟩

theorem handled_recover (h : Program.Runs (recover cfg event key error) trace result) : Handled key trace result := by
  rw [recover] at h
  split at h
  · rename_i shardId _
    -- the event is completed before the shard is stopped
    rcases Program.runs_bind.1 h with ⟨err, hfinish, rfl⟩ | ⟨before, reply, after, rfl, hfinish, hrest⟩
    · exact handled_finishWith hfinish
    obtain ⟨answer, rfl, rfl⟩ := runs_fence hrest
    obtain ⟨now, stored, rfl, hresult⟩ := runs_finishWith hfinish
    have hfence : Quiet [⟨.fence shardId, answer⟩] := quiet_singleton rfl rfl
    have hhandled := handled_complete key (ignored event.eventId) now stored hfence
    rw [← hresult] at hhandled
    exact hhandled
  · obtain ⟨reply, hreply⟩ := runs_safeError h
    split at hreply
    · exact handled_release hreply
    · exact handled_finishWith hreply

theorem runs_send {result : Except Thrown RyanAiResult} (h : Program.Runs (Handler.send event) trace result) :
    ∃ answer, trace = [⟨.send event, answer⟩] := by
  obtain ⟨answer, rest, rfl, hrest⟩ := Program.runs_ask.1 h
  cases answer <;> obtain ⟨rfl, -⟩ := Program.runs_done.1 hrest <;> exact ⟨_, rfl⟩

theorem quiet_attempt (h : Program.Runs (Handler.send event >>= fun r => Handler.lift (replyTo cfg event r)) trace
      result) : Quiet trace := by
  rcases Program.runs_bind.1 h with ⟨err, hsend, -⟩ | ⟨before, _, after, rfl, hsend, hreply⟩
  · obtain ⟨answer, rfl⟩ := runs_send hsend
    exact quiet_singleton rfl rfl
  · obtain ⟨answer, rfl⟩ := runs_send hsend
    obtain ⟨rfl, -⟩ := runs_lift hreply
    exact quiet_singleton rfl rfl

theorem handled_deliver (h : Program.Runs (deliver cfg event key) trace result) : Handled key trace result := by
  obtain ⟨before, mid, after, rfl, hattempt, hrest⟩ := Program.runs_andThen.1 h
  -- whatever the attempt has led to, the claim is ended after it
  apply Handled.prepend (quiet_attempt hattempt)
  cases mid with
  | ok reply => exact handled_finishWith hrest
  | error error => exact handled_recover hrest

/-! ### The group -/

theorem quiet_or_left (hr : r.aboutGroup = true) (answer : StoreAnswer r.Value) :
    (answer.isOk = true ∧ Quiet [⟨.store r, answer⟩]) ∨
      (answer.isOk = false ∧ Handled key [⟨.store r, answer⟩] (.error .store)) := by
  have hfails : fails ⟨.store r, answer⟩ = !answer.isOk := by simp [fails, hr]
  have hgroups : ∀ r' ∈ applied [⟨.store r, answer⟩], r'.aboutGroup = true := by
    intro r' hr'
    simp only [applied, List.filterMap_cons, List.filterMap_nil] at hr'
    cases happlied : answer.applied with
    | true =>
      simp only [happlied, if_true, List.mem_singleton] at hr'
      rw [hr']
      exact hr
    | false => simp [happlied] at hr'
  cases hok : answer.isOk with
  | true =>
    refine Or.inl ⟨rfl, ?_, hgroups⟩
    intro s hs
    rw [List.mem_singleton.1 hs, hfails, hok]
    rfl
  | false =>
    refine Or.inr ⟨rfl, ⟨.left ⟨_, List.mem_cons_self, by rw [hfails, hok]; rfl⟩ hgroups, ?_⟩⟩
    intro err herr
    cases herr
    rfl

def Preliminary {α : Type} (key : String) (p : Handler α) : Prop :=
  ∀ (trace : Trace) (result : Except Thrown α), Program.Runs p trace result →
    (∃ a, result = .ok a ∧ Quiet trace) ∨ (result = .error .store ∧ Handled key trace (.error .store))

theorem Preliminary.handled {f : α → Handler GatewayReply} (hp : Preliminary key p)
    (hf : ∀ (a : α) (trace : Trace) (result : Except Thrown GatewayReply),
      Program.Runs (f a) trace result → Handled key trace result)
    (h : Program.Runs (p >>= f) trace result) : Handled key trace result := by
  rcases Program.runs_bind.1 h with ⟨err, hfirst, rfl⟩ | ⟨before, a, after, rfl, hfirst, hrest⟩
  · rcases hp _ _ hfirst with ⟨a, heq, -⟩ | ⟨heq, hhandled⟩
    · cases heq
    · cases heq
      exact hhandled
  · rcases hp _ _ hfirst with ⟨a', -, hquiet⟩ | ⟨heq, -⟩
    · exact (hf a _ _ hrest).prepend hquiet
    · cases heq

theorem preliminary_pure (key : String) (a : α) : Preliminary key (pure a) := by
  intro trace result h
  obtain ⟨rfl, rfl⟩ := Program.runs_pure.1 h
  exact Or.inl ⟨a, rfl, quiet_nil⟩

theorem preliminary_request (key : String) (hr : r.aboutGroup = true) : Preliminary key (Handler.request r) := by
  intro trace result h
  obtain ⟨answer, rfl, rfl⟩ := runs_request.1 h
  rcases quiet_or_left hr answer with ⟨hok, hquiet⟩ | ⟨hok, hhandled⟩
  · cases answer with
    | ok value => exact Or.inl ⟨value, rfl, hquiet⟩
    | failed reached => cases hok
  · cases answer with
    | ok value => cases hok
    | failed reached => exact Or.inr ⟨rfl, hhandled⟩

theorem Preliminary.map {β : Type} (hp : Preliminary key p) (g : α → β) :
    Preliminary key (p >>= fun a => pure (g a)) := by
  intro trace result h
  rcases Program.runs_bind.1 h with ⟨err, hfirst, rfl⟩ | ⟨before, a, after, rfl, hfirst, hret⟩
  · rcases hp _ _ hfirst with ⟨a, heq, -⟩ | ⟨heq, hhandled⟩
    · cases heq
    · cases heq
      exact Or.inr ⟨rfl, hhandled⟩
  · obtain ⟨rfl, rfl⟩ := Program.runs_pure.1 hret
    rcases hp _ _ hfirst with ⟨a', -, hquiet⟩ | ⟨heq, -⟩
    · exact Or.inl ⟨g a, rfl, hquiet.append quiet_nil⟩
    · cases heq

theorem preliminary_discoverGroup (key : String) (event : GatewayInboundEvent) :
    Preliminary key (discoverGroup event) := by
  cases hgroup : isGroup event with
  | true =>
    simp only [discoverGroup, hgroup]
    exact preliminary_request key rfl
  | false =>
    simp only [discoverGroup, hgroup]
    exact preliminary_pure key ()

theorem preliminary_groupDisabled (key : String) (event : GatewayInboundEvent) :
    Preliminary key (groupDisabled event) := by
  rw [groupDisabled]
  split
  · exact (preliminary_request key rfl).map _
  · exact preliminary_pure key false

theorem handled_handleClaimedSerial (h : Program.Runs (handleClaimedSerial cfg event key) trace result) :
    Handled key trace result := by
  -- discovering the group, and looking it up, come before any branch that ends the claim
  refine (preliminary_discoverGroup key event).handled ?_ h
  intro _ trace result hrest
  split at hrest
  · exact handled_finishWith hrest
  refine (preliminary_groupDisabled key event).handled ?_ hrest
  intro disabled trace result hrest
  split at hrest
  · exact handled_finishWith hrest
  · exact handled_deliver hrest

theorem runs_runFair {connectionId : String} {bytes : Nat} {task : Handler α} {result : Except Thrown α}
    (h : Program.Runs (Handler.runFair connectionId bytes task) trace result) :
    ∃ answer rest, trace = ⟨.fairQueue connectionId bytes, answer⟩ :: rest ∧
      ((∃ code, answer = .error code ∧ rest = [] ∧ result = .error (.admission code)) ∨
        Program.Runs task rest result) := by
  obtain ⟨answer, rest, rfl, hrest⟩ := Program.runs_ask.1 h
  refine ⟨answer, rest, rfl, ?_⟩
  cases answer with
  | ok _ => exact Or.inr hrest
  | error code =>
    obtain ⟨rfl, rfl⟩ := Program.runs_done.1 hrest
    exact Or.inl ⟨code, rfl, rfl, rfl⟩

theorem runs_runSerial {task : Handler α} {result : Except Thrown α}
    (h : Program.Runs (Handler.runSerial key task) trace result) :
    (∃ error, trace = [⟨.serialQueue key, .error error⟩] ∧ result = .error (.serial error)) ∨
      ∃ rest, trace = ⟨.serialQueue key, .ok ()⟩ :: rest ∧ Program.Runs task rest result := by
  obtain ⟨answer, rest, rfl, hrest⟩ := Program.runs_ask.1 h
  cases answer with
  | ok _ => exact Or.inr ⟨rest, rfl, hrest⟩
  | error error =>
    obtain ⟨rfl, rfl⟩ := Program.runs_done.1 hrest
    exact Or.inl ⟨error, rfl, rfl⟩

theorem verdict_runSerial (h : Program.Runs (Handler.runSerial conversation (handleClaimedSerial cfg event key)) trace
      result) : Verdict key trace result ∧ ∀ code, result ≠ .error (.admission code) := by
  rcases runs_runSerial h with ⟨error, rfl, rfl⟩ | ⟨rest, rfl, hrest⟩
  · refine ⟨.left ⟨_, List.mem_cons_self, rfl⟩ ?_, ?_⟩
    · intro r hr
      cases hr
    · intro code hcode
      cases hcode
  · have hhandled := handled_handleClaimedSerial hrest
    have hturn : Quiet [⟨.serialQueue conversation, .ok ()⟩] := quiet_singleton rfl rfl
    refine ⟨hhandled.verdict.prepend hturn, ?_⟩
    intro code hcode
    cases hhandled.thrown _ hcode

theorem verdict_handleClaimed (h : Program.Runs (handleClaimed cfg event key) trace result) :
    Verdict key trace result := by
  have hfair : ∀ answer,
      Quiet [⟨.fairQueue event.connectionId (eventPayloadBytes event), answer⟩] :=
    fun _ => quiet_singleton rfl rfl
  rcases Program.runs_tryCatch.1 h with ⟨reply, htry, rfl⟩ | ⟨before, err, after, rfl, htry, hcatch⟩
  · obtain ⟨answer, rest, rfl, ⟨code, -, -, heq⟩ | hrest⟩ := runs_runFair htry
    · cases heq
    · exact (verdict_runSerial hrest).1.prepend (hfair answer)
  obtain ⟨answer, rest, rfl, ⟨code, -, rfl, heq⟩ | hrest⟩ := runs_runFair htry
  · -- the fair queue rejects the event, which is completed with the safe error
    cases heq
    obtain ⟨reply, hreply⟩ := runs_safeError hcatch
    exact (handled_finishWith hreply).verdict.prepend (hfair answer)
  -- anything else is thrown again
  obtain ⟨hverdict, hnot⟩ := verdict_runSerial hrest
  have hthrow : after = [] ∧ result = .error err := by
    cases err with
    | admission code => exact absurd rfl (hnot code)
    | _ => exact Program.runs_throw.1 hcatch
  obtain ⟨rfl, rfl⟩ := hthrow
  rw [List.append_nil]
  exact hverdict.prepend (hfair answer)

/-! ## Settled promises -/

theorem runs_claimEvent {result : Except Thrown ReplayClaim} (h : Program.Runs (Handler.claimEvent key) trace result) :
    ∃ (now : ℤ) (answer : StoreAnswer ReplayClaim),
      trace = [⟨.now, now⟩, ⟨.store (.claimEvent key now), answer⟩] ∧
        ((∃ claim, answer = .ok claim ∧ result = .ok claim) ∨
          ∃ reached, answer = .failed reached ∧ result = .error .store) := by
  rcases Program.runs_bind.1 h with ⟨err, hnow, -⟩ | ⟨before, now, after, rfl, hnow, hreq⟩
  · obtain ⟨_, -, heq⟩ := Program.runs_perform.1 hnow
    cases heq
  obtain ⟨_, rfl, heq⟩ := Program.runs_perform.1 hnow
  cases heq
  obtain ⟨answer, rfl, rfl⟩ := runs_request.1 hreq
  refine ⟨now, answer, rfl, ?_⟩
  cases answer with
  | ok claim => exact Or.inl ⟨claim, rfl, rfl⟩
  | failed reached => exact Or.inr ⟨reached, rfl, rfl⟩

def isNewClaim (key : String) : (e : Effect) × e.Answer → Bool
  | ⟨.store (.claimEvent eventId _), .ok .new⟩ => eventId = key
  | _ => false

variable {validateEvent : GatewayInboundEvent → Except Thrown GatewayInboundEvent}

theorem runs_handleValidated (hvalid : validateEvent input = .ok event)
    (h : Program.Runs (handleValidated cfg validateEvent input) trace result)
    (hclaim : ∃ s ∈ trace, isNewClaim (eventKey event) s = true) :
    ∃ (now : ℤ) (rest : Trace),
      trace = ⟨.now, now⟩ :: ⟨.store (.claimEvent (eventKey event) now), .ok .new⟩ :: rest ∧
        Verdict (eventKey event) rest result := by
  have hbody : Program.Runs (Handler.claimEvent (eventKey event) >>= fun claim =>
      match claim with
      | .completed reply => return ⟨event.eventId, reply.chunks, reply.isError, true, .replay⟩
      | .processing => Handler.lift (safeError cfg event.eventId event.channel true)
      | .new => handleClaimed cfg event (eventKey event)) trace result := by
    rw [handleValidated] at h
    rw [hvalid] at h
    exact h
  rcases Program.runs_bind.1 hbody with ⟨err, hask, rfl⟩ | ⟨before, claim, rest, rfl, hask, hnext⟩
  · -- the claim failed
    obtain ⟨now, answer, rfl, ⟨claim, -, heq⟩ | ⟨reached, rfl, -⟩⟩ := runs_claimEvent hask
    · cases heq
    · simp [isNewClaim] at hclaim
  obtain ⟨now, answer, rfl, ⟨claim', rfl, heq⟩ | ⟨reached, -, heq⟩⟩ := runs_claimEvent hask
  · cases heq
    cases claim with
    | completed stored =>
      obtain ⟨rfl, -⟩ := Program.runs_pure.1 hnext
      simp [isNewClaim] at hclaim
    | processing =>
      obtain ⟨rfl, -⟩ := runs_lift hnext
      simp [isNewClaim] at hclaim
    | new => exact ⟨now, rest, rfl, verdict_handleClaimed hnext⟩
  · cases heq

theorem Verdict.of_error (h : Verdict key trace (.error err)) (result : Except Thrown GatewayReply) :
    Verdict key trace result := by
  cases h with
  | left hfail hgroups => exact .left hfail hgroups
  | ended hno hends =>
    obtain ⟨s, hs, hends⟩ := hends
    refine .ended hno ⟨s, hs, ?_⟩
    obtain ⟨e, answer⟩ := s
    cases e with
    | store r =>
      cases r with
      | completeEvent eventId stored now =>
        refine ⟨hends.1, hends.2.1, ?_⟩
        intro hok
        obtain ⟨reply, heq, -⟩ := hends.2.2 hok
        cases heq
      | releaseEvent eventId => exact hends
      | _ => exact hends
    | _ => exact hends

theorem runs_handleSafely
    (hvalid : validateEvent input = .ok event) (h : Program.Runs (handleSafely cfg validateEvent input) trace result)
    (hclaim : ∃ s ∈ trace, isNewClaim (eventKey event) s = true) :
    ∃ (now : ℤ) (rest : Trace) (reply : GatewayReply),
      trace = ⟨.now, now⟩ :: ⟨.store (.claimEvent (eventKey event) now), .ok .new⟩ :: rest ∧
        result = .ok reply ∧ Verdict (eventKey event) rest result := by
  rcases Program.runs_tryCatch.1 h with ⟨reply, htry, rfl⟩ | ⟨before, err, after, rfl, htry, hcatch⟩
  · obtain ⟨now, rest, rfl, hverdict⟩ := runs_handleValidated hvalid htry hclaim
    exact ⟨now, rest, reply, rfl, rfl, hverdict⟩
  obtain ⟨rfl, rfl⟩ := runs_lift hcatch
  rw [List.append_nil] at hclaim ⊢
  obtain ⟨now, rest, rfl, hverdict⟩ := runs_handleValidated hvalid htry hclaim
  -- what was thrown is answered with the safe error, which asks nothing
  obtain ⟨reply, hreply⟩ := safeError_ok cfg
    (if input.eventId.isEmpty then "unknown" else input.eventId) input.channel false
  exact ⟨now, rest, reply, rfl, hreply, hverdict.of_error _⟩

theorem exists_applied_of_endsClaim (hs : s ∈ trace) (hends : EndsClaim key result s) :
    ∃ r ∈ applied trace, r.ends key = true := by
  obtain ⟨e, answer⟩ := s
  cases e with
  | store r =>
    cases r with
    | completeEvent eventId stored now =>
      refine ⟨_, List.mem_filterMap.2 ⟨_, hs, if_pos hends.2.1⟩, ?_⟩
      exact decide_eq_true hends.1
    | releaseEvent eventId =>
      refine ⟨_, List.mem_filterMap.2 ⟨_, hs, if_pos hends.2⟩, ?_⟩
      exact decide_eq_true hends.1
    | _ => cases hends
  | _ => cases hends

theorem redeliverable_of_ends (ttl : Nat) (hr : r ∈ applied rest) (hends : r.ends key = true) :
    Redeliverable ttl key (⟨.now, now⟩ :: ⟨.store (.claimEvent key now), .ok .new⟩ :: rest) := by
  intro st rs now' hsub hcount
  have happlied : applied (⟨.now, now⟩ :: ⟨.store (.claimEvent key now), .ok .new⟩ :: rest) =
      .claimEvent key now :: applied rest := rfl
  rw [happlied] at hsub
  obtain ⟨first, second, rfl, hclaim, hrest⟩ := List.cons_sublist_iff.1 hsub
  -- the claim lies in the first part, so there is none in the second
  have hfirst : 0 < first.countP (Request.claims key) := List.countP_pos_iff.2 ⟨_, hclaim, decide_eq_true rfl⟩
  rw [List.countP_append] at hcount
  have hsecond : second.countP (Request.claims key) = 0 := by omega
  obtain ⟨before, later, hsplit⟩ := List.append_of_mem (hrest.subset hr)
  subst hsplit
  rw [← List.append_assoc]
  apply Store.claimEvent_of_ended ttl now' st hends
  intro r' hr'
  have hnot := List.countP_eq_zero.1 hsecond r' (by simp [hr'])
  simpa using hnot

theorem not_redeliverable_of_left (ttl : Nat) (key : String) (now : ℤ)
    (hgroups : ∀ r ∈ applied rest, r.aboutGroup = true) :
    ¬ Redeliverable ttl key (⟨.now, now⟩ :: ⟨.store (.claimEvent key now), .ok .new⟩ :: rest) := by
  intro h
  -- the requests of the run itself are enough: nothing else reaches an empty store
  have hcount : (Request.claimEvent key now :: applied rest).countP (Request.claims key) = 1 := by
    have hzero : (applied rest).countP (Request.claims key) = 0 := by
      rw [List.countP_eq_zero]
      intro r hr
      have hgroup := hgroups r hr
      cases r <;> simp_all [Request.claims, Request.aboutGroup]
    rw [List.countP_cons, hzero]
    simp [Request.claims]
  exact h .empty _ now (List.Sublist.refl _) hcount (Store.claimEvent_of_claimed ttl key now hgroups)

/-- The claim is completed or released exactly if the queue gave the event its turn and no request
failed. -/
theorem claim_ended_iff (ttl : Nat) (cfg : Config)
    (validateEvent : GatewayInboundEvent → Except Thrown GatewayInboundEvent)
    {input event : GatewayInboundEvent} (hvalid : validateEvent input = .ok event) {trace : Trace}
    {result : Except Thrown GatewayReply}
    (h : Program.Runs (handleSafely cfg validateEvent input) trace result)
    (hclaim : ∃ s ∈ trace, isNewClaim (eventKey event) s = true) :
    (∃ reply, result = .ok reply ∧ Ended (eventKey event) reply trace ∧
        Redeliverable ttl (eventKey event) trace) ↔
      ∀ s ∈ trace, fails s = false := by
  -- the two verdicts decide both sides
  obtain ⟨now, rest, reply, rfl, rfl, hverdict⟩ := runs_handleSafely hvalid h hclaim
  cases hverdict with
  | ended hno hends =>
    obtain ⟨s, hs, hends⟩ := hends
    obtain ⟨r, hr, hr'⟩ := exists_applied_of_endsClaim hs hends
    constructor
    · intro _ s' hs'
      rcases List.mem_cons.1 hs' with rfl | hs'
      · rfl
      · rcases List.mem_cons.1 hs' with rfl | hs'
        · rfl
        · exact hno s' hs'
    · intro _
      refine ⟨reply, rfl, ⟨s, ?_, hends⟩, redeliverable_of_ends ttl hr hr'⟩
      exact List.mem_cons_of_mem _ (List.mem_cons_of_mem _ hs)
  | left hfail hgroups =>
    obtain ⟨s, hs, hfails⟩ := hfail
    constructor
    · rintro ⟨_, -, -, hredeliver⟩
      exact absurd hredeliver (not_redeliverable_of_left ttl _ now hgroups)
    · intro hno
      have hfalse := hno s (List.mem_cons_of_mem _ (List.mem_cons_of_mem _ hs))
      rw [hfalse] at hfails
      cases hfails

def sampleConfig : Config := ⟨fun _ => 1800, fun _ => by decide, "try again"⟩

def sampleEvent : GatewayInboundEvent := ⟨"e1", 0, .qq, "c1", none, ⟨.private_, "p1", none⟩, "u1", ⟨"hello", false⟩, []⟩

def sampleAnswer (turn : Except SerialError Unit) (sent : Except SendError RyanAiResult) : (e : Effect) → e.Answer
  | .now => (0 : ℤ)
  | .store (.claimEvent _ _) => .ok .new
  | .store (.getGroup _) => .ok none
  | .store (.purgeExpired _) => .ok ()
  | .store (.completeEvent _ _ _) => .ok ()
  | .store (.releaseEvent _) => .ok ()
  | .store (.upsertGroup _ _) => .ok ()
  | .fairQueue _ _ => .ok ()
  | .serialQueue _ => turn
  | .send _ => sent
  | .fence _ => ()

def answeredRun : Trace × Except Thrown GatewayReply :=
  (handleSafely sampleConfig .ok sampleEvent).run (sampleAnswer (.ok ()) (.ok ⟨some "hi", none⟩))

theorem claim_ended_sample : (∃ s ∈ answeredRun.1, isNewClaim (eventKey sampleEvent) s = true) ∧
      ∃ reply, answeredRun.2 = .ok reply ∧ reply.chunks = ["hi"] ∧
        Ended (eventKey sampleEvent) reply answeredRun.1 := by
  have hrun : Program.Runs (handleSafely sampleConfig .ok sampleEvent) answeredRun.1 answeredRun.2 :=
    Program.runs_run _ _
  have hclaim : ∃ s ∈ answeredRun.1, isNewClaim (eventKey sampleEvent) s = true := by decide
  have hno : ∀ s ∈ answeredRun.1, fails s = false := by decide
  have hresult : answeredRun.2 = .ok ⟨"e1", ["hi"], false, false, .ryanai⟩ := rfl
  obtain ⟨reply, hreply, hended, -⟩ := (claim_ended_iff 0 sampleConfig .ok rfl hrun hclaim).2 hno
  rw [hresult] at hreply
  cases hreply
  exact ⟨hclaim, _, hresult, rfl, hended⟩

def timedOutRun : Trace × Except Thrown GatewayReply :=
  (handleSafely sampleConfig .ok sampleEvent).run
    (sampleAnswer (.error .waitTimeout) (.ok ⟨some "hi", none⟩))

/-- An event that waits too long leaves its claim, and a redelivery is in progress. -/
theorem timeout_leaves_claim : Program.Runs (handleSafely sampleConfig .ok sampleEvent) timedOutRun.1 timedOutRun.2 ∧
      (∃ s ∈ timedOutRun.1, isNewClaim (eventKey sampleEvent) s = true) ∧
      (∀ reply, timedOutRun.2 = .ok reply → ¬ Ended (eventKey sampleEvent) reply timedOutRun.1) ∧
      ((Store.empty.after 0 (applied timedOutRun.1)).claimEvent 0 (eventKey sampleEvent) 0).1 = .processing := by
  have happlied : applied timedOutRun.1 = [.claimEvent (eventKey sampleEvent) 0] := rfl
  refine ⟨Program.runs_run _ _, by decide, ?_, ?_⟩
  · rintro reply - ⟨s, hs, hends⟩
    obtain ⟨r, hr, hends'⟩ := exists_applied_of_endsClaim hs hends
    rw [happlied] at hr
    rw [List.mem_singleton.1 hr] at hends'
    cases hends'
  · rw [happlied]
    apply Store.claimEvent_of_claimed
    intro r hr
    cases hr

end RyanAI.Gateway
