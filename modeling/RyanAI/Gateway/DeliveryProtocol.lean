import RyanAI.Gateway.Handle

/-!
# What the handling of an event asks for, and when

The handling claims its event first; only after a new claim does it wait for the queues and look at the group, and then
it calls the transport at most once; a completion or a release is the last request to the store. An event that was
completed before is answered with the stored reply. `handleSafely_follows` says so for every behaviour of the
environment: the handling claims, completes and releases the event it was given, and sends no other.
-/

namespace RyanAI.Gateway

open RyanAI.Lib
open RyanAI.Lib.Program

/-! ## Phases -/

inductive Phase where
  | fresh
  | claimed
  | sent
  /-- The claim was answered with the stored reply. -/
  | replay (reply : StoredReply)
  | closed

def Request.ofClaimed (key : String) : Request → Bool
  | .completeEvent eventId _ _ => eventId = key
  | .upsertGroup _ _ => true
  | .getGroup _ => true
  | _ => false

def mayAsk (key : String) : Phase → Effect → Prop
  | .fresh, .now => True
  | .fresh, .store (.claimEvent eventId _) => eventId = key
  | .claimed, .now => True
  | .claimed, .fairQueue _ _ => True
  | .claimed, .serialQueue _ => True
  | .claimed, .store r => r.ofClaimed key = true
  | .claimed, .send event => eventKey event = key
  | .sent, .now => True
  | .sent, .store r => r.ends key = true
  | .closed, .fence _ => True
  | _, _ => False

variable {event : GatewayInboundEvent} {eventId : String} {now : ℤ}

section Asking

variable {key : String} {phase : Phase}

theorem claimed_of_send (h : mayAsk key phase (.send event)) : phase = .claimed ∧ eventKey event = key := by
  cases phase with
  | claimed => exact ⟨rfl, h⟩
  | fresh => cases h
  | sent => cases h
  | replay reply => cases h
  | closed => cases h

theorem fresh_of_claim (h : mayAsk key phase (.store (.claimEvent eventId now))) : phase = .fresh ∧ eventId = key := by
  cases phase with
  | fresh => exact ⟨rfl, h⟩
  | claimed => cases h
  | sent => cases h
  | replay reply => cases h
  | closed => cases h

theorem open_of_complete {reply : StoredReply} (h : mayAsk key phase (.store (.completeEvent eventId reply now))) :
    (phase = .claimed ∨ phase = .sent) ∧ eventId = key := by
  cases phase with
  | claimed => exact ⟨Or.inl rfl, of_decide_eq_true h⟩
  | sent => exact ⟨Or.inr rfl, of_decide_eq_true h⟩
  | fresh => cases h
  | replay reply => cases h
  | closed => cases h

theorem sent_of_release (h : mayAsk key phase (.store (.releaseEvent eventId))) : phase = .sent ∧ eventId = key := by
  cases phase with
  | sent => exact ⟨rfl, of_decide_eq_true h⟩
  | fresh => cases h
  | claimed => cases h
  | replay reply => cases h
  | closed => cases h

theorem not_mayAsk_purge : ¬ mayAsk key phase (.store (.purgeExpired now)) := by
  intro h
  cases phase <;> cases h

end Asking

def phaseAfter : Phase → (e : Effect) → e.Answer → Phase
  | _, .store (.claimEvent _ _), .ok .new => .claimed
  | _, .store (.claimEvent _ _), .ok (.completed reply) => .replay reply
  | _, .store (.claimEvent _ _), _ => .closed
  | _, .store (.completeEvent _ _ _), _ => .closed
  | _, .store (.releaseEvent _), _ => .closed
  | _, .send _, _ => .sent
  | phase, _, _ => phase

def eventProtocol (key : String) : Protocol Effect.Answer Phase := ⟨mayAsk key, phaseAfter⟩

def replayOf (eventId : String) (reply : StoredReply) : GatewayReply :=
  ⟨eventId, reply.chunks, reply.isError, true, .replay⟩

def IsReplay (key : String) (reply : StoredReply) (result : Except Thrown GatewayReply) : Prop :=
  ∃ event, eventKey event = key ∧ result = .ok (replayOf event.eventId reply)

def endsWell (key : String) (phase : Phase) (result : Except Thrown GatewayReply) : Prop :=
  ∀ reply, phase = .replay reply → IsReplay key reply result

/-! ## Parts of the handling -/

section Parts

variable {key : String} {α : Type}

def NotRefused (result : Except Thrown α) : Prop := ∀ code, result ≠ .error (.admission code)

theorem notRefused_ok (a : α) : NotRefused (.ok a) := by
  intro code h
  cases h

theorem notRefused_store : NotRefused (.error .store : Except Thrown α) := by
  intro code h
  cases h

theorem NotRefused.rethrown {β : Type} {err : Thrown}
    (h : NotRefused (.error err : Except Thrown α)) : NotRefused (.error err : Except Thrown β) := by
  intro code heq
  cases heq
  exact h code rfl

theorem finishWith_follows {phase : Phase} (hphase : phase = .claimed ∨ phase = .sent) (reply : GatewayReply) :
    (finishWith key reply).Follows (eventProtocol key)
      (fun phase result => phase = .closed ∧ NotRefused result) phase := by
  have hmay : ∀ now, mayAsk key phase .now ∧
      mayAsk key phase (.store (.completeEvent key reply.stored now)) := by
    intro now
    rcases hphase with rfl | rfl <;> exact ⟨trivial, decide_eq_true rfl⟩
  refine ⟨(hmay 0).1, ?_⟩
  intro now
  refine ⟨(hmay now).2, ?_⟩
  intro answer
  cases answer with
  | ok value => exact ⟨rfl, notRefused_ok reply⟩
  | failed reached => exact ⟨rfl, notRefused_store⟩

theorem discoverGroup_follows (event : GatewayInboundEvent) : (discoverGroup event).Follows (eventProtocol key)
      (fun phase result => phase = .claimed ∧ NotRefused result) .claimed := by
  cases hgroup : isGroup event with
  | true =>
    simp only [discoverGroup, hgroup]
    refine ⟨rfl, ?_⟩
    intro answer
    cases answer with
    | ok value => exact ⟨rfl, notRefused_ok ()⟩
    | failed reached => exact ⟨rfl, notRefused_store⟩
  | false =>
    simp only [discoverGroup, hgroup]
    exact ⟨rfl, notRefused_ok ()⟩

theorem groupDisabled_follows (event : GatewayInboundEvent) : (groupDisabled event).Follows (eventProtocol key)
      (fun phase result => phase = .claimed ∧ NotRefused result) .claimed := by
  rw [groupDisabled]
  split
  · refine ⟨rfl, ?_⟩
    intro answer
    cases answer with
    | ok group => exact ⟨rfl, notRefused_ok _⟩
    | failed reached => exact ⟨rfl, notRefused_store⟩
  · exact ⟨rfl, notRefused_ok false⟩

variable (cfg : Config)

theorem recover_follows (event : GatewayInboundEvent) (error : Thrown) :
    (recover cfg event key error).Follows (eventProtocol key)
      (fun phase result => phase = .closed ∧ NotRefused result) .sent := by
  rw [recover]
  split
  · apply (finishWith_follows (Or.inr rfl) (ignored event.eventId)).bind
    · rintro phase err ⟨hphase, herr⟩
      exact ⟨hphase, herr.rethrown⟩
    -- the shard is stopped when the event has been completed
    · rintro phase reply ⟨rfl, -⟩
      refine ⟨trivial, ?_⟩
      intro answer
      exact ⟨rfl, notRefused_ok reply⟩
  · obtain ⟨reply, hreply⟩ := safeError_ok cfg event.eventId event.channel false
    rw [hreply]
    show Follows (eventProtocol key) _ .sent
      (if retryable error then Handler.releaseEvent key >>= fun _ => pure reply
        else finishWith key reply)
    split
    · refine ⟨decide_eq_true rfl, ?_⟩
      intro answer
      cases answer with
      | ok value => exact ⟨rfl, notRefused_ok reply⟩
      | failed reached => exact ⟨rfl, notRefused_store⟩
    · exact finishWith_follows (Or.inr rfl) reply

theorem deliver_follows (hkey : eventKey event = key) : (deliver cfg event key).Follows (eventProtocol key)
      (fun phase result => phase = .closed ∧ NotRefused result) .claimed := by
  have hattempt : Follows (eventProtocol key) (fun phase _ => phase = .sent) .claimed
      (Handler.send event >>= fun result => Handler.lift (replyTo cfg event result)) := by
    refine ⟨hkey, ?_⟩
    intro answer
    cases answer with
    | ok result => rfl
    | error error => rfl
  -- whatever came back, the event has been sent
  apply hattempt.andThen
  rintro phase result rfl
  cases result with
  | ok reply => exact finishWith_follows (Or.inr rfl) reply
  | error error => exact recover_follows cfg event error

theorem handleClaimedSerial_follows (hkey : eventKey event = key) :
    (handleClaimedSerial cfg event key).Follows (eventProtocol key)
      (fun phase result => (phase = .claimed ∨ phase = .closed) ∧ NotRefused result) .claimed := by
  have hfinish : ∀ reply, (finishWith key reply).Follows (eventProtocol key)
      (fun phase result => (phase = .claimed ∨ phase = .closed) ∧ NotRefused result) .claimed := by
    intro reply
    apply (finishWith_follows (Or.inl rfl) reply).mono
    rintro phase result ⟨hphase, hresult⟩
    exact ⟨Or.inr hphase, hresult⟩
  -- nothing is sent before the group of the event has been looked at
  apply (discoverGroup_follows event).bind
  · rintro phase err ⟨hphase, herr⟩
    exact ⟨Or.inl hphase, herr.rethrown⟩
  rintro phase - ⟨rfl, -⟩
  split
  · exact hfinish _
  apply (groupDisabled_follows event).bind
  · rintro phase err ⟨hphase, herr⟩
    exact ⟨Or.inl hphase, herr.rethrown⟩
  rintro phase disabled ⟨rfl, -⟩
  split
  · exact hfinish _
  · apply (deliver_follows cfg hkey).mono
    rintro phase result ⟨hphase, hresult⟩
    exact ⟨Or.inr hphase, hresult⟩

theorem handleClaimed_follows {event : GatewayInboundEvent} (hkey : eventKey event = key) :
    (handleClaimed cfg event key).Follows (eventProtocol key)
      (fun phase _ => ∀ reply, phase ≠ .replay reply) .claimed := by
  have hqueues : Follows (eventProtocol key)
      (fun phase result => (phase = .claimed ∨ phase = .closed) ∧
        ((∃ code, result = .error (.admission code)) → phase = .claimed)) .claimed
      (Handler.runFair event.connectionId (eventPayloadBytes event)
        (Handler.runSerial (conversationKey event) (handleClaimedSerial cfg event key))) := by
    refine ⟨trivial, ?_⟩
    intro admitted
    cases admitted with
    -- a rejection by the fair queue is the admission error that the handler below catches
    | error code => exact ⟨Or.inl rfl, fun _ => rfl⟩
    | ok _ =>
      refine ⟨trivial, ?_⟩
      intro turn
      cases turn with
      | error error => exact ⟨Or.inl rfl, fun _ => rfl⟩
      | ok _ =>
        apply (handleClaimedSerial_follows cfg hkey).mono
        rintro phase result ⟨hphase, hresult⟩
        refine ⟨hphase, ?_⟩
        rintro ⟨code, hcode⟩
        exact absurd hcode (hresult code)
  apply hqueues.tryCatch
  · rintro phase reply ⟨rfl | rfl, -⟩ stored h
    · cases h
    · cases h
  rintro phase err ⟨hphase, hrefused⟩
  split
  · rename_i code
    obtain ⟨reply, hreply⟩ := safeError_ok cfg event.eventId event.channel false
    rw [hreply]
    apply (finishWith_follows (Or.inl (hrefused ⟨code, rfl⟩)) reply).mono
    rintro phase' result ⟨rfl, -⟩ stored h
    cases h
  · intro stored h
    rcases hphase with rfl | rfl <;> cases h

end Parts

section Whole

variable (cfg : Config)
  {validateEvent : GatewayInboundEvent → Except Thrown GatewayInboundEvent}
  {input : GatewayInboundEvent}

theorem handleValidated_follows (hkey : ∀ event, validateEvent input = .ok event → eventKey event = eventKey input) :
    (handleValidated cfg validateEvent input).Follows (eventProtocol (eventKey input))
      (endsWell (eventKey input)) .fresh := by
  rw [handleValidated]
  cases hvalid : validateEvent input with
  | error err =>
    intro stored h
    cases h
  | ok event =>
    have hevent : eventKey event = eventKey input := hkey event hvalid
    refine ⟨trivial, ?_⟩
    intro now
    refine ⟨hevent, ?_⟩
    intro answer
    cases answer with
    | failed reached =>
      intro stored h
      cases h
    | ok claim =>
      cases claim with
      | completed stored =>
        intro reply h
        cases h
        exact ⟨event, hevent, rfl⟩
      | processing =>
        intro stored h
        cases h
      | new =>
        have hclaimed := @handleClaimed_follows (eventKey input) cfg event hevent
        rw [← hevent] at hclaimed ⊢
        apply hclaimed.mono
        intro phase result hphase stored h
        exact absurd h (hphase stored)

theorem handleSafely_follows (hkey : ∀ event, validateEvent input = .ok event → eventKey event = eventKey input) :
    (handleSafely cfg validateEvent input).Follows (eventProtocol (eventKey input))
      (endsWell (eventKey input)) .fresh := by
  apply (handleValidated_follows cfg hkey).tryCatch
  · intro phase reply h
    exact h
  -- what is thrown was thrown by a handling that is no replay
  · intro phase err h stored hphase
    obtain ⟨event, -, heq⟩ := h stored hphase
    cases heq

end Whole

end RyanAI.Gateway
