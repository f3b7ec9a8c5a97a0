import Mathlib.Tactic

/-!
# Events and replies of the bot gateway

The data that `bot-gateway/src/gateway.ts` handles: inbound events, the keys derived from them, replies
and the errors that handling may throw. A reply is cut into chunks by `chunkText`, which throws unless
the size of a chunk is positive; the configuration is parsed with a positive minimum, so `Config`
carries that.
-/

namespace RyanAI.Gateway

/-! ## Data -/

inductive Channel where
  | wechat
  | qq
  deriving DecidableEq

def Channel.text : Channel → String
  | .wechat => "wechat"
  | .qq => "qq"

inductive ConversationType where
  | private_
  | group
  deriving DecidableEq

def ConversationType.text : ConversationType → String
  | .private_ => "private"
  | .group => "group"

structure Conversation where
  type : ConversationType
  id : String
  name : Option String

structure Message where
  text : String
  mentionsBot : Bool

/-- `GatewayInboundEvent`; an attachment is its bytes. -/
structure GatewayInboundEvent where
  eventId : String
  occurredAt : ℤ
  channel : Channel
  connectionId : String
  shardId : Option String
  conversation : Conversation
  senderId : String
  message : Message
  attachments : List (List UInt8)

inductive ReplyReason where
  | ryanai
  | ignored
  | safeError
  | replay
  deriving DecidableEq

structure StoredReply where
  chunks : List String
  isError : Bool
  reason : ReplyReason
  deriving DecidableEq

structure GatewayReply where
  eventId : String
  chunks : List String
  isError : Bool
  replayed : Bool
  reason : ReplyReason
  deriving DecidableEq

def GatewayReply.stored (reply : GatewayReply) : StoredReply := ⟨reply.chunks, reply.isError, reply.reason⟩

/-- `RyanAiResult`. -/
structure RyanAiResult where
  text : Option String
  messages : Option (List String)

/-- The codes of `QueueAdmissionError`. -/
inductive AdmissionCode where
  | overloaded
  | waitTimeout
  | draining
  deriving DecidableEq

/-- What `KeyedSerialQueue.run` throws, which is a plain `Error`. -/
inductive SerialError where
  | capacityExceeded
  | waitTimeout
  deriving DecidableEq

/-- `transport` is a `RyanAiTransportError` with its code, `failure` another error. -/
inductive Thrown where
  | invalidEvent (code : String)
  | admission (code : AdmissionCode)
  | serial (error : SerialError)
  | store
  | transport (code : String)
  | failure
  | chunkSize
  deriving DecidableEq

/-- The parts of `GatewayConfig` that handling reads. -/
structure Config where
  replyChunkChars : Channel → Nat
  replyChunkChars_pos : ∀ c, 0 < replyChunkChars c
  safeErrorMessage : String

/-- `eventKey`. -/
def eventKey (event : GatewayInboundEvent) : String :=
  event.channel.text ++ "\u0000" ++ event.connectionId ++ "\u0000" ++ event.eventId

/-- `conversationKey`. -/
def conversationKey (event : GatewayInboundEvent) : String :=
  let senderScope := if event.conversation.type = .group then ":" ++ event.senderId else ""
  event.channel.text ++ ":" ++ event.connectionId ++ ":" ++ event.conversation.type.text ++ ":" ++
    event.conversation.id ++ senderScope

/-- `eventPayloadBytes`. -/
def eventPayloadBytes (event : GatewayInboundEvent) : Nat :=
  event.message.text.utf8ByteSize + (event.attachments.map List.length).sum

/-! ## Replies -/

section Chunks

variable {α : Type} [DecidableEq α]

def lastEnd (marker : List α) : List α → Option Nat
  | [] => none
  | x :: xs =>
    match lastEnd marker xs with
    | some n => some (n + 1)
    | none => if marker.isPrefixOf (x :: xs) then some marker.length else none

def cutOf (preferred : List (List α)) (maxPoints : Nat) (window : List α) : Nat :=
  let minimumPreferredBreak := maxPoints * 55 / 100
  let found := preferred.findSome? fun marker =>
    (lastEnd marker window).filter fun candidate => minimumPreferredBreak ≤ candidate
  match found with
  | some (cut + 1) => cut + 1
  | _ => maxPoints

/-- The loop of `chunkText`; every round takes a point. -/
def chunkLoop (preferred : List (List α)) (maxPoints : Nat) : Nat → List α → List (List α)
  | 0, _ => []
  | n + 1, points =>
    if points.isEmpty then []
    else if points.length ≤ maxPoints then [points]
    else
      let cut := cutOf preferred maxPoints (points.take maxPoints)
      points.take cut :: chunkLoop preferred maxPoints n (points.drop cut)

end Chunks

/-- The markers after which `chunkText` prefers to cut. -/
def preferredBreaks : List (List Char) :=
  ["\n\n".toList, ['\n'], ['。'], ['！'], ['？'], ['!'], ['?'], ['；'], [';'], [' ']]

/-- `chunkText`. -/
def chunkText (text : String) (maxCodePoints : Nat) : Except Thrown (List String) :=
  if text.isEmpty then .ok []
  else if maxCodePoints < 1 then .error .chunkSize
  else
    let points := text.toList
    .ok ((chunkLoop preferredBreaks maxCodePoints points.length points).map String.ofList)

/-- `ignored`. -/
def ignored (eventId : String) : GatewayReply := ⟨eventId, [], false, false, .ignored⟩

/-- `safeError`. -/
def safeError (cfg : Config) (eventId : String) (channel : Channel) (replayed : Bool) : Except Thrown GatewayReply := do
  let size := cfg.replyChunkChars channel
  let chunks ← chunkText cfg.safeErrorMessage (if size = 0 then 1800 else size)
  return ⟨eventId, chunks, true, replayed, if replayed then .replay else .safeError⟩

theorem chunkText_ok (text : String) {maxCodePoints : Nat} (h : 0 < maxCodePoints) :
    ∃ chunks, chunkText text maxCodePoints = .ok chunks := by
  rw [chunkText]
  split
  · exact ⟨_, rfl⟩
  · rw [if_neg (by omega)]
    exact ⟨_, rfl⟩

theorem safeError_ok (cfg : Config) (eventId : String) (channel : Channel) (replayed : Bool) :
    ∃ reply, safeError cfg eventId channel replayed = .ok reply := by
  have hpos := cfg.replyChunkChars_pos channel
  obtain ⟨chunks, hchunks⟩ := chunkText_ok cfg.safeErrorMessage hpos
  have hne : cfg.replyChunkChars channel ≠ 0 := by omega
  refine ⟨⟨eventId, chunks, true, replayed, if replayed then .replay else .safeError⟩, ?_⟩
  simp only [safeError, if_neg hne, hchunks]
  rfl

end RyanAI.Gateway
