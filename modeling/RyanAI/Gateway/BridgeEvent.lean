import RyanAI.Gateway.OpenClawNormalize
import RyanAI.Lib.IsoDate

/-!
# Events over the bridge of a shard

A shard sends its events to the gateway as a multipart body with a JSON part and a part for each attachment
(`buildEventMultipart` of `ryanai-client.ts`); the gateway reads them back (`parseOpenClawBridgeEvent` of
`openclaw/bridge-server.ts`). `bridge_round_trip` says which events of the normaliser come back as they were sent: those
whose fencing fields are complete or absent, with at most 20 attachments that all have a name, and at a whole
millisecond of a date.

A multipart body is its parts, a JSON part the value of its text. SHA-256 is a parameter, and so is what `Date.parse`
makes of a text that is not in ISO format.
-/

namespace RyanAI.Gateway.OpenClaw

open Lib
open RyanAI.Gateway.Hmac (lower HexDigest hexChar)

/-! ## Building the body -/

inductive Part where
  | json (value : Option Json)
  | file (bytes : List UInt8)

structure MultipartBody where
  contentType : Option String
  form : Option (List (String × Part))

def optionalField (key : String) (value : Option Json) : Dict := value.elim [] fun v => [(key, v)]

def optionalName (name : Option String) : Dict := optionalField "name" ((present name).map .str)

def truncate (q : ℚ) : ℤ := if 0 ≤ q then ⌊q⌋ else ⌈q⌉

/-- `new Date(t).toISOString()`. -/
def isoText : JsNumber → Except Thrown String
  | .finite q =>
    if |q| ≤ IsoDate.maxTime then .ok (String.ofList (IsoDate.toISOString (truncate q))) else .error .rangeError
  | _ => .error .rangeError

def fieldName (index : ℕ) : String := "attachment_" ++ String.ofList (Nat.toDigits 10 index)

def descriptor (sha256Hex : List UInt8 → String) (attachment : InboundAttachment) (index : ℕ) : Json :=
  .obj
    [("field_name", .str (fieldName index)), ("id", .str attachment.id), ("file_name", .str attachment.fileName),
      ("content_type", .str attachment.contentType), ("size", .num attachment.bytes.length),
      ("sha256", .str (sha256Hex attachment.bytes))]

def wireFields (sha256Hex : List UInt8 → String) (event : InboundEvent) (occurredAt : String) : Dict :=
  ("version", .str (if event.leaseEpoch = none then "1.0" else "1.1")) ::
  ("event_id", .str event.eventId) ::
  (optionalField "account_id" ((present event.accountKey).map .str) ++
  (optionalField "shard_id" ((present event.shardId).map .str) ++
  (optionalField "node_id" ((present event.nodeId).map .str) ++
  (optionalField "lease_epoch" (event.leaseEpoch.map fun (n : ℤ) => .num n) ++
  (optionalField "assignment_generation" (event.assignmentGeneration.map fun (n : ℤ) => .num n) ++
  [("occurred_at", .str occurredAt),
    ("channel", .str event.channel.text),
    ("connection_id", .str event.connectionId),
    ("conversation", .obj (("type", .str event.conversation.type.text) :: ("id", .str event.conversation.id) ::
      optionalName event.conversation.name)),
    ("sender", .obj (("id", .str event.sender.id) :: optionalName event.sender.name)),
    ("message", .obj [("text", .str event.message.text), ("mentions_bot", .bool event.message.mentionsBot)]),
    ("attachments", .arr (event.attachments.zipIdx.map fun entry => descriptor sha256Hex entry.1 entry.2))])))))

def buildWireEvent (sha256Hex : List UInt8 → String) (event : InboundEvent) : Except Thrown Dict := do
  let occurredAt ← isoText event.occurredAt
  .ok (wireFields sha256Hex event occurredAt)

def files (attachments : List InboundAttachment) (start : ℕ) : List (String × Part) :=
  (attachments.zipIdx start).map fun entry => (fieldName entry.2, .file entry.1.bytes)

def buildEventMultipart (sha256Hex : List UInt8 → String) (boundary : String) (event : InboundEvent) :
    Except Thrown MultipartBody := do
  let wire ← buildWireEvent sha256Hex event
  .ok
    { contentType := some ("multipart/form-data; boundary=" ++ boundary)
      form := some (("event", .json (some (.obj wire))) :: files event.attachments 0) }

/-! ## Reading the body -/

def invalidBridge (message : String) : Thrown := .invalid "invalid_bridge_event" message

def object (value : Json) (field : String) : Except Thrown Dict :=
  match value with
  | .obj fields => .ok fields
  | _ => .error (invalidBridge (field ++ " must be an object"))

def string (value : Json) (field : String) : Except Thrown String :=
  match value with
  | .str s => if blank s then .error (invalidBridge (field ++ " is required")) else .ok s
  | _ => .error (invalidBridge (field ++ " is required"))

def optionalString : Json → Option String
  | .str s => if blank s then none else some s
  | _ => none

def integer (value : Json) (field : String) : Except Thrown ℤ :=
  match value with
  | .num q =>
    if q.den = 1 ∧ |q.num| < 2 ^ 53 ∧ 0 ≤ q.num then .ok q.num
    else .error (invalidBridge (field ++ " must be an integer"))
  | _ => .error (invalidBridge (field ++ " must be an integer"))

structure Fencing where
  shardId : Option String
  nodeId : Option String
  leaseEpoch : Option ℤ
  assignmentGeneration : Option ℤ

def fencingFields : List String := ["node_id", "lease_epoch", "assignment_generation"]

def parseFencing (raw : Dict) : Except Thrown Fencing :=
  if raw.get "version" = .str "1.0" then
    if fencingFields.any fun field => (raw.lookup field).isSome then
      .error (invalidBridge "Bridge event version 1.0 must not include fencing fields")
    else .ok ⟨optionalString (raw.get "shard_id"), none, none, none⟩
  else do
    let shardId ← string (raw.get "shard_id") "shard_id"
    let nodeId ← string (raw.get "node_id") "node_id"
    let leaseEpoch ← integer (raw.get "lease_epoch") "lease_epoch"
    let assignmentGeneration ← integer (raw.get "assignment_generation") "assignment_generation"
    .ok ⟨some shardId, some nodeId, some leaseEpoch, some assignmentGeneration⟩

def parseChannel (value : Json) : Except Thrown Channel :=
  if value = .str "wechat" then .ok .wechat
  else if value = .str "qq" then .ok .qq
  else .error (invalidBridge "Unsupported bridge channel")

def parseConversationType (value : Json) : Except Thrown ConversationType :=
  if value = .str "private" then .ok .private_
  else if value = .str "group" then .ok .group
  else .error (invalidBridge "Unsupported bridge conversation type")

/-- `Date.parse`. -/
def parseDate (otherFormats : String → Option ℤ) (s : String) : Option ℤ :=
  match IsoDate.parseISO s.toList with
  | some t => some t
  | none => otherFormats s

def parseTime (otherFormats : String → Option ℤ) (value : Json) : Except Thrown JsNumber := do
  let s ← string value "occurred_at"
  match parseDate otherFormats s with
  | some t => .ok (.finite t)
  | none => .error (invalidBridge "Bridge timestamp is invalid")

/-- `attachment_` and at least one digit. -/
def fieldNameOk (name : String) : Bool :=
  let digits := name.toList.drop "attachment_".length
  "attachment_".toList.isPrefixOf name.toList && digits ≠ [] && digits.all Char.isDigit

def hashOk (s : String) : Bool := s.toList.length = 64 && s.toList.all hexChar

def attachedFile (form : List (String × Part)) (descriptor : Dict) (index : ℕ) (expectedFields : List String) :
    Except Thrown (String × List UInt8) := do
  let name ← string (descriptor.get "field_name") ("attachments[" ++ toString index ++ "].field_name")
  if !fieldNameOk name || name ∈ expectedFields then
    .error (.invalid "invalid_attachment" "Bridge attachment field is invalid")
  else
    match form.lookup name with
    | some (.file bytes) => .ok (name, bytes)
    | _ => .error (.invalid "missing_attachment" ("Missing bridge attachment " ++ name))

def checkBytes (sha256Hex : List UInt8 → String) (config : Config) (descriptor : Dict) (index : ℕ) (total : ℕ)
    (bytes : List UInt8) : Except Thrown ℕ := do
  let declaredSize ← integer (descriptor.get "size") ("attachments[" ++ toString index ++ "].size")
  if (bytes.length : ℤ) ≠ declaredSize ∨ config.maxAttachmentBytes < bytes.length then
    .error (.invalid "attachment_size_mismatch" "Bridge attachment size mismatch")
  else if config.maxTotalAttachmentBytes < total + bytes.length then
    .error (.invalid "attachments_too_large" "Bridge attachments are too large")
  else do
    let declared ← string (descriptor.get "sha256") ("attachments[" ++ toString index ++ "].sha256")
    if !hashOk (lower declared) || sha256Hex bytes ≠ lower declared then
      .error (.invalid "attachment_hash_mismatch" "Bridge attachment hash mismatch")
    else .ok (total + bytes.length)

def parseAttachment (sha256Hex : List UInt8 → String) (config : Config) (form : List (String × Part))
    (descriptor : Json) (index : ℕ) (expectedFields : List String) (total : ℕ) :
    Except Thrown (String × ℕ × InboundAttachment) := do
  let descriptor ← object descriptor ("attachments[" ++ toString index ++ "]")
  let (name, bytes) ← attachedFile form descriptor index expectedFields
  let total ← checkBytes sha256Hex config descriptor index total bytes
  let id ← string (descriptor.get "id") ("attachments[" ++ toString index ++ "].id")
  let fileName ← string (descriptor.get "file_name") ("attachments[" ++ toString index ++ "].file_name")
  let contentType ← string (descriptor.get "content_type") ("attachments[" ++ toString index ++ "].content_type")
  .ok (name, total, ⟨id, fileName, contentType, bytes⟩)

/-- The loop over the descriptors, from `index` on. -/
def parseAttachments (sha256Hex : List UInt8 → String) (config : Config) (form : List (String × Part)) :
    List Json → (index : ℕ) → (expectedFields : List String) → (total : ℕ) →
      Except Thrown (List String × List InboundAttachment)
  | [], _, expectedFields, _ => .ok (expectedFields, [])
  | descriptor :: rest, index, expectedFields, total => do
    let (name, total, attachment) ← parseAttachment sha256Hex config form descriptor index expectedFields total
    let (expectedFields, attachments) ←
      parseAttachments sha256Hex config form rest (index + 1) (name :: expectedFields) total
    .ok (expectedFields, attachment :: attachments)

/-- The event of a form whose JSON part is `raw`. -/
def parseForm (sha256Hex : List UInt8 → String) (otherFormats : String → Option ℤ) (config : Config)
    (form : List (String × Part)) (raw : Dict) : Except Thrown InboundEvent := do
  if raw.get "version" ≠ .str "1.0" ∧ raw.get "version" ≠ .str "1.1" then
    .error (invalidBridge "Unsupported bridge event version")
  else do
    let fencing ← parseFencing raw
    let conversation ← object (raw.get "conversation") "conversation"
    let sender ← object (raw.get "sender") "sender"
    let message ← object (raw.get "message") "message"
    let channel ← parseChannel (raw.get "channel")
    let type ← parseConversationType (conversation.get "type")
    let occurredAt ← parseTime otherFormats (raw.get "occurred_at")
    let descriptors := items (raw.get "attachments")
    if 20 < descriptors.length then
      .error (.invalid "too_many_attachments" "Too many bridge attachments")
    else do
      let (expectedFields, attachments) ← parseAttachments sha256Hex config form descriptors 0 ["event"] 0
      if form.any fun part => part.1 ∉ expectedFields then
        .error (.invalid "unexpected_multipart_field" "Unexpected bridge multipart field")
      else do
        let eventId ← string (raw.get "event_id") "event_id"
        let connectionId ← string (raw.get "connection_id") "connection_id"
        let conversationId ← string (conversation.get "id") "conversation.id"
        let senderId ← string (sender.get "id") "sender.id"
        .ok
          { eventId := eventId
            occurredAt := occurredAt
            channel := channel
            connectionId := connectionId
            accountKey := optionalString (raw.get "account_id")
            shardId := fencing.shardId
            nodeId := fencing.nodeId
            leaseEpoch := fencing.leaseEpoch
            assignmentGeneration := fencing.assignmentGeneration
            conversation := ⟨type, conversationId, optionalString (conversation.get "name")⟩
            sender := ⟨senderId, optionalString (sender.get "name")⟩
            message :=
              ⟨match message.get "text" with
                | .str s => s
                | _ => "", message.get "mentions_bot" = .bool true⟩
            attachments := attachments }

def multipartType (contentType : Option String) : Bool :=
  match contentType with
  | some contentType => "multipart/form-data;".toList.isPrefixOf (lower contentType).toList
  | none => false

def parseOpenClawBridgeEvent (sha256Hex : List UInt8 → String) (otherFormats : String → Option ℤ) (config : Config)
    (body : MultipartBody) : Except Thrown InboundEvent :=
  if !multipartType body.contentType then
    .error (.invalid "multipart_required" "Bridge event must use multipart/form-data")
  else
    match body.form with
    | none => .error (.invalid "invalid_multipart" "Bridge multipart body is invalid")
    | some form =>
      match form.lookup "event" with
      | some (.json (some value)) => do
        let raw ← object value "event"
        parseForm sha256Hex otherFormats config form raw
      | some (.json none) => .error (invalidBridge "Bridge event JSON is invalid")
      | _ => .error (.invalid "event_part_required" "Bridge event part is required")

def overBridge (sha256Hex : List UInt8 → String) (otherFormats : String → Option ℤ) (boundary : String)
    (config : Config) (event : InboundEvent) : Except Thrown InboundEvent := do
  let body ← buildEventMultipart sha256Hex boundary event
  parseOpenClawBridgeEvent sha256Hex otherFormats config body

end RyanAI.Gateway.OpenClaw
