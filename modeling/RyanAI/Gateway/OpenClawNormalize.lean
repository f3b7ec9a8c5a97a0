import RyanAI.Gateway.Event
import RyanAI.Gateway.Hmac
import RyanAI.Lib.JsNumber
import RyanAI.Lib.Json

/-!
# Normalising OpenClaw hooks

`bot-gateway/src/openclaw/normalize.ts` turns what the hooks of OpenClaw hand over into an inbound event. Metadata and
context are whatever the channel plugins put there, so the code reads them field by field: `text` takes the texts that
are not blank and the numbers. The routing fields come from the environment of the process.

The environment, the clock, the files and SHA-256 are those of a `Host`.
-/

namespace RyanAI.Gateway.OpenClaw

open Lib
open RyanAI.Gateway.Hmac (lower)

/-! ## Data -/

/-- An `EventValidationError`, a `RangeError`, or an error of the file system. -/
inductive Thrown where
  | invalid (code message : String)
  | rangeError
  | files
  deriving DecidableEq

structure InboundAttachment where
  id : String
  fileName : String
  contentType : String
  bytes : List UInt8
  deriving DecidableEq

structure Sender where
  id : String
  name : Option String
  deriving DecidableEq

deriving instance DecidableEq for Conversation, Message

/-- `GatewayInboundEvent`. -/
structure InboundEvent where
  eventId : String
  occurredAt : JsNumber
  channel : Channel
  connectionId : String
  accountKey : Option String
  shardId : Option String
  nodeId : Option String
  leaseEpoch : Option ℤ
  assignmentGeneration : Option ℤ
  conversation : Conversation
  sender : Sender
  message : Message
  attachments : List InboundAttachment
  deriving DecidableEq

/-- `MessageHookLike`, with the fields that are read. -/
structure MessageHook where
  content : String
  sentFrom : Option String
  timestamp : Option JsNumber
  messageId : Option String
  senderId : Option String
  senderName : Option String
  runId : Option String
  channel : Option String
  accountId : Option String
  conversationId : Option String
  isGroup : Option Bool
  wasMentioned : Option Bool
  mediaPath : Json
  mediaPaths : Json
  mediaType : Json
  mediaTypes : Json
  metadata : Json

/-- `AgentContextLike`, with the fields that are read. -/
structure AgentContext where
  runId : Option String
  sessionKey : Option String
  channelId : Option String
  accountId : Option String
  conversationId : Option String
  chatId : Option String
  senderId : Option String
  channel : Option String
  messageProvider : Option String
  channelContext : Json

/-- `ReplyDispatchHookLike`; its context is a record with any keys. -/
structure ReplyDispatchHook where
  ctx : Dict
  runId : Option String
  sessionKey : Option String
  originatingChannel : Option String
  originatingTo : Option String
  originatingAccountId : Option String

structure Environment where
  openClawConnectionId : Option String
  openClawShardId : Option String
  nodeId : Option String
  leaseEpoch : Option String
  assignmentGeneration : Option String

structure FileStat where
  isFile : Bool
  size : ℕ

structure FileSystem where
  realpath : String → Option String
  stat : String → Option FileStat
  readFile : String → Option (List UInt8)

structure Host where
  env : Environment
  now : JsNumber
  files : FileSystem
  sha256Hex : List UInt8 → String

/-- The ranges of `GatewayConfig` for attachments. -/
structure Config where
  attachmentRoots : List String
  maxAttachmentBytes : ℕ
  maxTotalAttachmentBytes : ℕ
  maxAttachmentBytes_le : maxAttachmentBytes ≤ 100 * 1024 * 1024
  maxTotalAttachmentBytes_le : maxTotalAttachmentBytes ≤ 256 * 1024 * 1024

/-! ## Reading values -/

def record : Json → Dict
  | .obj fields => fields
  | _ => []

/-- `value?.key`. -/
def member (value : Json) (key : String) : Json := Dict.get (record value) key

def value (s : Option String) : Json := s.elim .null .str

def text : Json → Option String
  | .str s => if blank s then none else some (trim s)
  | .num q => some (JsNumber.finite q).toText
  | _ => none

def boolean : List Json → Option Bool
  | [] => none
  | .bool b :: _ => some b
  | _ :: rest => boolean rest

def booleanValue (b : Option Bool) : Json := b.elim .null .bool

def textArray : Json → List (Option String)
  | .arr items => items.map text
  | _ => []

/-- `a || b` of any values. -/
def either (a b : Json) : Json :=
  match a with
  | .null => b
  | .bool false => b
  | .num q => if q = 0 then b else a
  | .str s => if s = "" then b else a
  | _ => a

def present (s : Option String) : Option String := s.filter fun s => s ≠ ""

/-- `value.includes(part)`. -/
def includes (value part : String) : Bool := part.toList <:+: value.toList

/-! ## Channel, connection and shard -/

def unsupportedChannel : Thrown := .invalid "unsupported_openclaw_channel" "Unsupported OpenClaw channel"

def mapOpenClawChannel (value : Option String) : Except Thrown Channel :=
  let normalized := lower (trim (value.getD ""))
  if includes normalized "weixin" || includes normalized "wechat" then .ok .wechat
  else if normalized = "qq" || includes normalized "qqbot" || includes normalized "openclaw-qq" then .ok .qq
  else .error unsupportedChannel

def resolveOpenClawChannel : List Json → Except Thrown Channel
  | [] => .error unsupportedChannel
  | candidate :: rest =>
    match text candidate with
    | none => resolveOpenClawChannel rest
    | some value =>
      match mapOpenClawChannel (some value) with
      | .ok channel => .ok channel
      | .error _ => resolveOpenClawChannel rest

def alphanumeric (c : Char) : Bool :=
  (65 ≤ c.toNat ∧ c.toNat ≤ 90) ∨ (97 ≤ c.toNat ∧ c.toNat ≤ 122) ∨ (48 ≤ c.toNat ∧ c.toNat ≤ 57)

/-- A letter or digit, then at most `most` more or characters of `more`. -/
def tokenOk (more : List Char) (most : ℕ) (s : String) : Bool :=
  match s.toList with
  | [] => false
  | c :: cs => alphanumeric c && cs.all (fun c => alphanumeric c || c ∈ more) && decide (cs.length ≤ most)

def idOk : String → Bool := tokenOk ['.', '_', ':', '@', '/', '-'] 255

def shardIdOk : String → Bool := tokenOk ['.', '_', ':', '@', '-'] 127

/-- `process.env.X?.trim()`, where an empty text counts as missing. -/
def configured (setting : Option String) : Option String := present (setting.map trim)

def mapOpenClawConnectionId (env : Environment) (channel : Channel) : Except Thrown String :=
  match configured env.openClawConnectionId with
  | some configured =>
    if idOk configured then .ok configured
    else .error (.invalid "invalid_openclaw_connection" "Configured OpenClaw connection id is invalid")
  | none => .ok (channel.text ++ "-default")

def mapOpenClawShardId (env : Environment) : Except Thrown (Option String) :=
  match configured env.openClawShardId with
  | none => .ok none
  | some configured =>
    if shardIdOk configured then .ok (some configured)
    else .error (.invalid "invalid_openclaw_shard" "Configured OpenClaw shard id is invalid")

structure EventRouting where
  connectionId : String
  accountKey : Option String
  shardId : Option String
  nodeId : Option String
  leaseEpoch : Option ℤ
  assignmentGeneration : Option ℤ

def resolveConnectionId (env : Environment) (channel : Channel) (bridge : Dict) : Except Thrown String := do
  let connectionId ← mapOpenClawConnectionId env channel
  match text (bridge.get "connection_id") with
  | some requested =>
    if requested ≠ connectionId then
      .error (.invalid "unsupported_openclaw_connection" "OpenClaw event connection does not belong to this host")
    else .ok connectionId
  | none => .ok connectionId

/-- `Number(setting)`, if it is a safe integer. -/
def safeNumber (setting : Option String) : Option ℤ :=
  setting.bind fun s => (NumericText.jsNumber s).bind NumericText.safeInteger

def resolveEventRouting (env : Environment) (channel : Channel) (accountId : Option String) (bridge : Dict) :
    Except Thrown EventRouting := do
  match ← mapOpenClawShardId env with
  | some shardId =>
    match accountId with
    | none =>
      .error (.invalid "missing_openclaw_account" "OpenClaw account id is required on a shared shard")
    | some accountId =>
      .ok
        { connectionId := "shard:" ++ shardId
          accountKey := some accountId
          shardId := some shardId
          nodeId := configured env.nodeId
          leaseEpoch := safeNumber env.leaseEpoch
          assignmentGeneration := safeNumber env.assignmentGeneration }
  | none => do
    let connectionId ← resolveConnectionId env channel bridge
    .ok ⟨connectionId, none, none, none, none, none⟩

def assertSingleOpenClawAccount (event : MessageHook) (ctx : AgentContext) (metadata bridge : Dict) :
    Except Thrown Unit :=
  let accountIds :=
    [text (value event.accountId), text (value ctx.accountId), text (metadata.get "accountId"),
      text (bridge.get "account_id")].filterMap id
  if 1 < accountIds.dedup.length then
    .error (.invalid "multiple_openclaw_accounts" "Conflicting OpenClaw account ids are not supported")
  else .ok ()

def segments (path : String) : List (List Char) := (path.toList.splitOn '/').filter fun s => s ≠ []

def basename (path : String) : String := String.ofList ((segments path).getLast?.getD [])

def dropCommon : List (List Char) → List (List Char) → List (List Char) × List (List Char)
  | a :: as, b :: bs => if a = b then dropCommon as bs else (a :: as, b :: bs)
  | as, bs => (as, bs)

/-- `path.relative(base, path)` of absolute paths without links. -/
def relative (base path : String) : List Char :=
  let rest := dropCommon (segments base) (segments path)
  ['/'].intercalate (List.replicate rest.1.length ['.', '.'] ++ rest.2)

/-- `path.extname(name)`: from the last dot on, unless in front. -/
def extname (name : String) : String :=
  let base := (basename name).toList
  let stem := (base.rdropWhile (· ≠ '.')).dropLast
  if stem = [] || base = ['.', '.'] then "" else String.ofList (base.drop stem.length)

def trustedIn (files : FileSystem) (resolved : String) : List String → Bool
  | [] => false
  | root :: roots =>
    match files.realpath root with
    | none => trustedIn files resolved roots
    | some resolvedRoot =>
      let relative := relative resolvedRoot resolved
      if relative ≠ [] && !(['.', '.'].isPrefixOf relative) && relative.head? ≠ some '/' then true
      else if relative = [] then true
      else trustedIn files resolved roots

def trustedPath (files : FileSystem) (candidate : String) (roots : List String) : Except Thrown String :=
  match files.realpath candidate with
  | none => .error .files
  | some resolved =>
    if trustedIn files resolved roots then .ok resolved
    else .error (.invalid "untrusted_attachment_path" "Attachment path is not trusted")

def mimeByExtension : List (String × String) :=
  [(".aac", "audio/aac"), (".avi", "video/x-msvideo"), (".avif", "image/avif"), (".bmp", "image/bmp"),
    (".csv", "text/csv"), (".doc", "application/msword"),
    (".docx", "application/vnd.openxmlformats-officedocument.wordprocessingml.document"), (".flac", "audio/flac"),
    (".gif", "image/gif"), (".gz", "application/gzip"), (".heic", "image/heic"), (".heif", "image/heif"),
    (".html", "text/html"), (".jpeg", "image/jpeg"), (".jpg", "image/jpeg"), (".json", "application/json"),
    (".m4a", "audio/mp4"), (".md", "text/markdown"), (".mkv", "video/x-matroska"), (".mov", "video/quicktime"),
    (".mp3", "audio/mpeg"), (".mp4", "video/mp4"), (".mpeg", "video/mpeg"), (".mpg", "video/mpeg"),
    (".ogg", "audio/ogg"), (".opus", "audio/ogg"), (".pdf", "application/pdf"), (".png", "image/png"),
    (".ppt", "application/vnd.ms-powerpoint"),
    (".pptx", "application/vnd.openxmlformats-officedocument.presentationml.presentation"),
    (".rar", "application/vnd.rar"), (".rtf", "application/rtf"), (".svg", "image/svg+xml"),
    (".tar", "application/x-tar"), (".tif", "image/tiff"), (".tiff", "image/tiff"),
    (".tsv", "text/tab-separated-values"), (".txt", "text/plain"), (".wav", "audio/wav"), (".webm", "video/webm"),
    (".webp", "image/webp"), (".xls", "application/vnd.ms-excel"),
    (".xlsx", "application/vnd.openxmlformats-officedocument.spreadsheetml.sheet"), (".xml", "application/xml"),
    (".zip", "application/zip"), (".7z", "application/x-7z-compressed")]

/-- `bytes.subarray(start, stop).toString('ascii')` drops the highest bit. -/
def asciiRange (bytes : List UInt8) (start stop : ℕ) : List Char :=
  ((bytes.take stop).drop start).map fun b => Char.ofNat (b.toNat % 128)

def detectedContentType (bytes : List UInt8) : Option String :=
  if [0x89, 0x50, 0x4e, 0x47, 0x0d, 0x0a, 0x1a, 0x0a].isPrefixOf bytes then some "image/png"
  else if [0xff, 0xd8, 0xff].isPrefixOf bytes then some "image/jpeg"
  else if asciiRange bytes 0 6 = "GIF87a".toList then some "image/gif"
  else if asciiRange bytes 0 6 = "GIF89a".toList then some "image/gif"
  else if asciiRange bytes 0 4 = "RIFF".toList ∧ asciiRange bytes 8 12 = "WEBP".toList then some "image/webp"
  else if asciiRange bytes 0 5 = "%PDF-".toList then some "application/pdf"
  else none

/-- `[\w!#$&^_.+-]`. -/
def mimeChar (c : Char) : Bool := alphanumeric c || c ∈ ['_', '!', '#', '$', '&', '^', '.', '+', '-']

/-- Type and subtype, then nothing or printable characters behind a semicolon. -/
def mimeOk (s : String) : Bool :=
  match s.toList.takeWhile mimeChar, s.toList.dropWhile mimeChar with
  | _ :: _, '/' :: rest =>
    match rest.takeWhile mimeChar, rest.dropWhile mimeChar with
    | _ :: _, [] => true
    | _ :: _, ';' :: parameters => parameters.all fun c => 32 ≤ c.toNat ∧ c.toNat ≤ 126
    | _, _ => false
  | _, _ => false

def concreteMime (declared : Option String) : Option String :=
  (declared.map fun s => lower (trim s)).filter fun normalized =>
    normalized ≠ "" && mimeOk normalized && !("/*".toList.isSuffixOf (normalized.toList.takeWhile (· ≠ ';'))) &&
      normalized ≠ "application/octet-stream"

def zipSignatures : List (List UInt8) := [[0x50, 0x4b, 0x03, 0x04], [0x50, 0x4b, 0x05, 0x06], [0x50, 0x4b, 0x07, 0x08]]

def inferAttachmentContentType (declared : Option String) (fileName : String) (bytes : List UInt8) : String :=
  match concreteMime declared with
  | some mime => mime
  | none =>
    match detectedContentType bytes with
    | some detected => detected
    | none =>
      match mimeByExtension.lookup (lower (extname fileName)) with
      | some extensionType => extensionType
      | none =>
        if zipSignatures.any fun signature => signature.isPrefixOf bytes then "application/zip"
        else "application/octet-stream"

/-! ## Attachments -/

structure AttachmentCandidate where
  localPath : String
  id : Option String
  fileName : Option String
  contentType : Option String
  deriving DecidableEq

def appendAttachmentCandidate (candidate : AttachmentCandidate) : List AttachmentCandidate → List AttachmentCandidate
  | [] => [candidate]
  | existing :: rest =>
    if existing.localPath = candidate.localPath then
      { existing with
        id := existing.id <|> candidate.id
        fileName := existing.fileName <|> candidate.fileName
        contentType := existing.contentType <|> candidate.contentType } :: rest
    else existing :: appendAttachmentCandidate candidate rest

def appendPaths (types : List (Option String)) :
    List (Option String) → ℕ → List AttachmentCandidate → List AttachmentCandidate
  | [], _, candidates => candidates
  | none :: paths, index, candidates => appendPaths types paths (index + 1) candidates
  | some localPath :: paths, index, candidates =>
    appendPaths types paths (index + 1)
      (appendAttachmentCandidate ⟨localPath, none, none, (types[index]?).join⟩ candidates)

def appendStandardMedia (source : Dict) (candidates : List AttachmentCandidate) : List AttachmentCandidate :=
  let candidates := appendPaths (textArray (source.get "mediaTypes")) (textArray (source.get "mediaPaths")) 0 candidates
  match text (source.get "mediaPath") with
  | none => candidates
  | some localPath =>
    appendAttachmentCandidate ⟨localPath, none, none, text (source.get "mediaType")⟩ candidates

def appendLegacy : List Json → List AttachmentCandidate → Except Thrown (List AttachmentCandidate)
  | [], candidates => .ok candidates
  | item :: items, candidates =>
    match text (member item "path") with
    | none => .error (.invalid "attachment_path_required" "OpenClaw attachment path is required")
    | some localPath =>
      appendLegacy items
        (appendAttachmentCandidate
          ⟨localPath, text (member item "id"), text (member item "file_name"), text (member item "content_type")⟩
          candidates)

def MessageHook.record (event : MessageHook) : Dict :=
  [("mediaPath", event.mediaPath), ("mediaPaths", event.mediaPaths), ("mediaType", event.mediaType),
    ("mediaTypes", event.mediaTypes)]

def items : Json → List Json
  | .arr items => items
  | _ => []

def collectAttachmentCandidates (event : MessageHook) (metadata bridge : Dict) :
    Except Thrown (List AttachmentCandidate) :=
  appendLegacy (items (bridge.get "attachments"))
    (appendStandardMedia metadata (appendStandardMedia event.record []))

/-- The bytes at a path, with the size that `stat` has found. -/
def readAttachment (files : FileSystem) (config : Config) (total : ℕ) (resolved : String) :
    Except Thrown (ℕ × List UInt8) :=
  match files.stat resolved with
  | none => .error .files
  | some fileStat =>
    if !fileStat.isFile || config.maxAttachmentBytes < fileStat.size then
      .error (.invalid "attachment_too_large" "OpenClaw attachment is invalid or too large")
    else if config.maxTotalAttachmentBytes < total + fileStat.size then
      .error (.invalid "attachments_too_large" "OpenClaw attachments are too large")
    else
      match files.readFile resolved with
      | none => .error .files
      | some bytes => .ok (total + fileStat.size, bytes)

def attachmentOf (candidate : AttachmentCandidate) (resolved : String) (bytes : List UInt8) (loaded : ℕ) :
    InboundAttachment :=
  let fileName := candidate.fileName.getD (basename resolved)
  { id := candidate.id.getD ("attachment-" ++ toString (loaded + 1))
    fileName := fileName
    contentType := inferAttachmentContentType candidate.contentType fileName bytes
    bytes := bytes }

/-- The loop of `loadAttachments`. -/
def loadCandidates (files : FileSystem) (config : Config) :
    List AttachmentCandidate → (resolvedPaths : List String) → (total : ℕ) → List InboundAttachment →
      Except Thrown (List InboundAttachment)
  | [], _, _, attachments => .ok attachments
  | candidate :: rest, resolvedPaths, total, attachments => do
    let resolved ← trustedPath files candidate.localPath config.attachmentRoots
    if resolved ∈ resolvedPaths then loadCandidates files config rest resolvedPaths total attachments
    else do
      let (total, bytes) ← readAttachment files config total resolved
      loadCandidates files config rest (resolved :: resolvedPaths) total
        (attachments ++ [attachmentOf candidate resolved bytes attachments.length])

def loadAttachments (files : FileSystem) (event : MessageHook) (metadata bridge : Dict) (config : Config) :
    Except Thrown (List InboundAttachment) := do
  let candidates ← collectAttachmentCandidates event metadata bridge
  loadCandidates files config candidates [] 0 []

def stableEventId (sha256Hex : List UInt8 → String) (parts : List (Option String)) : String :=
  "openclaw-" ++
    sha256Hex (String.intercalate (String.singleton (Char.ofNat 0)) (parts.map fun part => part.getD "")).toUTF8.toList

def normalizedEventId (sha256Hex : List UInt8 → String) (candidate : Option String)
    (fallbackParts : List (Option String)) : String :=
  match text (value candidate) with
  | some value => if idOk value then value else stableEventId sha256Hex (fallbackParts ++ [some value])
  | none => stableEventId sha256Hex fallbackParts

def isGroupKind (value : Json) : Bool :=
  match (text value).map lower with
  | some normalized => normalized = "group" || normalized = "room" || normalized = "guild"
  | none => false

/-- `/(?:^|:)group(?::|$)/` and `/(?:^|:)guild(?::|$)/`, and the prefixes. -/
def isGroupTarget (normalized : String) : Bool :=
  let parts := normalized.toList.splitOn ':'
  "group".toList ∈ parts || "guild".toList ∈ parts || "group/".toList.isPrefixOf normalized.toList ||
    "guild/".toList.isPrefixOf normalized.toList

def hasGroupTarget (values : List Json) : Bool :=
  values.any fun value =>
    match (text value).map lower with
    | some normalized => isGroupTarget normalized
    | none => false

def resolveGroupFact (event : MessageHook) (ctx : AgentContext) (metadata bridge : Dict) (chat : Dict)
    (conversationId : String) : Bool :=
  match boolean [booleanValue event.isGroup, metadata.get "isGroup", metadata.get "is_group", chat.get "isGroup",
    bridge.get "is_group"] with
  | some explicit => explicit
  | none =>
    if isGroupKind (metadata.get "chatType") || isGroupKind (metadata.get "conversationType") ||
        isGroupKind (chat.get "type") || isGroupKind (bridge.get "conversation_type") then true
    else if (text (metadata.get "groupId")).isSome || (text (metadata.get "guildId")).isSome ||
        (text (metadata.get "channelName")).isSome then true
    else
      hasGroupTarget
        [.str conversationId, value event.conversationId, value event.sentFrom, metadata.get "from", metadata.get "to",
          metadata.get "originatingTo", value ctx.conversationId, value ctx.channel, value ctx.chatId]

def resolveMentionFact (event : MessageHook) (metadata bridge : Dict) (chat : Dict) : Bool :=
  boolean [booleanValue event.wasMentioned, metadata.get "wasMentioned", metadata.get "mentionsBot",
    metadata.get "mentions_bot", chat.get "wasMentioned", bridge.get "mentions_bot"] = some true

/-! ## The hooks -/

def missingContext (what : String) : Thrown := .invalid "missing_openclaw_context" ("OpenClaw " ++ what ++ " is missing")

def required (thrown : Thrown) (s : Option String) : Except Thrown String := s.elim (.error thrown) .ok

/-- `event.timestamp || Date.now()`. -/
def occurredAtOf (timestamp : Option JsNumber) (now : JsNumber) : JsNumber :=
  match timestamp with
  | none => now
  | some .nan => now
  | some (.finite q) => if q = 0 then now else .finite q
  | some t => t

def normalizeMessageHook (host : Host) (event : MessageHook) (ctx : AgentContext) (config : Config) :
    Except Thrown InboundEvent := do
  let metadata := record event.metadata
  let bridge := record (metadata.get "ryanai")
  let sender := record (member ctx.channelContext "sender")
  let chat := record (member ctx.channelContext "chat")
  let channel ← resolveOpenClawChannel
    [value event.channel, metadata.get "originatingChannel", metadata.get "provider", metadata.get "surface",
      value ctx.messageProvider, value ctx.channelId, bridge.get "channel", metadata.get "channel_id"]
  assertSingleOpenClawAccount event ctx metadata bridge
  let conversationId ← required (missingContext "conversation")
    (text (value event.conversationId) <|> text (value ctx.conversationId) <|> text (chat.get "id") <|>
      text (metadata.get "originatingTo") <|> text (metadata.get "to") <|> text (value ctx.channel) <|>
      text (value ctx.chatId) <|> text (value event.sentFrom) <|> text (metadata.get "from"))
  let isGroup := resolveGroupFact event ctx metadata bridge chat conversationId
  let senderId ← required (missingContext "sender")
    (text (value event.senderId) <|> text (value ctx.senderId) <|> text (metadata.get "senderId") <|>
      text (sender.get "id") <|>
      if isGroup then none else text (value event.sentFrom) <|> text (metadata.get "from"))
  let occurredAt := occurredAtOf event.timestamp host.now
  let rawEventId := present event.messageId <|> text (metadata.get "messageId") <|>
    text (metadata.get "message_id") <|> present ctx.runId <|> event.runId
  let eventId := normalizedEventId host.sha256Hex rawEventId
    [some channel.text, present event.accountId <|> ctx.accountId, some conversationId, some senderId,
      some occurredAt.toText, some event.content]
  let conversationName := text (bridge.get "conversation_name") <|> text (metadata.get "channelName") <|>
    text (chat.get "name")
  let senderName := text (value event.senderName) <|> text (bridge.get "sender_name") <|>
    text (metadata.get "senderName") <|> text (sender.get "name")
  let routing ← resolveEventRouting host.env channel
    (text (value event.accountId) <|> text (value ctx.accountId) <|> text (metadata.get "accountId") <|>
      text (bridge.get "account_id")) bridge
  let attachments ← loadAttachments host.files event metadata bridge config
  return {
    eventId := eventId
    occurredAt := occurredAt
    channel := channel
    connectionId := routing.connectionId
    accountKey := present routing.accountKey
    shardId := present routing.shardId
    nodeId := present routing.nodeId
    leaseEpoch := routing.leaseEpoch
    assignmentGeneration := routing.assignmentGeneration
    conversation := ⟨if isGroup then .group else .private_, conversationId, conversationName⟩
    sender := ⟨senderId, senderName⟩
    message := ⟨event.content, !isGroup || resolveMentionFact event metadata bridge chat⟩
    attachments := attachments }

def normalizeInboundClaim (host : Host) (event : MessageHook) (ctx : AgentContext) (config : Config) :
    Except Thrown InboundEvent := do
  let _ ← mapOpenClawChannel event.channel
  if event.isGroup.isNone then
    .error (.invalid "invalid_openclaw_claim" "OpenClaw inbound_claim isGroup must be a boolean")
  else normalizeMessageHook host event ctx config

def dispatchTimestamp (timestamp : Json) (now : JsNumber) : JsNumber :=
  let timestamp : JsNumber := match timestamp with
    | .num q => .finite q
    | _ => now
  match timestamp with
  | .finite q => .finite (if 0 < q ∧ q < 10000000000 then NumericText.roundDouble (q * 1000) else q)
  | t => t

def firstText : List Json → String
  | [] => ""
  | .str s :: _ => s
  | _ :: rest => firstText rest

def normalizeReplyDispatch (host : Host) (event : ReplyDispatchHook) (config : Config) :
    Except Thrown InboundEvent := do
  let source := event.ctx
  let channel ← resolveOpenClawChannel
    [source.get "Provider", source.get "Surface", source.get "OriginatingChannel", value event.originatingChannel]
  let sender := record (member (source.get "ChannelContext") "sender")
  let chat := record (member (source.get "ChannelContext") "chat")
  let isGroup := isGroupKind (source.get "ChatType") || boolean [chat.get "isGroup"] = some true ||
    (text (source.get "QQGroupOpenid")).isSome
  let senderId ← required (missingContext "sender")
    (text (source.get "SenderId") <|> text (sender.get "id") <|> text (source.get "NativeDirectUserId") <|>
      if isGroup then none else text (source.get "From"))
  let conversationId ← required (missingContext "conversation")
    (if isGroup then
      text (source.get "QQGroupOpenid") <|> text (source.get "NativeChannelId") <|> text (source.get "ChatId") <|>
        text (source.get "OriginatingTo") <|> text (value event.originatingTo) <|> text (source.get "To") <|>
        text (source.get "From")
    else
      some senderId <|> text (source.get "NativeDirectUserId") <|> text (source.get "ChatId") <|>
        text (source.get "OriginatingTo") <|> text (value event.originatingTo) <|> text (source.get "From"))
  let explicitMention :=
    boolean [source.get "WasMentioned", source.get "ExplicitlyMentionedBot", chat.get "wasMentioned"]
  let wasMentioned := !isGroup || explicitMention = some true ||
    (channel = .qq && source.get "GroupRequireMention" ≠ .bool false)
  let accountId := text (source.get "AccountId") <|> event.originatingAccountId
  let sessionKey := text (source.get "SessionKey") <|> event.sessionKey
  normalizeMessageHook host
    { content := firstText [source.get "RawBody", source.get "BodyForCommands", source.get "Body"]
      sentFrom := none
      timestamp := some (dispatchTimestamp (source.get "Timestamp") host.now)
      messageId := text (source.get "MessageSidFull") <|> text (source.get "MessageSid") <|>
        text (source.get "MessageSidFirst") <|> text (source.get "MessageSidLast")
      senderId := some senderId
      senderName := text (source.get "SenderName")
      runId := event.runId
      channel := some channel.text
      accountId := accountId
      conversationId := some conversationId
      isGroup := some isGroup
      wasMentioned := some wasMentioned
      mediaPath := value (text (source.get "MediaPath"))
      mediaPaths := .arr (items (source.get "MediaPaths"))
      mediaType := value (text (source.get "MediaType"))
      mediaTypes := .arr (items (source.get "MediaTypes"))
      metadata := .obj
        [("chatType", source.get "ChatType"),
          ("originatingTo", either (source.get "OriginatingTo") (value event.originatingTo)),
          ("channelName", either (source.get "GroupSubject") (source.get "ConversationLabel")),
          ("mentionsBot", .bool wasMentioned)] }
    { runId := event.runId
      sessionKey := sessionKey
      channelId := some channel.text
      accountId := accountId
      conversationId := some conversationId
      chatId := none
      senderId := some senderId
      channel := none
      messageProvider := none
      channelContext := source.get "ChannelContext" }
    config

def normalizeBeforeAgentReply (host : Host) (cleanedBody : String) (ctx : AgentContext) :
    Except Thrown InboundEvent := do
  let sender := record (member ctx.channelContext "sender")
  let chat := record (member ctx.channelContext "chat")
  let channel ← resolveOpenClawChannel [value ctx.messageProvider, value ctx.channelId]
  let conversationId ← required (missingContext "conversation")
    (text (value ctx.conversationId) <|> text (chat.get "id") <|> text (value ctx.channel) <|> text (value ctx.chatId))
  let isGroup := (boolean [chat.get "isGroup"]).getD
    (isGroupKind (chat.get "type") ||
      hasGroupTarget [.str conversationId, value ctx.channel, value ctx.channelId, value ctx.sessionKey])
  let senderId ← required (missingContext "sender") (text (value ctx.senderId) <|> text (sender.get "id"))
  let routing ← resolveEventRouting host.env channel (text (value ctx.accountId)) []
  return {
    eventId := normalizedEventId host.sha256Hex ctx.runId
      [some channel.text, ctx.accountId, some conversationId, some senderId, some cleanedBody]
    occurredAt := host.now
    channel := channel
    connectionId := routing.connectionId
    accountKey := present routing.accountKey
    shardId := present routing.shardId
    nodeId := present routing.nodeId
    leaseEpoch := routing.leaseEpoch
    assignmentGeneration := routing.assignmentGeneration
    conversation := ⟨if isGroup then .group else .private_, conversationId, none⟩
    sender := ⟨senderId, none⟩
    message := ⟨cleanedBody, !isGroup || boolean [chat.get "wasMentioned"] = some true⟩
    attachments := [] }

end RyanAI.Gateway.OpenClaw
