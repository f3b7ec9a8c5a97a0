import RyanAI.Chat.OutputMessages
import RyanAI.Lib.Machine

/-!
# Context compaction

`utils/context_compaction.py` replaces the front of a long conversation by a summary. The cut is left in the chat as a
checkpoint: the `contextSummary` of a message stands for all messages in front of it, and a marker in the output of a
reply, written by the tool loop of `utils/middleware.py`, names the tool call from which on the output is kept. The
next request starts from the latest checkpoint.

A `Summary` records besides its text the messages given to `_generate_summary` for it and its chain, and
`Message.origin` is the message of the chat that a message of a request stands for; no function reads them. System
messages, which lead the list and are not moved, are left out.
-/

namespace RyanAI.Chat.Compaction

open RyanAI.Lib
open RyanAI.Chat.ToolPairs
open RyanAI.Chat.OutputMessages

/-! ## Messages -/

structure Summary where
  text : String
  given : List String
deriving DecidableEq

inductive Item where
  | item (item : OutputItem)
  | marker (callId : Option String) (summary : Summary) (boundary : String)
deriving DecidableEq

/-- A message; its `output` is not read from its `body`. -/
structure Message where
  id : Option String
  body : ChatMessage
  contextSummary : Option Summary
  output : List Item
  origin : String
deriving DecidableEq

def Message.isUser (m : Message) : Bool := m.body.role == "user"

def Item.isResult : Item → Bool
  | .item (.functionCallOutput _) => true
  | _ => false

def Item.isCall (callId : Option String) : Item → Bool
  | .item (.functionCall call) => call.callId == callId
  | _ => false

def Item.marker? : Item → Option (Option String × Summary × String)
  | .item _ => none
  | .marker callId summary boundary => some (callId, summary, boundary)

/-- The item as `convert_output_to_messages` sees it. -/
def Item.toOutput : Item → OutputItem
  | .item i => i
  | .marker _ _ _ => .other "open_webui:context_compaction"

/-- A `contextSummary` that is a text and not blank. -/
def Message.checkpoint (m : Message) : Option Summary := m.contextSummary.filter fun s => !isBlank s.text

def Message.lastMarker (m : Message) : Option (Option String × Summary × String) :=
  m.output.reverse.findSome? Item.marker?

def batchStart (output : List Item) : Nat → Nat
  | 0 => 0
  | n + 1 => if output[n]?.any Item.isResult then n + 1 else batchStart output n

def keptOutput (callId : Option String) (output : List Item) : Option (List Item) :=
  (output.findIdx? (Item.isCall callId)).map fun start =>
    (output.drop (batchStart output start)).filter fun item => item.marker?.isNone

/-- The loop over `cut_idx`, the last message first. -/
def cutAt (callId : Option String) : List Message → List Message → Option (List Message)
  | [], _ => none
  | m :: before, after =>
    match keptOutput callId m.output with
    | some output => some (before.head?.toList ++ { m with output := output } :: after)
    | none => cutAt callId before (m :: after)

/-- The loop over `idx`. -/
def latestCheckpoint : List Message → List Message → Option (List Message × Summary)
  | [], _ => none
  | m :: before, after =>
    match m.checkpoint with
    | some summary => some (m :: after, summary)
    | none =>
      match m.lastMarker with
      | none => latestCheckpoint before (m :: after)
      | some (callId, summary, _) =>
        match cutAt callId (m :: before) after with
        | some messages => some (messages, summary)
        | none => latestCheckpoint before (m :: after)

/-- `_apply_latest_summary_checkpoint`. -/
def applyLatestSummaryCheckpoint (messages : List Message) : List Message × Option Summary :=
  match latestCheckpoint messages.reverse [] with
  | some (messages, summary) => (messages, some summary)
  | none => (messages, none)

/-- The indices of the messages that satisfy `p`. -/
def indices (p : Message → Bool) (messages : List Message) : List Nat :=
  (messages.zipIdx.filter fun m => p m.1).map (·.2)

/-- `_clamp_retention_percentage`. -/
def clampRetentionPercentage (value : Int) : Nat := (min 50 (max 10 value)).toNat

/-- `_find_compaction_boundary`. -/
def findCompactionBoundary (messages : List Message) (retentionPercentage : Int) : Nat :=
  let keepCount := max 2 (messages.length * clampRetentionPercentage retentionPercentage / 100)
  let target := max 1 (messages.length - keepCount)
  let last (boundaries : List Nat) (target : Nat) := (boundaries.reverse.find? (· ≤ target)).getD 0
  if messages.any fun m => m.body.isTool then last ((indices (fun m => m.body.heads) messages).drop 1) target
  else
    let boundaries := (indices Message.isUser messages).drop 1
    last boundaries (max target (boundaries.min?.getD 0))

/-- What a run meets: whether compaction is due, the share to keep, and the summary. -/
structure Settings where
  enabled : Bool
  exceeds : Bool
  retentionPercentage : Int
  summary : Option String

/-- The result, and the `contextSummary` stored for a message. -/
structure Result where
  messages : List Message
  summary : Option Summary
  compacted : Bool
  stored : Option (String × Summary)

def summarize (text : String) (compacted : List Message) (previous : Option Summary) : Summary :=
  ⟨text, compacted.map Message.origin ++ (previous.map Summary.given).getD []⟩

/-- `compact_messages_for_request`; `none` when the summary fails. -/
def compactMessagesForRequest (s : Settings) (userMessageId : String) (messages : List Message) : Option Result :=
  if !s.enabled then some ⟨messages, none, false, none⟩
  else
    let (messages, previous) := applyLatestSummaryCheckpoint messages
    if !s.exceeds then some ⟨messages, previous, false, none⟩
    else
      let boundary := findCompactionBoundary messages s.retentionPercentage
      let compacted := messages.take boundary
      match compacted, messages.drop boundary with
      | _ :: _, first :: recent =>
        s.summary.map fun text =>
          let summary := summarize text compacted previous
          ⟨first :: recent, some summary, true,
            -- only a user message is a checkpoint of the chat
            if first.isUser then some (first.id.getD userMessageId, summary) else none⟩
      | _, _ => some ⟨messages, previous, false, none⟩

/-- `upsert_message_to_chat_by_id_and_message_id` with a summary. -/
def storeSummary (stored : Option (String × Summary)) (branch : List Message) : List Message :=
  match stored with
  | none => branch
  | some (id, summary) =>
    branch.map fun m => if m.id = some id then { m with contextSummary := some summary } else m

/-- `compact_chat_branch`; `branch` leads to the current message. -/
def compactChatBranch (enabled : Bool) (text : Option String) (branch : List Message) : List Message :=
  if !enabled then branch
  else
    let (messages, previous) := applyLatestSummaryCheckpoint branch
    match messages.dropLast, branch.getLast? with
    | m :: ms, some current =>
      storeSummary (text.bind fun text => current.id.map fun id => (id, summarize text (m :: ms) previous)) branch
    | _, _ => branch

/-! ## From messages of a chat to messages of a model -/

/-- A message without the keys that `process_messages_with_output` takes away. -/
def Message.clean (m : Message) : Message := { m with id := none, contextSummary := none, output := [] }

def rebuilt (origin : String) (body : ChatMessage) : Message := ⟨none, body, none, [], origin⟩

/-- `not content`. -/
def Message.isEmpty (m : Message) : Bool :=
  match m.body.content with
  | .null => true
  | .str s => s == ""
  | .parts items => items.isEmpty

section

variable (dumps : Json → String) (o : Options)

/-- What `process_messages_with_output` makes of one message. -/
def processMessage (m : Message) : List Message :=
  if m.body.role = "assistant" ∧ m.output ≠ [] then
    match convertOutputToMessages dumps o (m.output.map Item.toOutput) with
    | [] => if m.isEmpty then [] else [m.clean]
    | bodies => bodies.map (rebuilt m.origin)
  else [m.clean]

/-- What the loop of `sanitize_tool_pairs` appends for one message. -/
def sanitizeMessage (m : Message) (pairedIds : List String) : Option Message :=
  if m.body.heads then
    let kept := m.body.calls.filter fun call => idIn call.id pairedIds
    if kept ≠ [] then some { m with body := { m.body with toolCalls := some kept } }
    else if m.isEmpty then none
    else some { m with body := { m.body with toolCalls := none } }
  else if m.body.isTool && !idIn m.body.toolCallId pairedIds then none
  else some m

/-- `sanitize_tool_pairs`. -/
def sanitizeToolPairs (messages : List Message) : List Message :=
  (messages.zip (getPairedToolCallIds (messages.map Message.body))).filterMap fun m => sanitizeMessage m.1 m.2

/-- `process_messages_with_output`, and `sanitize_tool_pairs`. -/
def processMessages (messages : List Message) : List Message :=
  sanitizeToolPairs (messages.flatMap (processMessage dumps o))

/-- The `messages` of the loop, the output of the reply so far, and the chat. -/
structure Loop where
  messages : List Message
  output : List Item
  branch : List Message

structure Round where
  items : List OutputItem
  settings : Settings

def Loop.extended (l : Loop) (reply : String) (r : Round) : List Message :=
  l.messages ++ (convertOutputToMessages dumps o r.items).map (rebuilt reply)

def Message.same (m m' : Message) : Bool := { m with origin := m'.origin } == m'

def Loop.mark (prompt : Option Message) (messages : List Message) (summary : Summary) (l : Loop) : Loop :=
  let messages := prompt.toList ++ messages.filter fun m => !prompt.any m.same
  match messages with
  | [] => l
  | first :: rest =>
    let messages := { first with contextSummary := some summary } :: rest
    match messages.find? fun m => m.body.calls ≠ [] with
    | none => { l with messages := messages }
    | some m =>
      { l with
        messages := messages
        output := l.output ++ [.marker (m.body.calls.head?.bind (·.id)) summary m.origin] }

def Loop.round (userMessageId reply : String) (prompt : Option Message) (l : Loop) (r : Round) : Loop :=
  let messages := l.extended dumps o reply r
  let output := l.output ++ r.items.map .item
  match compactMessagesForRequest r.settings userMessageId messages with
  -- the loop goes on with the messages as they are
  | none => ⟨messages, output, l.branch⟩
  | some result =>
    let l : Loop := ⟨result.messages, output, storeSummary result.stored l.branch⟩
    match result.compacted, result.summary with
    | true, some summary => l.mark prompt result.messages summary
    | _, _ => l

/-! ## A chat -/

structure Turn where
  user : String
  content : Content
  settings : Settings
  rounds : List Round
  last : List OutputItem
  reply : String
  replyContent : Content

inductive Op where
  | turn (t : Turn)
  | compact (enabled : Bool) (summary : Option String)

structure Request where
  chain : List Message
  messages : List Message
  summary : Option Summary

structure SavedChat where
  branch : List Message
  requests : List Request

def saved (id role : String) (content : Content) (output : List Item) : Message :=
  ⟨some id, ⟨role, content, none, none, none, none, []⟩, none, output, id⟩

/-- `load_messages_from_db` passes over an empty reply. -/
def Message.loaded (m : Message) : Bool := m.body.role ≠ "assistant" || !m.isEmpty || m.output ≠ []

def request (s : Settings) (userMessageId : String) (branch : List Message) : Result :=
  let messages := branch.filter Message.loaded
  (compactMessagesForRequest s userMessageId messages).getD ⟨messages, none, false, none⟩

def SavedChat.asked (c : SavedChat) (t : Turn) : List Message := c.branch ++ [saved t.user "user" t.content []]

def SavedChat.start (c : SavedChat) (t : Turn) : Loop :=
  let result := request t.settings t.user (c.asked t)
  ⟨processMessages dumps o result.messages, [], storeSummary result.stored (c.asked t)⟩

/-- `get_last_user_message_item`. -/
def lastUserMessage (messages : List Message) : Option Message := messages.reverse.find? Message.isUser

def SavedChat.loop (c : SavedChat) (t : Turn) (rounds : List Round) : Loop :=
  let start := c.start dumps o t
  rounds.foldl (Loop.round dumps o t.user t.reply (lastUserMessage start.messages)) start

def SavedChat.answered (c : SavedChat) (t : Turn) : List Message :=
  let l := c.loop dumps o t t.rounds
  l.branch ++ [saved t.reply "assistant" t.replyContent (l.output ++ t.last.map .item)]

def SavedChat.step (c : SavedChat) : Op → Option SavedChat
  | .turn t =>
    if t.user ∉ c.branch.map Message.origin ∧ t.reply ∉ t.user :: c.branch.map Message.origin then
      let result := request t.settings t.user (c.asked t)
      some ⟨c.answered dumps o t,
        c.requests ++ [⟨(c.asked t).filter Message.loaded, result.messages, result.summary⟩]⟩
    else none
  | .compact enabled summary => some { c with branch := compactChatBranch enabled summary c.branch }

end

def Request.Covered (r : Request) : Prop :=
  ∀ m ∈ r.chain, m.id ∈ r.messages.map Message.id ∨ r.summary.any fun s => s.given.any fun id => m.id = some id

instance (r : Request) : Decidable r.Covered := inferInstanceAs (Decidable (∀ m ∈ r.chain, _))

end RyanAI.Chat.Compaction
