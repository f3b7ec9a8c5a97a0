import RyanAI.Lib.Json
import RyanAI.Lib.NumericText
import RyanAI.Lib.OrderedMap
import RyanAI.Lib.Triple

/-!
# The Anthropic stream

`openai_stream_to_anthropic_stream` of `utils/anthropic.py` reads the chunks of an OpenAI stream and emits the events of
an Anthropic one: blocks of thinking, of text and of tool use, each started, filled with deltas and stopped. Tool calls
are tracked by their id, or by their index while they have none; a block is started when there is a name. An exception
ends the stream with an error event.

The values are JSON of any shape as `JSONCodec.loads`, a parameter, returns it. The ids that are made up are numbered: a
fresh `uuid4` is no id of the stream.
-/

namespace RyanAI.Chat.AnthropicStream

open Lib Lib.NumericText

/-! ## Values -/

inductive Key where
  | null
  | num (q : ℚ)
  | str (s : String)
  deriving DecidableEq

/-- `hash(value)`. -/
def keyOf : Json → Except Raised Key
  | .null => .ok .null
  | .bool b => .ok (.num (if b then 1 else 0))
  | .num q => .ok (.num q)
  | .str s => .ok (.str s)
  | .arr _ => .error .typeError
  | .obj _ => .error .typeError

/-- `value.get(key, default)`. -/
def getOr (key : String) (default : Json) : Json → Except Raised Json
  | .obj fields => .ok ((fields.lookup key).getD default)
  | _ => .error .attributeError

/-- `a.get(k) or b.get(l) or …` -/
def getAny : List (Json × String) → Except Raised Json
  | [] => .ok .null
  | [(value, key)] => value.get key
  | (value, key) :: rest => do
    let found ← value.get key
    if found.truthy then return found else getAny rest

/-- `for item in value`. -/
def iterate : Json → Except Raised (List Json)
  | .arr items => .ok items
  | .obj fields => .ok (fields.map fun field => .str field.1)
  | .str s => .ok (s.toList.map fun c => .str (String.singleton c))
  | _ => .error .typeError

/-- `a - b`. -/
def subtract (a b : Json) : Except Raised Json :=
  match a.number, b.number with
  | some x, some y => .ok (.num (x - y))
  | _, _ => .error .typeError

/-- `value[0]`, where only a list has a first dictionary. -/
def firstItem : Json → Except Raised Json
  | .arr (item :: _) => .ok item
  | .obj _ => .error .keyError
  | .str _ => .error .attributeError
  | _ => .error .typeError

inductive ToolId where
  | given (id : Json)
  | fallback (n : ℕ)

inductive Block where
  | thinking
  | text
  | toolUse (id : ToolId) (name : Json)

inductive Delta where
  | thinking (value : Json)
  | text (value : Json)
  | inputJson (partialJson : String)

inductive Event where
  | messageStart (model : String) (inputTokens : Json)
  | blockStart (index : ℤ) (block : Block)
  | blockDelta (index : ℤ) (delta : Delta)
  | blockStop (index : ℤ)
  | messageDelta (stopReason : String) (usage : Dict)
  | messageStop
  | error (message : Json)

/-! ## The state -/

inductive ToolKey where
  | given (key : Key)
  | fallback (n : ℕ)
  deriving DecidableEq

/-- An entry of `tracked_tool_calls`. -/
structure Tool where
  id : ToolId
  name : Json
  arguments : String
  blockIndex : ℤ
  started : Bool
  stopped : Bool

/-- The usage that is reported; `null` is `None`. -/
structure Usage where
  inputTokens : Json
  outputTokens : Json
  cacheCreationInputTokens : Json
  cacheReadInputTokens : Json
  outputTokensDetails : Json
  serverToolUse : Json
  serviceTier : Json

structure Stream where
  usage : Usage
  stopReason : String
  currentBlockIndex : ℤ
  thinkingBlockOpen : Bool
  textBlockOpen : Bool
  trackedToolCalls : OrderedMap ToolKey Tool
  indexToToolId : OrderedMap Key ToolKey
  hasToolCalls : Bool
  fallbacks : ℕ
  out : List Event

inductive Failure where
  | reported (message : Json)
  | raised (e : Raised)

abbrev Conversion := EStateM Failure Stream

namespace Stream

def start (model : String) (inputTokens : Json) : Stream where
  usage := ⟨inputTokens, .num 0, .null, .null, .null, .null, .null⟩
  stopReason := "end_turn"
  currentBlockIndex := 0
  thinkingBlockOpen := false
  textBlockOpen := false
  trackedToolCalls := []
  indexToToolId := []
  hasToolCalls := false
  fallbacks := 0
  out := [.messageStart model (inputTokens.orElse (.num 0))]

def emit (e : Event) (s : Stream) : Stream := { s with out := s.out ++ [e] }

def setTool (key : ToolKey) (tool : Tool) (s : Stream) : Stream :=
  { s with trackedToolCalls := s.trackedToolCalls.set key tool }

def closeThinking (s : Stream) : Stream :=
  if s.thinkingBlockOpen then
    { s.emit (.blockStop s.currentBlockIndex) with
      thinkingBlockOpen := false
      currentBlockIndex := s.currentBlockIndex + 1 }
  else s

def closeText (s : Stream) : Stream :=
  if s.textBlockOpen then
    { s.emit (.blockStop s.currentBlockIndex) with
      textBlockOpen := false
      currentBlockIndex := s.currentBlockIndex + 1 }
  else s

def openThinking (s : Stream) : Stream :=
  if s.thinkingBlockOpen then s
  else { s.emit (.blockStart s.currentBlockIndex .thinking) with thinkingBlockOpen := true }

def addReasoning (reasoning : Json) (s : Stream) : Stream :=
  if reasoning.truthy && !s.textBlockOpen && !s.hasToolCalls then
    let s := s.openThinking
    s.emit (.blockDelta s.currentBlockIndex (.thinking reasoning))
  else s

def openText (s : Stream) : Stream :=
  if s.textBlockOpen then s
  else { s.emit (.blockStart s.currentBlockIndex .text) with textBlockOpen := true }

def addContent (content : Json) (s : Stream) : Stream :=
  if content.truthy && !s.hasToolCalls then
    let s := s.closeThinking.openText
    s.emit (.blockDelta s.currentBlockIndex (.text content))
  else s

/-! ## Tool calls -/

def newTool (id : ToolId) (name : Json) : Tool := ⟨id, name, "", -1, false, false⟩

def track (key : Key) (id name : Json) (s : Stream) : Stream :=
  match s.trackedToolCalls.get (.given key) with
  | some _ => s
  | none => s.setTool (.given key) (newTool (.given id) name)

def route (index : Key) (key : ToolKey) (s : Stream) : Stream :=
  { s with indexToToolId := s.indexToToolId.set index key }

def trackFallback (name : Json) (s : Stream) : Stream :=
  { s.setTool (.fallback s.fallbacks) (newTool (.fallback s.fallbacks) name) with fallbacks := s.fallbacks + 1 }

def nameTool (name : Json) (tool : Tool) : Tool :=
  if name.truthy && !tool.name.truthy then { tool with name := name } else tool

def startTool (key : ToolKey) (tool : Tool) (s : Stream) : Stream :=
  if !tool.started && tool.name.truthy then
    { (s.setTool key { tool with blockIndex := s.currentBlockIndex, started := true }).emit
        (.blockStart s.currentBlockIndex (.toolUse tool.id tool.name)) with
      hasToolCalls := true
      currentBlockIndex := s.currentBlockIndex + 1 }
  else s.setTool key tool

def bufferArguments (key : ToolKey) (text : String) (tool : Tool) (s : Stream) : Stream :=
  let s := s.setTool key { tool with arguments := tool.arguments ++ text }
  if tool.started && !tool.stopped then s.emit (.blockDelta tool.blockIndex (.inputJson text)) else s

def stopTool (key : ToolKey) (tool : Tool) (s : Stream) : Stream :=
  (s.setTool key { tool with stopped := true }).emit (.blockStop tool.blockIndex)

end Stream

section Converting

/-- `JSONDecodeError`, another `ValueError`, or anything else. -/
inductive LoadError where
  | decode
  | value
  | other

variable (loads : String → Except LoadError Json)

def raising {α : Type} (x : Except Raised α) : Conversion α :=
  attempt (match x with
    | .ok a => .ok a
    | .error e => .error (.raised e))

/-- `tracked_tool_calls[key]`. -/
def toolAt (key : ToolKey) : Conversion Tool := do
  let s ← get
  raising (match s.trackedToolCalls.get key with
    | some tool => .ok tool
    | none => .error .keyError)

structure ToolCall where
  index : Json
  id : Json
  name : Json
  arguments : Json

def readToolCall (value : Json) : Except Raised ToolCall := do
  let index ← getOr "index" (.num 0) value
  let id ← getOr "id" (.str "") value
  let function ← value.get "function"
  let function := function.orElse (.obj [])
  let name ← getOr "name" (.str "") function
  let arguments ← getOr "arguments" (.str "") function
  return ⟨index, id, name, arguments⟩

def resolveTool (call : ToolCall) : Conversion ToolKey := do
  if call.id.truthy then
    let key ← raising (keyOf call.id)
    change (Stream.track key call.id call.name)
    let index ← raising (keyOf call.index)
    change (Stream.route index (.given key))
    return .given key
  else
    let index ← raising (keyOf call.index)
    let s ← get
    match s.indexToToolId.get index with
    | some key => return key
    | none =>
      change (Stream.trackFallback call.name)
      change (Stream.route index (.fallback s.fallbacks))
      return .fallback s.fallbacks

def mayBeComplete (arguments : List Char) : Bool :=
  (arguments.rdropWhile stripSpace).getLast? = some '}' || (arguments.dropWhile stripSpace).head? ≠ some '{'

def closeComplete (key : ToolKey) : Conversion Unit := do
  let tool ← toolAt key
  if tool.started && !tool.stopped && mayBeComplete tool.arguments.toList then
    match loads tool.arguments with
    | .ok _ => change (Stream.stopTool key tool)
    | .error .decode => pure ()
    | .error .value => pure ()
    | .error .other => throw (.raised .recursionError)
  else pure ()

def addArguments (key : ToolKey) (arguments : Json) : Conversion Unit := do
  if arguments.truthy then
    match arguments with
    | .str text =>
      let tool ← toolAt key
      change (Stream.bufferArguments key text tool)
      closeComplete loads key
    | _ => throw (.raised .typeError)
  else pure ()

def addToolCall (value : Json) : Conversion Unit := do
  let call ← raising (readToolCall value)
  let key ← resolveTool call
  let tool ← toolAt key
  change (Stream.startTool key (Stream.nameTool call.name tool))
  addArguments loads key call.arguments

def thinkingOf (reasoning : Json) : List Json → Except Raised Json
  | [] => .ok reasoning
  | .obj fields :: rest => do
    let found ← getAny [(.obj fields, "thinking"), (.obj fields, "content"), (.obj fields, "text")]
    if found.truthy then return found else thinkingOf found rest
  | _ :: rest => thinkingOf reasoning rest

def reasoningOf (delta message : Json) : Except Raised Json := do
  let reasoning ← getAny [(delta, "reasoning_content"), (delta, "reasoning"), (delta, "thinking"),
    (message, "reasoning_content"), (message, "reasoning")]
  if reasoning.truthy then return reasoning
  else
    let blocks ← getAny [(delta, "thinking_blocks"), (message, "thinking_blocks")]
    let blocks ← iterate (blocks.orElse (.arr []))
    thinkingOf reasoning blocks

def toolCallsOf (delta message : Json) : Except Raised Json := do
  let calls ← delta.get "tool_calls"
  if calls.truthy then return calls
  else
    let calls ← message.get "tool_calls"
    return calls.orElse (.arr [])

/-- `stop_reason_map.get(finish_reason, 'end_turn')`. -/
def stopReasonOf (finishReason : Json) : Except Raised String := do
  let key ← keyOf finishReason
  return match key with
    | .str "length" => "max_tokens"
    | .str "tool_calls" => "tool_use"
    | _ => "end_turn"

/-- `a if a is not None else b`. -/
def ifNone (a b : Json) : Json := if a = .null then b else a

/-- `a if isinstance(a, dict) else b`. -/
def ifDict (a b : Json) : Json :=
  match a with
  | .obj _ => a
  | _ => b

def readUsage (data : Json) (usage : Usage) : Except Raised Usage := do
  let cacheCreation ← data.get "cache_creation_input_tokens"
  let cacheRead ← data.get "cache_read_input_tokens"
  let details ← data.get "prompt_tokens_details"
  let cacheRead ← match details with
    | .obj fields => .ok (ifNone cacheRead (Dict.get fields "cached_tokens"))
    | _ => .ok cacheRead
  let inputTokens ← data.get "input_tokens"
  let promptTokens ← data.get "prompt_tokens"
  let inputTokens ←
    if inputTokens = .null && promptTokens ≠ .null then do
      let rest ← subtract promptTokens (cacheCreation.orElse (.num 0))
      let rest ← subtract rest (cacheRead.orElse (.num 0))
      match rest.number with
      | some q => .ok (.num (max q 0))
      | none => .error .typeError
    else .ok inputTokens
  let outputTokens ← data.get "output_tokens"
  let completionTokens ← data.get "completion_tokens"
  let outputTokensDetails ← data.get "output_tokens_details"
  let serverToolUse ← data.get "server_tool_use"
  let serviceTier ← data.get "service_tier"
  return {
    inputTokens := ifNone inputTokens usage.inputTokens
    outputTokens := ifNone (ifNone outputTokens completionTokens) usage.outputTokens
    cacheCreationInputTokens := ifNone cacheCreation usage.cacheCreationInputTokens
    cacheReadInputTokens := ifNone cacheRead usage.cacheReadInputTokens
    outputTokensDetails := ifDict outputTokensDetails usage.outputTokensDetails
    serverToolUse := ifDict serverToolUse usage.serverToolUse
    serviceTier := ifNone serviceTier usage.serviceTier }

def errorOf (data : Json) : Except Raised (Option Json) := do
  let error ← data.get "error"
  if error.truthy then
    let message ← match error with
      | .obj fields => .ok (Dict.get fields "message")
      | _ => .ok error
    return some (message.orElse (.str "Chat completion stream failed"))
  else return none

def addUsage (data : Json) : Conversion Unit := do
  let usageData ← raising (data.get "usage")
  match usageData with
  | .obj fields =>
    let s ← get
    let usage ← raising (readUsage (.obj fields) s.usage)
    change fun s => { s with usage := usage }
  | _ => pure ()

def addToolCalls (calls : Json) : Conversion Unit := do
  if calls.truthy then
    change fun s => s.closeThinking.closeText
    let items ← raising (iterate calls)
    forEach (addToolCall loads) items
  else pure ()

def addFinishReason (finishReason : Json) : Conversion Unit := do
  if finishReason = .null then pure ()
  else
    let reason ← raising (stopReasonOf finishReason)
    change fun s => { s with stopReason := reason }

def addChoice (choice : Json) : Conversion Unit := do
  let delta ← raising (getOr "delta" (.obj []) choice)
  let finishReason ← raising (choice.get "finish_reason")
  let message ← raising (choice.get "message")
  let message := message.orElse (.obj [])
  let reasoning ← raising (reasoningOf delta message)
  change (Stream.addReasoning reasoning)
  let content ← raising (delta.get "content")
  change (Stream.addContent content)
  let calls ← raising (toolCallsOf delta message)
  addToolCalls loads calls
  addFinishReason finishReason

def addData (data : Json) : Conversion Unit := do
  let error ← raising (errorOf data)
  match error with
  | some message => throw (.reported message)
  | none =>
    addUsage data
    let choices ← raising (getOr "choices" (.arr []) data)
    if choices.truthy then
      let choice ← raising (firstItem choices)
      addChoice loads choice
    else pure ()

/-- What follows `data:` in a line, if it is to be read. -/
def dataOf (line : List Char) : Option String :=
  let line := strip stripSpace line
  if "data:".toList <+: line then
    let data := String.ofList (strip stripSpace (line.drop 5))
    if data = "[DONE]" || data = "\x7b\x7d" then none else some data
  else none

def addLine (line : List Char) : Conversion Unit :=
  match dataOf line with
  | none => pure ()
  | some text =>
    match loads text with
    | .ok data => addData loads data
    | .error .decode => pure ()
    | .error .value => throw (.raised .typeError)
    | .error .other => throw (.raised .recursionError)

/-- `chunk.strip().split('\n')`. -/
def linesOf (chunk : String) : List (List Char) := (strip stripSpace chunk.toList).splitOn '\n'

def addChunks (chunks : List String) (ending : Except Raised Unit) : Conversion Unit := do
  forEach (addLine loads) (chunks.flatMap linesOf)
  raising ending

namespace Stream

def flushTool (key : ToolKey) (s : Stream) : Stream :=
  match s.trackedToolCalls.get key with
  | none => s
  | some tool =>
    if !tool.started && tool.name.truthy then
      let index := s.currentBlockIndex
      let s := (s.setTool key { tool with blockIndex := index, started := true }).emit
        (.blockStart index (.toolUse tool.id tool.name))
      let s := { s with currentBlockIndex := index + 1 }
      if tool.arguments ≠ "" then s.emit (.blockDelta index (.inputJson tool.arguments)) else s
    else s

def endText (s : Stream) : Stream := if s.textBlockOpen then s.emit (.blockStop s.currentBlockIndex) else s

def endTool (tool : Tool) (s : Stream) : Stream :=
  if tool.started && !tool.stopped then s.emit (.blockStop tool.blockIndex) else s

def usageFields (s : Stream) : Dict :=
  ("output_tokens", s.usage.outputTokens) ::
    [("input_tokens", s.usage.inputTokens),
     ("cache_creation_input_tokens", s.usage.cacheCreationInputTokens),
     ("cache_read_input_tokens", s.usage.cacheReadInputTokens),
     ("output_tokens_details", s.usage.outputTokensDetails),
     ("server_tool_use", s.usage.serverToolUse),
     ("service_tier", s.usage.serviceTier)].filter fun field => field.2 ≠ .null

def finish (s : Stream) : Stream :=
  let s := s.closeThinking
  let s := (OrderedMap.keys s.trackedToolCalls).foldl (fun s key => s.flushTool key) s
  let s := s.endText
  let s := (s.trackedToolCalls.map Prod.snd).foldl (fun s tool => s.endTool tool) s
  (s.emit (.messageDelta s.stopReason s.usageFields)).emit .messageStop

end Stream

def Failure.message : Failure → Json
  | .reported message => message
  | .raised _ => .str "Chat completion stream failed"

/-- `openai_stream_to_anthropic_stream`: the events that it emits. -/
def openaiStreamToAnthropicStream (model : String) (inputTokens : Json) (chunks : List String)
    (ending : Except Raised Unit) : List Event :=
  match addChunks loads chunks ending (Stream.start model inputTokens) with
  | .ok _ s => s.finish.out
  | .error failure s => (s.emit (.error failure.message)).out

end Converting

end RyanAI.Chat.AnthropicStream
