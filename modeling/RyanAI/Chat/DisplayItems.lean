import RyanAI.Chat.ResponseStream
import RyanAI.Lib.JsNumber
import RyanAI.Lib.OrderedMap
import RyanAI.Lib.RenameRepeats

/-!
# What a page shows of an answer

`buildOutputDisplayItems` of `structuredOutput.ts`. Details (tool calls, thoughts, runs of code) that follow one another
are shown as one group. Every item shown has an id, and ids that have been there are made different afterwards.

Nothing gets lost and nothing is shown twice (`flatten_buildOutputDisplayItems`). The ids differ unless one that is made
by appending a position meets one that was there before (`shown_completely_with_distinct_ids_iff`).

The items have the fields of their type in the source, each of which may be missing, and entries of the output may be
missing altogether. A call id is not the name of a member that every object of JavaScript has.
-/

namespace RyanAI.Chat.DisplayItems

open Lib
open ResponseStream (startsWith)

/-- The test of an `if`: every object counts as true, also an empty one. -/
def truthy : Json → Bool
  | .arr _ => true
  | .obj _ => true
  | value => value.truthy

/-! ## Output items -/

/-- A part of a text, with any fields; `text` and `type` are read. -/
abbrev OutputContentPart := Dict

/-- `OutputItem['summary']`: parts or a text. -/
inductive OutputSummary where
  | parts (parts : List (Option OutputContentPart))
  | text (text : String)

/-- An item of the output. A field that is `undefined` is `none`; of those declared as `unknown` the value may also be
null. -/
structure OutputItem where
  type : Option String := none
  id : Option String := none
  callId : Option String := none
  name : Option String := none
  status : Option String := none
  arguments : Option Json := none
  content : Option (List (Option OutputContentPart)) := none
  summary : Option OutputSummary := none
  output : Option (List (Option OutputContentPart)) := none
  files : Option Json := none
  embeds : Option Json := none
  code : Option String := none
  lang : Option String := none
  duration : Option Json := none
  action : Option Dict := none
  actions : Option (List Dict) := none
  queries : Option (List Json) := none
  result : Option Json := none
  outputFormat : Option Json := none

/-- `OutputDetailToken['attributes']`. -/
structure DetailAttributes where
  type : String
  id : Option String := none
  name : Option String := none
  done : Option String := none
  duration : Option String := none
  arguments : Option String := none
  files : Option String := none
  embeds : Option String := none
  output : Option String := none
  status : Option String := none

structure OutputDetailToken where
  summary : String
  text : String
  attributes : DetailAttributes

/-- What an item shown is, besides its id. -/
inductive OutputDisplay where
  | message (text : String)
  | image (src : String)
  | detailSingle (token : OutputDetailToken)
  | detailGroup (tokens : List OutputDetailToken)
  | file (item : Dict)
  | contextCompaction (summary : String)

structure OutputDisplayItem where
  id : String
  display : OutputDisplay

/-- What the functions use of the language and of `html-entities`. -/
structure Browser where
  /-- `encode`. -/
  encode : String → String
  /-- `JSON.stringify`. -/
  stringify : Json → String
  /-- `JSON.parse`, `none` if it throws. -/
  parse : String → Option Json
  /-- A text within a text has its quotes less. -/
  parse_shorter : ∀ s t, parse s = some (.str t) → t.length < s.length
  /-- `String(value)`. -/
  text : Json → String
  /-- `values.join(', ')`. -/
  join : List Json → String
  /-- `text.length`. -/
  units : String → ℕ
  /-- `text.slice(0, n)`. -/
  slice : String → ℕ → String

/-! ## Texts -/

/-- `part?.text` as text. -/
def partText (js : Browser) (part : Option OutputContentPart) : String :=
  match part.bind (·.lookup "text") with
  | none | some .null => ""
  | some (.str text) => text
  | some value => js.text value

/-- `getTextFromParts`. -/
def getTextFromParts (js : Browser) (parts : List (Option OutputContentPart)) : String :=
  String.join (parts.map (partText js))

/-- `stringifyAttribute`. -/
def stringifyAttribute (js : Browser) : Option Json → String
  | none | some .null => ""
  | some (.str value) => value
  | some value => js.stringify value

def isDoneStatus (status : Option String) : Bool :=
  status = some "completed" ∨ status = some "failed" ∨ status = some "incomplete"

def getMessageText (js : Browser) (item : OutputItem) : String := getTextFromParts js (item.content.getD [])

def getReasoningText (js : Browser) (item : OutputItem) : String :=
  match item.summary with
  | some (.parts (part :: parts)) => getTextFromParts js (part :: parts)
  | _ => getTextFromParts js (item.content.getD [])

def getToolResultText (js : Browser) (item : Option OutputItem) : String :=
  getTextFromParts js (((item.bind OutputItem.output).getD []).filter fun part =>
    part.bind (·.lookup "type") ≠ some (.str "input_image"))

/-- The loop of `parseJSONStringValue`: what is read from a text may be a text again. -/
def parseText (js : Browser) (s : String) : Json :=
  match _hparse : js.parse s with
  | some (.str inner) => parseText js inner
  | some value => value
  | none => .str s
termination_by s.length
decreasing_by exact js.parse_shorter s inner _hparse

def parseJSONStringValue (js : Browser) : Option Json → Option Json
  | some (.str s) => some (parseText js (trim s))
  | value => value

/-- `value?.key` of a value that is parsed. -/
def member (key : String) : Json → Option Json
  | .obj fields => fields.lookup key
  | _ => none

/-- `!!value`. -/
def given (value : Option Json) : Bool := value.any truthy

/-! ## Details -/

/-- `getInlineFileFromToolOutput`. -/
def getInlineFileFromToolOutput (js : Browser) (callItem : Option OutputItem) (resultItem : OutputItem) : Option Dict :=
  if callItem.bind OutputItem.name ≠ some "display_file" then none
  else
    let page : Option (Option Json) :=
      match parseJSONStringValue js (callItem.bind OutputItem.arguments) with
      | some (.obj args) => some (args.lookup "page")
      | some (.arr _) => some none
      | _ => none
    match page, parseText js (trim (getToolResultText js (some resultItem))) with
    | some page, .obj result =>
      let isTerminalFile := result.lookup "source" = some (.str "open_terminal") ∧
        given (result.lookup "terminal_selector") = true
      let isOpenWebUIFile := result.lookup "source" = some (.str "open_webui")
      if result.lookup "type" ≠ some (.str "file") ∨ given (result.lookup "path") = false ∨
          result.lookup "exists" = some (.bool false) ∨ ¬ (isTerminalFile ∨ isOpenWebUIFile) then none
      else
        match result.lookup "page", page with
        | none, some page => some (Dict.set result "page" page)
        | _, _ => some result
    | _, _ => none

/-- The name of a call of `delegate_task`. -/
def delegateName (js : Browser) (arguments : Option Json) : String :=
  let args : Option Json :=
    match arguments with
    | some (.str s) => js.parse (if s = "" then "{}" else s)
    | none | some .null => some (.obj [])
    | some value => some value
  match args with
  | none | some .null => "Sub-agent"
  | some args =>
    let task :=
      match member "task" args with
      | some (.str task) => if task = "" then "?" else task
      | _ => "?"
    let label := if given (member "background" args) then "Background sub-agent" else "Sub-agent"
    label ++ ": \"" ++ (if 60 < js.units task then js.slice task 60 ++ "..." else task) ++ "\""

/-- `item.call_id ?? item.id ?? ''`. -/
def callKey (item : OutputItem) : String := (item.callId.or item.id).getD ""

/-- `buildToolCallToken`. -/
def buildToolCallToken (js : Browser) (item : OutputItem) (toolOutputByCallId : KeyedTable String OutputItem) :
    OutputDetailToken :=
  let callId := callKey item
  let resultItem := toolOutputByCallId.get callId
  let status := item.status.getD ""
  let isPending := status = "pending"
  let isDone := resultItem.isSome ∨ status = "failed" ∨ status = "incomplete"
  let isExecuting := ¬ isDone ∧ status = "completed"
  let name := item.name.getD ""
  { summary :=
      if isPending then "Tool Approval Needed"
      else if isDone then "Tool Executed"
      else if isExecuting then "Executing..."
      else "Preparing..."
    text := getToolResultText js resultItem
    attributes :=
      { type := "tool_calls"
        id := some callId
        name := some (if name = "delegate_task" then delegateName js item.arguments else name)
        done := some (if isDone then "true" else "false")
        status := some status
        arguments := some (js.encode (stringifyAttribute js item.arguments))
        files := some (js.encode (stringifyAttribute js (resultItem.bind OutputItem.files)))
        embeds := some (js.encode (stringifyAttribute js (resultItem.bind OutputItem.embeds))) } }

/-- `item.duration ?? ''`. -/
def durationOf (item : OutputItem) : Json :=
  match item.duration with
  | none | some .null => .str ""
  | some value => value

/-- A detail counts as done by its status, by its duration, or because there is something after it. -/
def detailDone (item : OutputItem) (isLastItem : Bool) : Bool :=
  isDoneStatus item.status || item.duration.isSome || !isLastItem

/-- `buildReasoningToken`. -/
def buildReasoningToken (js : Browser) (item : OutputItem) (isLastItem : Bool) : OutputDetailToken :=
  let duration := durationOf item
  let isDone := detailDone item isLastItem
  { summary :=
      if isDone then "Thought for " ++ js.text (if truthy duration then duration else .num 0) ++ " seconds"
      else "Thinking..."
    text := String.intercalate "\n" (((getReasoningText js item).splitOn "\n").map fun line =>
      if startsWith line ">" then line else "> " ++ line)
    attributes :=
      { type := "reasoning"
        done := some (if isDone then "true" else "false")
        duration := some (js.text duration) } }

/-- `buildCodeInterpreterToken`. -/
def buildCodeInterpreterToken (js : Browser) (item : OutputItem) (isLastItem : Bool) : OutputDetailToken :=
  let isDone := detailDone item isLastItem
  let code := item.code.getD ""
  let lang := item.lang.getD "python"
  { summary := if isDone then "Analyzed" else "Analyzing..."
    text := if code = "" then "" else "```" ++ lang ++ "\n" ++ code ++ "\n```"
    attributes :=
      { type := "code_interpreter"
        done := some (if isDone then "true" else "false")
        duration := some (js.text (durationOf item))
        output := some (stringifyAttribute js (item.output.map fun parts =>
          .arr (parts.map fun part => (part.map Json.obj).getD .null))) } }

def openAIToolNames : List (String × String) :=
  [("web_search_call", "Web Search"), ("file_search_call", "File Search"), ("computer_call", "Computer Use")]

/-- The part of `getOpenAIToolSummary` on a search of the web. -/
def webSearchSummary (js : Browser) (action : Dict) : String :=
  match action.lookup "type", action.lookup "url", action.lookup "pattern" with
  | some (.str "search"), _, _ =>
    let queries :=
      match action.lookup "queries" with
      | some (.arr queries) => queries
      | _ => []
    let query :=
      match action.lookup "query" with
      | some (.str query) => query
      | _ => ""
    if queries ≠ [] then "Search: " ++ js.join queries else if query ≠ "" then "Search: " ++ query else ""
  | some (.str "open_page"), some (.str url), _ => "Open page: " ++ url
  | some (.str "find_in_page"), _, some (.str pattern) => "Find in page: " ++ pattern
  | _, _, _ => ""

/-- `getOpenAIToolSummary`. -/
def getOpenAIToolSummary (js : Browser) (item : OutputItem) : String :=
  if item.type = some "web_search_call" then webSearchSummary js (item.action.getD [])
  else if item.type = some "file_search_call" then
    let queries := item.queries.getD []
    if queries ≠ [] then "Queries: " ++ js.join queries else ""
  else if item.type = some "computer_call" then
    let type := (item.action.getD []).lookup "type"
    let actions := item.actions.getD []
    if given type then "Action: " ++ js.text (type.getD .null)
    else if actions ≠ [] then "Actions: " ++ js.join (actions.map actionType)
    else ""
  else ""
where
  /-- `action.type ?? '?'`. -/
  actionType (action : Dict) : Json :=
    match action.lookup "type" with
    | none | some .null => .str "?"
    | some type => type

/-- `buildOpenAIToolToken`. -/
def buildOpenAIToolToken (js : Browser) (item : OutputItem) (isLastItem : Bool) : OutputDetailToken :=
  let isDone := isDoneStatus item.status || !isLastItem
  let type := item.type.getD ""
  { summary := if isDone then "Tool Executed" else "Executing..."
    text := getOpenAIToolSummary js item
    attributes :=
      { type := "tool_calls"
        id := some (item.id.getD "")
        name := some ((openAIToolNames.lookup type).getD type)
        done := some (if isDone then "true" else "false")
        arguments := some "" } }

/-- `buildDetailToken`. -/
def buildDetailToken (js : Browser) (item : OutputItem) (isLastItem : Bool)
    (toolOutputByCallId : KeyedTable String OutputItem) : Option OutputDetailToken :=
  match item.type with
  | some "function_call" => some (buildToolCallToken js item toolOutputByCallId)
  | some "reasoning" => some (buildReasoningToken js item isLastItem)
  | some "open_webui:code_interpreter" => some (buildCodeInterpreterToken js item isLastItem)
  | some type =>
    if (openAIToolNames.lookup type).isSome then some (buildOpenAIToolToken js item isLastItem) else none
  | none => none

/-! ## The list of what is shown -/

/-- The results and the calls of tools by the id of the call. -/
structure CallTables where
  toolOutputByCallId : KeyedTable String OutputItem
  toolCallByCallId : KeyedTable String OutputItem

/-- `!!text`. -/
def filled (text : Option String) : Bool := text.any (· ≠ "")

def CallTables.add (tables : CallTables) : Option OutputItem → CallTables
  | none => tables
  | some item =>
    if item.type = some "function_call_output" ∧ filled item.callId = true then
      { tables with toolOutputByCallId := tables.toolOutputByCallId.set (item.callId.getD "") item }
    else if item.type = some "function_call" ∧ (filled item.callId || filled item.id) = true then
      { tables with toolCallByCallId := tables.toolCallByCallId.set (callKey item) item }
    else tables

def callTables (output : List (Option OutputItem)) : CallTables := output.foldl CallTables.add ⟨.empty, .empty⟩

def groupableOutputTypes : List String :=
  ["reasoning", "function_call", "open_webui:code_interpreter", "web_search_call", "file_search_call", "computer_call"]

/-- The details that are kept back are `currentDetailTokens`. -/
structure DisplayState where
  displayItems : List OutputDisplayItem := []
  currentDetailTokens : List OutputDetailToken := []

namespace DisplayState

def push (id : String) (display : OutputDisplay) (state : DisplayState) : DisplayState :=
  { state with displayItems := state.displayItems ++ [⟨id, display⟩] }

def pushDetail (token : OutputDetailToken) (state : DisplayState) : DisplayState :=
  { state with currentDetailTokens := state.currentDetailTokens ++ [token] }

/-- `flushDetails`. -/
def flushDetails (state : DisplayState) : DisplayState :=
  let position := toString state.displayItems.length
  match state.currentDetailTokens with
  | [] => state
  | [token] => { state.push ("detail-" ++ position) (.detailSingle token) with currentDetailTokens := [] }
  | tokens => { state.push ("detail-group-" ++ position) (.detailGroup tokens) with currentDetailTokens := [] }

end DisplayState

/-- The source of an image, if the result of the call is a text. -/
def imageSource (js : Browser) (item : OutputItem) : Option String :=
  match item.result with
  | some (.str result) =>
    if result = "" then none
    else if startsWith result "data:" then some result
    else
      let format := if given item.outputFormat then js.text (item.outputFormat.getD .null) else "png"
      some ("data:image/" ++ format ++ ";base64," ++ result)
  | _ => none

/-- A call of `ask_user` that waits for its answer. -/
def unanswered (item : OutputItem) : Bool :=
  item.type = some "function_call" ∧ item.name = some "ask_user" ∧
    (item.status = some "pending" ∨ item.status = some "in_progress")

/-- One round of `output.forEach`. -/
def showItem (js : Browser) (tables : CallTables) (last : ℕ) (state : DisplayState) :
    Option OutputItem × ℕ → DisplayState
  | (none, _) => state
  | (some item, index) =>
    let idOr := fun (made : String) => item.id.getD (made ++ "-" ++ toString index)
    if item.type = some "function_call_output" then
      match getInlineFileFromToolOutput js (tables.toolCallByCallId.get (item.callId.getD "")) item with
      | some inlineFile => state.flushDetails.push (idOr "file") (.file inlineFile)
      | none => state
    else if unanswered item = true then state
    else if item.type.any (· ∈ groupableOutputTypes) = true then
      match buildDetailToken js item (index = last) tables.toolOutputByCallId with
      | some token => state.pushDetail token
      | none => state
    else if item.type = some "open_webui:context_compaction" then
      let summary :=
        match item.summary with
        | some (.text summary) => summary
        | _ => ""
      state.flushDetails.push (idOr "context-compaction") (.contextCompaction summary)
    else if item.type = some "message" then
      let text := getMessageText js item
      if blank text = true then state else state.flushDetails.push (idOr "message") (.message text)
    else if item.type = some "image_generation_call" then
      match imageSource js item with
      | some src => state.flushDetails.push (idOr "image") (.image src)
      | none => state
    else
      let fallbackText := getMessageText js item
      if blank fallbackText = true then state else state.flushDetails.push (idOr "output") (.message fallbackText)

/-- The id of an item that is in use already, at its position. -/
def suffixed (id : String) (index : ℕ) : String := id ++ "-" ++ toString index

/-- One round of the last loop; `result` are the items so far, whose ids are `seenIds`. -/
def separate (result : List OutputDisplayItem) (displayItem : OutputDisplayItem) : List OutputDisplayItem :=
  let seenIds := result.map OutputDisplayItem.id
  let index := result.length
  result ++ [if displayItem.id ∈ seenIds then { displayItem with id := suffixed displayItem.id index } else displayItem]

/-- `displayItems` before the ids are made different. -/
def collected (js : Browser) (output : List (Option OutputItem)) : List OutputDisplayItem :=
  (output.zipIdx.foldl (showItem js (callTables output) (output.length - 1)) {}).flushDetails.displayItems

def buildOutputDisplayItems (js : Browser) (output : List (Option OutputItem)) : List OutputDisplayItem :=
  (collected js output).foldl separate []

/-! ## What is to be shown -/

/-- What one item of the output is shown as. -/
inductive Piece where
  | detail (token : OutputDetailToken)
  | message (text : String)
  | image (src : String)
  | file (item : Dict)
  | contextCompaction (summary : String)

def Piece.display : Piece → OutputDisplay
  | .detail token => .detailSingle token
  | .message text => .message text
  | .image src => .image src
  | .file item => .file item
  | .contextCompaction summary => .contextCompaction summary

def OutputDisplay.pieces : OutputDisplay → List Piece
  | .message text => [.message text]
  | .image src => [.image src]
  | .detailSingle token => [.detail token]
  | .detailGroup tokens => tokens.map .detail
  | .file item => [.file item]
  | .contextCompaction summary => [.contextCompaction summary]

/-- The pieces of the items shown, in their order. -/
def flatten (displayItems : List OutputDisplayItem) : List Piece :=
  displayItems.flatMap fun displayItem => displayItem.display.pieces

/-- A piece that is shown by itself has an id. -/
inductive Shown where
  | detail (token : OutputDetailToken)
  | own (id : String) (piece : Piece)

def Shown.piece : Shown → Piece
  | .detail token => .detail token
  | .own _ piece => piece

/-- What is shown of an item that is no detail, with the kind that an id is made of. -/
def ownPiece (js : Browser) (toolCallByCallId : KeyedTable String OutputItem) (item : OutputItem) :
    Option (String × Piece) :=
  match item.type with
  | some "function_call_output" =>
    (getInlineFileFromToolOutput js (toolCallByCallId.get (item.callId.getD "")) item).map fun inlineFile =>
      ("file", .file inlineFile)
  | some "open_webui:context_compaction" =>
    match item.summary with
    | some (.text summary) => some ("context-compaction", .contextCompaction summary)
    | _ => some ("context-compaction", .contextCompaction "")
  | some "image_generation_call" => (imageSource js item).map fun src => ("image", .image src)
  | type =>
    if blank (getMessageText js item) = true then none
    else some (if type = some "message" then "message" else "output", .message (getMessageText js item))

/-- What is shown of the item at an index. -/
def shownOf (js : Browser) (tables : CallTables) (last : ℕ) : Option OutputItem × ℕ → Option Shown
  | (none, _) => none
  | (some item, index) =>
    if item.type.any (· ∈ groupableOutputTypes) = true then
      if unanswered item = true then none
      else (buildDetailToken js item (index = last) tables.toolOutputByCallId).map .detail
    else
      (ownPiece js tables.toolCallByCallId item).map fun made =>
        .own (item.id.getD (made.1 ++ "-" ++ toString index)) made.2

/-- All that is shown of an output, in its order. -/
def shown (js : Browser) (output : List (Option OutputItem)) : List Shown :=
  output.zipIdx.filterMap (shownOf js (callTables output) (output.length - 1))

/-- What is shown as one: details that follow one another, or a piece by itself. -/
inductive Run where
  | details (first : OutputDetailToken) (others : List OutputDetailToken)
  | own (id : String) (piece : Piece)

def Run.pieces : Run → List Piece
  | .details first others => (first :: others).map .detail
  | .own _ piece => [piece]

def addDetail (token : OutputDetailToken) : List Run → List Run
  | .details first others :: rest => .details token (first :: others) :: rest
  | rest => .details token [] :: rest

def runs : List Shown → List Run
  | [] => []
  | .detail token :: rest => addDetail token (runs rest)
  | .own id piece :: rest => .own id piece :: runs rest

/-- The item shown for a run at a position. -/
def Run.item (position : ℕ) : Run → OutputDisplayItem
  | .details first [] => ⟨"detail-" ++ toString position, .detailSingle first⟩
  | .details first others => ⟨"detail-group-" ++ toString position, .detailGroup (first :: others)⟩
  | .own id piece => ⟨id, piece.display⟩

/-- The ids that the items shown have by themselves: the id that an item of the output brings along, or one that is made
of a kind and a position. -/
def ownIds (js : Browser) (output : List (Option OutputItem)) : List String :=
  ((runs (shown js output)).mapIdx Run.item).map OutputDisplayItem.id

variable {js : Browser} {output : List (Option OutputItem)}

/-! ## The items are the runs -/

/-- A detail is kept back; anything else comes after the details so far. -/
def DisplayState.place (state : DisplayState) : Shown → DisplayState
  | .detail token => state.pushDetail token
  | .own id piece => state.flushDetails.push id piece.display

/-- Any other type is shown as a message, if it has a text. -/
theorem ownPiece_text {item : OutputItem} (hresult : item.type ≠ some "function_call_output")
    (hcompaction : item.type ≠ some "open_webui:context_compaction")
    (himage : item.type ≠ some "image_generation_call") (toolCallByCallId : KeyedTable String OutputItem) :
    ownPiece js toolCallByCallId item =
      if blank (getMessageText js item) = true then none
      else some (if item.type = some "message" then "message" else "output", .message (getMessageText js item)) := by
  rw [ownPiece]
  split
  · exact absurd ‹_› hresult
  · exact absurd ‹_› hcompaction
  · exact absurd ‹_› himage
  · rfl

/-- A round places what is shown of its item. -/
theorem showItem_eq (js : Browser) (tables : CallTables) (last : ℕ) (state : DisplayState)
    (entry : Option OutputItem × ℕ) :
    showItem js tables last state entry =
      match shownOf js tables last entry with
      | some shown => state.place shown
      | none => state := by
  obtain ⟨item, index⟩ := entry
  cases item with
  | none => rfl
  | some item =>
    rw [showItem, shownOf]
    simp only
    by_cases hresult : item.type = some "function_call_output"
    · have hgroup : item.type.any (· ∈ groupableOutputTypes) = false := by rw [hresult]; decide
      rw [if_pos hresult, hgroup, if_neg (by decide), ownPiece, hresult]
      simp only
      cases getInlineFileFromToolOutput js (tables.toolCallByCallId.get (item.callId.getD "")) item with
      | none => rfl
      | some inlineFile => rfl
    rw [if_neg hresult]
    by_cases hgroup : item.type.any (· ∈ groupableOutputTypes) = true
    · rw [if_pos hgroup, if_pos hgroup]
      by_cases hask : unanswered item = true
      · rw [if_pos hask, if_pos hask]
      · rw [if_neg hask, if_neg hask]
        cases buildDetailToken js item (index = last) tables.toolOutputByCallId with
        | none => rfl
        | some token => rfl
    have hask : unanswered item = false := by
      by_contra hask
      have htype : item.type = some "function_call" := (of_decide_eq_true (Bool.of_not_eq_false hask)).1
      rw [htype] at hgroup
      exact hgroup (by decide)
    rw [hask, if_neg (by decide), if_neg hgroup, if_neg hgroup]
    by_cases hcompaction : item.type = some "open_webui:context_compaction"
    · rw [if_pos hcompaction]
      simp only [ownPiece, hcompaction]
      cases item.summary with
      | none => rfl
      | some summary =>
        cases summary with
        | parts parts => rfl
        | text text => rfl
    rw [if_neg hcompaction]
    by_cases himage : item.type = some "image_generation_call"
    · rw [if_neg (by rw [himage]; decide), if_pos himage]
      simp only [ownPiece, himage]
      cases imageSource js item with
      | none => rfl
      | some src => rfl
    rw [if_neg himage, ownPiece_text hresult hcompaction himage]
    by_cases hblank : blank (getMessageText js item) = true
    · simp only [if_pos hblank, ite_self]
      rfl
    · simp only [if_neg hblank]
      by_cases hmessage : item.type = some "message"
      · rw [if_pos hmessage, if_pos hmessage]
        rfl
      · rw [if_neg hmessage, if_neg hmessage]
        rfl

/-- The details that are kept back, as a run. -/
def pending : List OutputDetailToken → List Run
  | [] => []
  | first :: others => [.details first others]

theorem addDetail_pending (token : OutputDetailToken) (tokens : List OutputDetailToken) (id : String) (piece : Piece)
    (rest : List Run) :
    addDetail token (pending tokens ++ .own id piece :: rest) = pending (token :: tokens) ++ .own id piece :: rest := by
  cases tokens with
  | nil => rfl
  | cons first others => rfl

/-- The details in front of a piece by itself are one run. -/
theorem runs_own (tokens : List OutputDetailToken) (id : String) (piece : Piece) (rest : List Shown) :
    runs (tokens.map .detail ++ .own id piece :: rest) = pending tokens ++ .own id piece :: runs rest := by
  induction tokens with
  | nil => rfl
  | cons token tokens ih =>
    rw [List.map_cons, List.cons_append, runs, ih]
    exact addDetail_pending token tokens id piece (runs rest)

theorem runs_details (tokens : List OutputDetailToken) : runs (tokens.map .detail) = pending tokens := by
  induction tokens with
  | nil => rfl
  | cons token tokens ih =>
    rw [List.map_cons, runs, ih]
    cases tokens with
    | nil => rfl
    | cons first others => rfl

theorem displayItems_flushDetails (state : DisplayState) : state.flushDetails.displayItems =
      state.displayItems ++ (pending state.currentDetailTokens).map (Run.item state.displayItems.length) := by
  obtain ⟨displayItems, tokens⟩ := state
  match tokens with
  | [] => exact (List.append_nil displayItems).symm
  | [_] => rfl
  | _ :: _ :: _ => rfl

theorem currentDetailTokens_flushDetails (state : DisplayState) : state.flushDetails.currentDetailTokens = [] := by
  obtain ⟨displayItems, tokens⟩ := state
  match tokens with
  | [] => rfl
  | [_] => rfl
  | _ :: _ :: _ => rfl

/-- There is one item at most for the details that are kept back. -/
theorem mapIdx_pending (position : ℕ) (tokens : List OutputDetailToken) (rest : List Run) :
    (pending tokens ++ rest).mapIdx (fun i run => run.item (position + i)) =
      (pending tokens).map (Run.item position) ++
        rest.mapIdx fun i run => run.item (position + (pending tokens).length + i) := by
  cases tokens with
  | nil => rfl
  | cons first others =>
    rw [pending, List.singleton_append, List.mapIdx_cons, List.length_singleton]
    simp only [Nat.add_assoc, Nat.add_comm 1]
    rfl

/-- From a state on, what is placed is shown as the runs of it and of the details that are kept back. -/
theorem displayItems_foldl_place (state : DisplayState) (pieces : List Shown) :
    (pieces.foldl DisplayState.place state).flushDetails.displayItems =
      state.displayItems ++ (runs (state.currentDetailTokens.map .detail ++ pieces)).mapIdx fun i run =>
        run.item (state.displayItems.length + i) := by
  induction pieces generalizing state with
  | nil =>
    rw [List.foldl_nil, displayItems_flushDetails, List.append_nil, runs_details]
    cases state.currentDetailTokens with
    | nil => rfl
    | cons first others => rfl
  | cons piece pieces ih =>
    rw [List.foldl_cons, ih]
    cases piece with
    | detail token =>
      -- one more detail is kept back
      have hback : (state.place (.detail token)).currentDetailTokens.map Shown.detail ++ pieces =
          state.currentDetailTokens.map .detail ++ .detail token :: pieces := by
        rw [DisplayState.place, DisplayState.pushDetail, List.map_append, List.append_assoc]
        rfl
      rw [hback]
      rfl
    | own id piece =>
      have hitems : (state.place (.own id piece)).displayItems =
          state.displayItems ++ (pending state.currentDetailTokens).map (Run.item state.displayItems.length) ++
            [⟨id, piece.display⟩] := by
        rw [← displayItems_flushDetails]
        rfl
      have htokens : (state.place (.own id piece)).currentDetailTokens = [] := currentDetailTokens_flushDetails state
      have hlength : (state.displayItems ++ (pending state.currentDetailTokens).map
          (Run.item state.displayItems.length) ++ [(⟨id, piece.display⟩ : OutputDisplayItem)]).length =
            state.displayItems.length + (pending state.currentDetailTokens).length + 1 := by
        rw [List.length_append, List.length_append, List.length_map, List.length_singleton]
      rw [runs_own, mapIdx_pending, List.mapIdx_cons, hitems, htokens, hlength, List.append_assoc, List.append_assoc]
      simp only [Nat.add_assoc, Nat.add_comm 1]
      rfl

/-- What is collected is the runs of what is to be shown. -/
theorem collected_eq (js : Browser) (output : List (Option OutputItem)) :
    collected js output = (runs (shown js output)).mapIdx Run.item := by
  have hfold : output.zipIdx.foldl (showItem js (callTables output) (output.length - 1)) {} =
      (shown js output).foldl DisplayState.place {} := by
    rw [shown, List.foldl_filterMap]
    congr 1
    funext state entry
    rw [showItem_eq]
    cases shownOf js (callTables output) (output.length - 1) entry <;> rfl
  rw [collected, hfold, displayItems_foldl_place]
  simp only [List.map_nil, List.nil_append, List.length_nil, Nat.zero_add]

/-! ## Nothing is lost -/

theorem pieces_display (piece : Piece) : piece.display.pieces = [piece] := by
  cases piece <;> rfl

theorem pieces_item (position : ℕ) (run : Run) : (run.item position).display.pieces = run.pieces := by
  match run with
  | .details _ [] => rfl
  | .details _ (_ :: _) => rfl
  | .own _ piece => exact pieces_display piece

theorem pieces_addDetail (token : OutputDetailToken) (rest : List Run) :
    (addDetail token rest).flatMap Run.pieces = .detail token :: rest.flatMap Run.pieces := by
  match rest with
  | [] => rfl
  | .own _ _ :: _ => rfl
  | .details _ _ :: _ => rfl

theorem pieces_runs (pieces : List Shown) : (runs pieces).flatMap Run.pieces = pieces.map Shown.piece := by
  induction pieces with
  | nil => rfl
  | cons piece pieces ih =>
    cases piece with
    | detail token => rw [runs, pieces_addDetail, ih, List.map_cons, Shown.piece]
    | own id piece => rw [runs, List.flatMap_cons, ih, List.map_cons, Run.pieces, Shown.piece, List.singleton_append]

theorem flatten_mapIdx (pieces : List Run) (position : ℕ) :
    flatten (pieces.mapIdx fun i run => run.item (position + i)) = pieces.flatMap Run.pieces := by
  induction pieces generalizing position with
  | nil => rfl
  | cons run pieces ih =>
    have hrest := ih (position + 1)
    rw [List.mapIdx_cons, flatten, List.flatMap_cons, pieces_item, List.flatMap_cons]
    simp only [Nat.add_assoc, Nat.add_comm 1] at hrest ⊢
    rw [← hrest]
    rfl

/-- Only ids are changed at the end. -/
theorem display_foldl_separate (displayItems result : List OutputDisplayItem) :
    (displayItems.foldl separate result).map OutputDisplayItem.display =
      result.map OutputDisplayItem.display ++ displayItems.map OutputDisplayItem.display := by
  induction displayItems generalizing result with
  | nil => exact (List.append_nil _).symm
  | cons displayItem displayItems ih =>
    rw [List.foldl_cons, ih, separate, List.map_append, List.append_assoc]
    congr 1
    rw [List.map_singleton, List.singleton_append, List.map_cons]
    congr 1
    split <;> rfl

theorem flatten_eq (displayItems : List OutputDisplayItem) :
    flatten displayItems = (displayItems.map OutputDisplayItem.display).flatMap OutputDisplay.pieces := by
  rw [flatten, List.flatMap_map]

/-- The items of a page are made of what is to be shown, each piece once and in its place. -/
theorem flatten_buildOutputDisplayItems (js : Browser) (output : List (Option OutputItem)) :
    flatten (buildOutputDisplayItems js output) = (shown js output).map Shown.piece := by
  have hcollected := flatten_mapIdx (runs (shown js output)) 0
  simp only [Nat.zero_add] at hcollected
  rw [flatten_eq, buildOutputDisplayItems, display_foldl_separate, List.map_nil, List.nil_append, ← flatten_eq,
    collected_eq, ← pieces_runs]
  exact hcollected

/-! ## Ids -/

/-- The last loop gives a new id to those that are there already. -/
theorem ids_foldl_separate (displayItems : List OutputDisplayItem) :
    (displayItems.foldl separate []).map OutputDisplayItem.id =
      RenameRepeats.renameRepeats suffixed (displayItems.map OutputDisplayItem.id) := by
  rw [RenameRepeats.renameRepeats, List.foldl_map]
  refine (List.foldl_hom (List.map OutputDisplayItem.id) ?_).symm
  intro result displayItem
  rw [separate, List.map_append, List.map_singleton, List.length_map]
  split <;> rfl

theorem ids_buildOutputDisplayItems (js : Browser) (output : List (Option OutputItem)) :
    (buildOutputDisplayItems js output).map OutputDisplayItem.id =
      RenameRepeats.renameRepeats suffixed (ownIds js output) := by
  rw [buildOutputDisplayItems, ids_foldl_separate, collected_eq]
  rfl

theorem takeWhile_suffixed (id : String) (index : ℕ) :
    (suffixed id index).toList.reverse.takeWhile (· ≠ '-') = (Nat.toDigits 10 index).reverse := by
  rw [suffixed, Nat.toString_eq_repr, String.toList_append, String.toList_append, Nat.toList_repr, List.reverse_append,
    List.takeWhile_append_of_pos]
  · rw [List.reverse_append]
    exact List.append_nil _
  · intro c hc
    have hdigit := Nat.isDigit_of_mem_toDigits (by decide) (by decide) (List.mem_reverse.1 hc)
    rw [decide_eq_true_eq]
    rintro rfl
    exact absurd hdigit (by decide)

/-- The position can be read off a new id: it is what follows the last dash. -/
theorem suffixed_position (a b : String) (i j : ℕ) (h : suffixed a i = suffixed b j) : i = j := by
  have hdigits : Nat.toDigits 10 i = Nat.toDigits 10 j := by
    rw [← List.reverse_inj, ← takeWhile_suffixed a, ← takeWhile_suffixed b, h]
  calc
    i = Nat.ofDigitChars 10 (Nat.toDigits 10 i) 0 := Nat.ofDigitChars_ten_toDigits.symm
    _ = Nat.ofDigitChars 10 (Nat.toDigits 10 j) 0 := by rw [hdigits]
    _ = j := Nat.ofDigitChars_ten_toDigits

/-- A page shows all there is to be shown, and its items have distinct ids exactly if no id that is made by appending
a position is the own id of an item in front. -/
theorem shown_completely_with_distinct_ids_iff (js : Browser) (output : List (Option OutputItem)) :
    (((buildOutputDisplayItems js output).map OutputDisplayItem.id).Nodup ∧
        flatten (buildOutputDisplayItems js output) = (shown js output).map Shown.piece) ↔
      ¬ RenameRepeats.Clash suffixed (ownIds js output) := by
  rw [and_iff_left (flatten_buildOutputDisplayItems js output), ids_buildOutputDisplayItems]
  exact RenameRepeats.nodup_renameRepeats_iff suffixed_position

/-- A browser that reads one JSON text. -/
def plainBrowser : Browser where
  encode s := s
  stringify _ := ""
  parse s := if s = "\"a\"" then some (.str "a") else none
  parse_shorter s t h := by
    split at h
    · subst s; cases h; decide
    · cases h
  text
    | .str s => s
    | _ => ""
  join _ := ""
  units s := s.length
  slice s n := String.ofList (s.toList.take n)

def answer (id : String) : Option OutputItem :=
  some { type := some "message", id := some id, content := some [some [("text", .str "a")]] }

/-- Of two messages of one id the second becomes the message that there is in front of both. -/
theorem suffixed_id_taken :
    ¬ (((buildOutputDisplayItems plainBrowser [answer "x-2", answer "x", answer "x"]).map OutputDisplayItem.id).Nodup ∧
        flatten (buildOutputDisplayItems plainBrowser [answer "x-2", answer "x", answer "x"]) =
          (shown plainBrowser [answer "x-2", answer "x", answer "x"]).map Shown.piece) := by
  rintro ⟨hdistinct, -⟩
  revert hdistinct
  decide

end RyanAI.Chat.DisplayItems
