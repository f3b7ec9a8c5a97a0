import RyanAI.Chat.ToolPairs

/-!
# Stored output as messages

`convert_output_to_messages` of `utils/misc.py` rebuilds chat messages from the output items of a stored reply. Texts,
calls and reasoning wait in buffers and become one assistant message when the results of the calls are written out; the
last step drops what does not pair up.

`Rebuilt` accounts for the texts: the `pieces` of the contents written so far, followed by what waits, are the pieces
of the items read.
-/

namespace RyanAI.Chat.OutputMessages

open RyanAI.Lib
open RyanAI.Chat.ToolPairs

/-! ## Output items -/

/-- The `arguments` of a call. -/
inductive Arguments where
  | absent
  | text (s : String)
  | value (v : Json)
deriving DecidableEq

/-- A dictionary with `name` and `arguments`. -/
structure FunctionFields where
  name : Option String
  arguments : Arguments
deriving DecidableEq

/-- A `function_call` item. -/
structure CallItem where
  callId : Option String
  status : Option String
  function : FunctionFields
  /-- `provider_function`, when it is a dictionary -/
  providerFunction : Option FunctionFields
deriving DecidableEq

/-- A part of an `output`; the text of an `input_text` part is what `str` makes of it. -/
inductive ResultPart where
  | inputText (text : Option String)
  | inputImage (url : Option String)
  | other
deriving DecidableEq

/-- A `function_call_output` item. -/
structure ResultItem where
  callId : Option String
  output : List ResultPart
deriving DecidableEq

/-- A `reasoning` item. -/
structure ReasoningItem where
  reasoningDetails : Json
  summary : List OutputPart
  content : List OutputPart
  startTag : Option String
  endTag : Option String
deriving DecidableEq

/-- The `output` of a code interpreter item, by its text if no dictionary. -/
inductive CodeOutput where
  | absent
  | dict (stdout result : Option String)
  | text (s : String)
deriving DecidableEq

inductive OutputItem where
  | message (content : List OutputPart)
  | functionCall (call : CallItem)
  | functionCallOutput (result : ResultItem)
  | reasoning (item : ReasoningItem)
  | codeInterpreter (code : Option String) (output : CodeOutput)
  | other (type : String)
deriving DecidableEq

def OutputItem.result? : OutputItem → Option ResultItem
  | .functionCallOutput r => some r
  | _ => none

/-! ## The conversion -/

/-- The options of `convert_output_to_messages`. -/
structure Options where
  raw : Bool
  reasoningFormat : Option String
  flattenToolImages : Bool
deriving DecidableEq

structure Buffers where
  messages : List ChatMessage
  toolCalls : List ToolCall
  content : List String
  reasoning : List String
  reasoningDetails : List Json
  toolImageUrls : List String
  toolOutputs : List ResultItem

def Buffers.start : Buffers := ⟨[], [], [], [], [], [], []⟩

/-- `get_provider_function`; `dumps` is `JSONCodec.dumps`. -/
def getProviderFunction (dumps : Json → String) (item : CallItem) : ToolFunction :=
  let function := item.providerFunction.getD item.function
  { name := function.name.getD ""
    arguments := match function.arguments with
      | .absent => "\x7b\x7d"
      | .text s => s
      | .value v => dumps v }

/-- `flush_pending`. -/
def flushPending (o : Options) (b : Buffers) : Buffers :=
  if b.content = [] ∧ b.toolCalls = [] ∧ b.reasoning = [] ∧ b.reasoningDetails = [] then b
  else
    let thinking := decide (o.reasoningFormat = some "thinking")
    let message : ChatMessage :=
      { role := "assistant"
        content := .str ("\n".intercalate b.content)
        toolCalls := if b.toolCalls = [] then none else some b.toolCalls
        toolCallId := none
        reasoningContent := if b.reasoning ≠ [] ∧ ¬ thinking then some ("\n".intercalate b.reasoning) else none
        output := none
        rest :=
          (if b.reasoning ≠ [] ∧ thinking then [("thinking", .str ("\n".intercalate b.reasoning))]
            else []) ++
          (if b.reasoningDetails ≠ [] then [("reasoning_details", .arr b.reasoningDetails)] else []) }
    { b with
      messages := b.messages ++ [message]
      content := []
      toolCalls := []
      reasoning := []
      reasoningDetails := [] }

def imagesMessage (urls : List String) : ChatMessage :=
  { role := "user"
    content := .parts
      (.text (some "Here are the images from the tool results above. Please analyze them.") [] ::
        urls.map fun url => .other [("type", .str "image_url"), ("image_url", .obj [("url", .str url)])])
    toolCalls := none
    toolCallId := none
    reasoningContent := none
    output := none
    rest := [] }

/-- `flush_tool_images`. -/
def flushToolImages (b : Buffers) : Buffers :=
  if b.toolImageUrls = [] then b
  else { b with messages := b.messages ++ [imagesMessage b.toolImageUrls], toolImageUrls := [] }

def resultText (r : ResultItem) : String :=
  String.join (r.output.filterMap fun part => match part with
    | .inputText text => some (text.getD "")
    | _ => none)

def resultImages (r : ResultItem) : List String :=
  r.output.filterMap fun part => match part with
    | .inputImage url => url.filter (· ≠ "")
    | _ => none

def toolMessage (o : Options) (r : ResultItem) : ChatMessage :=
  { role := "tool"
    content :=
      if o.flattenToolImages ∨ resultImages r = [] then .str (resultText r)
      else .parts (.other [("type", .str "input_text"), ("text", .str (resultText r))] ::
        (resultImages r).map fun url => .other [("type", .str "input_image"), ("image_url", .str url)])
    toolCalls := none
    toolCallId := some (r.callId.getD "")
    reasoningContent := none
    output := none
    rest := [] }

/-- `flush_tool_outputs`. -/
def flushToolOutputs (o : Options) (b : Buffers) : Buffers :=
  if b.toolOutputs = [] then b
  else
    let outputs := b.toolOutputs.filter fun r => b.toolCalls.any fun call => call.id == r.callId
    let b := flushPending o b
    { b with
      messages := b.messages ++ outputs.map (toolMessage o)
      toolImageUrls := if o.flattenToolImages then b.toolImageUrls ++ outputs.flatMap resultImages else b.toolImageUrls
      toolOutputs := [] }

/-- The text of a `message` item. -/
def messageText (content : List OutputPart) : String :=
  String.join (content.filterMap fun part =>
    if part.type = "output_text" then some (part.text.getD "") else none)

/-- The `reasoning_details` that can be replayed. -/
def replayableDetails (o : Options) (item : ReasoningItem) : List Json :=
  if ¬ o.raw ∨ ¬ item.reasoningDetails.truthy then []
  else
    let details := match item.reasoningDetails with
      | .arr items => items
      | v => [v]
    details.filter fun detail => match detail with
      | .obj fields =>
        Dict.get fields "format" ≠ .str "anthropic-claude-v1" ∨ (Dict.get fields "signature").truthy
      | _ => false

/-- The text of a `reasoning` item. -/
def reasoningText (item : ReasoningItem) : String :=
  String.join ((if item.summary ≠ [] then item.summary else item.content).filterMap fun part =>
    if part.type = "output_text" then some (part.text.getD "") else part.text)

def codeTexts (code : Option String) (output : CodeOutput) : List String :=
  let shown := match output with
    | .absent => ""
    | .dict stdout result => if stdout.getD "" ≠ "" then stdout.getD "" else result.getD ""
    | .text s => s
  (if code.getD "" ≠ "" then ["<code_interpreter>\n" ++ code.getD "" ++ "\n</code_interpreter>"] else []) ++
  (if shown ≠ "" then ["<code_interpreter_output>\n" ++ shown ++ "\n</code_interpreter_output>"] else [])

def ended (status : Option String) : Bool := status ∈ [some "completed", some "failed", some "rejected"]

def addItem (dumps : Json → String) (o : Options) (b : Buffers) : OutputItem → Buffers
  | .message content =>
    if messageText content ≠ "" then { b with content := b.content ++ [messageText content] } else b
  | .functionCall call =>
    if call.callId.getD "" = "" ∨ ¬ ended call.status then b
    else
      { b with toolCalls := b.toolCalls ++
          [⟨call.callId, getProviderFunction dumps call, [("type", .str "function")]⟩] }
  | .functionCallOutput r => { b with toolOutputs := b.toolOutputs ++ [r] }
  | .reasoning item =>
    let details := replayableDetails o item
    if o.reasoningFormat.getD "" = "" ∧ details = [] then b
    else
      let text := reasoningText item
      let b :=
        if text = "" then b
        else if o.reasoningFormat = some "think_tags" then
          { b with content := b.content ++
              [item.startTag.getD "<think>" ++ text ++ item.endTag.getD "</think>"] }
        else if o.reasoningFormat = some "thinking" ∨ o.reasoningFormat = some "reasoning_content" then
          { b with reasoning := b.reasoning ++ [text] }
        else b
      { b with reasoningDetails := b.reasoningDetails ++ details }
  | .codeInterpreter code output => { b with content := b.content ++ codeTexts code output }
  | .other _ => b

def step (dumps : Json → String) (o : Options) (b : Buffers) (item : OutputItem) : Buffers :=
  addItem dumps o (if item.result?.isNone then flushToolImages (flushToolOutputs o b) else b) item

def rebuiltMessages (dumps : Json → String) (o : Options) (output : List OutputItem) : List ChatMessage :=
  (flushPending o (flushToolImages (flushToolOutputs o
    (output.foldl (step dumps o) Buffers.start)))).messages

/-- `convert_output_to_messages`. -/
def convertOutputToMessages (dumps : Json → String) (o : Options) (output : List OutputItem) : List ChatMessage :=
  if output = [] then [] else reconcileToolPairs (rebuiltMessages dumps o output)

section Loop

variable {dumps : Json → String} {o : Options}

@[simp] theorem flushPending_content (b : Buffers) : (flushPending o b).content = [] := by
  rw [flushPending]
  split
  · rename_i h
    exact h.1
  · rfl

theorem exists_flushPending (b : Buffers) : ∃ more, (flushPending o b).messages = b.messages ++ more := by
  rw [flushPending]
  split
  · exact ⟨[], (List.append_nil _).symm⟩
  · exact ⟨_, rfl⟩

theorem exists_flushToolImages (b : Buffers) : ∃ more, (flushToolImages b).messages = b.messages ++ more := by
  rw [flushToolImages]
  split
  · exact ⟨[], (List.append_nil _).symm⟩
  · exact ⟨_, rfl⟩

theorem exists_flushToolOutputs (b : Buffers) : ∃ more, (flushToolOutputs o b).messages = b.messages ++ more := by
  rw [flushToolOutputs]
  split
  · exact ⟨[], (List.append_nil _).symm⟩
  · obtain ⟨more, hmore⟩ := exists_flushPending (o := o) b
    refine ⟨more ++ (b.toolOutputs.filter fun r =>
      b.toolCalls.any fun call => call.id == r.callId).map (toolMessage o), ?_⟩
    simp only [hmore, List.append_assoc]

theorem addItem_messages (b : Buffers) (item : OutputItem) : (addItem dumps o b item).messages = b.messages := by
  cases item with
  | reasoning item =>
    simp only [addItem]
    repeat' split
    all_goals rfl
  | _ => simp only [addItem] <;> (try split) <;> rfl

theorem exists_step (dumps : Json → String) (o : Options) (b : Buffers) (item : OutputItem) :
    ∃ more, (step dumps o b item).messages = b.messages ++ more := by
  rw [step, addItem_messages]
  split
  · obtain ⟨first, hfirst⟩ := exists_flushToolOutputs (o := o) b
    obtain ⟨second, hsecond⟩ := exists_flushToolImages (flushToolOutputs o b)
    exact ⟨first ++ second, by rw [hsecond, hfirst, List.append_assoc]⟩
  · exact ⟨[], (List.append_nil _).symm⟩

theorem exists_foldl (dumps : Json → String) (o : Options) (b : Buffers) (items : List OutputItem) :
    ∃ more, (items.foldl (step dumps o) b).messages = b.messages ++ more := by
  induction items generalizing b with
  | nil => exact ⟨[], (List.append_nil _).symm⟩
  | cons item items ih =>
    obtain ⟨first, hfirst⟩ := exists_step dumps o b item
    obtain ⟨second, hsecond⟩ := ih (step dumps o b item)
    exact ⟨first ++ second, by rw [List.foldl_cons, hsecond, hfirst, List.append_assoc]⟩

end Loop

/-! ## The pieces of the contents -/

def pieces (o : Options) : OutputItem → List String
  | .message content => if messageText content ≠ "" then [messageText content] else []
  | .reasoning item =>
    if reasoningText item ≠ "" ∧ o.reasoningFormat = some "think_tags" then
      [item.startTag.getD "<think>" ++ reasoningText item ++ item.endTag.getD "</think>"]
    else []
  | .codeInterpreter code output => codeTexts code output
  | _ => []

def contents (messages : List ChatMessage) : List Content :=
  (messages.filter fun m => m.role == "assistant").map ChatMessage.content

def joined (group : List String) : Content := .str ("\n".intercalate group)

def Rebuilt (read : List String) (b : Buffers) : Prop :=
  ∃ groups : List (List String), contents b.messages = groups.map joined ∧ groups.flatten ++ b.content = read

theorem contents_append (xs ys : List ChatMessage) : contents (xs ++ ys) = contents xs ++ contents ys := by
  rw [contents, List.filter_append, List.map_append, contents, contents]

theorem contents_eq_nil (h : ∀ m ∈ ms, m.role ≠ "assistant") : contents ms = [] := by
  rw [contents, List.map_eq_nil_iff, List.filter_eq_nil_iff]
  intro m hm
  simpa using h m hm

section Pieces

variable {dumps : Json → String} {o : Options} {read : List String} {b : Buffers}

theorem addItem_content (b : Buffers) (item : OutputItem) :
    (addItem dumps o b item).content = b.content ++ pieces o item := by
  cases item with
  | message content =>
    simp only [addItem, pieces]
    split
    · rfl
    · exact (List.append_nil _).symm
  | functionCall call =>
    simp only [addItem, pieces, List.append_nil]
    split <;> rfl
  | functionCallOutput r => exact (List.append_nil _).symm
  | reasoning item =>
    simp only [addItem, pieces]
    by_cases htext : reasoningText item = ""
    · simp only [htext, ne_eq, not_true_eq_false, false_and, if_false, if_true, List.append_nil]
      split <;> rfl
    by_cases hformat : o.reasoningFormat = some "think_tags"
    · simp [htext, hformat]
    · simp only [htext, hformat, if_false, and_false, List.append_nil]
      split
      · rfl
      · split <;> rfl
  | codeInterpreter code output => rfl
  | other type => exact (List.append_nil _).symm

theorem Rebuilt.flushPending (h : Rebuilt read b) : Rebuilt read (flushPending o b) := by
  rw [OutputMessages.flushPending]
  split
  · exact h
  obtain ⟨groups, hcontents, hread⟩ := h
  refine ⟨groups ++ [b.content], ?_, ?_⟩
  · simp only [contents_append, hcontents, List.map_append]
    rfl
  · simp [← hread]

theorem Rebuilt.flushToolImages (h : Rebuilt read b) : Rebuilt read (flushToolImages b) := by
  rw [OutputMessages.flushToolImages]
  split
  · exact h
  · obtain ⟨groups, hcontents, hread⟩ := h
    refine ⟨groups, ?_, hread⟩
    simp only [contents_append, hcontents]
    exact List.append_nil _

theorem Rebuilt.flushToolOutputs (h : Rebuilt read b) : Rebuilt read (flushToolOutputs o b) := by
  rw [OutputMessages.flushToolOutputs]
  split
  · exact h
  obtain ⟨groups, hcontents, hread⟩ := h.flushPending (o := o)
  refine ⟨groups, ?_, hread⟩
  simp only [contents_append, hcontents]
  rw [contents_eq_nil, List.append_nil]
  intro m hm
  obtain ⟨r, -, rfl⟩ := List.mem_map.1 hm
  exact (by decide : "tool" ≠ "assistant")

theorem Rebuilt.step (h : Rebuilt read b) (item : OutputItem) :
    Rebuilt (read ++ pieces o item) (step dumps o b item) := by
  have hflushed : Rebuilt read (if item.result?.isNone then
      OutputMessages.flushToolImages (OutputMessages.flushToolOutputs o b) else b) := by
    split
    · exact h.flushToolOutputs.flushToolImages
    · exact h
  obtain ⟨groups, hcontents, hread⟩ := hflushed
  refine ⟨groups, ?_, ?_⟩
  · rw [OutputMessages.step, addItem_messages, hcontents]
  · rw [OutputMessages.step, addItem_content, ← List.append_assoc, hread]

theorem Rebuilt.foldl (dumps : Json → String) (o : Options) (h : Rebuilt read b) (items : List OutputItem) :
    Rebuilt (read ++ items.flatMap (pieces o)) (items.foldl (OutputMessages.step dumps o) b) := by
  induction items generalizing read b with
  | nil => simpa using h
  | cons item items ih =>
    rw [List.flatMap_cons, ← List.append_assoc, List.foldl_cons]
    exact ih (h.step item)

theorem contents_rebuiltMessages (dumps : Json → String) (o : Options) (output : List OutputItem) :
    ∃ groups : List (List String), contents (rebuiltMessages dumps o output) = groups.map joined ∧
      groups.flatten = output.flatMap (pieces o) := by
  have hstart : Rebuilt [] Buffers.start := ⟨[], rfl, rfl⟩
  obtain ⟨groups, hcontents, hread⟩ :=
    ((hstart.foldl dumps o output).flushToolOutputs.flushToolImages).flushPending (o := o)
  refine ⟨groups, hcontents, ?_⟩
  simpa using hread

theorem blank_append (s t : String) : isBlank (s ++ t) = (isBlank s && isBlank t) := by
  rw [isBlank, String.toList_append, List.all_append, isBlank, isBlank]

theorem blank_of_blank_join (h : isBlank ("\n".intercalate group)) : ∀ text ∈ group, isBlank text := by
  induction group with
  | nil => exact fun _ hmem => by cases hmem
  | cons first rest ih =>
    cases rest with
    | nil =>
      rw [String.intercalate_singleton] at h
      intro text hmem
      rw [List.mem_singleton.1 hmem]
      exact h
    | cons second rest =>
      rw [String.intercalate_cons_cons, blank_append, blank_append, Bool.and_eq_true, Bool.and_eq_true] at h
      intro text hmem
      rcases List.mem_cons.1 hmem with rfl | hmem
      · exact h.1.1
      · exact ih h.2 text hmem

def visible (texts : List String) : List String := texts.filter fun text => !isBlank text

theorem visible_append (xs ys : List String) : visible (xs ++ ys) = visible xs ++ visible ys := List.filter_append ..

theorem visible_of_not_meaningful (hm : m.content = joined group)
    (h : ¬ hasMeaningfulContent m) : visible group = [] := by
  have hblank : isBlank ("\n".intercalate group) := by
    rw [hasMeaningfulContent, getContentFromMessage, hm] at h
    by_cases hempty : "\n".intercalate group = ""
    · rw [hempty]
      rfl
    · simpa [joined, hempty] using h
  rw [visible, List.filter_eq_nil_iff]
  intro text hmem
  simpa using blank_of_blank_join hblank text hmem

theorem contents_reconciled (before : List ChatMessage) {groups : List (List String)}
    (h : contents messages = groups.map joined) :
    ∃ groups' : List (List String),
      contents (reconciledFrom before messages).reduceOption = groups'.map joined ∧
        visible groups'.flatten = visible groups.flatten := by
  induction messages generalizing before groups with
  | nil =>
    obtain rfl : groups = [] := by simpa [contents] using h
    exact ⟨[], rfl, rfl⟩
  | cons m after ih =>
    rw [reconciledFrom]
    by_cases hrole : m.role = "assistant"
    · have hcons : contents (m :: after) = m.content :: contents after := by
        simp [contents, hrole]
      rw [hcons] at h
      obtain ⟨group, rest, rfl, hgroup, hrest⟩ := List.map_eq_cons_iff.1 h.symm
      obtain ⟨groups', hcontents, hvisible⟩ := ih (m :: before) hrest.symm
      -- a message that stays keeps its content, and with it its group
      have hkept : ∀ m' : ChatMessage, m'.role = m.role → m'.content = m.content →
          ∃ groups' : List (List String),
            contents (m' :: (reconciledFrom (m :: before) after).reduceOption) = groups'.map joined ∧
              visible groups'.flatten = visible (group :: rest).flatten := by
        intro m' hrole' hcontent'
        refine ⟨group :: groups', ?_, ?_⟩
        · have : contents (m' :: (reconciledFrom (m :: before) after).reduceOption) =
              m'.content :: contents (reconciledFrom (m :: before) after).reduceOption := by
            simp [contents, hrole', hrole]
          rw [this, hcontent', hcontents, List.map_cons, hgroup]
        · rw [List.flatten_cons, List.flatten_cons, visible_append, visible_append, hvisible]
      have ht : ¬ m.isTool := by
        rw [ChatMessage.isTool_iff, hrole]
        decide
      by_cases hh : m.heads
      · by_cases hv : m.answeredCalls after = []
        · rw [reconciled_of_no_calls hh hv]
          by_cases hkeep : hasMeaningfulContent m ∨ m.reasoningContent.getD "" ≠ ""
          · rw [if_pos hkeep, List.reduceOption_cons_of_some]
            exact hkept _ rfl rfl
          rw [if_neg hkeep, List.reduceOption_cons_of_none]
          -- an assistant message that goes has only blanks in its group
          refine ⟨groups', hcontents, ?_⟩
          rw [List.flatten_cons, visible_append, hvisible, visible_of_not_meaningful hgroup.symm
            fun hc => hkeep (.inl hc), List.nil_append]
        · rw [reconciled_of_calls hh hv, List.reduceOption_cons_of_some]
          exact hkept _ rfl rfl
      · rw [reconciled_of_plain hh ht, List.reduceOption_cons_of_some]
        exact hkept _ rfl rfl
    · have hh : ¬ m.heads := fun hh => hrole (ChatMessage.heads_iff.1 hh).1
      have hskip : ∀ ms, contents (m :: ms) = contents ms := by
        intro ms
        simp [contents, hrole]
      rw [hskip] at h
      obtain ⟨groups', hcontents, hvisible⟩ := ih (m :: before) h
      refine ⟨groups', ?_, hvisible⟩
      by_cases ht : m.isTool
      · rw [reconciled, if_pos ht]
        split
        · rw [List.reduceOption_cons_of_some, hskip, hcontents]
        · rw [List.reduceOption_cons_of_none, hcontents]
      · rw [reconciled_of_plain hh ht, List.reduceOption_cons_of_some, hskip, hcontents]

end Pieces

/-! ## Calls and their results -/

/-- The results in the first run of consecutive `function_call_output` items. -/
def firstRun (items : List OutputItem) : List ResultItem :=
  ((items.dropWhile fun item => item.result?.isNone).takeWhile fun item => item.result?.isSome).filterMap
    OutputItem.result?

variable {b : Buffers} {call : ToolCall}

section Calls

variable {dumps : Json → String} {o : Options}

structure Waiting (call : ToolCall) (b : Buffers) : Prop where
  call : call ∈ b.toolCalls
  outputs : b.toolOutputs = []

theorem flushToolOutputs_of_nil (h : b.toolOutputs = []) : flushToolOutputs o b = b := if_pos h

theorem flushToolOutputs_toolOutputs (b : Buffers) : (flushToolOutputs o b).toolOutputs = [] := by
  rw [flushToolOutputs]
  split
  · assumption
  · rfl

theorem flushToolImages_toolOutputs (b : Buffers) : (flushToolImages b).toolOutputs = b.toolOutputs := by
  rw [flushToolImages]
  split <;> rfl

theorem flushToolImages_toolCalls (b : Buffers) : (flushToolImages b).toolCalls = b.toolCalls := by
  rw [flushToolImages]
  split <;> rfl

theorem addItem_toolCalls (b : Buffers) (item : OutputItem) (h : call ∈ b.toolCalls) :
    call ∈ (addItem dumps o b item).toolCalls := by
  cases item with
  | functionCall c =>
    simp only [addItem]
    split
    · exact h
    · exact List.mem_append_left _ h
  | reasoning item =>
    simp only [addItem]
    repeat' split
    all_goals exact h
  | message content =>
    simp only [addItem]
    split <;> exact h
  | _ => exact h

theorem addItem_toolOutputs (h : item.result? = none) : (addItem dumps o b item).toolOutputs = b.toolOutputs := by
  cases item with
  | functionCallOutput r => cases h
  | reasoning item =>
    simp only [addItem]
    repeat' split
    all_goals rfl
  | _ => simp only [addItem] <;> (try split) <;> rfl

theorem Waiting.step (h : Waiting call b) (hitem : item.result? = none) : Waiting call (step dumps o b item) := by
  rw [OutputMessages.step, if_pos (by rw [hitem]; rfl), flushToolOutputs_of_nil h.outputs]
  constructor
  · refine addItem_toolCalls _ _ ?_
    rw [flushToolImages_toolCalls]
    exact h.call
  · rw [addItem_toolOutputs hitem, flushToolImages_toolOutputs, h.outputs]

theorem waiting_of_call (dumps : Json → String) (o : Options) (b : Buffers) {id : String}
    (hid : c.callId = some id) (hne : id ≠ "") (hended : ended c.status) :
    Waiting ⟨c.callId, getProviderFunction dumps c, [("type", .str "function")]⟩
      (step dumps o b (.functionCall c)) := by
  rw [OutputMessages.step, if_pos (show (OutputItem.functionCall c).result?.isNone = true from rfl), addItem,
    if_neg (by simp [hid, hne, hended])]
  refine ⟨List.mem_append_right _ (List.mem_singleton.2 rfl), ?_⟩
  rw [flushToolImages_toolOutputs, flushToolOutputs_toolOutputs]

theorem foldl_results (rs : List ResultItem) : ((rs.map OutputItem.functionCallOutput).foldl (step dumps o) b) =
      { b with toolOutputs := b.toolOutputs ++ rs } := by
  induction rs generalizing b with
  | nil => simp
  | cons r rs ih =>
    rw [List.map_cons, List.foldl_cons, ih]
    simp [OutputMessages.step, addItem, OutputItem.result?]

theorem flushToolOutputs_block (hcall : call ∈ b.toolCalls) (hr : r ∈ b.toolOutputs) (hid : call.id = r.callId) :
    ∃ front m ts, (flushToolOutputs o b).messages = front ++ m :: ts ∧ m.heads ∧ call ∈ m.calls ∧
      (∀ t ∈ ts, t.isTool) ∧ toolMessage o r ∈ ts := by
  have hcalls : b.toolCalls ≠ [] := List.ne_nil_of_mem hcall
  rw [flushToolOutputs, if_neg (List.ne_nil_of_mem hr), flushPending, if_neg fun h => hcalls h.2.1]
  simp only [List.append_assoc, List.singleton_append, if_neg hcalls]
  refine ⟨b.messages, _, _, rfl, ?_, hcall, ?_, ?_⟩
  · rw [ChatMessage.heads_iff]
    exact ⟨rfl, hcalls⟩
  · intro t ht
    obtain ⟨q, -, rfl⟩ := List.mem_map.1 ht
    rfl
  · refine List.mem_map_of_mem (List.mem_filter.2 ⟨hr, ?_⟩)
    rw [List.any_eq_true]
    exact ⟨call, hcall, by simpa using hid⟩

theorem exists_flushes (b : Buffers) : ∃ more, (flushPending o (flushToolImages (flushToolOutputs o b))).messages =
      (flushToolOutputs o b).messages ++ more := by
  obtain ⟨first, hfirst⟩ := exists_flushToolImages (flushToolOutputs o b)
  obtain ⟨second, hsecond⟩ := exists_flushPending (o := o) (flushToolImages (flushToolOutputs o b))
  exact ⟨first ++ second, by rw [hsecond, hfirst, List.append_assoc]⟩

theorem exists_behind_run (dumps : Json → String) (o : Options) (b : Buffers)
    (htail : ∀ item rest, tail = item :: rest → item.result? = none) :
    ∃ more, (flushPending o (flushToolImages (flushToolOutputs o
        (tail.foldl (step dumps o) b)))).messages = (flushToolOutputs o b).messages ++ more := by
  cases tail with
  | nil => exact exists_flushes b
  | cons item rest =>
    obtain ⟨images, himages⟩ := exists_flushToolImages (flushToolOutputs o b)
    obtain ⟨later, hlater⟩ := exists_foldl dumps o (step dumps o b item) rest
    obtain ⟨last, hlast⟩ := exists_flushes (o := o) (rest.foldl (step dumps o) (step dumps o b item))
    obtain ⟨outputs, houtputs⟩ := exists_flushToolOutputs (o := o) (rest.foldl (step dumps o) (step dumps o b item))
    -- the item behind the run is no result, so that the results are written out
    have hstep : (step dumps o b item).messages = (flushToolOutputs o b).messages ++ images := by
      rw [step, addItem_messages, if_pos (by rw [htail item rest rfl]; rfl), himages]
    refine ⟨images ++ later ++ outputs ++ last, ?_⟩
    rw [List.foldl_cons, hlast, houtputs, hlater, hstep]
    simp only [List.append_assoc]

theorem rebuilt_block (dumps : Json → String) (o : Options) (pre : List OutputItem) {id : String}
    (hid : c.callId = some id) (hne : id ≠ "") (hended : ended c.status) (hr : r ∈ firstRun post)
    (hrid : r.callId = some id) :
    ∃ front m ts back, rebuiltMessages dumps o (pre ++ .functionCall c :: post) =
        front ++ m :: (ts ++ back) ∧ m.heads ∧
      ⟨c.callId, getProviderFunction dumps c, [("type", .str "function")]⟩ ∈ m.calls ∧
      (∀ t ∈ ts, t.isTool) ∧ toolMessage o r ∈ ts := by
  have hsplit : post = (post.takeWhile fun item => item.result?.isNone) ++
      ((firstRun post).map OutputItem.functionCallOutput ++
        (post.dropWhile fun item => item.result?.isNone).dropWhile fun item => item.result?.isSome) := by
    have hrun : (firstRun post).map OutputItem.functionCallOutput =
        (post.dropWhile fun item => item.result?.isNone).takeWhile fun item => item.result?.isSome := by
      have hall : ∀ item ∈ (post.dropWhile fun item => item.result?.isNone).takeWhile
          fun item => item.result?.isSome, item.result?.isSome := by
        intro item h
        exact List.mem_takeWhile_imp (p := fun item : OutputItem => item.result?.isSome) h
      rw [firstRun]
      generalize (post.dropWhile fun item => item.result?.isNone).takeWhile
        (fun item => item.result?.isSome) = run at hall
      induction run with
      | nil => rfl
      | cons item run ih =>
        have hitem := hall item List.mem_cons_self
        cases item with
        | functionCallOutput q =>
          have ih := ih fun item h => hall item (List.mem_cons_of_mem _ h)
          exact congrArg (OutputItem.functionCallOutput q :: ·) ih
        | _ => cases hitem
    rw [hrun, List.takeWhile_append_dropWhile, List.takeWhile_append_dropWhile]
  have hmid : ∀ item ∈ post.takeWhile fun item => item.result?.isNone, item.result? = none := by
    intro item h
    have := List.mem_takeWhile_imp h
    simpa using this
  have htail : ∀ item rest, ((post.dropWhile fun item => item.result?.isNone).dropWhile
      fun item => item.result?.isSome) = item :: rest → item.result? = none := by
    intro item rest h
    have hnot := List.head?_dropWhile_not (fun item : OutputItem => item.result?.isSome)
      (post.dropWhile fun item => item.result?.isNone)
    rw [h, List.head?_cons] at hnot
    simpa using hnot
  generalize ((post.dropWhile fun item => item.result?.isNone).dropWhile
    fun item => item.result?.isSome) = tail at hsplit htail
  generalize (post.takeWhile fun item => item.result?.isNone) = mid at hsplit hmid
  rw [rebuiltMessages, List.foldl_append, List.foldl_cons]
  -- no result comes before the run, so the call still waits at its start
  have hwaiting : ∀ b, Waiting ⟨c.callId, getProviderFunction dumps c, [("type", .str "function")]⟩ b →
      Waiting ⟨c.callId, getProviderFunction dumps c, [("type", .str "function")]⟩
        (mid.foldl (step dumps o) b) := by
    clear hsplit
    induction mid with
    | nil => exact fun b h => h
    | cons item mid ih =>
      exact fun b h => ih (List.forall_mem_of_forall_mem_cons hmid) _
        (h.step (hmid item List.mem_cons_self))
  have hcall := hwaiting _ (waiting_of_call dumps o
    (pre.foldl (step dumps o) Buffers.start) hid hne hended)
  rw [hsplit, List.foldl_append, List.foldl_append, foldl_results, hcall.outputs, List.nil_append]
  obtain ⟨more, hmore⟩ := exists_behind_run dumps o
    { mid.foldl (step dumps o) (step dumps o (pre.foldl (step dumps o) Buffers.start) (.functionCall c)) with
      toolOutputs := firstRun post } htail
  obtain ⟨front, m, ts, hblock, hheads, hmem, hts, ht⟩ := flushToolOutputs_block (o := o)
    (b := { mid.foldl (step dumps o) (step dumps o (pre.foldl (step dumps o) Buffers.start)
      (.functionCall c)) with toolOutputs := firstRun post }) hcall.call hr (hid.trans hrid.symm)
  refine ⟨front, m, ts, more, ?_, hheads, hmem, hts, ht⟩
  rw [hmore, hblock]
  simp only [List.append_assoc, List.cons_append]

end Calls

def textOf : Content → String
  | .str s => s
  | .parts (.other fields :: _) => match Dict.get fields "text" with
      | .str s => s
      | _ => ""
  | _ => ""

theorem textOf_toolMessage (o : Options) (r : ResultItem) : textOf (toolMessage o r).content = resultText r := by
  rw [toolMessage]
  split
  · rfl
  · simp [textOf, Dict.get, Dict.lookup_cons]

/-- The messages are paired, the contents are the non-blank pieces in order, and an ended call is
kept with the results of its first run. -/
theorem convertOutputToMessages_valid (dumps : Json → String) (o : Options) (output : List OutputItem) :
    Paired (convertOutputToMessages dumps o output) ∧
      (∃ groups : List (List String),
        contents (convertOutputToMessages dumps o output) = groups.map joined ∧
          visible groups.flatten = visible (output.flatMap (pieces o))) ∧
      ∀ pre c post r id, output = pre ++ .functionCall c :: post → c.callId = some id → id ≠ "" →
        ended c.status → r ∈ firstRun post → r.callId = some id →
          ∃ front m ts back t, convertOutputToMessages dumps o output = front ++ m :: (ts ++ back) ∧
            m.role = "assistant" ∧ (∀ t ∈ ts, t.isTool) ∧
            (∃ call ∈ m.calls, call.id = some id ∧ call.function = getProviderFunction dumps c) ∧
            t ∈ ts ∧ t.toolCallId = some id ∧ textOf t.content = resultText r := by
  by_cases hnil : output = []
  · subst hnil
    refine ⟨trivial, ⟨[], rfl, rfl⟩, fun pre c post r id h => ?_⟩
    simp at h
  rw [convertOutputToMessages, if_neg hnil]
  refine ⟨paired_reconcileToolPairs _, ?_, ?_⟩
  · obtain ⟨groups, hcontents, hpieces⟩ := contents_rebuiltMessages dumps o output
    obtain ⟨groups', hcontents', hvisible⟩ := contents_reconciled [] hcontents
    refine ⟨groups', ?_, hvisible.trans (by rw [hpieces])⟩
    rw [reconcileToolPairs, outcomes_eq, hcontents']
  intro pre c post r id houtput hid hne hended hr hrid
  obtain ⟨front, m, ts, back, hblock, hheads, hcall, hts, ht⟩ := rebuilt_block dumps o pre hid hne hended hr hrid
  have htool : (toolMessage o r).toolCallId = some id := by simp [toolMessage, hrid]
  obtain ⟨front', ts', back', heq, hcall', hts', ht'⟩ :=
    reconcileToolPairs_block front back hheads hts hcall ht hid htool hne
  refine ⟨front', { m with toolCalls := some (m.answeredCalls (ts ++ back)) }, ts', back',
    toolMessage o r, ?_, ?_, hts',
    ⟨⟨c.callId, getProviderFunction dumps c, [("type", .str "function")]⟩, hcall', hid, rfl⟩, ht',
    htool, textOf_toolMessage o r⟩
  · rw [houtput, hblock, heq]
  · exact (ChatMessage.heads_iff.1 hheads).1

end RyanAI.Chat.OutputMessages
