import RyanAI.Chat.ToolPairs

/-!
# Chat messages as Responses input

`convert_to_responses_payload` of `routers/openai.py` splits the messages of a chat completion into the `instructions`
and the `input` items of the Responses API. An `Entry` is what the conversation says at one point: a text with its role,
a call, or a result. The input says what the messages say (`input_says`). The instructions hold the text of one system
message, so that they say everything only if the others are empty.
-/

namespace RyanAI.Chat.ResponsesPayload

open RyanAI.Lib

inductive RequestPart where
  | text (text : Option String)
  | imageUrl (value : Json)
  | file (value : Json)
  | other
deriving DecidableEq

/-- The `content` of a message; `other` has the text that `str` makes. -/
inductive RequestContent where
  | str (s : String)
  | parts (items : List RequestPart)
  | other (text : String)
deriving DecidableEq

/-- An entry of `tool_calls`, with the fields that are there. -/
structure RequestCall where
  id : Option String
  name : Option String
  arguments : Option String
deriving DecidableEq

structure RequestMessage where
  role : Option String
  content : RequestContent
  toolCalls : List RequestCall
  toolCallId : Option String
  /-- the stored `output` items, empty when there are none -/
  output : List Dict

inductive InputPart where
  | text (type text : String)
  | image (url : Json) (detail : Json)
  | file (fields : Dict)
deriving DecidableEq

inductive InputItem where
  | stored (fields : Dict)
  | message (role : String) (content : List InputPart)
  | functionCall (callId name arguments : String)
  | functionCallOutput (callId : String) (output : RequestContent)
deriving DecidableEq

/-! ## The conversion -/

/-- `RESPONSES_ALLOWED_FIELDS`. -/
def responsesAllowedFields : List (String × List String) :=
  [("message", ["type", "role", "content"]),
   ("function_call", ["type", "call_id", "name", "arguments", "id"]),
   ("function_call_output", ["type", "call_id", "output"]),
   ("reasoning", ["type", "id", "summary", "encrypted_content", "content"])]

/-- `get_provider_function` on a stored item; `dumps` is `JSONCodec.dumps`. -/
def getProviderFunction (dumps : Json → String) (item : Dict) : Dict :=
  let function := match Dict.get item "provider_function" with
    | .obj fields => fields
    | _ => item
  let arguments := (function.lookup "arguments").getD (.str "\x7b\x7d")
  [("name", (function.lookup "name").getD (.str "")),
   ("arguments", match arguments with
      | .str s => .str s
      | v => .str (dumps v))]

/-- `_normalize_stored_item`. -/
def normalizeStoredItem (dumps : Json → String) (item : Dict) : Dict :=
  let type := match Dict.get item "type" with
    | .str s => s
    | _ => ""
  match responsesAllowedFields.lookup type with
  | none => item
  | some allowed =>
    let item := if type = "function_call" then Dict.update item (getProviderFunction dumps item) else item
    item.filter fun e => allowed.contains e.1

def joinTextParts (items : List RequestPart) : String :=
  "\n".intercalate (items.filterMap fun p => match p with
    | .text t => some (t.getD "")
    | _ => none)

def imagePart : Json → InputPart
  | .obj fields =>
    .image ((fields.lookup "url").getD (.str "")) (Json.orElse (Dict.get fields "detail") (.str "auto"))
  | .str url => .image (.str url) (.str "auto")
  | _ => .image (.str "") (.str "auto")

def filePart : Json → Option InputPart
  | .obj fields =>
    let file := ["file_id", "file_data", "filename"].filterMap fun k =>
      (fields.lookup k).map fun v => (k, v)
    if file.any fun e => e.1 == "file_id" || e.1 == "file_data" then some (.file file) else none
  | _ => none

def contentParts (textType : String) : RequestContent → List InputPart
  | .str s => [.text textType s]
  | .other text => [.text textType text]
  | .parts items => items.filterMap fun p => match p with
      | .text t => some (.text textType (t.getD ""))
      | .imageUrl value => some (imagePart value)
      | .file value => filePart value
      | .other => none

/-- `if content:`. -/
def RequestContent.truthy : RequestContent → Bool
  | .str s => s ≠ ""
  | .parts items => !items.isEmpty
  | .other _ => true

def RequestContent.joined : RequestContent → String
  | .str s => s
  | .parts items => joinTextParts items
  | .other _ => ""

structure Loop where
  systemContent : String
  inputItems : List InputItem
deriving DecidableEq

def step (dumps : Json → String) (l : Loop) (msg : RequestMessage) : Loop :=
  let role := msg.role.getD "user"
  if msg.output ≠ [] then
    { l with inputItems := l.inputItems ++ msg.output.map fun item => .stored (normalizeStoredItem dumps item) }
  else if role = "system" then
    match msg.content with
    | .str s => { l with systemContent := s }
    | .parts items => { l with systemContent := joinTextParts items }
    | .other _ => l
  else if role = "assistant" ∧ msg.toolCalls ≠ [] then
    let text :=
      if msg.content.truthy ∧ ¬ ToolPairs.isBlank msg.content.joined then
        [InputItem.message "assistant" [.text "output_text" msg.content.joined]]
      else []
    let calls := msg.toolCalls.map fun call =>
      InputItem.functionCall (call.id.getD "") (call.name.getD "") (call.arguments.getD "\x7b\x7d")
    { l with inputItems := l.inputItems ++ (text ++ calls) }
  else if role = "tool" then
    { l with inputItems := l.inputItems ++ [.functionCallOutput (msg.toolCallId.getD "") msg.content] }
  else
    let textType := if role = "assistant" then "output_text" else "input_text"
    { l with inputItems := l.inputItems ++ [.message role (contentParts textType msg.content)] }

/-- The `input` and the `instructions` of the payload. -/
structure Payload where
  input : List InputItem
  instructions : Option String
deriving DecidableEq

/-- `convert_to_responses_payload` for the messages, with the payload's `instructions`. -/
def convertToResponsesPayload (dumps : Json → String) (messages : List RequestMessage)
    (instructions : Option String) : Payload :=
  let l := messages.foldl (step dumps) ⟨"", []⟩
  ⟨l.inputItems, if l.systemContent ≠ "" then some l.systemContent else instructions⟩

/-! ## What is said -/

inductive Entry where
  | text (role text : String)
  | call (id name arguments : String)
  | result (id : String) (content : RequestContent)
deriving DecidableEq

def textEntry (role text : String) : List Entry := if ToolPairs.isBlank text then [] else [.text role text]

def RequestContent.text : RequestContent → String
  | .str s => s
  | .parts items => joinTextParts items
  | .other text => text

def RequestMessage.isSystem (m : RequestMessage) : Bool := m.role.getD "user" == "system"

def RequestMessage.entries (m : RequestMessage) : List Entry :=
  let role := m.role.getD "user"
  if m.isSystem then []
  else if role = "tool" then [.result (m.toolCallId.getD "") m.content]
  else
    textEntry role m.content.text ++
      if role = "assistant" then
        m.toolCalls.map fun call =>
          .call (call.id.getD "") (call.name.getD "") (call.arguments.getD "\x7b\x7d")
      else []

def joinInputTexts (content : List InputPart) : String :=
  "\n".intercalate (content.filterMap fun p => match p with
    | .text _ text => some text
    | _ => none)

def InputItem.entries : InputItem → List Entry
  | .stored _ => []
  | .message role content => textEntry role (joinInputTexts content)
  | .functionCall callId name arguments => [.call callId name arguments]
  | .functionCallOutput callId output => [.result callId output]

def systemTexts (messages : List RequestMessage) : List String :=
  (messages.filter RequestMessage.isSystem).map fun m => m.content.text

/-- The texts stand in `s` one behind the other. -/
def InOrder : List String → String → Prop
  | [], _ => True
  | text :: rest, s => ∃ before after, s = before ++ text ++ after ∧ InOrder rest after

def Plain (m : RequestMessage) : Prop := m.output = [] ∧ ∀ text, m.content ≠ .other text

section Input

variable {dumps : Json → String}

theorem joinInputTexts_contentParts (textType : String) (content : RequestContent) :
    joinInputTexts (contentParts textType content) = content.text := by
  cases content with
  | str s => rfl
  | other text => rfl
  | parts items =>
    simp only [joinInputTexts, contentParts, RequestContent.text, joinTextParts, List.filterMap_filterMap]
    refine congrArg _ (List.filterMap_congr fun p _ => ?_)
    cases p with
    | text t => rfl
    | imageUrl value => cases value <;> rfl
    | file value =>
      cases value with
      -- a file part says nothing, whether it is a file or a reference
      | obj fields =>
        simp only [filePart]
        split <;> rfl
      | _ => rfl
    | other => rfl

theorem step_plain (dumps : Json → String) (l : Loop) (hm : Plain m) : ∃ items, step dumps l m =
        ⟨if m.isSystem then m.content.text else l.systemContent, l.inputItems ++ items⟩ ∧
      items.flatMap InputItem.entries = m.entries := by
  obtain ⟨houtput, hcontent⟩ := hm
  rw [step, if_neg (not_not_intro houtput)]
  by_cases hsystem : m.role.getD "user" = "system"
  · have his : m.isSystem = true := by simp [RequestMessage.isSystem, hsystem]
    refine ⟨[], ?_, by simp [RequestMessage.entries, his]⟩
    rw [if_pos hsystem, if_pos his, List.append_nil]
    cases hc : m.content with
    | str s => rfl
    | parts items => rfl
    | other text => exact absurd hc (hcontent text)
  have his : m.isSystem = false := by simp [RequestMessage.isSystem, hsystem]
  rw [if_neg hsystem]
  simp only [his, Bool.false_eq_true, if_false, RequestMessage.entries]
  by_cases hcalls : m.role.getD "user" = "assistant" ∧ m.toolCalls ≠ []
  · rw [if_pos hcalls]
    refine ⟨_, rfl, ?_⟩
    have htext : m.content.joined = m.content.text := by
      cases hc : m.content with
      | other text => exact absurd hc (hcontent text)
      | _ => rfl
    have hempty : ¬ m.content.truthy → ToolPairs.isBlank m.content.joined := by
      cases hc : m.content with
      | str s =>
        intro h
        obtain rfl : s = "" := by simpa [RequestContent.truthy] using h
        rfl
      | parts items =>
        intro h
        obtain rfl : items = [] := by simpa [RequestContent.truthy] using h
        rfl
      | other text => exact absurd hc (hcontent text)
    have hcallEntries : (m.toolCalls.map fun call =>
        InputItem.functionCall (call.id.getD "") (call.name.getD "")
          (call.arguments.getD "\x7b\x7d")).flatMap InputItem.entries =
        m.toolCalls.map fun call =>
          .call (call.id.getD "") (call.name.getD "") (call.arguments.getD "\x7b\x7d") := by
      induction m.toolCalls with
      | nil => rfl
      | cons call calls ih =>
        rw [List.map_cons, List.flatMap_cons, ih]
        rfl
    have htool : m.role.getD "user" ≠ "tool" := by
      rw [hcalls.1]
      decide
    rw [List.flatMap_append, hcallEntries, if_neg htool, if_pos hcalls.1, hcalls.1]
    congr 1
    by_cases hblank : ToolPairs.isBlank m.content.joined
    · rw [if_neg fun h => h.2 hblank, textEntry, if_pos (htext ▸ hblank)]
      rfl
    have htruthy : m.content.truthy := by
      by_contra h
      exact hblank (hempty h)
    rw [if_pos ⟨htruthy, hblank⟩, ← htext]
    simp [InputItem.entries, joinInputTexts]
  · rw [if_neg hcalls]
    by_cases htool : m.role.getD "user" = "tool"
    · rw [if_pos htool, if_pos htool]
      exact ⟨_, rfl, rfl⟩
    rw [if_neg htool, if_neg htool]
    refine ⟨_, rfl, ?_⟩
    have hnone : (if m.role.getD "user" = "assistant" then m.toolCalls.map fun call =>
        Entry.call (call.id.getD "") (call.name.getD "") (call.arguments.getD "\x7b\x7d")
        else []) = [] := by
      split
      · rename_i ha
        rw [not_and, not_not] at hcalls
        rw [hcalls ha]
        rfl
      · rfl
    rw [hnone, List.append_nil, List.flatMap_singleton, InputItem.entries, joinInputTexts_contentParts]

theorem foldl_plain (dumps : Json → String) {messages : List RequestMessage} (h : ∀ m ∈ messages, Plain m) (l : Loop) :
    ∃ items, messages.foldl (step dumps) l =
        ⟨(systemTexts messages).getLastD l.systemContent, l.inputItems ++ items⟩ ∧
      items.flatMap InputItem.entries = messages.flatMap RequestMessage.entries := by
  induction messages generalizing l with
  | nil => exact ⟨[], by simp [systemTexts], rfl⟩
  | cons m rest ih =>
    obtain ⟨first, hfirst, hsays⟩ := step_plain dumps l (h m List.mem_cons_self)
    obtain ⟨items, hitems, hrest⟩ := ih (List.forall_mem_of_forall_mem_cons h) (step dumps l m)
    refine ⟨first ++ items, ?_, ?_⟩
    · rw [List.foldl_cons, hitems, hfirst]
      by_cases hs : m.isSystem
      · have hcons : systemTexts (m :: rest) = m.content.text :: systemTexts rest := by
          simp [systemTexts, hs]
        simp only [if_pos hs, hcons, List.append_assoc]
        rw [List.getLastD_cons]
      · have hcons : systemTexts (m :: rest) = systemTexts rest := by simp [systemTexts, hs]
        simp only [if_neg hs, hcons, List.append_assoc]
    · rw [List.flatMap_append, hsays, hrest, List.flatMap_cons]

end Input

theorem sum_length_le_of_inOrder (h : InOrder texts s) : (texts.map String.length).sum ≤ s.length := by
  induction texts generalizing s with
  | nil => exact Nat.zero_le _
  | cons text rest ih =>
    obtain ⟨before, after, rfl, hrest⟩ := h
    have := ih hrest
    simp only [List.map_cons, List.sum_cons, String.length_append]
    omega

theorem inOrder_getLastD_iff (texts : List String) :
    InOrder texts (texts.getLastD "") ↔ ∀ text ∈ texts.dropLast, text = "" := by
  rcases List.eq_nil_or_concat' texts with rfl | ⟨others, last, rfl⟩
  · exact iff_of_true trivial fun text h => by cases h
  rw [List.dropLast_concat, List.getLastD_concat]
  constructor
  · intro h text hmem
    -- the texts do not overlap, so together they are no longer than the last one
    have hle := sum_length_le_of_inOrder h
    rw [List.map_append, List.sum_append, List.map_singleton, List.sum_singleton] at hle
    have hone : text.length ≤ (others.map String.length).sum :=
      List.single_le_sum (fun _ _ => Nat.zero_le _) _ (List.mem_map_of_mem hmem)
    exact String.length_eq_zero_iff.1 (by omega)
  · intro h
    induction others with
    | nil => exact ⟨"", "", by simp, trivial⟩
    | cons text rest ih =>
      obtain rfl := h text List.mem_cons_self
      exact ⟨"", last, by simp, ih fun t ht => h t (List.mem_cons_of_mem _ ht)⟩

/-- The input says what the messages say, and the instructions have all system texts exactly when
all but the last are empty. -/
theorem conversation_kept_iff (dumps : Json → String) (messages : List RequestMessage) (h : ∀ m ∈ messages, Plain m) :
    (InOrder (systemTexts messages) ((convertToResponsesPayload dumps messages none).instructions.getD "") ∧
      (convertToResponsesPayload dumps messages none).input.flatMap InputItem.entries =
        messages.flatMap RequestMessage.entries) ↔
      ∀ text ∈ (systemTexts messages).dropLast, text = "" := by
  obtain ⟨items, hloop, hsays⟩ := foldl_plain dumps h ⟨"", []⟩
  have hinstructions : (convertToResponsesPayload dumps messages none).instructions.getD "" =
      (systemTexts messages).getLastD "" := by
    simp only [convertToResponsesPayload, hloop]
    split
    · rfl
    · rename_i hempty
      rw [not_not] at hempty
      exact hempty.symm
  have hinput : (convertToResponsesPayload dumps messages none).input = items := by
    simp only [convertToResponsesPayload, hloop, List.nil_append]
  rw [hinstructions, hinput, inOrder_getLastD_iff, hsays]
  exact and_iff_left rfl

def summarised : List RequestMessage :=
  [⟨some "system", .str "Be brief.", [], none, []⟩,
   ⟨some "system", .str "[CONVERSATION SUMMARY]\nnone", [], none, []⟩,
   ⟨some "user", .str "hi", [], none, []⟩]

theorem plain_summarised : ∀ m ∈ summarised, Plain m := by
  intro m hm
  simp only [summarised, List.mem_cons, List.not_mem_nil, or_false] at hm
  rcases hm with rfl | rfl | rfl <;> exact ⟨rfl, fun _ h => by cases h⟩

theorem conversation_kept_iff_summarised : (InOrder (systemTexts summarised)
        ((convertToResponsesPayload (fun _ => "") summarised none).instructions.getD "") ∧
      (convertToResponsesPayload (fun _ => "") summarised none).input.flatMap InputItem.entries =
        summarised.flatMap RequestMessage.entries) ↔
      ∀ text ∈ (systemTexts summarised).dropLast, text = "" :=
  conversation_kept_iff (fun _ => "") summarised plain_summarised

/-- The summary takes the place of the system prompt. -/
theorem system_prompt_lost : (convertToResponsesPayload (fun _ => "") summarised none).instructions =
        some "[CONVERSATION SUMMARY]\nnone" ∧
      ¬ InOrder (systemTexts summarised)
        ((convertToResponsesPayload (fun _ => "") summarised none).instructions.getD "") := by
  refine ⟨by decide, fun h => ?_⟩
  have hle := sum_length_le_of_inOrder h
  exact absurd hle (by decide)

end RyanAI.Chat.ResponsesPayload
