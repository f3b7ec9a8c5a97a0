import RyanAI.Chat.ToolPairs

/-!
# Anthropic requests as chat completions

`convert_anthropic_to_openai_payload` of `utils/anthropic.py`. One Anthropic message becomes several: the results that
a user message carries come first, as tool messages, and its own text after them; the calls of an assistant message go
into its `tool_calls`.

A conversation is `WellPaired` when calls stand in assistant messages only, each followed by a user message with a
result for every call, and results stand nowhere else. Then the conversion is paired in the sense of
`reconcile_tool_pairs`.
-/

namespace RyanAI.Chat.AnthropicRequest

open RyanAI.Lib
open RyanAI.Lib.Positions
open RyanAI.Chat.ToolPairs

/-! ## Anthropic messages -/

inductive Role where
  | user
  | assistant
deriving DecidableEq

/-- `msg.get('role', 'user')` as it is passed on. -/
def Role.name : Role → String
  | .user => "user"
  | .assistant => "assistant"

/-- The `source` of an image. -/
inductive Source where
  | base64 (mediaType data : Option String)
  | url (url : Option String)
  | other
deriving DecidableEq

/-- A block of a tool result; absent fields are `none`. -/
inductive ResultBlock where
  | text (text : Option String) (cacheControl : Option Json)
  | image (source : Source) (cacheControl : Option Json)
  | document (title context : Option String) (textData : Option String)
  | searchResult (title source : Option String) (texts : List (Option String))
  | other
deriving DecidableEq

/-- The `content` of a tool result; no dictionary is `none`. -/
inductive ResultContent where
  | str (s : String)
  | blocks (items : List (Option ResultBlock))
  | other
deriving DecidableEq

/-- The `input` of a call: an object, or the text of anything else. -/
inductive ToolInput where
  | object (fields : Dict)
  | other (text : String)
deriving DecidableEq

/-- A `tool_use` block. -/
structure ToolUse where
  id : Option String
  name : Option String
  input : ToolInput
deriving DecidableEq

/-- A `tool_result` block. -/
structure ToolResult where
  toolUseId : Option String
  content : ResultContent
  isError : Bool
deriving DecidableEq

inductive Block where
  | text (text : Option String) (cacheControl : Option Json)
  | thinking (fields : Dict) (redacted : Bool) (signature : Option String)
  | image (source : Source) (cacheControl : Option Json)
  | toolUse (use : ToolUse)
  | toolResult (result : ToolResult)
  | other
deriving DecidableEq

/-- The `content` of a message; `other` has the text of anything else. -/
inductive AnthropicContent where
  | str (s : String)
  | blocks (items : List Block)
  | other (text : String)
deriving DecidableEq

structure AnthropicMessage where
  role : Role
  content : AnthropicContent
deriving DecidableEq

/-- The `system` prompt. The items of a list are text blocks or strings. -/
inductive SystemPrompt where
  | absent
  | str (s : String)
  | blocks (items : List (Option String × Option Json))
deriving DecidableEq

/-! ## The conversion -/

/-- `_copy_cache_control`. -/
def copyCacheControl (cacheControl : Option Json) : Dict := cacheControl.elim [] fun v => [("cache_control", v)]

def textPart (text : Option String) (cacheControl : Option Json) : Part :=
  .text (some (text.getD "")) (copyCacheControl cacheControl)

/-- The `image_url` part of an image, unless its source is of an unknown type. -/
def imagePart (source : Source) (cacheControl : Option Json) : Option Part :=
  let part (url : String) : Part :=
    .other ([("type", .str "image_url"), ("image_url", .obj [("url", .str url)])] ++ copyCacheControl cacheControl)
  match source with
  | .base64 mediaType data =>
    some (part ("data:" ++ mediaType.getD "image/png" ++ ";base64," ++ data.getD ""))
  | .url url => some (part (url.getD ""))
  | .other => none

def Part.hasCacheControl : Part → Bool
  | .text _ rest => rest.any fun e => e.1 == "cache_control"
  | .other fields => fields.any fun e => e.1 == "cache_control"

/-- `_has_cache_control`. -/
def hasCacheControl (parts : List Part) : Bool := parts.any Part.hasCacheControl

/-- `_finalize_openai_content`. -/
def finalizeOpenaiContent : List Part → Content
  | [] => .str ""
  | [.text t rest] =>
    if hasCacheControl [.text t rest] then .parts [.text t rest] else .str (t.getD "")
  | parts => .parts parts

def convertResultBlock : ResultBlock → Option Part
  | .text t cacheControl => some (textPart t cacheControl)
  | .image source cacheControl => imagePart source cacheControl
  | .document title context textData =>
    let header := "[Document: " ++ title.getD "Document" ++ "]"
    let header := if context.getD "" ≠ "" then header ++ "\n" ++ context.getD "" else header
    let header := if textData.getD "" ≠ "" then header ++ "\n" ++ textData.getD "" else header
    some (.text (some header) [])
  | .searchResult title source texts =>
    let body := "\n".intercalate (texts.map fun t => t.getD "")
    let header := "[Search Result: " ++ title.getD "" ++ "]"
    let header := if source.getD "" ≠ "" then header ++ "\nSource: " ++ source.getD "" else header
    let header := if body ≠ "" then header ++ "\n" ++ body else header
    some (.text (some header) [])
  | .other => none

def Part.isText : Part → Bool
  | .text _ _ => true
  | .other _ => false

/-- `part.get('text', '')`. -/
def Part.textOf : Part → String
  | .text t _ => t.getD ""
  | .other _ => ""

/-- `tool_content` before errors are marked. -/
def resultContent : ResultContent → Content
  | .str s => .str s
  | .other => .str ""
  | .blocks items =>
    let parts := items.filterMap fun item => item.bind convertResultBlock
    if parts.all Part.isText ∧ ¬ hasCacheControl parts then
      .str ("\n".intercalate (parts.map Part.textOf))
    else if parts ≠ [] then .parts parts
    else .str ""

/-- Propagation of `is_error`. -/
def markError : Content → Content
  | .str s => .str ("Error: " ++ s)
  | .parts items => .parts (.text (some "Error: ") [] :: items)
  | .null => .null

/-- The tool message of a `tool_result` block. -/
def toolMessage (r : ToolResult) : ChatMessage :=
  { role := "tool"
    content := if r.isError then markError (resultContent r.content) else resultContent r.content
    toolCalls := none
    toolCallId := some (r.toolUseId.getD "")
    reasoningContent := none
    output := none
    rest := [] }

/-- The entry of `tool_calls`; `dumps` is `JSONCodec.dumps`. -/
def toolCall (dumps : Json → String) (u : ToolUse) : ToolCall :=
  { id := some (u.id.getD "")
    function :=
      { name := u.name.getD ""
        arguments := match u.input with
          | .object fields => dumps (.obj fields)
          | .other text => text }
    rest := [("type", .str "function")] }

def contentPart : Block → Option Part
  | .text t cacheControl => some (textPart t cacheControl)
  | .thinking fields redacted signature =>
    -- unsigned thinking cannot be replayed
    if redacted ∨ signature.getD "" ≠ "" then some (.other fields) else none
  | .image source cacheControl => imagePart source cacheControl
  | _ => none

def Block.use? : Block → Option ToolUse
  | .toolUse u => some u
  | _ => none

def Block.result? : Block → Option ToolResult
  | .toolResult r => some r
  | _ => none

def plainMessage (role : String) (content : Content) (toolCalls : Option (List ToolCall)) : ChatMessage :=
  ⟨role, content, toolCalls, none, none, none, []⟩

def convertMessage (dumps : Json → String) (m : AnthropicMessage) : List ChatMessage :=
  match m.content with
  | .str s => [plainMessage m.role.name (.str s) none]
  | .other text => [plainMessage m.role.name (.str text) none]
  | .blocks items =>
    let openaiContent := items.filterMap contentPart
    let toolCalls := (items.filterMap Block.use?).map (toolCall dumps)
    (items.filterMap Block.result?).map toolMessage ++
      if toolCalls ≠ [] then
        [plainMessage m.role.name (finalizeOpenaiContent openaiContent) (some toolCalls)]
      else if openaiContent ≠ [] ∨ m.role.name = "assistant" then
        [plainMessage m.role.name (finalizeOpenaiContent openaiContent) none]
      else []

def systemMessage : SystemPrompt → List ChatMessage
  | .absent => []
  | .str s => if s ≠ "" then [plainMessage "system" (.str s) none] else []
  | .blocks items =>
    if items ≠ [] then
      [plainMessage "system" (finalizeOpenaiContent (items.map fun i => textPart i.1 i.2)) none]
    else []

/-- The `messages` of `convert_anthropic_to_openai_payload`. -/
def convertAnthropicMessages (dumps : Json → String) (system : SystemPrompt)
    (messages : List AnthropicMessage) : List ChatMessage :=
  systemMessage system ++ messages.flatMap (convertMessage dumps)

/-! ## Well paired conversations -/

def AnthropicMessage.blocks (m : AnthropicMessage) : List Block :=
  match m.content with
  | .blocks items => items
  | _ => []

/-- The `tool_use` blocks of a message. -/
def AnthropicMessage.uses (m : AnthropicMessage) : List ToolUse := m.blocks.filterMap Block.use?

/-- The `tool_result` blocks of a message. -/
def AnthropicMessage.results (m : AnthropicMessage) : List ToolResult := m.blocks.filterMap Block.result?

/-- An assistant's calls are answered right behind them, and results answer calls right in front. -/
structure WellPairedAt (before : List AnthropicMessage) (m : AnthropicMessage)
    (after : List AnthropicMessage) : Prop where
  role : m.uses ≠ [] → m.role = .assistant
  ids : ∀ u ∈ m.uses, ∃ id, u.id = some id ∧ id ≠ ""
  inputs : ∀ u ∈ m.uses, ∃ fields, u.input = .object fields
  followed : m.uses ≠ [] → ∃ next rest, after = next :: rest ∧ next.role = .user ∧
    ∀ u ∈ m.uses, ∃ r ∈ next.results, r.toolUseId = u.id
  results : ∀ r ∈ m.results, m.role = .user ∧ ∃ prev rest, before = prev :: rest ∧ ∃ u ∈ prev.uses, r.toolUseId = u.id

def WellPaired (messages : List AnthropicMessage) : Prop := Everywhere WellPairedAt [] messages

def ResultContent.texts? : ResultContent → Option (List String)
  | .str s => some [s]
  | .blocks items => items.mapM fun item => match item with
      | some (.text t _) => some (t.getD "")
      | _ => none
  | .other => none

def ToolResult.plainTexts? (r : ToolResult) : Option (List String) := if r.isError then none else r.content.texts?

def contentText : Content → String
  | .null => ""
  | .str s => s
  | .parts items => "\n".intercalate (items.map Part.textOf)

section Convert

variable {dumps : Json → String}

@[simp] theorem toolMessage_isTool (r : ToolResult) : (toolMessage r).isTool := rfl

theorem toolMessage_calls (r : ToolResult) : (toolMessage r).calls = [] := rfl

theorem convertMessage_eq (dumps : Json → String) (m : AnthropicMessage) :
    ∃ own : Option ChatMessage, convertMessage dumps m = m.results.map toolMessage ++ own.toList ∧
      (∀ p ∈ own, p.role = m.role.name ∧ p.calls = m.uses.map (toolCall dumps)) ∧
      (own = none → m.uses = []) := by
  obtain ⟨role, content⟩ := m
  cases content with
  | str s => exact ⟨some (plainMessage role.name (.str s) none), rfl, by simp [plainMessage,
      ChatMessage.calls, AnthropicMessage.uses, AnthropicMessage.blocks], by simp⟩
  | other text => exact ⟨some (plainMessage role.name (.str text) none), rfl, by simp [plainMessage,
      ChatMessage.calls, AnthropicMessage.uses, AnthropicMessage.blocks], by simp⟩
  | blocks items =>
    have huses : AnthropicMessage.uses ⟨role, .blocks items⟩ = items.filterMap Block.use? := rfl
    simp only [convertMessage, huses]
    -- calls keep the message; without them it stays for its text, or as the assistant's
    by_cases hcalls : (items.filterMap Block.use?).map (toolCall dumps) ≠ []
    · simp only [if_pos hcalls]
      refine ⟨some (plainMessage role.name (finalizeOpenaiContent (items.filterMap contentPart))
        (some ((items.filterMap Block.use?).map (toolCall dumps)))), rfl, ?_, by simp⟩
      intro p hp
      obtain rfl := Option.mem_some_iff.1 hp
      exact ⟨rfl, rfl⟩
    have hnil : items.filterMap Block.use? = [] := by
      rw [not_not, List.map_eq_nil_iff] at hcalls
      exact hcalls
    rw [if_neg hcalls, hnil]
    by_cases hkeep : items.filterMap contentPart ≠ [] ∨ role.name = "assistant"
    · rw [if_pos hkeep]
      refine ⟨some (plainMessage role.name (finalizeOpenaiContent (items.filterMap contentPart)) none),
        rfl, ?_, by simp⟩
      intro p hp
      obtain rfl := Option.mem_some_iff.1 hp
      exact ⟨rfl, rfl⟩
    · rw [if_neg hkeep]
      exact ⟨none, rfl, by simp, fun _ => rfl⟩

theorem answered_tools {results : List ToolResult} {id : String} (hne : id ≠ "")
    (h : ∃ r ∈ results, r.toolUseId = some id) (rest : List ChatMessage) :
    answered (results.map toolMessage ++ rest) (some id) := by
  induction results with
  | nil => simp at h
  | cons r results ih =>
    rw [List.map_cons, List.cons_append, answered_cons_of_isTool (toolMessage_isTool r), Bool.or_eq_true]
    obtain ⟨q, hq, hid⟩ := h
    rcases List.mem_cons.1 hq with rfl | hq
    · left
      simp [toolMessage, hid, hne]
    · exact .inr (ih ⟨q, hq, hid⟩)

theorem everywhere_tools {results : List ToolResult} {before : List ChatMessage} {rest : List ChatMessage}
    (h : ∀ r ∈ results, claimed before (some (r.toolUseId.getD "")))
    (hrest : Everywhere PairedAt ((results.map toolMessage).reverse ++ before) rest) :
    Everywhere PairedAt before (results.map toolMessage ++ rest) := by
  induction results generalizing before with
  | nil => exact hrest
  | cons r results ih =>
    refine ⟨⟨fun _ call hc => (by cases hc), fun _ => h r List.mem_cons_self⟩, ih (fun q hq => ?_) ?_⟩
    · rw [claimed_of_isTool (toolMessage_isTool r)]
      exact h q (List.mem_cons_of_mem _ hq)
    · simpa using hrest

/-- The calls of the last message are claimed behind what has been converted. -/
def Follows (before : List AnthropicMessage) (out : List ChatMessage) : Prop :=
  ∀ prev rest, before = prev :: rest → ∀ u ∈ prev.uses, ∀ id, u.id = some id → id ≠ "" → claimed out (some id)

theorem paired_convert {before messages : List AnthropicMessage} {out : List ChatMessage}
    (hf : Follows before out) (hids : ∀ prev rest, before = prev :: rest → ∀ u ∈ prev.uses,
      ∃ id, u.id = some id ∧ id ≠ "") (h : Everywhere WellPairedAt before messages) :
    Everywhere PairedAt out (messages.flatMap (convertMessage dumps)) := by
  induction messages generalizing before out with
  | nil => trivial
  | cons m after ih =>
    obtain ⟨hm, hafter⟩ := h
    obtain ⟨own, hown, hrole, hnone⟩ := convertMessage_eq dumps m
    rw [List.flatMap_cons, hown, List.append_assoc]
    refine everywhere_tools (fun r hr => ?_) ?_
    -- a result answers a call of the message in front, whose own message comes last
    · obtain ⟨-, prev, rest, hprev, u, hu, hid⟩ := hm.results r hr
      obtain ⟨id, huid, hne⟩ := hids prev rest hprev u hu
      rw [hid, huid]
      exact hf prev rest hprev u hu id huid hne
    have hids' : ∀ prev rest, m :: before = prev :: rest → ∀ u ∈ prev.uses,
        ∃ id, u.id = some id ∧ id ≠ "" := by
      rintro prev rest heq u hu
      obtain ⟨rfl, -⟩ := List.cons.inj heq
      exact hm.ids u hu
    cases own with
    | none =>
      refine ih ?_ hids' hafter
      rintro prev rest heq u hu
      obtain ⟨rfl, -⟩ := List.cons.inj heq
      rw [hnone rfl] at hu
      cases hu
    | some p =>
      obtain ⟨hprole, hpcalls⟩ := hrole p rfl
      have hnotTool : ¬ p.isTool := by
        rw [ChatMessage.isTool_iff, hprole]
        cases m.role <;> decide
      refine ⟨⟨fun _ call hc => ?_, fun htool => absurd htool hnotTool⟩, ih ?_ hids' hafter⟩
      · -- the next message begins with the results of the calls
        rw [hpcalls] at hc
        obtain ⟨u, hu, rfl⟩ := List.mem_map.1 hc
        obtain ⟨next, rest, rfl, -, hanswers⟩ := hm.followed (List.ne_nil_of_mem hu)
        obtain ⟨id, huid, hne⟩ := hm.ids u hu
        obtain ⟨r, hr, hrid⟩ := hanswers u hu
        obtain ⟨own', hown', -⟩ := convertMessage_eq dumps next
        rw [List.flatMap_cons, hown', List.append_assoc]
        have hcall : (toolCall dumps u).id = some id := by simp [toolCall, huid]
        rw [hcall]
        exact answered_tools hne ⟨r, hr, hrid.trans huid⟩ _
      -- the own message heads the block of the results that come next
      · rintro prev rest heq u hu id huid hne
        obtain ⟨rfl, -⟩ := List.cons.inj heq
        have hheads : p.heads := by
          rw [ChatMessage.heads_iff, hprole, hpcalls]
          refine ⟨?_, List.ne_nil_of_mem (List.mem_map_of_mem hu)⟩
          rw [hm.role (List.ne_nil_of_mem hu)]
          rfl
        simp only [claimed, Option.any_some, heading_of_heads hheads, hpcalls]
        simp only [ne_eq, hne, not_false_eq_true, decide_true, Bool.true_and, List.any_map,
          List.any_eq_true, Function.comp_apply, beq_iff_eq]
        exact ⟨u, hu, by simp [toolCall, huid]⟩

theorem everywhere_plain (h : ∀ p ∈ ps, p.role = "system" ∧ p.calls = [])
    (hrest : ∀ out, Everywhere PairedAt out rest) : Everywhere PairedAt before (ps ++ rest) := by
  induction ps generalizing before with
  | nil => exact hrest before
  | cons p ps ih =>
    obtain ⟨hrole, hcalls⟩ := h p List.mem_cons_self
    refine ⟨⟨fun _ call hc => ?_, fun htool => ?_⟩, ih fun q hq => h q (List.mem_cons_of_mem _ hq)⟩
    · rw [hcalls] at hc
      cases hc
    · rw [ChatMessage.isTool_iff, hrole] at htool
      exact absurd htool (by decide)

/-! ## Calls and results in order -/

theorem calls_convertMessage (m : AnthropicMessage) :
    (convertMessage dumps m).flatMap ChatMessage.calls = m.uses.map (toolCall dumps) := by
  obtain ⟨own, hown, hrole, hnone⟩ := convertMessage_eq dumps m
  have htools : (m.results.map toolMessage).flatMap ChatMessage.calls = [] := by
    rw [List.flatMap_eq_nil_iff]
    intro t ht
    obtain ⟨r, -, rfl⟩ := List.mem_map.1 ht
    exact toolMessage_calls r
  rw [hown, List.flatMap_append, htools, List.nil_append]
  cases own with
  | none => simp [hnone rfl]
  | some p => simp [(hrole p rfl).2]

theorem tools_convertMessage (m : AnthropicMessage) :
    (convertMessage dumps m).filter ChatMessage.isTool = m.results.map toolMessage := by
  obtain ⟨own, hown, hrole, -⟩ := convertMessage_eq dumps m
  have htools : (m.results.map toolMessage).filter ChatMessage.isTool = m.results.map toolMessage := by
    rw [List.filter_eq_self]
    intro t ht
    obtain ⟨r, -, rfl⟩ := List.mem_map.1 ht
    exact toolMessage_isTool r
  have hrest : own.toList.filter ChatMessage.isTool = [] := by
    rw [List.filter_eq_nil_iff]
    intro p hp htool
    rw [ChatMessage.isTool_iff, (hrole p (Option.mem_toList.1 hp)).1] at htool
    cases hr : m.role <;> simp [hr, Role.name] at htool
  rw [hown, List.filter_append, htools, hrest, List.append_nil]

theorem plain_systemMessage (system : SystemPrompt) : ∀ p ∈ systemMessage system, p.role = "system" ∧ p.calls = [] := by
  intro p hp
  cases system with
  | absent => cases hp
  | str s =>
    rw [systemMessage] at hp
    split at hp
    · rw [List.mem_singleton.1 hp]
      exact ⟨rfl, rfl⟩
    · cases hp
  | blocks items =>
    rw [systemMessage] at hp
    split at hp
    · rw [List.mem_singleton.1 hp]
      exact ⟨rfl, rfl⟩
    · cases hp

theorem calls_convert (system : SystemPrompt) (messages : List AnthropicMessage) :
    (convertAnthropicMessages dumps system messages).flatMap ChatMessage.calls =
      (messages.flatMap AnthropicMessage.uses).map (toolCall dumps) := by
  have hsystem : (systemMessage system).flatMap ChatMessage.calls = [] :=
    List.flatMap_eq_nil_iff.2 fun p hp => (plain_systemMessage system p hp).2
  rw [convertAnthropicMessages, List.flatMap_append, hsystem, List.nil_append]
  induction messages with
  | nil => rfl
  | cons m rest ih =>
    rw [List.flatMap_cons, List.flatMap_append, calls_convertMessage, ih, List.flatMap_cons, List.map_append]

theorem tools_convert (system : SystemPrompt) (messages : List AnthropicMessage) :
    (convertAnthropicMessages dumps system messages).filter ChatMessage.isTool =
      (messages.flatMap AnthropicMessage.results).map toolMessage := by
  have hsystem : (systemMessage system).filter ChatMessage.isTool = [] := by
    rw [List.filter_eq_nil_iff]
    intro p hp htool
    rw [ChatMessage.isTool_iff, (plain_systemMessage system p hp).1] at htool
    exact absurd htool (by decide)
  rw [convertAnthropicMessages, List.filter_append, hsystem, List.nil_append]
  induction messages with
  | nil => rfl
  | cons m rest ih =>
    rw [List.flatMap_cons, List.filter_append, tools_convertMessage, ih, List.flatMap_cons, List.map_append]

theorem filterMap_textBlocks {items : List (Option ResultBlock)} {texts : List String}
    (h : (items.mapM fun item => match item with
      | some (.text t _) => some (t.getD "")
      | _ => none) = some texts) :
    (items.filterMap fun item => item.bind convertResultBlock).all Part.isText ∧
      (items.filterMap fun item => item.bind convertResultBlock).map Part.textOf = texts := by
  induction items generalizing texts with
  | nil =>
    simp only [List.mapM_nil, Option.pure_def, Option.some.injEq] at h
    exact ⟨rfl, h⟩
  | cons item items ih =>
    simp only [List.mapM_cons, Option.pure_def, Option.bind_eq_bind, Option.bind_eq_some_iff, Option.some.injEq] at h
    obtain ⟨t, ht, ts, hts, rfl⟩ := h
    obtain ⟨hall, htexts⟩ := ih hts
    split at ht
    · rename_i t' cacheControl
      have hcons : ((some (ResultBlock.text t' cacheControl) :: items).filterMap
          fun item => item.bind convertResultBlock) = textPart t' cacheControl ::
            items.filterMap fun item => item.bind convertResultBlock := rfl
      rw [hcons, List.all_cons, List.map_cons, htexts]
      exact ⟨by simpa [textPart, Part.isText] using hall, by
        simpa [textPart, Part.textOf] using ht⟩
    · cases ht

theorem contentText_resultContent
    (h : content.texts? = some texts) : contentText (resultContent content) = "\n".intercalate texts := by
  cases content with
  | str s =>
    cases h
    simp [resultContent, contentText]
  | other => cases h
  | blocks items =>
    obtain ⟨hall, htexts⟩ := filterMap_textBlocks h
    -- parts of text alone are joined, unless a cache mark keeps them apart
    simp only [resultContent, hall, true_and]
    split
    · rw [contentText, htexts]
    split
    · rw [contentText, htexts]
    rename_i hnil
    rw [not_not] at hnil
    rw [hnil] at htexts
    rw [← htexts]
    rfl

end Convert

def requestedCalls (messages : List AnthropicMessage) : List (Option String × String × Option Json) :=
  (messages.flatMap AnthropicMessage.uses).map fun u =>
    (u.id, u.name.getD "", match u.input with
      | .object fields => some (.obj fields)
      | .other _ => none)

def convertedCalls (loads : String → Option Json) (messages : List ChatMessage) :
    List (Option String × String × Option Json) :=
  (messages.flatMap ChatMessage.calls).map fun c => (c.id, c.function.name, loads c.function.arguments)

def textResults (messages : List AnthropicMessage) : List (Option String × String) :=
  (messages.flatMap AnthropicMessage.results).filterMap fun r =>
    r.plainTexts?.map fun texts => (r.toolUseId, "\n".intercalate texts)

def convertedTextResults (messages : List AnthropicMessage) (converted : List ChatMessage) :
    List (Option String × String) :=
  ((messages.flatMap AnthropicMessage.results).zip (converted.filter ChatMessage.isTool)).filterMap
    fun (r, t) => r.plainTexts?.map fun _ => (t.toolCallId, contentText t.content)

theorem textResults_tools {results : List ToolResult} (hids : ∀ r ∈ results, ∃ id, r.toolUseId = some id) :
    ((results.zip (results.map toolMessage)).filterMap fun (r, t) =>
        r.plainTexts?.map fun _ => (t.toolCallId, contentText t.content)) =
      results.filterMap fun r => r.plainTexts?.map fun texts =>
        (r.toolUseId, "\n".intercalate texts) := by
  induction results with
  | nil => rfl
  | cons r rs ih =>
    have ih := ih fun q hq => hids q (List.mem_cons_of_mem _ hq)
    obtain ⟨id, hid⟩ := hids r List.mem_cons_self
    rw [List.map_cons, List.zip_cons_cons]
    cases hplain : r.plainTexts? with
    | none =>
      rw [List.filterMap_cons_none (by simp [hplain]), ih, List.filterMap_cons_none (by simp [hplain])]
    | some texts =>
      have herr : r.isError = false ∧ r.content.texts? = some texts := by
        rw [ToolResult.plainTexts?] at hplain
        split at hplain
        · cases hplain
        · rename_i he
          exact ⟨by simpa using he, hplain⟩
      have hcontent : contentText (toolMessage r).content = "\n".intercalate texts := by
        simp only [toolMessage, herr.1, Bool.false_eq_true, if_false]
        exact contentText_resultContent herr.2
      have htool : (toolMessage r).toolCallId = some id := by simp [toolMessage, hid]
      rw [List.filterMap_cons_some (b := (some id, "\n".intercalate texts)) (by
          simp [hplain, hcontent, htool]), ih,
        List.filterMap_cons_some (b := (some id, "\n".intercalate texts)) (by simp [hplain, hid])]

theorem WellPaired.at_mem (h : WellPaired messages) (hm : m ∈ messages) :
    ∃ before after, (∀ p ∈ before, p ∈ messages) ∧ WellPairedAt before m after := by
  obtain ⟨pre, post, rfl⟩ := List.append_of_mem hm
  refine ⟨pre.reverse ++ [], post, fun p hp => ?_, everywhere_iff.1 h pre m post rfl⟩
  rw [List.append_nil, List.mem_reverse] at hp
  exact List.mem_append_left _ hp

theorem WellPaired.exists_id (h : WellPaired messages) (hr : r ∈ messages.flatMap AnthropicMessage.results) :
    ∃ id, r.toolUseId = some id := by
  obtain ⟨m, hm, hr⟩ := List.mem_flatMap.1 hr
  obtain ⟨before, after, hbefore, hat⟩ := h.at_mem hm
  obtain ⟨-, prev, rest, rfl, u, hu, hid⟩ := hat.results r hr
  obtain ⟨_, _, -, hprev⟩ := h.at_mem (hbefore prev List.mem_cons_self)
  obtain ⟨id, huid, -⟩ := hprev.ids u hu
  exact ⟨id, hid.trans huid⟩

/-- `reconcile_tool_pairs` leaves the converted conversation alone; calls keep id, name and
arguments, and results id and text. -/
theorem anthropic_tool_pairs (dumps : Json → String) (loads : String → Option Json)
    (system : SystemPrompt) (messages : List AnthropicMessage)
    (hcodec : ∀ u ∈ messages.flatMap AnthropicMessage.uses, ∀ fields, u.input = .object fields →
      loads (dumps (.obj fields)) = some (.obj fields))
    (h : WellPaired messages) :
    reconcileToolPairs (convertAnthropicMessages dumps system messages) =
        convertAnthropicMessages dumps system messages ∧
      convertedCalls loads (convertAnthropicMessages dumps system messages) = requestedCalls messages ∧
      ((convertAnthropicMessages dumps system messages).filter ChatMessage.isTool).length =
        (messages.flatMap AnthropicMessage.results).length ∧
      convertedTextResults messages (convertAnthropicMessages dumps system messages) = textResults messages := by
  refine ⟨reconcileToolPairs_of_paired ?_, ?_, ?_, ?_⟩
  · exact everywhere_plain (plain_systemMessage system) fun out =>
      paired_convert (fun _ _ heq => by cases heq) (fun _ _ heq => by cases heq) h
  · rw [convertedCalls, calls_convert, List.map_map, requestedCalls]
    refine List.map_congr_left fun u hu => ?_
    obtain ⟨m, hm, hmu⟩ := List.mem_flatMap.1 hu
    obtain ⟨_, _, -, hat⟩ := h.at_mem hm
    obtain ⟨id, hid, -⟩ := hat.ids u hmu
    obtain ⟨fields, hinput⟩ := hat.inputs u hmu
    simp only [Function.comp_apply, toolCall, hid, Option.getD_some, hinput, hcodec u hu fields hinput]
  · rw [tools_convert, List.length_map]
  · rw [convertedTextResults, tools_convert, textResults]
    exact textResults_tools fun r hr => h.exists_id hr

def searched : List AnthropicMessage :=
  [⟨.user, .str "hi"⟩,
   ⟨.assistant, .blocks [.text (some "") none,
      .toolUse ⟨some "toolu_1", some "search", .object [("q", .str "x")]⟩]⟩,
   ⟨.user, .blocks [.text (some "and?") none, .toolResult ⟨some "toolu_1", .str "found", false⟩]⟩]

/-- What `json.dumps` and `json.loads` do on the one input. -/
def searchedDumps (_ : Json) : String := "\x7b\"q\": \"x\"\x7d"

def searchedLoads (text : String) : Option Json :=
  if text = "\x7b\"q\": \"x\"\x7d" then some (.obj [("q", .str "x")]) else none

theorem wellPaired_searched : WellPaired searched := by
  refine ⟨?_, ?_, ?_, trivial⟩
  · exact ⟨fun h => absurd rfl h, fun _ h => (by cases h), fun _ h => (by cases h), fun h => absurd rfl h,
      fun _ h => (by cases h)⟩
  · refine ⟨fun _ => rfl, fun u hu => ?_, fun u hu => ?_, fun _ => ⟨_, _, rfl, rfl, fun u hu => ?_⟩,
      fun _ h => (by cases h)⟩
    · obtain rfl := List.mem_singleton.1 hu
      exact ⟨"toolu_1", rfl, by decide⟩
    · obtain rfl := List.mem_singleton.1 hu
      exact ⟨_, rfl⟩
    · obtain rfl := List.mem_singleton.1 hu
      exact ⟨_, List.mem_singleton.2 rfl, rfl⟩
  · refine ⟨fun h => absurd rfl h, fun _ h => (by cases h), fun _ h => (by cases h), fun h => absurd rfl h,
      fun r hr => ⟨rfl, _, _, rfl, ?_⟩⟩
    obtain rfl := List.mem_singleton.1 hr
    exact ⟨_, List.mem_singleton.2 rfl, rfl⟩

theorem anthropic_tool_pairs_searched : reconcileToolPairs (convertAnthropicMessages searchedDumps .absent searched) =
        convertAnthropicMessages searchedDumps .absent searched ∧
      convertedCalls searchedLoads (convertAnthropicMessages searchedDumps .absent searched) = requestedCalls searched ∧
      ((convertAnthropicMessages searchedDumps .absent searched).filter ChatMessage.isTool).length =
        (searched.flatMap AnthropicMessage.results).length ∧
      convertedTextResults searched (convertAnthropicMessages searchedDumps .absent searched) =
        textResults searched := by
  refine anthropic_tool_pairs searchedDumps searchedLoads .absent searched (fun u hu fields hinput => ?_)
    wellPaired_searched
  obtain rfl := List.mem_singleton.1 hu
  obtain rfl := ToolInput.object.inj hinput
  rfl

end RyanAI.Chat.AnthropicRequest
