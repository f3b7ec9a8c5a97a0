import Mathlib.Data.List.ReduceOption
import RyanAI.Lib.Json
import RyanAI.Lib.NumericText
import RyanAI.Lib.Positions

/-!
# Tool calls and their results

In the chat format an assistant message lists tool calls, and the messages of role `tool` directly after it answer
them. `reconcile_tool_pairs` of `utils/misc.py` drops whatever does not pair up, decided on the list as it comes in: an
assistant message with tool calls heads a block with the tool messages behind it, and an id is paired in a block when
it is both requested and answered there. The result is `Paired`, a paired list is left alone, and the module says
which messages the dropping can reach.
-/

namespace RyanAI.Chat.ToolPairs

open RyanAI.Lib
open RyanAI.Lib.Positions

/-! ## Messages -/

/-- An item of a content list: a text part with its `text`, or anything else. -/
inductive Part where
  | text (text : Option String) (rest : Dict)
  | other (fields : Dict)
deriving DecidableEq

/-- The `content` of a message. -/
inductive Content where
  | null
  | str (s : String)
  | parts (items : List Part)
deriving DecidableEq

structure ToolFunction where
  name : String
  arguments : String
deriving DecidableEq

/-- An entry of `tool_calls`. An absent `id` is `None` when it is read. -/
structure ToolCall where
  id : Option String
  function : ToolFunction
  rest : Dict
deriving DecidableEq

structure OutputPart where
  type : String
  text : Option String
deriving DecidableEq

/-- A stored output item, as `get_output_text` reads it. -/
structure StoredItem where
  type : String
  content : List OutputPart
deriving DecidableEq

/-- A message; the keys not read here are in `rest`. -/
structure ChatMessage where
  role : String
  content : Content
  toolCalls : Option (List ToolCall)
  toolCallId : Option String
  reasoningContent : Option String
  output : Option (List StoredItem)
  rest : Dict
deriving DecidableEq

/-- `not text.strip()`. -/
def isBlank (text : String) : Bool := text.toList.all NumericText.stripSpace

/-- `a or b` on a text and what may be `None`. -/
def orElse (a : String) (b : Option String) : Option String := if a ≠ "" then some a else b

/-- `get_output_text`. -/
def getOutputText (output : Option (List StoredItem)) : String :=
  "\n".intercalate ((output.getD []).filterMap fun item =>
    if item.type ≠ "message" then none
    else
      let text := String.join (item.content.filterMap OutputPart.text)
      if text ≠ "" ∧ ¬ isBlank text then some text else none)

/-- The `text` of the first text part, when there is one. -/
def firstText : List Part → Option (Option String)
  | [] => none
  | .text t _ :: _ => some t
  | .other _ :: rest => firstText rest

/-- `get_content_from_message`. -/
def getContentFromMessage (m : ChatMessage) : Option String :=
  match m.content with
  | .parts items =>
    match firstText items with
    | some t => t
    | none => orElse (getOutputText m.output) none
  | .str s => if s ≠ "" then some s else orElse (getOutputText m.output) (some s)
  | .null => orElse (getOutputText m.output) none

/-! ## Reconciliation -/

def ChatMessage.isTool (m : ChatMessage) : Bool := m.role == "tool"

/-- `message['tool_calls']` where it is read, and nothing where it is missing. -/
def ChatMessage.calls (m : ChatMessage) : List ToolCall := m.toolCalls.getD []

def ChatMessage.heads (m : ChatMessage) : Bool := m.role == "assistant" && !m.calls.isEmpty

def pairedIds (m : ChatMessage) (block : List ChatMessage) : List String :=
  (m.calls.filterMap fun call => call.id.filter (· ≠ "")).filter fun id =>
    block.any fun t => t.toolCallId == some id

/-- The loop of `get_paired_tool_call_ids` from one index on. -/
def markBlocks : List ChatMessage → List (List String) → List (List String)
  | m :: rest, entry :: entries =>
    if m.heads then
      let block := rest.takeWhile ChatMessage.isTool
      let ids := pairedIds m block
      -- `range(index, block_end)`: the message itself and its tool messages
      ids :: markBlocks rest (List.replicate block.length ids ++ entries.drop block.length)
    else entry :: markBlocks rest entries
  | _, entries => entries

/-- `get_paired_tool_call_ids`. -/
def getPairedToolCallIds (messages : List ChatMessage) : List (List String) :=
  markBlocks messages (messages.map fun _ => [])

/-- Whether the id is there and is one of `ids`. -/
def idIn (id : Option String) (ids : List String) : Bool := id.any fun i => ids.contains i

/-- `has_meaningful_content`. -/
def hasMeaningfulContent (m : ChatMessage) : Bool := !isBlank ((getContentFromMessage m).getD "")

/-- What the loop of `reconcile_tool_pairs` appends for one message. -/
def reconcileMessage (m : ChatMessage) (ids : List String) : Option ChatMessage :=
  if m.role = "tool" ∧ ¬ idIn m.toolCallId ids then none
  else if m.role ≠ "assistant" ∨ m.calls = [] then some m
  else
    let valid := m.calls.filter fun call => idIn call.id ids
    if valid ≠ [] then some { m with toolCalls := some valid }
    else if hasMeaningfulContent m ∨ m.reasoningContent.getD "" ≠ "" then
      some { m with toolCalls := none }
    else none

def outcomes (messages : List ChatMessage) : List (Option ChatMessage) :=
  List.zipWith reconcileMessage messages (getPairedToolCallIds messages)

/-- `reconcile_tool_pairs`. -/
def reconcileToolPairs (messages : List ChatMessage) : List ChatMessage := (outcomes messages).reduceOption

/-! ## What pairing means -/

/-- The head of the block in which the next message would stand; `before` is nearest first. -/
def heading : List ChatMessage → Option ChatMessage
  | [] => none
  | m :: before => if m.heads then some m else if m.isTool then heading before else none

def answered (after : List ChatMessage) (id : Option String) : Bool :=
  id.any fun i => i ≠ "" && (after.takeWhile ChatMessage.isTool).any fun t => t.toolCallId == some i

def claimed (before : List ChatMessage) (id : Option String) : Bool :=
  id.any fun i => i ≠ "" && (heading before).any fun h => h.calls.any fun call => call.id == some i

/-- Calls are answered in the run of tool messages behind them, and tool messages answer their
head. -/
structure PairedAt (before : List ChatMessage) (m : ChatMessage) (after : List ChatMessage) : Prop where
  calls : m.role = "assistant" → ∀ call ∈ m.calls, answered after call.id
  result : m.isTool → claimed before m.toolCallId

def Paired (messages : List ChatMessage) : Prop := Everywhere PairedAt [] messages

def ChatMessage.answeredCalls (m : ChatMessage) (after : List ChatMessage) : List ToolCall :=
  m.calls.filter fun call => answered after call.id

def HasText (m : ChatMessage) : Prop :=
  (∃ s, m.content = .str s ∧ ¬ isBlank s) ∨
  (∃ items t rest, m.content = .parts items ∧ .text (some t) rest ∈ items ∧ ¬ isBlank t) ∨
  ¬ isBlank (getOutputText m.output)

/-- Orphan tool messages go, unanswered calls go, and so do messages that have nothing else. -/
inductive Allowed (before : List ChatMessage) (m : ChatMessage) (after : List ChatMessage) : Option ChatMessage → Prop
  | orphan : m.isTool → ¬ claimed before m.toolCallId → Allowed before m after none
  | result : m.isTool → claimed before m.toolCallId → Allowed before m after (some m)
  | plain : ¬ m.isTool → ¬ m.heads → Allowed before m after (some m)
  | answered : m.heads → m.answeredCalls after ≠ [] →
      Allowed before m after (some { m with toolCalls := some (m.answeredCalls after) })
  | unanswered : m.heads → m.answeredCalls after = [] →
      Allowed before m after (some { m with toolCalls := none })
  | empty : m.heads → m.answeredCalls after = [] → ¬ HasText m → m.reasoningContent.getD "" = "" →
      Allowed before m after none

def RemovesOnly (messages : List ChatMessage) : Prop :=
  ∀ pre m after, messages = pre ++ m :: after →
    ∃ k, (outcomes messages)[pre.length]? = some k ∧ Allowed pre.reverse m after k

def TextInFront (messages : List ChatMessage) : Prop :=
  Everywhere (fun _ m after => m.heads → m.answeredCalls after = [] →
    m.reasoningContent.getD "" = "" → HasText m → hasMeaningfulContent m) [] messages

/-! ## Blocks -/

variable {m : ChatMessage} {call : ToolCall} {before after messages before' ts : List ChatMessage}

theorem ChatMessage.heads_iff : m.heads ↔ m.role = "assistant" ∧ m.calls ≠ [] := by
  simp [ChatMessage.heads]

theorem ChatMessage.isTool_iff : m.isTool ↔ m.role = "tool" := by
  simp [ChatMessage.isTool]

theorem ChatMessage.not_isTool_of_heads (h : m.heads) : ¬ m.isTool := by
  intro ht
  rw [ChatMessage.heads_iff] at h
  rw [ChatMessage.isTool_iff, h.1] at ht
  exact absurd ht (by decide)

@[simp] theorem heading_of_heads (h : m.heads) (before : List ChatMessage) : heading (m :: before) = some m := if_pos h

@[simp] theorem heading_of_isTool (h : m.isTool) (before : List ChatMessage) :
    heading (m :: before) = heading before := by
  rw [heading, if_neg fun hh => ChatMessage.not_isTool_of_heads hh h, if_pos h]

theorem heading_of_plain (hh : ¬ m.heads) (ht : ¬ m.isTool) (before : List ChatMessage) :
    heading (m :: before) = none := by
  rw [heading, if_neg hh, if_neg ht]

theorem claimed_of_isTool (h : m.isTool) (before : List ChatMessage) (id : Option String) :
    claimed (m :: before) id = claimed before id := by
  simp only [claimed, heading_of_isTool h]

theorem claimed_of_plain (hh : ¬ m.heads) (ht : ¬ m.isTool) (before : List ChatMessage) (id : Option String) :
    claimed (m :: before) id = false := by
  cases id <;> simp [claimed, heading_of_plain hh ht]

theorem claimed_nil (id : Option String) : claimed [] id = false := by
  cases id <;> simp [claimed, heading]

theorem answered_cons_of_isTool (h : m.isTool) (after : List ChatMessage) (id : Option String) :
    answered (m :: after) id = ((id.any fun i => i ≠ "" && (m.toolCallId == some i)) || answered after id) := by
  cases id with
  | none => rfl
  | some i =>
    simp only [answered, List.takeWhile_cons_of_pos h, List.any_cons, Option.any_some, Bool.and_or_distrib_left]

theorem answered_cons_of_not_isTool (h : ¬ m.isTool) (after : List ChatMessage) (id : Option String) :
    answered (m :: after) id = false := by
  cases id <;> simp [answered, List.takeWhile_cons_of_neg h]

/-! ## The ids of a block -/

def idsFrom (current : List String) : List ChatMessage → List (List String)
  | [] => []
  | m :: rest =>
    let ids := if m.heads then pairedIds m (rest.takeWhile ChatMessage.isTool)
      else if m.isTool then current else []
    ids :: idsFrom ids rest

theorem markBlocks_eq (current : List String) (messages : List ChatMessage) :
    markBlocks messages (List.replicate (messages.takeWhile ChatMessage.isTool).length current ++
      List.replicate (messages.dropWhile ChatMessage.isTool).length []) = idsFrom current messages := by
  induction messages generalizing current with
  | nil => rfl
  | cons m rest ih =>
    have hlen : rest.length = (rest.takeWhile ChatMessage.isTool).length +
        (rest.dropWhile ChatMessage.isTool).length := by
      rw [← List.length_append, List.takeWhile_append_dropWhile]
    by_cases ht : m.isTool
    · have hh : ¬ m.heads := fun hh => ChatMessage.not_isTool_of_heads hh ht
      rw [List.takeWhile_cons_of_pos ht, List.dropWhile_cons_of_pos ht, List.length_cons,
        List.replicate_succ, List.cons_append, markBlocks, if_neg hh, idsFrom, if_neg hh, if_pos ht, ih]
    -- a message that is no tool message ends the block in front of it
    rw [List.takeWhile_cons_of_neg ht, List.dropWhile_cons_of_neg ht, List.length_nil,
      List.replicate_zero, List.nil_append, List.length_cons, List.replicate_succ, markBlocks, idsFrom]
    by_cases hh : m.heads
    · simp only [if_pos hh]
      -- its own block is written over, with the tool messages behind it
      rw [List.drop_replicate, hlen, Nat.add_sub_cancel_left, ih]
    · simp only [if_neg hh, if_neg ht]
      rw [hlen, List.replicate_add, ih]

theorem getPairedToolCallIds_eq (messages : List ChatMessage) :
    getPairedToolCallIds messages = idsFrom [] messages := by
  rw [← markBlocks_eq, ← List.replicate_add, ← List.length_append, List.takeWhile_append_dropWhile,
    getPairedToolCallIds, List.map_const']

structure InHand (before : List ChatMessage) (current : List String) (messages : List ChatMessage) : Prop where
  agree : ∀ id, answered messages id → idIn id current = claimed before id
  nonempty : "" ∉ current

theorem mem_pairedIds : i ∈ pairedIds m block ↔ i ≠ "" ∧ (∃ call ∈ m.calls, call.id = some i) ∧
      ∃ t ∈ block, t.toolCallId = some i := by
  simp only [pairedIds, List.mem_filter, List.mem_filterMap, Option.filter_eq_some_iff, List.any_eq_true, beq_iff_eq]
  constructor
  · rintro ⟨⟨call, hc, hid, hne⟩, ht⟩
    exact ⟨by simpa using hne, ⟨call, hc, hid⟩, ht⟩
  · rintro ⟨hne, ⟨call, hc, hid⟩, ht⟩
    exact ⟨⟨call, hc, hid, by simpa using hne⟩, ht⟩

theorem idIn_pairedIds (hc : call ∈ m.calls) (after : List ChatMessage) :
    idIn call.id (pairedIds m (after.takeWhile ChatMessage.isTool)) = answered after call.id := by
  cases hid : call.id with
  | none => rfl
  | some i =>
    rw [Bool.eq_iff_iff]
    simp only [idIn, answered, Option.any_some, List.contains_iff_mem, mem_pairedIds, Bool.and_eq_true,
      decide_eq_true_eq, List.any_eq_true, beq_iff_eq]
    constructor
    · rintro ⟨hne, -, ht⟩
      exact ⟨hne, ht⟩
    · rintro ⟨hne, ht⟩
      exact ⟨hne, ⟨call, hc, hid⟩, ht⟩

theorem inHand_nil (messages : List ChatMessage) : InHand [] [] messages where
  agree := by
    intro id _
    rw [claimed_nil]
    cases id <;> rfl
  nonempty := List.not_mem_nil

def nextIds (current : List String) (m : ChatMessage) (after : List ChatMessage) : List String :=
  if m.heads then pairedIds m (after.takeWhile ChatMessage.isTool) else if m.isTool then current else []

theorem InHand.next {current : List String} (h : InHand before current (m :: after)) :
    InHand (m :: before) (nextIds current m after) after := by
  refine ⟨fun id hid => ?_, ?_⟩
  rotate_left
  · rw [nextIds]
    split
    · exact fun hmem => (mem_pairedIds.1 hmem).1 rfl
    · split
      · exact h.nonempty
      · exact List.not_mem_nil
  by_cases hh : m.heads
  · rw [nextIds, if_pos hh]
    cases id with
    | none => rfl
    | some i =>
      rw [Bool.eq_iff_iff]
      simp only [answered, Option.any_some, Bool.and_eq_true, decide_eq_true_eq, List.any_eq_true, beq_iff_eq] at hid
      simp only [idIn, claimed, heading_of_heads hh, Option.any_some, List.contains_iff_mem,
        mem_pairedIds, Bool.and_eq_true, decide_eq_true_eq, List.any_eq_true, beq_iff_eq]
      constructor
      · rintro ⟨hne, hc, -⟩
        exact ⟨hne, hc⟩
      · rintro ⟨hne, hc⟩
        exact ⟨hne, hc, hid.2⟩
  · by_cases ht : m.isTool
    -- a tool message neither starts nor ends a block
    · rw [nextIds, if_neg hh, if_pos ht, claimed_of_isTool ht]
      exact h.agree id (by rw [answered_cons_of_isTool ht, hid, Bool.or_true])
    · rw [nextIds, if_neg hh, if_neg ht, claimed_of_plain hh ht]
      cases id <;> rfl

/-- `reconcileMessage` with pairing read off the surroundings of the message. -/
def reconciled (before : List ChatMessage) (m : ChatMessage) (after : List ChatMessage) : Option ChatMessage :=
  if m.isTool then if claimed before m.toolCallId then some m else none
  else if ¬ m.heads then some m
  else if m.answeredCalls after ≠ [] then some { m with toolCalls := some (m.answeredCalls after) }
  else if hasMeaningfulContent m ∨ m.reasoningContent.getD "" ≠ "" then some { m with toolCalls := none }
  else none

def reconciledFrom (before : List ChatMessage) : List ChatMessage → List (Option ChatMessage)
  | [] => []
  | m :: after => reconciled before m after :: reconciledFrom (m :: before) after

theorem reconcileMessage_eq (h : InHand before current (m :: after)) :
    reconcileMessage m (nextIds current m after) = reconciled before m after := by
  by_cases ht : m.isTool
  · have hh : ¬ m.heads := fun hh => ChatMessage.not_isTool_of_heads hh ht
    have hrole : m.role = "tool" := ChatMessage.isTool_iff.1 ht
    -- the empty id is in no block, and any other one is answered by the message itself
    have hclaim : idIn m.toolCallId current = claimed before m.toolCallId := by
      cases hid : m.toolCallId with
      | none => rfl
      | some i =>
        by_cases hi : i = ""
        · rw [hi]
          simp [idIn, claimed, h.nonempty]
        · rw [← hid]
          refine h.agree _ ?_
          rw [answered_cons_of_isTool ht, hid]
          simp [hi]
    rw [reconcileMessage, reconciled, nextIds, if_neg hh, if_pos ht, if_pos ht, hclaim]
    cases claimed before m.toolCallId <;> simp [hrole]
  · have hrole : m.role ≠ "tool" := fun hr => ht (ChatMessage.isTool_iff.2 hr)
    rw [reconcileMessage, reconciled, if_neg ht, if_neg fun hr => hrole hr.1]
    by_cases hh : m.heads
    · have hheads := ChatMessage.heads_iff.1 hh
      have hvalid : (m.calls.filter fun call => idIn call.id (nextIds current m after)) =
          m.answeredCalls after := by
        rw [nextIds, if_pos hh]
        exact List.filter_congr fun call hc => idIn_pairedIds hc after
      rw [if_neg (by simp [hheads.1, hheads.2]), if_neg (not_not_intro hh)]
      simp only [hvalid]
    · have hplain : m.role ≠ "assistant" ∨ m.calls = [] := by
        rw [ChatMessage.heads_iff, not_and_or, not_not] at hh
        exact hh
      rw [if_pos hplain, if_pos hh]

theorem outcomes_eq (messages : List ChatMessage) : outcomes messages = reconciledFrom [] messages := by
  -- the walk through the ids and the walk through the surroundings go side by side
  have general : ∀ (before : List ChatMessage) (current : List String) (ms : List ChatMessage),
      InHand before current ms → List.zipWith reconcileMessage ms (idsFrom current ms) = reconciledFrom before ms := by
    intro before current ms
    induction ms generalizing before current with
    | nil => exact fun _ => rfl
    | cons m after ih =>
      intro h
      have hids : idsFrom current (m :: after) =
          nextIds current m after :: idsFrom (nextIds current m after) after := rfl
      rw [hids, List.zipWith_cons_cons, reconcileMessage_eq h, ih _ _ h.next, reconciledFrom]
  rw [outcomes, getPairedToolCallIds_eq]
  exact general [] [] messages (inHand_nil messages)

theorem getElem?_reconciledFrom (before pre : List ChatMessage) (m : ChatMessage) (after : List ChatMessage) :
    (reconciledFrom before (pre ++ m :: after))[pre.length]? = some (reconciled (pre.reverse ++ before) m after) := by
  induction pre generalizing before with
  | nil => rfl
  | cons p pre ih =>
    rw [List.cons_append, reconciledFrom, List.length_cons, List.getElem?_cons_succ, ih]
    simp

/-! ## The result is paired -/

def Kept (before before' messages : List ChatMessage) : Prop :=
  ∀ id, claimed before id → answered messages id → claimed before' id

theorem reconciled_of_calls (hh : m.heads) (hv : m.answeredCalls after ≠ []) :
    reconciled before m after = some { m with toolCalls := some (m.answeredCalls after) } := by
  rw [reconciled, if_neg (ChatMessage.not_isTool_of_heads hh), if_neg (not_not_intro hh), if_pos hv]

theorem reconciled_of_no_calls (hh : m.heads) (hv : m.answeredCalls after = []) : reconciled before m after =
      if hasMeaningfulContent m ∨ m.reasoningContent.getD "" ≠ "" then some { m with toolCalls := none }
      else none := by
  rw [reconciled, if_neg (ChatMessage.not_isTool_of_heads hh), if_neg (not_not_intro hh), if_neg (not_not_intro hv)]

theorem reconciled_of_plain (hh : ¬ m.heads) (ht : ¬ m.isTool) : reconciled before m after = some m := by
  rw [reconciled, if_neg ht, if_pos hh]

theorem ne_empty_of_answered (h : answered after (some i)) : i ≠ "" := by
  simp only [answered, Option.any_some, Bool.and_eq_true, decide_eq_true_eq] at h
  exact h.1

theorem claimed_of_mem_calls (hh : m.heads) (hc : call ∈ m.calls) (before : List ChatMessage)
    (ha : answered after call.id) :
    claimed (m :: before) call.id := by
  cases hid : call.id with
  | none => simp [hid, answered] at ha
  | some i =>
    rw [hid] at ha
    simp only [claimed, Option.any_some, heading_of_heads hh, Bool.and_eq_true, decide_eq_true_eq,
      List.any_eq_true, beq_iff_eq]
    exact ⟨ne_empty_of_answered ha, call, hc, hid⟩

theorem exists_answeredCall (hh : m.heads) {id : Option String} (hclaim : claimed (m :: before) id)
    (ha : answered after id) :
    ∃ call ∈ m.answeredCalls after, call.id = id := by
  cases id with
  | none => simp [answered] at ha
  | some i =>
    simp only [claimed, Option.any_some, heading_of_heads hh, Bool.and_eq_true, decide_eq_true_eq,
      List.any_eq_true, beq_iff_eq] at hclaim
    obtain ⟨-, call, hc, hid⟩ := hclaim
    exact ⟨call, List.mem_filter.2 ⟨hc, by rw [hid]; exact ha⟩, hid⟩

theorem answered_reconciledFrom {id : Option String} (hclaim : claimed before id) (ha : answered messages id) :
    answered (reconciledFrom before messages).reduceOption id := by
  induction messages generalizing before with
  | nil => cases id <;> simp [answered] at ha
  | cons m after ih =>
    by_cases ht : m.isTool
    · rw [answered_cons_of_isTool ht, Bool.or_eq_true] at ha
      have hrest : claimed (m :: before) id := by rw [claimed_of_isTool ht, hclaim]
      rw [reconciledFrom, reconciled, if_pos ht]
      rcases ha with hself | hlater
      · -- the tool message answers the id itself, so that its own id is the claimed one
        have hid : m.toolCallId = id := by
          cases id with
          | none => simp at hself
          | some i =>
            simp only [Option.any_some, Bool.and_eq_true, beq_iff_eq] at hself
            exact hself.2
        rw [hid, if_pos hclaim, List.reduceOption_cons_of_some, answered_cons_of_isTool ht, hself, Bool.true_or]
      · have := ih hrest hlater
        by_cases hc : claimed before m.toolCallId
        · rw [if_pos hc, List.reduceOption_cons_of_some, answered_cons_of_isTool ht, this, Bool.or_true]
        · rw [if_neg hc, List.reduceOption_cons_of_none]
          exact this
    · rw [answered_cons_of_not_isTool ht] at ha
      cases ha

theorem Kept.of_isTool (ht : m.isTool) (h : Kept before before' (m :: after)) : Kept (m :: before) before' after := by
  intro id hclaim ha
  rw [claimed_of_isTool ht] at hclaim
  exact h id hclaim (by rw [answered_cons_of_isTool ht, ha, Bool.or_true])

theorem Kept.of_no_calls (h : m.heads → m.answeredCalls after = []) (ht : ¬ m.isTool) :
    Kept (m :: before) before' after := by
  intro id hclaim ha
  by_cases hh : m.heads
  · obtain ⟨call, hc, -⟩ := exists_answeredCall hh hclaim ha
    rw [h hh] at hc
    cases hc
  · rw [claimed_of_plain hh ht] at hclaim
    cases hclaim

theorem paired_reconciledFrom (hk : Kept before before' messages) :
    Everywhere PairedAt before' (reconciledFrom before messages).reduceOption := by
  induction messages generalizing before before' with
  | nil => trivial
  | cons m after ih =>
    rw [reconciledFrom]
    by_cases ht : m.isTool
    · rw [reconciled, if_pos ht]
      by_cases hc : claimed before m.toolCallId
      · rw [if_pos hc, List.reduceOption_cons_of_some]
        refine ⟨⟨fun hr => ?_, fun _ => ?_⟩, ih fun id hclaim ha => ?_⟩
        · rw [ChatMessage.isTool_iff, hr] at ht
          exact absurd ht (by decide)
        · refine hk _ hc ?_
          rw [answered_cons_of_isTool ht, Bool.or_eq_true]
          left
          cases hid : m.toolCallId with
          | none => simp [hid, claimed] at hc
          | some i =>
            simp only [hid, claimed, Option.any_some, Bool.and_eq_true] at hc
            simpa using hc.1
        · rw [claimed_of_isTool ht]
          exact hk.of_isTool ht id hclaim ha
      · rw [if_neg hc, List.reduceOption_cons_of_none]
        exact ih (hk.of_isTool ht)
    · by_cases hh : m.heads
      · have hrole := (ChatMessage.heads_iff.1 hh).1
        by_cases hv : m.answeredCalls after = []
        · have hnone : ∀ before'', Kept (m :: before) before'' after :=
            fun _ => Kept.of_no_calls (fun _ => hv) ht
          rw [reconciled_of_no_calls hh hv]
          split
          · rw [List.reduceOption_cons_of_some]
            refine ⟨⟨fun _ call hc => (by cases hc), fun htool => ?_⟩, ih (hnone _)⟩
            exact absurd (ChatMessage.isTool_iff.2 (ChatMessage.isTool_iff.1 htool)) ht
          · rw [List.reduceOption_cons_of_none]
            exact ih (hnone _)
        · rw [reconciled_of_calls hh hv, List.reduceOption_cons_of_some]
          have hh' : ChatMessage.heads { m with toolCalls := some (m.answeredCalls after) } :=
            ChatMessage.heads_iff.2 ⟨hrole, hv⟩
          refine ⟨⟨fun _ call hc => ?_, fun htool => absurd htool (ChatMessage.not_isTool_of_heads hh')⟩,
            ih fun id hclaim ha => ?_⟩
          -- a call that stays finds its answer again behind the result
          · obtain ⟨hmem, ha⟩ := List.mem_filter.1 (show call ∈ m.answeredCalls after from hc)
            exact answered_reconciledFrom (claimed_of_mem_calls hh hmem before ha) ha
          -- an answer that stays finds its call again in front of the result
          · obtain ⟨call, hc, rfl⟩ := exists_answeredCall hh hclaim ha
            exact claimed_of_mem_calls hh' hc before' ha
      · rw [reconciled_of_plain hh ht, List.reduceOption_cons_of_some]
        refine ⟨⟨fun hr call hc => ?_, fun htool => absurd htool ht⟩,
          ih (Kept.of_no_calls (fun h => absurd h hh) ht)⟩
        refine absurd (ChatMessage.heads_iff.2 ⟨hr, ?_⟩) hh
        exact List.ne_nil_of_mem hc

theorem paired_reconcileToolPairs (messages : List ChatMessage) : Paired (reconcileToolPairs messages) := by
  rw [reconcileToolPairs, outcomes_eq]
  refine paired_reconciledFrom fun id hclaim _ => ?_
  rw [claimed_nil] at hclaim
  cases hclaim

theorem reconciled_of_pairedAt (h : PairedAt before m after) : reconciled before m after = some m := by
  by_cases ht : m.isTool
  · rw [reconciled, if_pos ht, if_pos (h.result ht)]
  by_cases hh : m.heads
  · obtain ⟨hrole, hcalls⟩ := ChatMessage.heads_iff.1 hh
    have hall : m.answeredCalls after = m.calls := List.filter_eq_self.2 (h.calls hrole)
    have hself : m.toolCalls = some m.calls := by
      cases htc : m.toolCalls with
      | none => simp [ChatMessage.calls, htc] at hcalls
      | some calls => simp [ChatMessage.calls, htc]
    rw [reconciled_of_calls hh (hall ▸ hcalls), hall, ← hself]
  · exact reconciled_of_plain hh ht

theorem reconciledFrom_of_paired (h : Everywhere PairedAt before messages) :
    reconciledFrom before messages = messages.map some := by
  induction messages generalizing before with
  | nil => rfl
  | cons m after ih => rw [reconciledFrom, reconciled_of_pairedAt h.1, ih h.2, List.map_cons]

theorem reconcileToolPairs_of_paired (h : Paired messages) : reconcileToolPairs messages = messages := by
  rw [reconcileToolPairs, outcomes_eq, reconciledFrom_of_paired h, List.reduceOption,
    List.filterMap_map, Function.id_comp, List.filterMap_some]

theorem exists_reconciledFrom_append (before pre rest : List ChatMessage) :
    ∃ front, reconciledFrom before (pre ++ rest) = front ++ reconciledFrom (pre.reverse ++ before) rest := by
  induction pre generalizing before with
  | nil => exact ⟨[], rfl⟩
  | cons p pre ih =>
    obtain ⟨front, hfront⟩ := ih (p :: before)
    refine ⟨reconciled before p (pre ++ rest) :: front, ?_⟩
    rw [List.cons_append, reconciledFrom, hfront]
    simp

theorem reconciledFrom_tools (before : List ChatMessage) (hts : ∀ t ∈ ts, t.isTool) (rest : List ChatMessage) :
    (reconciledFrom before (ts ++ rest)).reduceOption =
      (ts.filter fun t => claimed before t.toolCallId) ++
        (reconciledFrom (ts.reverse ++ before) rest).reduceOption := by
  induction ts generalizing before with
  | nil => rfl
  | cons t ts ih =>
    have ht := hts t List.mem_cons_self
    have hsame : (fun q : ChatMessage => claimed (t :: before) q.toolCallId) =
        fun q => claimed before q.toolCallId :=
      funext fun q => claimed_of_isTool ht before q.toolCallId
    have ih := ih (t :: before) fun q hq => hts q (List.mem_cons_of_mem _ hq)
    rw [hsame] at ih
    rw [List.cons_append, reconciledFrom, reconciled, if_pos ht, List.reverse_cons, List.append_assoc,
      List.singleton_append]
    by_cases hc : claimed before t.toolCallId
    · rw [if_pos hc, List.reduceOption_cons_of_some, ih, List.filter_cons, if_pos hc,
        List.cons_append]
    · rw [if_neg hc, List.reduceOption_cons_of_none, ih, List.filter_cons, if_neg hc]

theorem answered_of_mem (hts : ∀ t ∈ ts, t.isTool) (ht : t ∈ ts) {id : String}
    (hid : t.toolCallId = some id) (hne : id ≠ "") (rest : List ChatMessage) : answered (ts ++ rest) (some id) := by
  induction ts with
  | nil => cases ht
  | cons q ts ih =>
    rw [List.cons_append, answered_cons_of_isTool (hts q List.mem_cons_self), Bool.or_eq_true]
    rcases List.mem_cons.1 ht with rfl | ht
    · left
      simp [hid, hne]
    · exact .inr (ih (List.forall_mem_of_forall_mem_cons hts) ht)

theorem reconcileToolPairs_block (pre rest : List ChatMessage) (hh : m.heads) (hts : ∀ t ∈ ts, t.isTool)
    (hc : call ∈ m.calls) (ht : t ∈ ts) {id : String} (hcall : call.id = some id)
    (hid : t.toolCallId = some id) (hne : id ≠ "") :
    ∃ front ts' back, reconcileToolPairs (pre ++ m :: (ts ++ rest)) =
        front ++ { m with toolCalls := some (m.answeredCalls (ts ++ rest)) } :: (ts' ++ back) ∧
      call ∈ m.answeredCalls (ts ++ rest) ∧ (∀ t ∈ ts', t.isTool) ∧ t ∈ ts' := by
  have ha : answered (ts ++ rest) call.id := hcall ▸ answered_of_mem hts ht hid hne rest
  have hmem : call ∈ m.answeredCalls (ts ++ rest) := List.mem_filter.2 ⟨hc, ha⟩
  obtain ⟨front, hfront⟩ := exists_reconciledFrom_append [] pre (m :: (ts ++ rest))
  refine ⟨front.reduceOption, ts.filter fun t => claimed (m :: (pre.reverse ++ [])) t.toolCallId,
    (reconciledFrom (ts.reverse ++ m :: (pre.reverse ++ [])) rest).reduceOption, ?_, hmem,
    fun q hq => hts q (List.mem_of_mem_filter hq), List.mem_filter.2 ⟨ht, ?_⟩⟩
  · rw [reconcileToolPairs, outcomes_eq, hfront, List.reduceOption_append, reconciledFrom,
      reconciled_of_calls hh (List.ne_nil_of_mem hmem), List.reduceOption_cons_of_some,
      reconciledFrom_tools _ hts]
  · rw [hid, ← hcall]
    exact claimed_of_mem_calls hh hc _ ha

theorem allowed_iff (before : List ChatMessage) : Allowed before m after (reconciled before m after) ↔
      (m.heads → m.answeredCalls after = [] → m.reasoningContent.getD "" = "" → HasText m →
        hasMeaningfulContent m) := by
  by_cases ht : m.isTool
  · have hh : ¬ m.heads := fun hh => ChatMessage.not_isTool_of_heads hh ht
    refine iff_of_true ?_ fun h => absurd h hh
    rw [reconciled, if_pos ht]
    by_cases hc : claimed before m.toolCallId
    · rw [if_pos hc]
      exact .result ht hc
    · rw [if_neg hc]
      exact .orphan ht hc
  by_cases hh : m.heads
  · by_cases hv : m.answeredCalls after = []
    · rw [reconciled_of_no_calls hh hv]
      by_cases hkeep : hasMeaningfulContent m ∨ m.reasoningContent.getD "" ≠ ""
      · rw [if_pos hkeep]
        refine iff_of_true (.unanswered hh hv) fun _ _ hr _ => ?_
        exact hkeep.resolve_right (not_not_intro hr)
      rw [if_neg hkeep]
      obtain ⟨hcontent, hreason⟩ := not_or.1 hkeep
      rw [not_not] at hreason
      constructor
      · intro hallowed _ _ _ htext
        cases hallowed with
        | orphan htool => exact absurd htool ht
        | empty _ _ hno => exact absurd htext hno
      · intro h
        refine .empty hh hv (fun htext => hcontent (h hh hv hreason htext)) hreason
    · rw [reconciled_of_calls hh hv]
      exact iff_of_true (.answered hh hv) fun _ h => absurd h hv
  · rw [reconciled_of_plain hh ht]
    exact iff_of_true (.plain ht hh) fun h => absurd h hh

theorem removesOnly_iff (messages : List ChatMessage) : RemovesOnly messages ↔ TextInFront messages := by
  rw [TextInFront, everywhere_iff]
  refine forall₃_congr fun pre m after => ?_
  refine forall_congr' fun hsplit => ?_
  rw [outcomes_eq, hsplit, getElem?_reconciledFrom, ← allowed_iff pre.reverse]
  simp

/-- The result is paired and stable, a paired list stays, and only orphans go exactly when the texts
stand in front. -/
theorem reconcileToolPairs_exact_iff (messages : List ChatMessage) :
    (Paired (reconcileToolPairs messages) ∧ RemovesOnly messages ∧
      reconcileToolPairs (reconcileToolPairs messages) = reconcileToolPairs messages ∧
      (Paired messages → reconcileToolPairs messages = messages)) ↔ TextInFront messages := by
  have hpaired := paired_reconcileToolPairs messages
  rw [removesOnly_iff]
  exact ⟨fun h => h.2.1, fun h => ⟨hpaired, h, reconcileToolPairs_of_paired hpaired,
    reconcileToolPairs_of_paired⟩⟩

def emptyTextFirst : ChatMessage :=
  ⟨"assistant", .parts [.text (some "") [], .text (some "hi") []],
    some [⟨some "call_1", ⟨"search", "{}"⟩, []⟩], none, none, none, []⟩

/-- The message goes together with its text. -/
theorem text_is_removed :
    reconcileToolPairs [emptyTextFirst] = [] ∧ HasText emptyTextFirst ∧ ¬ RemovesOnly [emptyTextFirst] := by
  have htext : HasText emptyTextFirst := .inr (.inl ⟨_, "hi", [], rfl, by simp, by decide⟩)
  refine ⟨by decide, htext, fun h => ?_⟩
  have hread := ((removesOnly_iff _).1 h).1 (by decide) (by decide) rfl htext
  exact absurd hread (by decide)

end RyanAI.Chat.ToolPairs
