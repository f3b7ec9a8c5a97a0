import RyanAI.Chat.AnthropicStream

/-!
# The events of an Anthropic stream are well formed

Whatever the chunks are, the events begin with `message_start`, blocks are started with the indexes 0, 1, 2, …, a delta
and a stop belong to an open block, and the events end with an error, or all blocks are stopped before one
`message_delta` and one `message_stop` (`stream_well_formed`).

The state of the generator knows which blocks are open (`Tidy`): the block of thinking or text has the current index,
and each call that was started and not stopped has its own. While a call is looked at it may have a name and no block
yet, and no call is left so.
-/

namespace RyanAI.Chat.AnthropicStream

open Lib

/-! ## Blocks -/

def Event.startIndex : Event → Option ℤ
  | .blockStart index _ => some index
  | _ => none

def Event.stopIndex : Event → Option ℤ
  | .blockStop index => some index
  | _ => none

/-- The blocks that were started. -/
def started (events : List Event) : List ℤ := events.filterMap Event.startIndex

def stopped (events : List Event) : List ℤ := events.filterMap Event.stopIndex

def Open (events : List Event) (index : ℤ) : Prop := index ∈ started events ∧ index ∉ stopped events

/-- What may follow inside a message. -/
def Fits (events : List Event) : Event → Prop
  | .blockStart index _ => index = (started events).length
  | .blockDelta index _ => Open events index
  | .blockStop index => Open events index
  | _ => False

inductive Body : List Event → Prop
  | start (model : String) (inputTokens : Json) : Body [.messageStart model inputTokens]
  | next {events : List Event} {e : Event} : Body events → Fits events e → Body (events ++ [e])

/-- The event sequence of a whole stream. -/
structure WellFormed (events : List Event) : Prop where
  starts : ∃ model inputTokens rest, events = .messageStart model inputTokens :: rest
  ordered : ∃ n : ℕ, started events = (List.range n).map Int.ofNat
  delta_open : ∀ before index delta after, events = before ++ .blockDelta index delta :: after → Open before index
  stop_open : ∀ before index after, events = before ++ .blockStop index :: after → Open before index
  /-- The last event is an error, or each block was stopped once, and only then the message is ended, once. -/
  ends : (∃ before message, events = before ++ [.error message]) ∨
    ∃ before stopReason usage, events = before ++ [.messageDelta stopReason usage, .messageStop] ∧
      (∀ index ∈ started events, (stopped before).count index = 1) ∧
      ∀ e ∈ before, e ≠ .messageStop ∧ ∀ reason fields, e ≠ .messageDelta reason fields

variable {i : ℤ} {busy : Option ToolKey} {s : Stream} {tail : List Event}

section Blocks

variable {events : List Event} {e : Event} {index : ℤ}

theorem started_append (e : Event) : started (events ++ [e]) = started events ++ e.startIndex.toList := by
  rw [started, List.filterMap_append]
  cases e <;> rfl

theorem stopped_append (e : Event) : stopped (events ++ [e]) = stopped events ++ e.stopIndex.toList := by
  rw [stopped, List.filterMap_append]
  cases e <;> rfl

section

variable (h : Body events)

include h

theorem Body.started_eq : started events = (List.range (started events).length).map Int.ofNat := by
  induction h with
  | start model inputTokens => rfl
  | @next events e _ hfits ih =>
    rw [started_append]
    cases e with
    | blockStart index block =>
      have hindex : index = (started events).length := hfits
      simp only [Event.startIndex, Option.toList_some, List.length_append, List.length_singleton, List.range_succ,
        List.map_append, List.map_singleton, ← ih, hindex]
      rfl
    | blockDelta index delta => simpa [Event.startIndex] using ih
    | blockStop index => simpa [Event.startIndex] using ih
    | messageStart model inputTokens => exact hfits.elim
    | messageDelta stopReason usage => exact hfits.elim
    | messageStop => exact hfits.elim
    | error message => exact hfits.elim

theorem Body.mem_started : index ∈ started events ↔ 0 ≤ index ∧ index < (started events).length := by
  rw [h.started_eq, List.mem_map]
  constructor
  · rintro ⟨n, hn, rfl⟩
    have hlt := List.mem_range.1 hn
    simp only [List.length_map, List.length_range]
    exact ⟨Int.natCast_nonneg n, Int.ofNat_lt.2 hlt⟩
  · rintro ⟨hpos, hlt⟩
    simp only [List.length_map, List.length_range] at hlt
    refine ⟨index.toNat, List.mem_range.2 (by omega), ?_⟩
    exact Int.toNat_of_nonneg hpos

theorem Body.started_of_stopped (hindex : index ∈ stopped events) : index ∈ started events := by
  induction h with
  | start model inputTokens => cases hindex
  | @next events e _ hfits ih =>
    rw [stopped_append] at hindex
    rw [started_append]
    apply List.mem_append_left
    rcases List.mem_append.1 hindex with hold | hnew
    · exact ih hold
    cases e with
    | blockStop index' =>
      have heq : index = index' := by simpa [Event.stopIndex] using hnew
      rw [heq]
      exact hfits.1
    | _ => cases hnew

theorem Body.nodup_stopped : (stopped events).Nodup := by
  induction h with
  | start model inputTokens => exact List.nodup_nil
  | @next events e _ hfits ih =>
    rw [stopped_append]
    cases e with
    | blockStop index =>
      simp only [Event.stopIndex, Option.toList_some]
      refine List.Nodup.append ih (List.nodup_singleton index) ?_
      simpa using hfits.2
    | _ => simpa [Event.stopIndex] using ih

theorem Body.open_lt (hopen : Open events index) : index < (started events).length :=
  (h.mem_started.1 hopen.1).2

theorem Body.open_start (block : Block) :
    Open (events ++ [.blockStart (started events).length block]) i ↔ Open events i ∨ i = (started events).length := by
  have hfresh : ((started events).length : ℤ) ∉ stopped events := by
    intro hmem
    have hlt := (h.mem_started.1 (h.started_of_stopped hmem)).2
    omega
  rw [Open, started_append, stopped_append, Open]
  simp only [Event.startIndex, Event.stopIndex, Option.toList_some, Option.toList_none, List.append_nil,
    List.mem_append, List.mem_singleton]
  constructor
  · rintro ⟨hold | rfl, hnot⟩
    · exact Or.inl ⟨hold, hnot⟩
    · exact Or.inr rfl
  · rintro (⟨hold, hnot⟩ | rfl)
    · exact ⟨Or.inl hold, hnot⟩
    · exact ⟨Or.inr rfl, hfresh⟩

end

theorem open_delta (index : ℤ) (delta : Delta) : Open (events ++ [.blockDelta index delta]) i ↔ Open events i := by
  simp [Open, started_append, stopped_append, Event.startIndex, Event.stopIndex]

theorem open_stop (index : ℤ) : Open (events ++ [.blockStop index]) i ↔ Open events i ∧ i ≠ index := by
  simp only [Open, started_append, stopped_append, Event.startIndex, Event.stopIndex, Option.toList_none,
    Option.toList_some, List.append_nil, List.mem_append, List.mem_singleton, not_or, and_assoc]

theorem Body.fits (h : Body events) {before after : List Event} (heq : events = before ++ e :: after)
    (he : ∀ model inputTokens, e ≠ .messageStart model inputTokens) : Fits before e := by
  induction h generalizing after with
  | start model inputTokens =>
    cases before with
    | nil =>
      cases heq
      exact absurd rfl (he model inputTokens)
    | cons x before => simp at heq
  | @next events e' _ hfits ih =>
    rcases List.eq_nil_or_concat after with rfl | ⟨after, x, rfl⟩
    · obtain ⟨rfl, hlast⟩ := List.append_inj' heq rfl
      rw [← (List.cons.inj hlast).1]
      exact hfits
    · have hcut : events ++ [e'] = (before ++ e :: after) ++ [x] := by simpa using heq
      exact ih (List.append_inj' hcut rfl).1

end Blocks

/-! ## The tracked calls -/

abbrev Tools := OrderedMap ToolKey Tool

def Tool.OpenAt (tool : Tool) (index : ℤ) : Prop := tool.started = true ∧ tool.stopped = false ∧ tool.blockIndex = index

def ToolOpen (tools : Tools) (index : ℤ) : Prop := ∃ key tool, tools.get key = some tool ∧ tool.OpenAt index

def OtherOpen (tools : Tools) (key : ToolKey) (index : ℤ) : Prop :=
  ∃ key' tool, key' ≠ key ∧ tools.get key' = some tool ∧ tool.OpenAt index

/-- Blocks of calls are distinct and lie below the current one. -/
structure ToolsTidy (busy : Option ToolKey) (current : ℤ) (tools : Tools) : Prop where
  keys : tools.Distinct
  separate : ∀ key key' tool tool', tools.get key = some tool → tools.get key' = some tool' →
    tool.started = true → tool'.started = true → tool.blockIndex = tool'.blockIndex → key = key'
  below : ∀ key tool, tools.get key = some tool → tool.started = true → tool.blockIndex < current
  order : ∀ key tool, tools.get key = some tool → tool.stopped = true → tool.started = true
  named : ∀ key tool, tools.get key = some tool → tool.name.truthy = true → tool.started = true ∨ busy = some key

section Tools

variable {tools : Tools} {key : ToolKey} {tool : Tool} {busy : Option ToolKey} {current index : ℤ}

theorem toolOpen_iff_of_get (h : tools.get key = some tool) :
    ToolOpen tools index ↔ tool.OpenAt index ∨ OtherOpen tools key index := by
  constructor
  · rintro ⟨key', tool', hget, hopen⟩
    by_cases hkey : key' = key
    · rw [hkey, h] at hget
      cases hget
      exact Or.inl hopen
    · exact Or.inr ⟨key', tool', hkey, hget, hopen⟩
  · rintro (hopen | ⟨key', tool', -, hget, hopen⟩)
    · exact ⟨key, tool, h, hopen⟩
    · exact ⟨key', tool', hget, hopen⟩

theorem toolOpen_iff_of_none (h : tools.get key = none) : ToolOpen tools index ↔ OtherOpen tools key index := by
  constructor
  · rintro ⟨key', tool', hget, hopen⟩
    refine ⟨key', tool', ?_, hget, hopen⟩
    rintro rfl
    rw [h] at hget
    cases hget
  · rintro ⟨key', tool', -, hget, hopen⟩
    exact ⟨key', tool', hget, hopen⟩

theorem toolOpen_set : ToolOpen (tools.set key tool) index ↔ tool.OpenAt index ∨ OtherOpen tools key index := by
  have hget : (tools.set key tool).get key = some tool := by rw [OrderedMap.get_set, if_pos rfl]
  rw [toolOpen_iff_of_get hget]
  apply or_congr Iff.rfl
  constructor
  · rintro ⟨key', tool', hne, hother, hopen⟩
    rw [OrderedMap.get_set, if_neg hne] at hother
    exact ⟨key', tool', hne, hother, hopen⟩
  · rintro ⟨key', tool', hne, hother, hopen⟩
    exact ⟨key', tool', hne, by rw [OrderedMap.get_set, if_neg hne]; exact hother, hopen⟩

variable {busy' : Option ToolKey}

theorem ToolsTidy.set {current' : ℤ} (h : ToolsTidy busy current tools) (hcurrent : current ≤ current')
    (hseparate : tool.started = true → tool.blockIndex < current' ∧
      ∀ key' tool', key' ≠ key → tools.get key' = some tool' → tool'.started = true → tool'.blockIndex ≠ tool.blockIndex)
    (horder : tool.stopped = true → tool.started = true)
    (hnamed : tool.name.truthy = true → tool.started = true ∨ busy' = some key)
    (hbusy : ∀ key', key' ≠ key → busy = some key' → busy' = some key') :
    ToolsTidy busy' current' (tools.set key tool) where
  keys := h.keys.set key tool
  separate := by
    intro key₁ key₂ tool₁ tool₂ h₁ h₂ hs₁ hs₂ heq
    rw [OrderedMap.get_set] at h₁ h₂
    split at h₁
    · rename_i hkey₁
      cases h₁
      split at h₂
      · rename_i hkey₂
        rw [hkey₁, hkey₂]
      · rename_i hkey₂
        exact absurd heq.symm ((hseparate hs₁).2 key₂ tool₂ hkey₂ h₂ hs₂)
    · rename_i hkey₁
      split at h₂
      · rename_i hkey₂
        cases h₂
        exact absurd heq ((hseparate hs₂).2 key₁ tool₁ hkey₁ h₁ hs₁)
      · exact h.separate key₁ key₂ tool₁ tool₂ h₁ h₂ hs₁ hs₂ heq
  below := by
    intro key' tool' hget hstarted
    rw [OrderedMap.get_set] at hget
    split at hget
    · cases hget
      exact (hseparate hstarted).1
    · exact lt_of_lt_of_le (h.below key' tool' hget hstarted) hcurrent
  order := by
    intro key' tool' hget hstopped
    rw [OrderedMap.get_set] at hget
    split at hget
    · cases hget
      exact horder hstopped
    · exact h.order key' tool' hget hstopped
  named := by
    intro key' tool' hget hname
    rw [OrderedMap.get_set] at hget
    split at hget
    · rename_i hkey
      cases hget
      rw [hkey]
      exact hnamed hname
    · rename_i hkey
      rcases h.named key' tool' hget hname with hstarted | hbusy'
      · exact Or.inl hstarted
      · exact Or.inr (hbusy key' hkey hbusy')

def Fresh (fallbacks : ℕ) (tools : Tools) : Prop := ∀ n tool, tools.get (.fallback n) = some tool → n < fallbacks

theorem Fresh.set {fallbacks fallbacks' : ℕ} (h : Fresh fallbacks tools) (hle : fallbacks ≤ fallbacks')
    (hkey : ∀ n, key = .fallback n → n < fallbacks') : Fresh fallbacks' (tools.set key tool) := by
  intro n tool' hget
  rw [OrderedMap.get_set] at hget
  split at hget
  · rename_i heq
    exact hkey n heq.symm
  · exact lt_of_lt_of_le (h n tool' hget) hle

theorem ToolsTidy.ne_of_ne (h : ToolsTidy busy current tools) (hget : tools.get key = some tool)
    (hstarted : tool.started = true) {key' : ToolKey} {tool' : Tool} (hne : key' ≠ key)
    (hget' : tools.get key' = some tool') (hstarted' : tool'.started = true) : tool'.blockIndex ≠ tool.blockIndex :=
  fun heq => hne (h.separate key' key tool' tool hget' hget hstarted' hstarted heq)

theorem ToolsTidy.mono {current' : ℤ} (h : ToolsTidy busy current tools) (hcurrent : current ≤ current') :
    ToolsTidy busy current' tools :=
  ⟨h.keys, h.separate, fun key tool hget hstarted => lt_of_lt_of_le (h.below key tool hget hstarted) hcurrent,
    h.order, h.named⟩

end Tools

/-! ## The state -/

def Stream.leadOpen (s : Stream) : Bool := s.thinkingBlockOpen || s.textBlockOpen

/-- The state says which blocks are open. -/
structure Tidy (busy : Option ToolKey) (s : Stream) : Prop where
  body : Body s.out
  single : (s.thinkingBlockOpen && s.textBlockOpen) = false
  next : s.currentBlockIndex + (if s.leadOpen then 1 else 0) = (started s.out).length
  opened : ∀ index, Open s.out index ↔
    (s.leadOpen = true ∧ index = s.currentBlockIndex) ∨ ToolOpen s.trackedToolCalls index
  tools : ToolsTidy busy s.currentBlockIndex s.trackedToolCalls
  fresh : Fresh s.fallbacks s.trackedToolCalls

namespace Tidy

variable {busy : Option ToolKey} {s : Stream}

theorem start (model : String) (inputTokens : Json) : Tidy none (Stream.start model inputTokens) where
  body := Body.start model _
  single := rfl
  next := rfl
  opened := by
    intro index
    constructor
    · rintro ⟨hstarted, -⟩
      cases hstarted
    · rintro (⟨hlead, -⟩ | ⟨key, tool, hget, -⟩)
      · cases hlead
      · cases hget
  tools := by
    refine ⟨List.nodup_nil, ?_, ?_, ?_, ?_⟩
    · intro key key' tool tool' hget
      cases hget
    · intro key tool hget
      cases hget
    · intro key tool hget
      cases hget
    · intro key tool hget
      cases hget
  fresh := by
    intro n tool hget
    cases hget

section

variable (h : Tidy busy s)

include h

theorem of_eq {s' : Stream} (hout : s'.out = s.out)
    (hthinking : s'.thinkingBlockOpen = s.thinkingBlockOpen) (htext : s'.textBlockOpen = s.textBlockOpen)
    (hcurrent : s'.currentBlockIndex = s.currentBlockIndex)
    (htools : s'.trackedToolCalls = s.trackedToolCalls) (hfallbacks : s'.fallbacks = s.fallbacks) : Tidy busy s' := by
  have hlead : s'.leadOpen = s.leadOpen := by rw [Stream.leadOpen, hthinking, htext, Stream.leadOpen]
  refine ⟨?_, ?_, ?_, ?_, ?_, ?_⟩
  · rw [hout]
    exact h.body
  · rw [hthinking, htext]
    exact h.single
  · rw [hout, hcurrent, hlead]
    exact h.next
  · rw [hout, hcurrent, hlead, htools]
    exact h.opened
  · rw [hcurrent, htools]
    exact h.tools
  · rw [hfallbacks, htools]
    exact h.fresh

theorem not_toolOpen_current : ¬ ToolOpen s.trackedToolCalls s.currentBlockIndex := by
  rintro ⟨key, tool, hget, hstarted, -, hindex⟩
  have hlt := h.tools.below key tool hget hstarted
  omega

theorem lead_open (hlead : s.leadOpen = true) : Open s.out s.currentBlockIndex :=
  (h.opened _).2 (Or.inl ⟨hlead, rfl⟩)

theorem delta {index : ℤ} (hopen : Open s.out index) (delta : Delta) :
    Tidy busy (s.emit (.blockDelta index delta)) where
  body := h.body.next hopen
  single := h.single
  next := by
    show _ = ((started (s.out ++ [_])).length : ℤ)
    rw [started_append]
    exact (List.append_nil (started s.out)).symm ▸ h.next
  opened := by
    intro i
    show Open (s.out ++ [_]) i ↔ _
    rw [open_delta]
    exact h.opened i
  tools := h.tools
  fresh := h.fresh

theorem startLead (hlead : s.leadOpen = false) {thinking text : Bool}
    (hone : (thinking && text) = false) (hany : (thinking || text) = true) (block : Block) :
    Tidy busy { s.emit (.blockStart s.currentBlockIndex block) with
      thinkingBlockOpen := thinking
      textBlockOpen := text } := by
  have hnext := h.next
  rw [hlead, if_neg (by decide), add_zero] at hnext
  refine ⟨?_, hone, ?_, ?_, h.tools, h.fresh⟩
  · exact h.body.next hnext
  · show s.currentBlockIndex + (if (thinking || text) = true then 1 else 0) = ((started (s.out ++ [_])).length : ℤ)
    rw [if_pos hany, started_append, hnext]
    simp [Event.startIndex]
  intro i
  show Open (s.out ++ [_]) i ↔ ((thinking || text) = true ∧ i = s.currentBlockIndex) ∨ _
  have hopened := h.opened i
  rw [hlead] at hopened
  rw [hnext, h.body.open_start, hopened, ← hnext, hany]
  show (false = true ∧ _ ∨ ToolOpen s.trackedToolCalls i) ∨ _ ↔ _ ∨ ToolOpen s.trackedToolCalls i
  simp [or_comm]

theorem stopLead (hlead : s.leadOpen = true) : Tidy busy { s.emit (.blockStop s.currentBlockIndex) with
      thinkingBlockOpen := false
      textBlockOpen := false
      currentBlockIndex := s.currentBlockIndex + 1 } := by
  have hnext := h.next
  rw [if_pos hlead] at hnext
  refine ⟨?_, rfl, ?_, ?_, ?_, h.fresh⟩
  · exact h.body.next (h.lead_open hlead)
  · show s.currentBlockIndex + 1 + 0 = ((started (s.out ++ [_])).length : ℤ)
    rw [started_append, add_zero, hnext]
    simp [Event.startIndex]
  · intro i
    show Open (s.out ++ [_]) i ↔ (false = true ∧ _) ∨ _
    rw [open_stop, h.opened]
    constructor
    · rintro ⟨⟨-, rfl⟩ | htool, hne⟩
      · exact absurd rfl hne
      · exact Or.inr htool
    · rintro (⟨hfalse, -⟩ | htool)
      · cases hfalse
      · refine ⟨Or.inr htool, ?_⟩
        rintro rfl
        exact h.not_toolOpen_current htool
  · exact h.tools.mono (by show s.currentBlockIndex ≤ s.currentBlockIndex + 1; omega)

end

end Tidy

namespace Tidy

variable {busy : Option ToolKey} {s : Stream}

section

variable (h : Tidy busy s)

include h

theorem closeThinking : Tidy busy s.closeThinking ∧ s.closeThinking.thinkingBlockOpen = false := by
  rw [Stream.closeThinking]
  split
  · rename_i hthinking
    have htext : s.textBlockOpen = false := by
      have hsingle := h.single
      rw [hthinking] at hsingle
      exact hsingle
    have hlead : s.leadOpen = true := by rw [Stream.leadOpen, hthinking, Bool.true_or]
    exact ⟨(h.stopLead hlead).of_eq rfl rfl htext rfl rfl rfl, rfl⟩
  · rename_i hthinking
    exact ⟨h, Bool.eq_false_iff.2 hthinking⟩

theorem closeText (hthinking : s.thinkingBlockOpen = false) :
    Tidy busy s.closeText ∧ s.closeText.leadOpen = false := by
  rw [Stream.closeText]
  split
  · rename_i htext
    have hlead : s.leadOpen = true := by rw [Stream.leadOpen, htext, Bool.or_true]
    refine ⟨(h.stopLead hlead).of_eq rfl hthinking rfl rfl rfl rfl, ?_⟩
    show (s.thinkingBlockOpen || false) = false
    rw [hthinking, Bool.false_or]
  · rename_i htext
    exact ⟨h, by rw [Stream.leadOpen, hthinking, Bool.eq_false_iff.2 htext]; rfl⟩

theorem openThinking (htext : s.textBlockOpen = false) :
    Tidy busy s.openThinking ∧ s.openThinking.leadOpen = true := by
  rw [Stream.openThinking]
  split
  · rename_i hthinking
    exact ⟨h, by rw [Stream.leadOpen, hthinking, Bool.true_or]⟩
  · rename_i hthinking
    have hlead : s.leadOpen = false := by rw [Stream.leadOpen, htext, Bool.eq_false_iff.2 hthinking]; rfl
    exact ⟨(@startLead busy s h hlead true false rfl rfl .thinking).of_eq rfl rfl htext rfl rfl rfl, rfl⟩

theorem openText (hthinking : s.thinkingBlockOpen = false) : Tidy busy s.openText ∧ s.openText.leadOpen = true := by
  rw [Stream.openText]
  split
  · rename_i htext
    exact ⟨h, by rw [Stream.leadOpen, htext, Bool.or_true]⟩
  · rename_i htext
    have hlead : s.leadOpen = false := by rw [Stream.leadOpen, hthinking, Bool.eq_false_iff.2 htext]; rfl
    refine ⟨(@startLead busy s h hlead false true rfl rfl .text).of_eq rfl hthinking rfl rfl rfl rfl, ?_⟩
    exact Bool.or_true _

theorem addReasoning (reasoning : Json) : Tidy busy (s.addReasoning reasoning) := by
  rw [Stream.addReasoning]
  split
  · rename_i hcond
    have htext : s.textBlockOpen = false := by simp only [Bool.and_eq_true, Bool.not_eq_true'] at hcond; exact hcond.1.2
    obtain ⟨hopen, hlead⟩ := h.openThinking htext
    exact hopen.delta (hopen.lead_open hlead) _
  · exact h

theorem addContent (content : Json) : Tidy busy (s.addContent content) := by
  rw [Stream.addContent]
  split
  · obtain ⟨hclosed, hthinking⟩ := h.closeThinking
    obtain ⟨hopen, hlead⟩ := hclosed.openText hthinking
    exact hopen.delta (hopen.lead_open hlead) _
  · exact h

end

end Tidy

/-! ## Tool calls -/

structure Calling (busy : Option ToolKey) (s : Stream) : Prop where
  tidy : Tidy busy s
  lead : s.leadOpen = false

namespace Calling

variable {busy : Option ToolKey} {s : Stream} {key : ToolKey} {tool : Tool}

theorem setTool (h : Calling busy s) {fallbacks : ℕ}
    (htools : ToolsTidy busy' s.currentBlockIndex (s.trackedToolCalls.set key tool))
    (hopen : ∀ index, ToolOpen (s.trackedToolCalls.set key tool) index ↔ ToolOpen s.trackedToolCalls index)
    (hle : s.fallbacks ≤ fallbacks) (hkey : ∀ n, key = .fallback n → n < fallbacks) :
    Calling busy' { s.setTool key tool with fallbacks := fallbacks } := by
  refine ⟨⟨h.tidy.body, h.tidy.single, h.tidy.next, ?_, htools, h.tidy.fresh.set hle hkey⟩, h.lead⟩
  intro index
  show _ ↔ _ ∨ ToolOpen (s.trackedToolCalls.set key tool) index
  rw [hopen]
  exact h.tidy.opened index

theorem setNew (h : Calling none s) (hget : s.trackedToolCalls.get key = none) (id : ToolId) (name : Json)
    {fallbacks : ℕ} (hle : s.fallbacks ≤ fallbacks) (hkey : ∀ n, key = .fallback n → n < fallbacks) :
    Calling (some key) { s.setTool key (Stream.newTool id name) with fallbacks := fallbacks } := by
  apply h.setTool _ _ hle hkey
  · apply h.tidy.tools.set le_rfl
    · intro hstarted
      cases hstarted
    · intro hstopped
      cases hstopped
    · intro _
      exact Or.inr rfl
    · intro key' _ hbusy
      cases hbusy
  · intro index
    rw [toolOpen_set, toolOpen_iff_of_none hget]
    constructor
    · rintro (⟨hstarted, -⟩ | hother)
      · cases hstarted
      · exact hother
    · exact Or.inr

theorem setSame (h : Calling busy s) {old : Tool} (hget : s.trackedToolCalls.get key = some old)
    (hstarted : tool.started = old.started) (hstopped : tool.stopped = old.stopped)
    (hindex : tool.blockIndex = old.blockIndex)
    (hnamed : tool.name.truthy = true → tool.started = true ∨ busy' = some key)
    (hbusy : ∀ key', key' ≠ key → busy = some key' → busy' = some key') : Calling busy' (s.setTool key tool) := by
  apply h.setTool _ _ le_rfl (fun n hkey => h.tidy.fresh n old (hkey ▸ hget))
  · apply h.tidy.tools.set le_rfl _ _ hnamed hbusy
    · intro hs
      rw [hstarted] at hs
      rw [hindex]
      exact ⟨h.tidy.tools.below key old hget hs,
        fun key' tool' hne hget' hs' => h.tidy.tools.ne_of_ne hget hs hne hget' hs'⟩
    · intro hs
      rw [hstarted]
      exact h.tidy.tools.order key old hget (hstopped ▸ hs)
  · intro index
    rw [toolOpen_set, toolOpen_iff_of_get hget]
    apply or_congr _ Iff.rfl
    rw [Tool.OpenAt, Tool.OpenAt, hstarted, hstopped, hindex]

theorem look (h : Calling none s) (key : ToolKey) : Calling (some key) s := by
  refine ⟨⟨h.tidy.body, h.tidy.single, h.tidy.next, h.tidy.opened, ?_, h.tidy.fresh⟩, h.lead⟩
  refine ⟨h.tidy.tools.keys, h.tidy.tools.separate, h.tidy.tools.below, h.tidy.tools.order, ?_⟩
  intro key' tool' hget hname
  rcases h.tidy.tools.named key' tool' hget hname with hstarted | hbusy
  · exact Or.inl hstarted
  · cases hbusy

theorem track (h : Calling none s) (key : Key) (id name : Json) : Calling (some (.given key)) (s.track key id name) := by
  rw [Stream.track]
  split
  · exact h.look _
  · rename_i hget
    exact h.setNew hget _ name le_rfl (by simp)

theorem trackFallback (h : Calling none s) (name : Json) :
    Calling (some (.fallback s.fallbacks)) (s.trackFallback name) := by
  have hget : s.trackedToolCalls.get (.fallback s.fallbacks) = none := by
    cases hget : s.trackedToolCalls.get (.fallback s.fallbacks) with
    | none => rfl
    | some tool => exact absurd (h.tidy.fresh _ tool hget) (lt_irrefl _)
  apply h.setNew hget _ name (Nat.le_succ _)
  intro n heq
  cases heq
  exact Nat.lt_succ_self _

theorem of_eq {s' : Stream} (h : Calling busy s) (hout : s'.out = s.out)
    (hthinking : s'.thinkingBlockOpen = s.thinkingBlockOpen) (htext : s'.textBlockOpen = s.textBlockOpen)
    (hcurrent : s'.currentBlockIndex = s.currentBlockIndex)
    (htools : s'.trackedToolCalls = s.trackedToolCalls) (hfallbacks : s'.fallbacks = s.fallbacks) : Calling busy s' := by
  refine ⟨h.tidy.of_eq hout hthinking htext hcurrent htools hfallbacks, ?_⟩
  rw [Stream.leadOpen, hthinking, htext]
  exact h.lead

theorem startBlock (h : Calling (some key) s) {old : Tool} (hget : s.trackedToolCalls.get key = some old)
    (hnot : old.started = false) (hstopped : tool.stopped = old.stopped) (id : ToolId) (name : Json) :
    Calling none { (s.setTool key { tool with blockIndex := s.currentBlockIndex, started := true }).emit
        (.blockStart s.currentBlockIndex (.toolUse id name)) with
      hasToolCalls := true
      currentBlockIndex := s.currentBlockIndex + 1 } := by
  have hnext := h.tidy.next
  rw [h.lead, if_neg (by decide), add_zero] at hnext
  have hlive : tool.stopped = false := by
    rw [hstopped, Bool.eq_false_iff]
    intro hs
    have hs' := h.tidy.tools.order key old hget hs
    rw [hnot] at hs'
    cases hs'
  refine ⟨⟨?_, h.tidy.single, ?_, ?_, ?_, h.tidy.fresh.set le_rfl fun n hkey => h.tidy.fresh n old (hkey ▸ hget)⟩,
    h.lead⟩
  · exact h.tidy.body.next hnext
  · show s.currentBlockIndex + 1 + (if s.leadOpen then 1 else 0) = ((started (s.out ++ [_])).length : ℤ)
    rw [h.lead, started_append, if_neg (by decide), hnext]
    simp [Event.startIndex]
  · intro index
    have hopened := h.tidy.opened index
    rw [h.lead] at hopened
    show Open (s.out ++ [_]) index ↔ (s.leadOpen = true ∧ _) ∨ ToolOpen (s.trackedToolCalls.set key _) index
    rw [hnext, h.tidy.body.open_start, hopened, toolOpen_set, toolOpen_iff_of_get hget, h.lead, ← hnext]
    have hold : ¬ old.OpenAt index := by
      rintro ⟨hstarted, -⟩
      rw [hnot] at hstarted
      cases hstarted
    have hnew : Tool.OpenAt { tool with blockIndex := s.currentBlockIndex, started := true } index ↔
        index = s.currentBlockIndex := by
      constructor
      · rintro ⟨-, -, rfl⟩
        rfl
      · rintro rfl
        exact ⟨rfl, hlive, rfl⟩
    rw [hnew]
    simp only [hold, false_or, Bool.false_eq_true, false_and, or_comm]
  · apply h.tidy.tools.set
    · show s.currentBlockIndex ≤ s.currentBlockIndex + 1
      omega
    · intro _
      refine ⟨?_, ?_⟩
      · show s.currentBlockIndex < s.currentBlockIndex + 1
        omega
      · intro key' tool' _ hget' hstarted' heq
        have hlt := h.tidy.tools.below key' tool' hget' hstarted'
        rw [heq] at hlt
        exact lt_irrefl _ hlt
    · intro _
      rfl
    · intro _
      exact Or.inl rfl
    · intro key' hne hbusy
      cases hbusy
      exact absurd rfl hne

theorem startTool (h : Calling (some key) s) {old : Tool} (hget : s.trackedToolCalls.get key = some old)
    (hstarted : tool.started = old.started) (hstopped : tool.stopped = old.stopped)
    (hindex : tool.blockIndex = old.blockIndex) : Calling none (s.startTool key tool) := by
  rw [Stream.startTool]
  split
  · rename_i hcond
    simp only [Bool.and_eq_true, Bool.not_eq_true'] at hcond
    exact h.startBlock hget (hstarted ▸ hcond.1) hstopped _ _
  rename_i hcond
  apply h.setSame hget hstarted hstopped hindex
  · intro hname
    simp only [hname, Bool.and_true, Bool.not_eq_true', Bool.not_eq_false] at hcond
    exact Or.inl hcond
  · intro key' hne hbusy
    cases hbusy
    exact absurd rfl hne

theorem nameTool_same (name : Json) (tool : Tool) :
    (Stream.nameTool name tool).started = tool.started ∧ (Stream.nameTool name tool).stopped = tool.stopped ∧
      (Stream.nameTool name tool).blockIndex = tool.blockIndex := by
  rw [Stream.nameTool]
  split <;> exact ⟨rfl, rfl, rfl⟩

theorem open_of_get (h : Tidy busy s) (hget : s.trackedToolCalls.get key = some tool)
    (hopen : (tool.started && !tool.stopped) = true) : Open s.out tool.blockIndex := by
  simp only [Bool.and_eq_true, Bool.not_eq_true'] at hopen
  exact (h.opened _).2 (Or.inr ⟨key, tool, hget, hopen.1, hopen.2, rfl⟩)

theorem bufferArguments (h : Calling none s) (hget : s.trackedToolCalls.get key = some tool) (text : String) :
    Calling none (s.bufferArguments key text tool) := by
  have hset : Calling none (s.setTool key { tool with arguments := tool.arguments ++ text }) := by
    apply @setSame none s key { tool with arguments := tool.arguments ++ text } none h tool hget rfl rfl rfl
    · exact h.tidy.tools.named key tool hget
    · intro key' _ hbusy
      exact hbusy
  rw [Stream.bufferArguments]
  split
  · rename_i hopen
    have hget' : (s.setTool key { tool with arguments := tool.arguments ++ text }).trackedToolCalls.get key =
        some { tool with arguments := tool.arguments ++ text } := by
      rw [Stream.setTool, OrderedMap.get_set, if_pos rfl]
    exact ⟨hset.tidy.delta (open_of_get hset.tidy hget' hopen) _, hset.lead⟩
  · exact hset

theorem stopTool (h : Calling none s) (hget : s.trackedToolCalls.get key = some tool)
    (hopen : (tool.started && !tool.stopped) = true) : Calling none (s.stopTool key tool) := by
  have hstate := hopen
  simp only [Bool.and_eq_true, Bool.not_eq_true'] at hstate
  refine ⟨⟨?_, h.tidy.single, ?_, ?_, ?_, h.tidy.fresh.set le_rfl fun n hkey => h.tidy.fresh n tool (hkey ▸ hget)⟩,
    h.lead⟩
  · exact h.tidy.body.next (open_of_get h.tidy hget hopen)
  · show _ = ((started (s.out ++ [_])).length : ℤ)
    rw [started_append]
    exact (List.append_nil (started s.out)).symm ▸ h.tidy.next
  · intro index
    show Open (s.out ++ [_]) index ↔ (s.leadOpen = true ∧ _) ∨ ToolOpen (s.trackedToolCalls.set key _) index
    rw [open_stop, h.tidy.opened, toolOpen_set, toolOpen_iff_of_get hget, h.lead]
    constructor
    · rintro ⟨⟨hfalse, -⟩ | ⟨-, -, heq⟩ | hother, hne⟩
      · cases hfalse
      · exact absurd heq.symm hne
      · exact Or.inr (Or.inr hother)
    · rintro (⟨hfalse, -⟩ | ⟨-, hlive, -⟩ | hother)
      · cases hfalse
      · cases hlive
      · refine ⟨Or.inr (Or.inr hother), ?_⟩
        -- the blocks of two calls have different indexes
        obtain ⟨key', tool', hne, hget', hstarted', -, rfl⟩ := hother
        exact h.tidy.tools.ne_of_ne hget hstate.1 hne hget' hstarted'
  · apply h.tidy.tools.set le_rfl
    · intro _
      exact ⟨h.tidy.tools.below key tool hget hstate.1,
        fun key' tool' hne hget' hs' => h.tidy.tools.ne_of_ne hget hstate.1 hne hget' hs'⟩
    · intro _
      exact hstate.1
    · intro _
      exact Or.inl hstate.1
    · intro key' _ hbusy
      exact hbusy

end Calling

/-! ## Reading a stream -/

def FailsInBody (_ : Failure) (s : Stream) : Prop := Body s.out

section Reading

variable {P : Stream → Prop} {α : Type}

theorem raising_triple (hP : ∀ s, P s → Body s.out) (x : Except Raised α) :
    Triple P (raising x) (fun _ => P) FailsInBody := by
  apply Triple.attempt
  · intro a s _ hs
    exact hs
  · intro e s _ hs
    exact hP s hs

theorem toolAt_triple (hP : ∀ s, P s → Body s.out) (key : ToolKey) :
    Triple P (toolAt key) (fun tool s => P s ∧ s.trackedToolCalls.get key = some tool) FailsInBody := by
  intro s hs
  rw [toolAt]
  show EndsIn _ _ (raising _ s)
  cases hget : s.trackedToolCalls.get key with
  | none => exact hP s hs
  | some tool => exact ⟨hs, hget⟩

theorem Calling.body (h : Calling busy s) : Body s.out := h.tidy.body

theorem route (index : Key) {key key' : ToolKey} (h : Calling (some key) s) :
    Calling (some key) (s.route index key') := h.of_eq rfl rfl rfl rfl rfl rfl

theorem resolveTool_triple (call : ToolCall) :
    Triple (Calling none) (resolveTool call) (fun key => Calling (some key)) FailsInBody := by
  rw [resolveTool]
  split
  · apply Triple.bind (raising_triple (fun s => Calling.body) _)
    intro key
    apply Triple.bind (Triple.change (Q := fun _ => Calling (some (.given key))) fun s hs => hs.track key _ _)
    intro _
    apply Triple.bind (raising_triple (fun s => Calling.body) _)
    intro index
    apply Triple.bind (Triple.change (Q := fun _ => Calling (some (.given key))) fun s hs => route index hs)
    intro _
    exact Triple.pure fun s hs => hs
  · apply Triple.bind (raising_triple (fun s => Calling.body) _)
    intro index
    apply Triple.bind (Triple.get (Q := fun s s' => s' = s ∧ Calling none s) fun s hs => ⟨rfl, hs⟩)
    intro s
    cases s.indexToToolId.get index with
    | some key => exact Triple.pure fun s' hs => hs.1 ▸ hs.2.look key
    | none =>
      apply Triple.bind (Triple.change (Q := fun _ => Calling (some (.fallback s.fallbacks))) _)
      · intro _
        apply Triple.bind (Triple.change (Q := fun _ => Calling (some (.fallback s.fallbacks))) fun s hs => route index hs)
        intro _
        exact Triple.pure fun s hs => hs
      · rintro s' ⟨rfl, hs⟩
        exact hs.trackFallback call.name

variable (loads : String → Except LoadError Json)

theorem closeComplete_triple (key : ToolKey) :
    Triple (Calling none) (closeComplete loads key) (fun _ => Calling none) FailsInBody := by
  rw [closeComplete]
  apply Triple.bind (toolAt_triple (fun s => Calling.body) key)
  intro tool
  split
  · rename_i hcond
    have hopen : (tool.started && !tool.stopped) = true := (Bool.and_eq_true_iff.1 hcond).1
    split
    · exact Triple.change fun s hs => hs.1.stopTool hs.2 hopen
    · exact Triple.pure fun s hs => hs.1
    · exact Triple.pure fun s hs => hs.1
    · exact Triple.throw fun s hs => hs.1.body
  · exact Triple.pure fun s hs => hs.1

theorem addArguments_triple (key : ToolKey) (arguments : Json) :
    Triple (Calling none) (addArguments loads key arguments) (fun _ => Calling none) FailsInBody := by
  unfold addArguments
  split
  · split
    · rename_i text _
      apply Triple.bind (toolAt_triple (fun s => Calling.body) key)
      intro tool
      apply Triple.bind (Triple.change (Q := fun _ => Calling none) fun s hs => hs.1.bufferArguments hs.2 text)
      intro _
      exact closeComplete_triple loads key
    · exact Triple.throw fun s hs => hs.body
  · exact Triple.pure fun s hs => hs

theorem addToolCall_triple (value : Json) :
    Triple (Calling none) (addToolCall loads value) (fun _ => Calling none) FailsInBody := by
  rw [addToolCall]
  apply Triple.bind (raising_triple (fun s => Calling.body) _)
  intro call
  apply Triple.bind (resolveTool_triple call)
  intro key
  apply Triple.bind (toolAt_triple (fun s => Calling.body) key)
  intro tool
  obtain ⟨hstarted, hstopped, hindex⟩ := Calling.nameTool_same call.name tool
  apply Triple.bind (Triple.change (Q := fun _ => Calling none) fun s hs => hs.1.startTool hs.2 hstarted hstopped hindex)
  intro _
  exact addArguments_triple loads key call.arguments

theorem Tidy.out (h : Tidy busy s) : Body s.out := h.body

theorem addToolCalls_triple (calls : Json) :
    Triple (Tidy none) (addToolCalls loads calls) (fun _ => Tidy none) FailsInBody := by
  rw [addToolCalls]
  split
  · have hclose : Triple (Tidy none) (change fun s => s.closeThinking.closeText : Conversion Unit)
        (fun _ => Calling none) FailsInBody := by
      apply Triple.change
      intro s hs
      obtain ⟨hclosed, hthinking⟩ := hs.closeThinking
      obtain ⟨htidy, hlead⟩ := hclosed.closeText hthinking
      exact ⟨htidy, hlead⟩
    apply Triple.bind hclose
    intro _
    apply Triple.bind (raising_triple (fun s => Calling.body) _)
    intro items
    apply (Triple.forEach fun value _ => addToolCall_triple loads value).consequence
    · exact fun s hs => hs
    · exact fun _ s hs => hs.tidy
    · exact fun e s hs => hs
  · exact Triple.pure fun s hs => hs

theorem addFinishReason_triple (finishReason : Json) :
    Triple (Tidy none) (addFinishReason finishReason) (fun _ => Tidy none) FailsInBody := by
  rw [addFinishReason]
  split
  · exact Triple.pure fun s hs => hs
  · apply Triple.bind (raising_triple (fun s => Tidy.out) _)
    intro reason
    exact Triple.change fun s hs => hs.of_eq rfl rfl rfl rfl rfl rfl

theorem addUsage_triple (data : Json) : Triple (Tidy none) (addUsage data) (fun _ => Tidy none) FailsInBody := by
  rw [addUsage]
  apply Triple.bind (raising_triple (fun s => Tidy.out) _)
  intro usageData
  cases usageData with
  | obj fields =>
    apply Triple.bind (Triple.get (Q := fun _ => Tidy none) fun s hs => hs)
    intro s
    apply Triple.bind (raising_triple (fun s => Tidy.out) _)
    intro usage
    exact Triple.change fun s hs => hs.of_eq rfl rfl rfl rfl rfl rfl
  | _ => exact Triple.pure fun s hs => hs

theorem addChoice_triple (choice : Json) :
    Triple (Tidy none) (addChoice loads choice) (fun _ => Tidy none) FailsInBody := by
  rw [addChoice]
  apply Triple.bind (raising_triple (fun s => Tidy.out) _)
  intro delta
  apply Triple.bind (raising_triple (fun s => Tidy.out) _)
  intro finishReason
  apply Triple.bind (raising_triple (fun s => Tidy.out) _)
  intro message
  apply Triple.bind (raising_triple (fun s => Tidy.out) _)
  intro reasoning
  apply Triple.bind (Triple.change (Q := fun _ => Tidy none) fun s hs => hs.addReasoning reasoning)
  intro _
  apply Triple.bind (raising_triple (fun s => Tidy.out) _)
  intro content
  apply Triple.bind (Triple.change (Q := fun _ => Tidy none) fun s hs => hs.addContent content)
  intro _
  apply Triple.bind (raising_triple (fun s => Tidy.out) _)
  intro calls
  apply Triple.bind (addToolCalls_triple loads calls)
  intro _
  exact addFinishReason_triple finishReason

theorem addData_triple (data : Json) : Triple (Tidy none) (addData loads data) (fun _ => Tidy none) FailsInBody := by
  rw [addData]
  apply Triple.bind (raising_triple (fun s => Tidy.out) _)
  intro error
  cases error with
  | some message => exact Triple.throw fun s hs => hs.body
  | none =>
    apply Triple.bind (addUsage_triple data)
    intro _
    apply Triple.bind (raising_triple (fun s => Tidy.out) _)
    intro choices
    split
    · apply Triple.bind (raising_triple (fun s => Tidy.out) _)
      intro choice
      exact addChoice_triple loads choice
    · exact Triple.pure fun s hs => hs

theorem addLine_triple (line : List Char) :
    Triple (Tidy none) (addLine loads line) (fun _ => Tidy none) FailsInBody := by
  rw [addLine]
  split
  · exact Triple.pure fun s hs => hs
  split
  · exact addData_triple loads _
  · exact Triple.pure fun s hs => hs
  · exact Triple.throw fun s hs => hs.body
  · exact Triple.throw fun s hs => hs.body

theorem addChunks_triple (chunks : List String) (ending : Except Raised Unit) :
    Triple (Tidy none) (addChunks loads chunks ending) (fun _ => Tidy none) FailsInBody := by
  rw [addChunks]
  apply Triple.bind (Triple.forEach fun line _ => addLine_triple loads line)
  intro _
  exact raising_triple (fun s => Tidy.out) ending

end Reading

/-! ## The end -/

namespace Tidy

variable {s : Stream}

theorem flushTool (h : Tidy none s) (key : ToolKey) : s.flushTool key = s := by
  rw [Stream.flushTool]
  split
  · rfl
  rename_i tool hget
  rw [if_neg]
  intro hcond
  simp only [Bool.and_eq_true, Bool.not_eq_true'] at hcond
  rcases h.tools.named key tool hget hcond.2 with hstarted | hbusy
  · rw [hcond.1] at hstarted
    cases hstarted
  · cases hbusy

theorem flushTools (h : Tidy none s) (keys : List ToolKey) : keys.foldl (fun s key => s.flushTool key) s = s := by
  induction keys with
  | nil => rfl
  | cons key rest ih => rw [List.foldl_cons, h.flushTool, ih]

theorem endText (h : Tidy none s) (hthinking : s.thinkingBlockOpen = false) :
    Body s.endText.out ∧ (∀ index, Open s.endText.out index ↔ ToolOpen s.trackedToolCalls index) ∧
      s.endText.trackedToolCalls = s.trackedToolCalls := by
  rw [Stream.endText]
  split
  · rename_i htext
    have hlead : s.leadOpen = true := by rw [Stream.leadOpen, htext, Bool.or_true]
    refine ⟨h.body.next (h.lead_open hlead), ?_, rfl⟩
    intro index
    show Open (s.out ++ [_]) index ↔ _
    rw [open_stop, h.opened]
    constructor
    · rintro ⟨⟨-, heq⟩ | htool, hne⟩
      · exact absurd heq hne
      · exact htool
    · intro htool
      refine ⟨Or.inr htool, ?_⟩
      rintro rfl
      exact h.not_toolOpen_current htool
  · rename_i htext
    refine ⟨h.body, ?_, rfl⟩
    intro index
    rw [h.opened, Stream.leadOpen, hthinking, Bool.eq_false_iff.2 htext]
    simp

end Tidy

theorem endTools (tools : List Tool) (s : Stream) (hbody : Body s.out)
    (hopen : ∀ index, Open s.out index ↔ ∃ tool ∈ tools, tool.OpenAt index)
    (hseparate : tools.Pairwise fun tool tool' => ∀ index, tool.OpenAt index → ¬ tool'.OpenAt index) :
    Body (tools.foldl (fun s tool => s.endTool tool) s).out ∧
      ∀ index, ¬ Open (tools.foldl (fun s tool => s.endTool tool) s).out index := by
  induction tools generalizing s with
  | nil =>
    refine ⟨hbody, ?_⟩
    intro index h
    obtain ⟨tool, htool, -⟩ := (hopen index).1 h
    cases htool
  | cons tool rest ih =>
    obtain ⟨hfirst, hrest⟩ := List.pairwise_cons.1 hseparate
    rw [List.foldl_cons]
    by_cases hlive : (tool.started && !tool.stopped) = true
    · have hat : tool.OpenAt tool.blockIndex := by
        simp only [Bool.and_eq_true, Bool.not_eq_true'] at hlive
        exact ⟨hlive.1, hlive.2, rfl⟩
      have hend : s.endTool tool = s.emit (.blockStop tool.blockIndex) := by rw [Stream.endTool, if_pos hlive]
      rw [hend]
      apply ih
      · exact hbody.next ((hopen _).2 ⟨tool, List.mem_cons_self, hat⟩)
      · intro index
        show Open (s.out ++ [_]) index ↔ _
        rw [open_stop, hopen]
        constructor
        · rintro ⟨⟨tool', hmem, hat'⟩, hne⟩
          rcases List.mem_cons.1 hmem with rfl | hmem
          · exact absurd hat'.2.2.symm hne
          · exact ⟨tool', hmem, hat'⟩
        · rintro ⟨tool', hmem, hat'⟩
          refine ⟨⟨tool', List.mem_cons_of_mem _ hmem, hat'⟩, ?_⟩
          rintro rfl
          exact hfirst tool' hmem _ hat hat'
      · exact hrest
    · have hend : s.endTool tool = s := by rw [Stream.endTool, if_neg hlive]
      rw [hend]
      apply ih s hbody _ hrest
      intro index
      rw [hopen]
      constructor
      · rintro ⟨tool', hmem, hat'⟩
        rcases List.mem_cons.1 hmem with rfl | hmem
        · exact absurd (by simp [hat'.1, hat'.2.1]) hlive
        · exact ⟨tool', hmem, hat'⟩
      · rintro ⟨tool', hmem, hat'⟩
        exact ⟨tool', List.mem_cons_of_mem _ hmem, hat'⟩

theorem ToolsTidy.pairwise {current : ℤ} {tools : Tools} (h : ToolsTidy busy current tools) :
    (tools.map Prod.snd).Pairwise fun tool tool' => ∀ index, tool.OpenAt index → ¬ tool'.OpenAt index := by
  rw [List.pairwise_map]
  have hdistinct : tools.Pairwise fun entry entry' => entry.1 ≠ entry'.1 := List.pairwise_map.1 h.keys
  apply hdistinct.imp_of_mem
  rintro ⟨key, tool⟩ ⟨key', tool'⟩ hmem hmem' hne index ⟨hstarted, -, hindex⟩ ⟨hstarted', -, hindex'⟩
  exact hne (h.separate key key' tool tool' (OrderedMap.get_of_mem h.keys hmem) (OrderedMap.get_of_mem h.keys hmem')
    hstarted hstarted' (hindex.trans hindex'.symm))

theorem toolOpen_iff_values {current : ℤ} {tools : Tools} (h : ToolsTidy busy current tools) (index : ℤ) :
    ToolOpen tools index ↔ ∃ tool ∈ tools.map Prod.snd, tool.OpenAt index := by
  constructor
  · rintro ⟨key, tool, hget, hat⟩
    exact ⟨tool, List.mem_map.2 ⟨(key, tool), OrderedMap.mem_of_get hget, rfl⟩, hat⟩
  · rintro ⟨tool, hmem, hat⟩
    obtain ⟨⟨key, tool⟩, hentry, rfl⟩ := List.mem_map.1 hmem
    exact ⟨key, tool, OrderedMap.get_of_mem h.keys hentry, hat⟩

theorem finish_body (h : Tidy none s) :
    ∃ body stopReason usage, s.finish.out = body ++ [.messageDelta stopReason usage, .messageStop] ∧ Body body ∧
      ∀ index, ¬ Open body index := by
  obtain ⟨hclosed, hthinking⟩ := h.closeThinking
  obtain ⟨hbody, hopen, htools⟩ := hclosed.endText hthinking
  have hvalues : ∀ index, Open s.closeThinking.endText.out index ↔
      ∃ tool ∈ s.closeThinking.trackedToolCalls.map Prod.snd, tool.OpenAt index := by
    intro index
    rw [hopen, toolOpen_iff_values hclosed.tools]
  obtain ⟨hbody', hstopped⟩ := endTools _ _ hbody hvalues hclosed.tools.pairwise
  obtain ⟨last, hlast⟩ : ∃ last, last = (s.closeThinking.trackedToolCalls.map Prod.snd).foldl
      (fun s tool => s.endTool tool) s.closeThinking.endText := ⟨_, rfl⟩
  rw [← hlast] at hbody' hstopped
  refine ⟨last.out, last.stopReason, last.usageFields, ?_, hbody', hstopped⟩
  simp only [Stream.finish, hclosed.flushTools, htools, ← hlast]
  exact List.append_assoc _ _ _

section Ends

variable {body : List Event}

theorem Body.starts (h : Body body) : ∃ model inputTokens rest, body = .messageStart model inputTokens :: rest := by
  induction h with
  | start model inputTokens => exact ⟨model, inputTokens, [], rfl⟩
  | @next events e _ _ ih =>
    obtain ⟨model, inputTokens, rest, rfl⟩ := ih
    exact ⟨model, inputTokens, rest ++ [e], rfl⟩

theorem Body.not_ended (h : Body body) :
    ∀ e ∈ body, e ≠ .messageStop ∧ ∀ reason fields, e ≠ .messageDelta reason fields := by
  induction h with
  | start model inputTokens =>
    intro e he
    rw [List.mem_singleton.1 he]
    exact ⟨by simp, by simp⟩
  | @next events e' _ hfits ih =>
    intro e he
    rcases List.mem_append.1 he with hold | hnew
    · exact ih e hold
    rw [List.mem_singleton.1 hnew]
    cases e' with
    | messageDelta reason fields => exact hfits.elim
    | messageStop => exact hfits.elim
    | _ => exact ⟨by simp, by simp⟩

theorem Body.fits_of_append (h : Body body) {before after : List Event} {e : Event}
    (heq : body ++ tail = before ++ e :: after) (hstart : ∀ model inputTokens, e ≠ .messageStart model inputTokens)
    (htail : e ∉ tail) : Fits before e := by
  rcases List.append_eq_append_iff.1 heq with ⟨part, rfl, hpart⟩ | ⟨part, hpart, hrest⟩
  · exact absurd (hpart ▸ List.mem_append_right part List.mem_cons_self) htail
  cases part with
  | nil =>
    rw [List.nil_append] at hrest
    exact absurd (hrest ▸ List.mem_cons_self) htail
  | cons x part =>
    obtain ⟨rfl, -⟩ := List.cons.inj hrest
    exact h.fits hpart hstart

theorem started_append_of_none (h : ∀ e ∈ tail, e.startIndex = none) : started (body ++ tail) = started body := by
  rw [started, List.filterMap_append, List.filterMap_eq_nil_iff.2 h, List.append_nil, started]

theorem Body.wellFormed (h : Body body)
    (htail : ∀ e ∈ tail, e.startIndex = none ∧ e.stopIndex = none ∧ ∀ index delta, e ≠ .blockDelta index delta)
    (hends : (∃ before message, body ++ tail = before ++ [.error message]) ∨
      ∃ before stopReason usage, body ++ tail = before ++ [.messageDelta stopReason usage, .messageStop] ∧
        (∀ index ∈ started (body ++ tail), (stopped before).count index = 1) ∧
        ∀ e ∈ before, e ≠ .messageStop ∧ ∀ reason fields, e ≠ .messageDelta reason fields) :
    WellFormed (body ++ tail) where
  starts := by
    obtain ⟨model, inputTokens, rest, rfl⟩ := h.starts
    exact ⟨model, inputTokens, rest ++ tail, rfl⟩
  ordered := by
    rw [started_append_of_none fun e he => (htail e he).1]
    exact ⟨_, h.started_eq⟩
  delta_open := by
    intro before index delta after heq
    have hnot : Event.blockDelta index delta ∉ tail := fun hmem => (htail _ hmem).2.2 index delta rfl
    exact h.fits_of_append heq (by simp) hnot
  stop_open := by
    intro before index after heq
    have hnot : Event.blockStop index ∉ tail := by
      intro hmem
      cases (htail _ hmem).2.1
    exact h.fits_of_append heq (by simp) hnot
  ends := hends

end Ends

/-- The events of every stream are well formed. -/
theorem stream_well_formed (loads : String → Except LoadError Json) (model : String) (inputTokens : Json)
    (chunks : List String) (ending : Except Raised Unit) :
    WellFormed (openaiStreamToAnthropicStream loads model inputTokens chunks ending) := by
  have hread := addChunks_triple loads chunks ending _ (Tidy.start model inputTokens)
  rw [openaiStreamToAnthropicStream]
  cases hrun : addChunks loads chunks ending (Stream.start model inputTokens) with
  | error failure s =>
    rw [hrun] at hread
    have hbody : Body s.out := hread
    apply hbody.wellFormed
    · intro e he
      rw [List.mem_singleton.1 he]
      exact ⟨rfl, rfl, by simp⟩
    · exact Or.inl ⟨s.out, failure.message, rfl⟩
  | ok _ s =>
    rw [hrun] at hread
    obtain ⟨body, stopReason, usage, heq, hbody, hstopped⟩ := finish_body hread
    show WellFormed s.finish.out
    rw [heq]
    have htail : ∀ e ∈ [Event.messageDelta stopReason usage, .messageStop],
        e.startIndex = none ∧ e.stopIndex = none ∧ ∀ index delta, e ≠ .blockDelta index delta := by
      intro e he
      rcases List.mem_cons.1 he with rfl | he
      · exact ⟨rfl, rfl, by simp⟩
      · rw [List.mem_singleton.1 he]
        exact ⟨rfl, rfl, by simp⟩
    apply hbody.wellFormed htail
    refine Or.inr ⟨body, stopReason, usage, rfl, ?_, hbody.not_ended⟩
    intro index hindex
    rw [started_append_of_none fun e he => (htail e he).1] at hindex
    -- a block that is not open any more was stopped, and only once
    have hmem : index ∈ stopped body := by
      by_contra hnot
      exact hstopped index ⟨hindex, hnot⟩
    exact List.count_eq_one_of_mem hbody.nodup_stopped hmem

end RyanAI.Chat.AnthropicStream
