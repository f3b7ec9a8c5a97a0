import RyanAI.Chat.Compaction

/-!
# What a compaction leaves covered

Every checkpoint has to stand for the messages in front of its cut (`Sound`). A request that starts from a sound chat is
covered, and leaves a sound chat behind. So do `compact_chat_branch` and a tool loop whose compactions have the whole
chat at hand, as messages or in the previous summary. A tool loop loses sight of the summary of its request, which has
gone into the system prompt and is not found among the messages.
-/

namespace RyanAI.Chat.Compaction

open RyanAI.Lib
open RyanAI.Chat.ToolPairs
open RyanAI.Chat.OutputMessages

/-! ## Checkpoints -/

def AllGiven (s : Summary) (messages : List Message) : Prop := ∀ m ∈ messages, m.loaded → m.origin ∈ s.given

def cutPoint (callId : Option String) : List Message → Option (Message × List Message)
  | [] => none
  | m :: before => if (keptOutput callId m.output).isSome then some (m, before) else cutPoint callId before

/-- Every checkpoint stands for what lies in front of it; the last message comes first. -/
def Sound : List Message → Prop
  | [] => True
  | m :: before =>
    Sound before ∧ (∀ s, m.checkpoint = some s → AllGiven s before) ∧
      ∀ callId s b, m.lastMarker = some (callId, s, b) →
        ∀ d e, cutPoint callId (m :: before) = some (d, e) → d.origin = b → AllGiven s e

def MarkersFit : List Message → Prop
  | [] => True
  | m :: before =>
    MarkersFit before ∧ ∀ k ∈ m.lastMarker, ∀ d ∈ cutPoint k.1 (m :: before), d.1.origin = k.2.2

instance MarkersFit.decidable : (rev : List Message) → Decidable (MarkersFit rev)
  | [] => isTrue trivial
  | m :: before =>
    have := MarkersFit.decidable before
    inferInstanceAs (Decidable (MarkersFit before ∧ ∀ k ∈ m.lastMarker, _))

def Message.bare (m : Message) : Message := { m with output := [] }

variable {ms rev messages front branch back : List Message} {callId : Option String} {s : Summary} {r : Result}
    {userMessageId id : String} {m m' : Message} {b : Buffers} {c : SavedChat} {t : Turn}

theorem origin_of_bare {ms' : List Message} (h : ms.map Message.bare = ms'.map Message.bare) :
    ms.map Message.origin = ms'.map Message.origin := by
  have hmap := congrArg (List.map Message.origin) h
  rwa [List.map_map, List.map_map] at hmap

theorem id_of_bare {ms' : List Message} (h : ms.map Message.bare = ms'.map Message.bare) :
    ms.map Message.id = ms'.map Message.id := by
  have hmap := congrArg (List.map Message.id) h
  rwa [List.map_map, List.map_map] at hmap

theorem cutAt_spec (h : cutAt callId rev after = some ms) :
    ∃ d e back, cutPoint callId rev = some (d, e) ∧ rev.reverse ++ after = e.tail.reverse ++ back ∧
      back.map Message.bare = ms.map Message.bare := by
  induction rev generalizing after with
  | nil => cases h
  | cons m before ih =>
    rw [cutAt] at h
    rw [cutPoint]
    cases hkept : keptOutput callId m.output with
    | some output =>
      rw [hkept] at h
      cases h
      refine ⟨m, before, before.head?.toList ++ m :: after, rfl, ?_, by simp [Message.bare]⟩
      cases before <;> simp
    | none =>
      rw [hkept] at h
      obtain ⟨d, e, back, hcut, hsplit, hbare⟩ := ih h
      exact ⟨d, e, back, hcut, by rw [← hsplit]; simp, hbare⟩

theorem latestCheckpoint_spec (hsound : Sound rev) (hfit : MarkersFit rev)
    (h : latestCheckpoint rev after = some (ms, s)) :
    ∃ front back, rev.reverse ++ after = front ++ back ∧ back.map Message.bare = ms.map Message.bare ∧
      AllGiven s front := by
  induction rev generalizing after with
  | nil => cases h
  | cons m before ih =>
    obtain ⟨hbefore, hsummary, hmarker⟩ := hsound
    obtain ⟨hfits, hboundary⟩ := hfit
    have hsplit : (m :: before).reverse ++ after = before.reverse ++ m :: after := by simp
    rw [latestCheckpoint] at h
    cases hcheck : m.checkpoint with
    | some s' =>
      rw [hcheck] at h
      cases h
      exact ⟨before.reverse, m :: after, hsplit, rfl,
        fun q hq => hsummary _ hcheck q (List.mem_reverse.1 hq)⟩
    | none =>
      rw [hcheck] at h
      -- without a summary of its own the message may still carry a marker
      cases hlast : m.lastMarker with
      | none =>
        rw [hlast] at h
        rw [hsplit]
        exact ih hbefore hfits h
      | some marker =>
        obtain ⟨callId, s', b⟩ := marker
        rw [hlast] at h
        cases hcut : cutAt callId (m :: before) after with
        | none =>
          simp only [hcut] at h
          rw [hsplit]
          exact ih hbefore hfits h
        | some ms' =>
          simp only [hcut] at h
          cases h
          obtain ⟨d, e, back, hpoint, heq, hbare⟩ := cutAt_spec hcut
          refine ⟨e.tail.reverse, back, heq, hbare, fun q hq => ?_⟩
          exact hmarker callId _ b hlast d e hpoint (hboundary _ hlast _ hpoint) q
            (List.mem_of_mem_tail (List.mem_reverse.1 hq))

def GivenFor (previous : Option Summary) (messages : List Message) : Prop :=
  ∀ m ∈ messages, m.loaded → previous.any fun s => m.origin ∈ s.given

theorem applyLatestSummaryCheckpoint_spec (hsound : Sound messages.reverse) (hfit : MarkersFit messages.reverse) :
    ∃ front back, messages = front ++ back ∧
      back.map Message.bare = (applyLatestSummaryCheckpoint messages).1.map Message.bare ∧
      GivenFor (applyLatestSummaryCheckpoint messages).2 front := by
  rw [applyLatestSummaryCheckpoint]
  cases hlatest : latestCheckpoint messages.reverse [] with
  | none => exact ⟨[], messages, rfl, rfl, fun m hm => by cases hm⟩
  | some found =>
    obtain ⟨ms, s⟩ := found
    obtain ⟨front, back, hsplit, hbare, hgiven⟩ := latestCheckpoint_spec hsound hfit hlatest
    rw [List.reverse_reverse, List.append_nil] at hsplit
    exact ⟨front, back, hsplit, hbare, fun m hm hl => by simpa using hgiven m hm hl⟩

theorem cutPoint_filter (callId : Option String) (rev : List Message) : cutPoint callId (rev.filter Message.loaded) =
      (cutPoint callId rev).map fun c => (c.1, c.2.filter Message.loaded) := by
  induction rev with
  | nil => rfl
  | cons m before ih =>
    rw [cutPoint]
    by_cases hloaded : m.loaded
    · rw [List.filter_cons_of_pos hloaded, cutPoint]
      split
      · rfl
      · exact ih
    · -- an empty reply has no output, and so no call
      have houtput : m.output = [] := by
        simp only [Message.loaded, Bool.or_eq_true, not_or, decide_eq_true_eq, not_not] at hloaded
        exact hloaded.2
      rw [List.filter_cons_of_neg hloaded, houtput, ih]
      rfl

theorem AllGiven.filter (h : AllGiven s messages) :
    AllGiven s (messages.filter Message.loaded) := fun m hm hl => h m (List.mem_filter.1 hm).1 hl

theorem Sound.filter (h : Sound rev) : Sound (rev.filter Message.loaded) := by
  induction rev with
  | nil => trivial
  | cons m before ih =>
    obtain ⟨hbefore, hsummary, hmarker⟩ := h
    by_cases hloaded : m.loaded
    · rw [List.filter_cons_of_pos hloaded]
      refine ⟨ih hbefore, fun s hs => (hsummary s hs).filter, fun callId s b hlast d e hcut hd => ?_⟩
      have hpoint := cutPoint_filter callId (m :: before)
      rw [List.filter_cons_of_pos hloaded, hcut] at hpoint
      -- the cut is where it was, with the empty replies in front of it left out
      obtain ⟨⟨d', e'⟩, hfound, hde⟩ := Option.map_eq_some_iff.1 hpoint.symm
      obtain ⟨rfl, rfl⟩ := Prod.mk.inj hde
      exact (hmarker callId s b hlast _ e' hfound hd).filter
    · rw [List.filter_cons_of_neg hloaded]
      exact ih hbefore

theorem MarkersFit.filter (h : MarkersFit rev) : MarkersFit (rev.filter Message.loaded) := by
  induction rev with
  | nil => trivial
  | cons m before ih =>
    obtain ⟨hbefore, hboundary⟩ := h
    by_cases hloaded : m.loaded
    · have hpoint := fun callId => cutPoint_filter callId (m :: before)
      rw [List.filter_cons_of_pos hloaded] at hpoint ⊢
      refine ⟨ih hbefore, fun k hk d hd => ?_⟩
      rw [hpoint, Option.mem_map] at hd
      obtain ⟨d', hd', rfl⟩ := hd
      exact hboundary k hk d' hd'
    · rw [List.filter_cons_of_neg hloaded]
      exact ih hbefore

structure Keeps (messages : List Message) (r : Result) (front back : List Message) : Prop where
  split : messages = front ++ back
  kept : back.map Message.bare = r.messages.map Message.bare
  given : GivenFor r.summary front
  /-- what is stored goes to the first of the messages that are kept -/
  stored : ∀ id s, r.stored = some (id, s) → r.summary = some s ∧ ∃ m, back.head? = some m ∧ ∀ i, m.id = some i → id = i

theorem givenFor_summarize (text : String) (compacted : List Message) (previous : Option Summary)
    (hfront : GivenFor previous front) (hmiddle : middle.map Message.origin = compacted.map Message.origin) :
    GivenFor (some (summarize text compacted previous)) (front ++ middle) := by
  intro m hm hl
  rw [Option.any_some, decide_eq_true_eq, summarize, List.mem_append]
  rcases List.mem_append.1 hm with hm | hm
  · right
    cases previous with
    | none => cases hfront m hm hl
    | some s => simpa using hfront m hm hl
  · left
    rw [← hmiddle]
    exact List.mem_map_of_mem hm

theorem compactMessagesForRequest_keeps {s : Settings} (hsound : Sound messages.reverse)
    (hfit : MarkersFit messages.reverse) (h : compactMessagesForRequest s userMessageId messages = some r) :
    ∃ front back, Keeps messages r front back := by
  rw [compactMessagesForRequest] at h
  by_cases henabled : s.enabled
  · simp only [henabled, Bool.not_true, Bool.false_eq_true, if_false] at h
    obtain ⟨front, back, hsplit, hbare, hgiven⟩ := applyLatestSummaryCheckpoint_spec hsound hfit
    generalize (applyLatestSummaryCheckpoint messages).1 = ms at h hbare
    generalize (applyLatestSummaryCheckpoint messages).2 = previous at h hgiven
    -- below the threshold, and without a boundary, the request stays as the checkpoint leaves it
    have hasIs : ∃ front back, Keeps messages ⟨ms, previous, false, none⟩ front back :=
      ⟨front, back, hsplit, hbare, hgiven, fun id s' hs => by cases hs⟩
    by_cases hexceeds : s.exceeds
    · simp only [hexceeds, Bool.not_true, Bool.false_eq_true, if_false] at h
      generalize findCompactionBoundary ms s.retentionPercentage = boundary at h
      split at h
      · rename_i m compacted first recent hfirst hrecent
        obtain ⟨text, -, rfl⟩ := Option.map_eq_some_iff.1 h
        -- the messages in front of the boundary join the dropped ones
        refine ⟨front ++ back.take boundary, back.drop boundary, ?_, ?_, ?_, ?_⟩
        · rw [List.append_assoc, List.take_append_drop, hsplit]
        · rw [List.map_drop, hbare, ← List.map_drop, hrecent]
        · refine givenFor_summarize text _ previous hgiven (origin_of_bare ?_)
          rw [List.map_take, hbare, ← List.map_take]
        intro id s' hstored
        split at hstored
        · cases hstored
          refine ⟨rfl, ?_⟩
          -- the summary is stored under the first message that is kept
          have hhead : (back.drop boundary).map Message.bare = (first :: recent).map Message.bare := by
            rw [List.map_drop, hbare, ← List.map_drop, hrecent]
          cases hdrop : back.drop boundary with
          | nil =>
            rw [hdrop] at hhead
            cases hhead
          | cons m' rest =>
            rw [hdrop] at hhead
            have hid : m'.id = first.id := by
              change m'.bare.id = first.bare.id
              rw [(List.cons.inj hhead).1]
            exact ⟨m', rfl, fun i hi => by rw [← hid, hi, Option.getD_some]⟩
        · cases hstored
      · cases h
        exact hasIs
    · simp only [hexceeds, Bool.not_false, if_true] at h
      cases h
      exact hasIs
  · simp only [henabled, Bool.not_false, if_true] at h
    cases h
    exact ⟨[], messages, rfl, rfl, fun m hm => (by cases hm), fun id s' hs => (by cases hs)⟩

theorem stored_of_not_compacted {s : Settings} (h : compactMessagesForRequest s userMessageId messages = some r)
    (hr : r.compacted = false) :
    r.stored = none := by
  simp only [compactMessagesForRequest] at h
  split at h
  · cases h
    rfl
  split at h
  · cases h
    rfl
  split at h
  · obtain ⟨text, -, rfl⟩ := Option.map_eq_some_iff.1 h
    cases hr
  · cases h
    rfl

/-! ## Storing a summary -/

def Message.store (id : String) (s : Summary) (m : Message) : Message :=
  if m.id = some id then { m with contextSummary := some s } else m

@[simp] theorem Message.store_id (id : String) (s : Summary) (m : Message) : (m.store id s).id = m.id := by
  rw [Message.store]
  split <;> rfl

@[simp] theorem Message.store_body (id : String) (s : Summary) (m : Message) : (m.store id s).body = m.body := by
  rw [Message.store]
  split <;> rfl

@[simp] theorem Message.store_output (id : String) (s : Summary) (m : Message) : (m.store id s).output = m.output := by
  rw [Message.store]
  split <;> rfl

@[simp] theorem Message.store_origin (id : String) (s : Summary) (m : Message) : (m.store id s).origin = m.origin := by
  rw [Message.store]
  split <;> rfl

@[simp] theorem Message.store_loaded (id : String) (s : Summary) (m : Message) : (m.store id s).loaded = m.loaded := by
  simp [Message.loaded, Message.isEmpty]

theorem allGiven_store (h : AllGiven s' messages) : AllGiven s' (messages.map (Message.store id s)) := by
  intro m hm hl
  obtain ⟨m', hm', rfl⟩ := List.mem_map.1 hm
  rw [Message.store_origin]
  exact h m' hm' (by rwa [Message.store_loaded] at hl)

theorem cutPoint_store (callId : Option String) (id : String) (s : Summary) (rev : List Message) :
    cutPoint callId (rev.map (Message.store id s)) =
      (cutPoint callId rev).map fun c => (c.1.store id s, c.2.map (Message.store id s)) := by
  induction rev with
  | nil => rfl
  | cons m before ih =>
    rw [List.map_cons, cutPoint, cutPoint, Message.store_output]
    split
    · rfl
    · exact ih

theorem Sound.store (h : Sound rev)
    (hgiven : ∀ pre m before, rev = pre ++ m :: before → m.id = some id → AllGiven s before) :
    Sound (rev.map (Message.store id s)) := by
  induction rev with
  | nil => trivial
  | cons m before ih =>
    obtain ⟨hbefore, hsummary, hmarker⟩ := h
    refine ⟨ih hbefore fun pre m' before' heq => hgiven (m :: pre) m' before' (by rw [heq]; rfl), ?_, ?_⟩
    · intro s' hs'
      by_cases hid : m.id = some id
      · have hstored : (m.store id s).contextSummary = some s := by rw [Message.store, if_pos hid]
        rw [Message.checkpoint, hstored, Option.filter_some] at hs'
        split at hs'
        · cases hs'
          exact allGiven_store (hgiven [] m before rfl hid)
        · cases hs'
      · rw [Message.store, if_neg hid] at hs'
        exact allGiven_store (hsummary s' hs')
    · intro callId s' b hlast d e hcut hd
      rw [← List.map_cons, cutPoint_store] at hcut
      obtain ⟨⟨d', e'⟩, hfound, hde⟩ := Option.map_eq_some_iff.1 hcut
      obtain ⟨rfl, rfl⟩ := Prod.mk.inj hde
      rw [Message.store_origin] at hd
      have hlast' : m.lastMarker = some (callId, s', b) := by
        rwa [Message.lastMarker, Message.store_output] at hlast
      exact allGiven_store (hmarker callId s' b hlast' d' e' hfound hd)

/-! ## Saved branches -/

def CallsFit (body : ChatMessage) : Prop := body.role = "assistant" ∨ body.toolCalls = none

structure SavedOk (branch : List Message) : Prop where
  ids : ∀ m ∈ branch, m.id = some m.origin
  distinct : (branch.map Message.origin).Nodup
  calls : ∀ m ∈ branch, CallsFit m.body
  sound : Sound branch.reverse

theorem SavedOk.eq_of_origin (h : SavedOk branch) (hm : m ∈ branch) (hm' : m' ∈ branch) (heq : m.origin = m'.origin) :
    m = m' :=
  List.inj_on_of_nodup_map h.distinct hm hm' heq

theorem SavedOk.mem_front (h : SavedOk branch) (hsplit : branch = pre ++ m :: post)
    (hloaded : branch.filter Message.loaded = front ++ back) (hhead : back.head? = some m')
    (horigin : m.origin = m'.origin) (hq : q ∈ pre) (hl : q.loaded) : q ∈ front := by
  obtain ⟨rest, rfl⟩ : ∃ rest, back = m' :: rest := by
    cases back with
    | nil => cases hhead
    | cons a rest => exact ⟨rest, by rw [Option.some.inj hhead]⟩
  have hmem' : m' ∈ branch.filter Message.loaded := by
    rw [hloaded]
    exact List.mem_append_right _ List.mem_cons_self
  obtain ⟨hmem', hl'⟩ := List.mem_filter.1 hmem'
  obtain rfl : m = m' := h.eq_of_origin (by rw [hsplit]; simp) hmem' horigin
  have hfilter : branch.filter Message.loaded =
      pre.filter Message.loaded ++ m :: post.filter Message.loaded := by
    rw [hsplit, List.filter_append, List.filter_cons_of_pos hl']
  have hnodup : branch.Nodup := h.distinct.of_map _
  rw [hsplit] at hnodup
  obtain ⟨-, hcons, hdisjoint⟩ := List.nodup_append.1 hnodup
  have hpre : m ∉ pre.filter Message.loaded := fun hin =>
    hdisjoint m (List.mem_filter.1 hin).1 m List.mem_cons_self rfl
  have hpost : m ∉ post.filter Message.loaded := fun hin =>
    (List.nodup_cons.1 hcons).1 (List.mem_filter.1 hin).1
  rw [hfilter] at hloaded
  -- the ids are distinct, so that the two ways to split at the message are one
  obtain ⟨rfl, -, -⟩ := (List.append_cons_inj_of_notMem hpre hpost).1 hloaded
  exact List.mem_filter.2 ⟨hq, hl⟩

theorem storeSummary_eq (id : String) (s : Summary) (branch : List Message) :
    storeSummary (some (id, s)) branch = branch.map (Message.store id s) := rfl

theorem SavedOk.store (h : SavedOk branch)
    (hgiven : ∀ pre m post, branch = pre ++ m :: post → m.origin = id → AllGiven s pre) :
    SavedOk (branch.map (Message.store id s)) where
  ids m hm := by
    obtain ⟨m', hm', rfl⟩ := List.mem_map.1 hm
    rw [Message.store_id, Message.store_origin]
    exact h.ids m' hm'
  distinct := by
    have hmap : (branch.map (Message.store id s)).map Message.origin = branch.map Message.origin := by
      rw [List.map_map]
      exact List.map_congr_left fun m _ => Message.store_origin id s m
    rw [hmap]
    exact h.distinct
  calls m hm := by
    obtain ⟨m', hm', rfl⟩ := List.mem_map.1 hm
    rw [Message.store_body]
    exact h.calls m' hm'
  sound := by
    rw [← List.map_reverse]
    refine h.sound.store fun pre m before heq hid => ?_
    have hsplit : branch = before.reverse ++ m :: pre.reverse := by
      rw [← List.reverse_reverse branch, heq]
      simp
    have horigin : m.origin = id := by
      have hm := h.ids m (by rw [hsplit]; simp)
      exact Option.some.inj (hm.symm.trans hid)
    exact fun q hq => hgiven before.reverse m pre.reverse hsplit horigin q (List.mem_reverse.2 hq)

theorem request_keeps (h : SavedOk branch) (hfit : MarkersFit branch.reverse) (s : Settings) (userMessageId : String) :
    ∃ front back, Keeps (branch.filter Message.loaded) (request s userMessageId branch) front back := by
  have hsound : Sound (branch.filter Message.loaded).reverse := by
    rw [← List.filter_reverse]
    exact h.sound.filter
  have hfit : MarkersFit (branch.filter Message.loaded).reverse := by
    rw [← List.filter_reverse]
    exact hfit.filter
  simp only [request]
  cases hrun : compactMessagesForRequest s userMessageId (branch.filter Message.loaded) with
  | none => exact ⟨[], _, rfl, rfl, fun m hm => (by cases hm), fun id s' hs => (by cases hs)⟩
  | some r => exact compactMessagesForRequest_keeps hsound hfit hrun

theorem Keeps.covered (h : Keeps messages r front back) (hids : ∀ m ∈ messages, m.id = some m.origin)
    (hloaded : ∀ m ∈ messages, m.loaded) :
    Request.Covered ⟨messages, r.messages, r.summary⟩ := by
  intro m hm
  have hsplit := h.split
  rw [hsplit] at hm
  rcases List.mem_append.1 hm with hfront | hback
  · right
    have hm : m ∈ messages := by rw [hsplit]; exact List.mem_append_left _ hfront
    have hgiven := h.given m hfront (hloaded m hm)
    rw [Option.any_eq_true] at hgiven ⊢
    obtain ⟨s, hs, hin⟩ := hgiven
    exact ⟨s, hs, List.any_eq_true.2 ⟨m.origin, of_decide_eq_true hin, by simp [hids m hm]⟩⟩
  · left
    rw [← id_of_bare h.kept]
    exact List.mem_map_of_mem hback

theorem Keeps.savedOk (hok : SavedOk branch) (h : Keeps (branch.filter Message.loaded) r front back) :
    SavedOk (storeSummary r.stored branch) := by
  cases hstored : r.stored with
  | none => exact hok
  | some stored =>
    obtain ⟨id, s⟩ := stored
    obtain ⟨hsummary, m', hhead, hid⟩ := h.stored id s hstored
    rw [storeSummary_eq]
    refine hok.store fun pre m post hsplit horigin q hq hl => ?_
    have hm' : m' ∈ branch := by
      have hin : m' ∈ branch.filter Message.loaded := by
        rw [h.split]
        exact List.mem_append_right _ (List.mem_of_mem_head? hhead)
      exact (List.mem_filter.1 hin).1
    have hfront := hok.mem_front hsplit h.split hhead
      (horigin.trans (hid m'.origin (hok.ids m' hm'))) hq hl
    simpa [hsummary] using h.given q hfront hl

/-! ## Messages of a model -/

section

variable {dumps : Json → String} {o : Options}

def CallsOfAssistant (messages : List ChatMessage) : Prop := ∀ m ∈ messages, CallsFit m

theorem CallsOfAssistant.append {xs ys : List ChatMessage} (hx : CallsOfAssistant xs) (hy : CallsOfAssistant ys) :
    CallsOfAssistant (xs ++ ys) := fun m hm => (List.mem_append.1 hm).elim (hx m) (hy m)

section

variable (h : CallsOfAssistant b.messages)

include h

theorem CallsOfAssistant.flushPending : CallsOfAssistant (flushPending o b).messages := by
  rw [OutputMessages.flushPending]
  split
  · exact h
  · refine h.append fun m hm => ?_
    obtain rfl := List.mem_singleton.1 hm
    exact .inl rfl

theorem CallsOfAssistant.flushToolImages : CallsOfAssistant (flushToolImages b).messages := by
  rw [OutputMessages.flushToolImages]
  split
  · exact h
  · refine h.append fun m hm => ?_
    obtain rfl := List.mem_singleton.1 hm
    exact .inr rfl

theorem CallsOfAssistant.flushToolOutputs : CallsOfAssistant (flushToolOutputs o b).messages := by
  rw [OutputMessages.flushToolOutputs]
  split
  · exact h
  · refine h.flushPending.append fun m hm => ?_
    obtain ⟨r, -, rfl⟩ := List.mem_map.1 hm
    exact .inr rfl

theorem callsOfAssistant_foldl (items : List OutputItem) :
    CallsOfAssistant (items.foldl (OutputMessages.step dumps o) b).messages := by
  induction items generalizing b with
  | nil => exact h
  | cons item items ih =>
    refine ih ?_
    rw [OutputMessages.step, addItem_messages]
    split
    · exact h.flushToolOutputs.flushToolImages
    · exact h

end

theorem callsOfAssistant_convert (output : List OutputItem) :
    CallsOfAssistant (convertOutputToMessages dumps o output) := by
  rw [convertOutputToMessages]
  split
  · exact fun m hm => (by cases hm)
  have hrebuilt : CallsOfAssistant (rebuiltMessages dumps o output) :=
    (callsOfAssistant_foldl (fun m hm => (by cases hm)) output).flushToolOutputs.flushToolImages.flushPending
  intro m hm
  rw [reconcileToolPairs, List.reduceOption_mem_iff, outcomes, ← List.map_uncurry_zip_eq_zipWith, List.mem_map] at hm
  obtain ⟨⟨m', ids⟩, hin, hm⟩ := hm
  simp only [Function.uncurry_apply_pair] at hm
  have hm' := hrebuilt m' (List.of_mem_zip hin).1
  rw [reconcileMessage] at hm
  rw [CallsFit] at hm' ⊢
  split at hm
  · cases hm
  · grind

structure Plain (m : Message) : Prop where
  contextSummary : m.contextSummary = none
  output : m.output = []
  calls : CallsFit m.body

theorem mem_processMessage (hm : CallsFit m.body) (h : p ∈ processMessage dumps o m) :
    p.origin = m.origin ∧ Plain p := by
  have hclean : m.clean.origin = m.origin ∧ Plain m.clean := ⟨rfl, rfl, rfl, hm⟩
  rw [processMessage] at h
  split at h
  · split at h
    · split at h
      · cases h
      · rw [List.mem_singleton.1 h]
        exact hclean
    · obtain ⟨body, hbody, rfl⟩ := List.mem_map.1 h
      exact ⟨rfl, rfl, rfl, callsOfAssistant_convert _ body hbody⟩
  · rw [List.mem_singleton.1 h]
    exact hclean

theorem sanitizeMessage_eq_some (h : sanitizeMessage m ids = some m') :
    m'.origin = m.origin ∧ (Plain m → Plain m') := by
  rw [sanitizeMessage] at h
  split at h
  · rename_i hheads
    have hrole : m.body.role = "assistant" := (ChatMessage.heads_iff.1 hheads).1
    simp only at h
    split at h
    · cases h
      exact ⟨rfl, fun hp => ⟨hp.contextSummary, hp.output, .inl hrole⟩⟩
    · split at h
      · cases h
      · cases h
        exact ⟨rfl, fun hp => ⟨hp.contextSummary, hp.output, .inr rfl⟩⟩
  · split at h
    · cases h
    · cases h
      exact ⟨rfl, id⟩

theorem processMessages_pairwise {R : String → String → Prop} (hrefl : ∀ a, R a a) (hcalls : ∀ m ∈ ms, CallsFit m.body)
    (h : ms.Pairwise fun p q => R p.origin q.origin) :
    (processMessages dumps o ms).Pairwise fun p q => R p.origin q.origin := by
  have hflat : (ms.flatMap (processMessage dumps o)).Pairwise fun p q => R p.origin q.origin := by
    refine List.pairwise_flatMap.2 ⟨fun m hm => ?_, ?_⟩
    · refine List.pairwise_of_forall_mem_list fun p hp q hq => ?_
      rw [(mem_processMessage (hcalls m hm) hp).1, (mem_processMessage (hcalls m hm) hq).1]
      exact hrefl _
    · refine h.imp_of_mem fun {m m'} hm hm' hr p hp q hq => ?_
      rw [(mem_processMessage (hcalls m hm) hp).1, (mem_processMessage (hcalls m' hm') hq).1]
      exact hr
  rw [processMessages, sanitizeToolPairs]
  generalize getPairedToolCallIds _ = ids
  have hzip : ((ms.flatMap (processMessage dumps o)).zip ids).Pairwise fun p q => R p.1.origin q.1.origin := by
    generalize ms.flatMap (processMessage dumps o) = pieces at hflat
    have hsub : ((pieces.zip ids).map Prod.fst).Sublist pieces := by
      induction pieces generalizing ids with
      | nil => exact List.Sublist.refl _
      | cons p pieces ih =>
        cases ids with
        | nil => exact List.nil_sublist _
        | cons i ids => exact (ih ids (List.pairwise_cons.1 hflat).2).cons_cons p
    have hfst := hflat.sublist hsub
    rwa [List.pairwise_map] at hfst
  refine hzip.filterMap _ fun p q hr p' hp' q' hq' => ?_
  rw [(sanitizeMessage_eq_some hp').1, (sanitizeMessage_eq_some hq').1]
  exact hr

theorem mem_processMessages (hcalls : ∀ m ∈ ms, CallsFit m.body) (h : p ∈ processMessages dumps o ms) :
    Plain p ∧ ∃ m ∈ ms, p.origin = m.origin := by
  rw [processMessages, sanitizeToolPairs] at h
  obtain ⟨⟨q, ids⟩, hq, hp⟩ := List.mem_filterMap.1 h
  obtain ⟨m, hm, hq⟩ := List.mem_flatMap.1 (List.of_mem_zip hq).1
  obtain ⟨horigin, hplain⟩ := mem_processMessage (hcalls m hm) hq
  obtain ⟨horigin', hplain'⟩ := sanitizeMessage_eq_some hp
  exact ⟨hplain' hplain, m, hm, horigin'.trans horigin⟩

end

theorem mem_indices {p : Message → Bool} (h : n ∈ indices p messages) : ∃ m, messages[n]? = some m ∧ p m := by
  obtain ⟨⟨m, n'⟩, hm, rfl⟩ := List.mem_map.1 h
  obtain ⟨hm, hp⟩ := List.mem_filter.1 hm
  exact ⟨m, List.mk_mem_zipIdx_iff_getElem?.1 hm, hp⟩

theorem indices_ascending (p : Message → Bool) (messages : List Message) : (indices p messages).Pairwise (· < ·) := by
  have hzip : (messages.zipIdx.map (·.2)).Pairwise (· < ·) := by
    rw [List.zipIdx_map_snd]
    exact List.pairwise_lt_range'
  exact hzip.sublist (List.filter_sublist.map _)

theorem mem_drop_one_indices {p : Message → Bool} (h : n ∈ (indices p messages).drop 1) :
    1 ≤ n ∧ ∃ m, messages[n]? = some m ∧ p m := by
  refine ⟨?_, mem_indices (List.mem_of_mem_drop h)⟩
  have hasc := indices_ascending p messages
  cases hindices : indices p messages with
  | nil =>
    rw [hindices] at h
    cases h
  | cons first rest =>
    rw [hindices] at h hasc
    have hlt := (List.pairwise_cons.1 hasc).1 n h
    omega

theorem findCompactionBoundary_spec (retentionPercentage : Int) (htool : messages.any fun m => m.body.isTool) :
    findCompactionBoundary messages retentionPercentage = 0 ∨
      1 ≤ findCompactionBoundary messages retentionPercentage ∧
        ∃ m, messages[findCompactionBoundary messages retentionPercentage]? = some m ∧ m.body.heads := by
  simp only [findCompactionBoundary, htool, if_true]
  generalize max 1 (messages.length - _) = target
  cases hfind : (((indices (fun m => m.body.heads) messages).drop 1).reverse.find? (· ≤ target)) with
  | none => exact .inl rfl
  | some n => exact .inr (mem_drop_one_indices (List.mem_reverse.1 (List.mem_of_find?_eq_some hfind)))

structure Answers (messages : List Message) (i j : Nat) : Prop where
  lt : i < j
  asked : ∃ m t, messages[i]? = some m ∧ messages[j]? = some t ∧ m.body.heads ∧ t.body.isTool ∧
    t.body.toolCallId ∈ m.body.calls.map (·.id)
  nearest : ∀ k m, i < k → k ≤ j → messages[k]? = some m → ¬m.body.heads

theorem not_separated (messages : List Message) (retentionPercentage : Int) (h : Answers messages i j) :
    ¬(i < findCompactionBoundary messages retentionPercentage ∧
      findCompactionBoundary messages retentionPercentage ≤ j) := by
  rintro ⟨hi, hj⟩
  obtain ⟨m, t, -, ht, -, htool, -⟩ := h.asked
  have hany : messages.any fun m => m.body.isTool := List.any_eq_true.2 ⟨t, List.mem_of_getElem? ht, htool⟩
  rcases findCompactionBoundary_spec retentionPercentage hany with
    hzero | ⟨-, m', hm', hheads⟩
  · omega
  · exact h.nearest _ m' hi hj hm' hheads

/-! ## The tool loop -/

theorem applyLatestSummaryCheckpoint_plain (hfront : front.length ≤ 1)
    (houtput : ∀ m ∈ front ++ tail, m.output = []) (htail : ∀ m ∈ tail, m.contextSummary = none) :
    (applyLatestSummaryCheckpoint (front ++ tail)).1 = front ++ tail := by
  have hlast : ∀ m : Message, m.output = [] → m.lastMarker = none := fun m hm => by
    rw [Message.lastMarker, hm]
    rfl
  -- the last messages have no checkpoint
  have hskip : ∀ (rev after : List Message), (∀ m ∈ rev, m.output = [] ∧ m.contextSummary = none) →
      latestCheckpoint (rev ++ front.reverse) after = latestCheckpoint front.reverse (rev.reverse ++ after) := by
    intro rev
    induction rev with
    | nil => exact fun _ _ => rfl
    | cons m rev ih =>
      intro after hrev
      obtain ⟨hm, hrest⟩ := List.forall_mem_cons.1 hrev
      -- the walk goes on to the message in front
      have hcheck : m.checkpoint = none := by rw [Message.checkpoint, hm.2]; rfl
      rw [List.cons_append, latestCheckpoint, hcheck]
      simp only [hlast m hm.1]
      rw [ih _ hrest]
      simp
  have hplain : ∀ m ∈ tail.reverse, m.output = [] ∧ m.contextSummary = none := fun m hm =>
    ⟨houtput m (List.mem_append_right _ (List.mem_reverse.1 hm)), htail m (List.mem_reverse.1 hm)⟩
  rw [applyLatestSummaryCheckpoint, List.reverse_append, hskip tail.reverse [] hplain, List.reverse_reverse,
    List.append_nil]
  cases front with
  | nil => rfl
  | cons p rest =>
    obtain rfl : rest = [] := List.length_eq_zero_iff.1 (by simpa using hfront)
    have hp := hlast p (houtput p (List.mem_append_left _ List.mem_cons_self))
    simp only [List.reverse_singleton, latestCheckpoint, hp]
    cases p.checkpoint with
    | none => rfl
    | some s => rfl

def position (asked : List Message) (reply id : String) : Nat := (asked.map Message.origin ++ [reply]).idxOf id

/-- The messages of the loop, with one tool result; the others were given for the summary. -/
def AtHand (asked messages : List Message) : Prop :=
  (messages.any fun m => m.body.isTool) ∧
    ∀ m ∈ asked, m.loaded → m.origin ∈ messages.map Message.origin ∨
      (applyLatestSummaryCheckpoint messages).2.any fun s => m.origin ∈ s.given

instance (asked messages : List Message) : Decidable (AtHand asked messages) :=
  inferInstanceAs (Decidable (_ ∧ ∀ m ∈ asked, _))

section

variable (dumps : Json → String) (o : Options) (asked : List Message) (user reply : String)

def RoundOk (l : Loop) (r : Round) : Prop :=
  (compactMessagesForRequest r.settings user (l.extended dumps o reply r)).any (·.compacted) →
    AtHand asked (l.extended dumps o reply r)

def RoundsOk (prompt : Option Message) : Loop → List Round → Prop
  | _, [] => True
  | l, r :: rest =>
    RoundOk dumps o asked user reply l r ∧ RoundsOk prompt (l.round dumps o user reply prompt r) rest

end

/-- Between two rounds the messages are in the order of the chat, behind the prompt, and the markers
stand for what lies in front of their calls. -/
structure LoopOk (asked : List Message) (reply : String) (l : Loop) : Prop where
  shape : ∃ front tail, l.messages = front ++ tail ∧ front.length ≤ 1 ∧
    (∀ m ∈ tail, m.contextSummary = none ∧ position asked reply m.origin ≤ asked.length) ∧
    tail.Pairwise fun p q => position asked reply p.origin ≤ position asked reply q.origin
  plain : ∀ m ∈ l.messages, m.output = []
  markers : ∀ callId s b, Item.marker callId s b ∈ l.output → ∀ q ∈ asked, q.loaded →
    position asked reply q.origin < position asked reply b → q.origin ∈ s.given

theorem compacted_cases {s : Settings} (h : compactMessagesForRequest s userMessageId messages = some r)
    (hr : r.compacted = true) :
    ∃ text first recent,
      (applyLatestSummaryCheckpoint messages).1.drop
          (findCompactionBoundary (applyLatestSummaryCheckpoint messages).1 s.retentionPercentage) =
        first :: recent ∧
      (applyLatestSummaryCheckpoint messages).1.take
          (findCompactionBoundary (applyLatestSummaryCheckpoint messages).1 s.retentionPercentage) ≠ [] ∧
      r = ⟨first :: recent, some (summarize text ((applyLatestSummaryCheckpoint messages).1.take
          (findCompactionBoundary (applyLatestSummaryCheckpoint messages).1 s.retentionPercentage))
          (applyLatestSummaryCheckpoint messages).2), true,
        if first.isUser then some (first.id.getD userMessageId, summarize text
          ((applyLatestSummaryCheckpoint messages).1.take
            (findCompactionBoundary (applyLatestSummaryCheckpoint messages).1 s.retentionPercentage))
          (applyLatestSummaryCheckpoint messages).2) else none⟩ := by
  simp only [compactMessagesForRequest] at h
  split at h
  · cases h
    cases hr
  split at h
  · cases h
    cases hr
  split at h
  · rename_i m compacted first recent hfirst hrecent
    obtain ⟨text, -, rfl⟩ := Option.map_eq_some_iff.1 h
    exact ⟨text, first, recent, hrecent, fun hnil => (by rw [hnil] at hfirst; cases hfirst), rfl⟩
  · cases h
    cases hr

theorem messages_of_not_compacted {s : Settings} (h : compactMessagesForRequest s userMessageId messages = some r)
    (hr : r.compacted = false) :
    r.messages = messages ∨ r.messages = (applyLatestSummaryCheckpoint messages).1 := by
  simp only [compactMessagesForRequest] at h
  split at h
  · cases h
    exact .inl rfl
  split at h
  · cases h
    exact .inr rfl
  split at h
  · obtain ⟨text, -, rfl⟩ := Option.map_eq_some_iff.1 h
    cases hr
  · cases h
    exact .inr rfl

section Rounds

variable {dumps : Json → String} {o : Options} {asked : List Message} {user reply : String}
  {prompt : Option Message} {l : Loop} {r : Round}

theorem position_reply (hreply : reply ∉ asked.map Message.origin) : position asked reply reply = asked.length := by
  rw [position, List.idxOf_append_of_notMem hreply]
  simp

theorem LoopOk.extended (dumps : Json → String) (o : Options) (r : Round) (h : LoopOk asked reply l)
    (hreply : reply ∉ asked.map Message.origin) :
    LoopOk asked reply ⟨l.extended dumps o reply r, l.output ++ r.items.map .item, l.branch⟩ := by
  obtain ⟨front, tail, hsplit, hfront, htail, horder⟩ := h.shape
  have hrebuilt : ∀ m ∈ (convertOutputToMessages dumps o r.items).map (rebuilt reply),
      m.contextSummary = none ∧ m.output = [] ∧ m.origin = reply := by
    intro m hm
    obtain ⟨body, -, rfl⟩ := List.mem_map.1 hm
    exact ⟨rfl, rfl, rfl⟩
  refine ⟨⟨front, tail ++ (convertOutputToMessages dumps o r.items).map (rebuilt reply), ?_, hfront, ?_, ?_⟩,
    ?_, ?_⟩
  · rw [Loop.extended, hsplit, List.append_assoc]
  · intro m hm
    rcases List.mem_append.1 hm with hm | hm
    · exact htail m hm
    · obtain ⟨hsummary, -, horigin⟩ := hrebuilt m hm
      exact ⟨hsummary, by rw [horigin, position_reply hreply]⟩
  · refine List.pairwise_append.2 ⟨horder, ?_, ?_⟩
    · refine List.pairwise_of_forall_mem_list fun p hp q hq => ?_
      rw [(hrebuilt p hp).2.2, (hrebuilt q hq).2.2]
    · intro p hp q hq
      rw [(hrebuilt q hq).2.2, position_reply hreply]
      exact (htail p hp).2
  · intro m hm
    rcases List.mem_append.1 hm with hm | hm
    · exact h.plain m hm
    · exact (hrebuilt m hm).2.1
  · intro callId s b hmarker
    rcases List.mem_append.1 hmarker with hmarker | hmarker
    · exact h.markers callId s b hmarker
    · obtain ⟨item, -, hitem⟩ := List.mem_map.1 hmarker
      cases hitem

theorem given_of_atHand (hsplit : messages = front ++ tail) (hfront : front.length ≤ boundary)
    (horder : tail.Pairwise fun p q => position asked reply p.origin ≤ position asked reply q.origin)
    (hdrop : messages.drop boundary = first :: recent) {q : Message}
    (hhand : q.origin ∈ messages.map Message.origin ∨ previous.any fun s => q.origin ∈ s.given)
    (hq : position asked reply q.origin < position asked reply first.origin) :
    q.origin ∈ (summarize text (messages.take boundary) previous).given := by
  rw [summarize, List.mem_append]
  rcases hhand with hmem | hgiven
  · left
    obtain ⟨p, hp, horigin⟩ := List.mem_map.1 hmem
    rw [← List.take_append_drop boundary messages] at hp
    rcases List.mem_append.1 hp with hp | hp
    · rw [← horigin]
      exact List.mem_map_of_mem hp
    -- behind the boundary nothing comes from further in front
    have hrecent : (first :: recent).Pairwise fun p q =>
        position asked reply p.origin ≤ position asked reply q.origin := by
      rw [← hdrop, hsplit, List.drop_append, List.drop_eq_nil_of_le hfront, List.nil_append]
      exact horder.sublist (List.drop_sublist _ _)
    rw [hdrop] at hp
    rw [← horigin] at hq
    rcases List.mem_cons.1 hp with rfl | hp
    · exact absurd hq (lt_irrefl _)
    · exact absurd ((List.pairwise_cons.1 hrecent).1 p hp) (by omega)
  · right
    cases previous with
    | none => cases hgiven
    | some s => simpa using hgiven

def PromptOk (prompt : Option Message) : Prop := ∀ p ∈ prompt, p.isUser ∧ p.output = [] ∧ p.body.calls = []

theorem mark_eq (hprompt : PromptOk prompt) (hheads : first.body.heads) (recent : List Message)
    (summary : Summary) (l : Loop) :
    ∃ front rest callId, (l.mark prompt (first :: recent) summary).messages = front ++ rest ∧ front.length ≤ 1 ∧
      (∀ m ∈ front, m.output = [] ∨ m.output = first.output) ∧ rest.Sublist (first :: recent) ∧
      (l.mark prompt (first :: recent) summary).output = l.output ++ [.marker callId summary first.origin] ∧
      (l.mark prompt (first :: recent) summary).branch = l.branch := by
  obtain ⟨hrole, hcalls⟩ := ChatMessage.heads_iff.1 hheads
  cases prompt with
  | none =>
    have hfilter : (first :: recent).filter (fun m => !(none : Option Message).any m.same) = first :: recent :=
      List.filter_eq_self.2 fun _ _ => rfl
    have hfind : ({ first with contextSummary := some summary } :: recent).find? (fun m => m.body.calls ≠ []) =
        some { first with contextSummary := some summary } := by simp [hcalls]
    have hmark : l.mark none (first :: recent) summary =
        ⟨{ first with contextSummary := some summary } :: recent,
          l.output ++ [.marker (first.body.calls.head?.bind (·.id)) summary first.origin], l.branch⟩ := by
      rw [Loop.mark, hfilter]
      simp only [Option.toList_none, List.nil_append, hfind]
    rw [hmark]
    refine ⟨[{ first with contextSummary := some summary }], recent, _, rfl, le_refl _, ?_,
      List.sublist_cons_self _ _, rfl, rfl⟩
    intro m hm
    obtain rfl := List.mem_singleton.1 hm
    exact .inr rfl
  | some p =>
    obtain ⟨huser, houtput, hnone⟩ := hprompt p rfl
    -- the prompt is of the user, and the boundary of the assistant
    have hdiffers : (!(some p).any first.same) = true := by
      simp only [Option.any_some, Message.same, Bool.not_eq_true', beq_eq_false_iff_ne, ne_eq]
      intro heq
      have hbody : first.body.role = p.body.role := by rw [← heq]
      rw [Message.isUser, ← hbody, hrole] at huser
      exact absurd huser (by decide)
    have hfilter : (first :: recent).filter (fun m => !(some p).any m.same) =
        first :: recent.filter fun m => !(some p).any m.same := List.filter_cons_of_pos hdiffers
    have hfind : ({ p with contextSummary := some summary } :: first ::
        recent.filter fun m => !(some p).any m.same).find? (fun m => m.body.calls ≠ []) = some first := by
      simp [hcalls, hnone]
    have hmark : l.mark (some p) (first :: recent) summary =
        ⟨{ p with contextSummary := some summary } :: first :: recent.filter fun m => !(some p).any m.same,
          l.output ++ [.marker (first.body.calls.head?.bind (·.id)) summary first.origin], l.branch⟩ := by
      rw [Loop.mark, hfilter]
      simp only [Option.toList_some, List.singleton_append, hfind]
    rw [hmark]
    refine ⟨[{ p with contextSummary := some summary }], first :: recent.filter fun m => !(some p).any m.same,
      _, rfl, le_refl _, ?_, (List.filter_sublist).cons_cons first, rfl, rfl⟩
    intro m hm
    obtain rfl := List.mem_singleton.1 hm
    exact .inl houtput

theorem LoopOk.round (h : LoopOk asked reply l) (hreply : reply ∉ asked.map Message.origin)
    (hprompt : PromptOk prompt) (hok : RoundOk dumps o asked user reply l r) :
    LoopOk asked reply (l.round dumps o user reply prompt r) ∧
      (l.round dumps o user reply prompt r).branch = l.branch := by
  have hext := LoopOk.extended dumps o r h hreply
  obtain ⟨front, tail, hsplit, hfront, htail, horder⟩ := hext.shape
  rw [RoundOk] at hok
  rw [Loop.round]
  generalize l.extended dumps o reply r = messages at hext hok hsplit
  have happly : (applyLatestSummaryCheckpoint messages).1 = messages := by
    rw [show messages = front ++ tail from hsplit]
    exact applyLatestSummaryCheckpoint_plain hfront (fun m hm => hext.plain m (by rw [hsplit]; exact hm))
      fun m hm => (htail m hm).1
  cases hrun : compactMessagesForRequest r.settings user messages with
  | none => exact ⟨hext, rfl⟩
  | some result =>
    rw [hrun, Option.any_some] at hok
    cases hcompacted : result.compacted with
    | false =>
      have hmessages : result.messages = messages := by
        rcases messages_of_not_compacted hrun hcompacted with heq | heq
        · exact heq
        · exact heq.trans happly
      have hstored := stored_of_not_compacted hrun hcompacted
      simp only [hcompacted, hmessages, hstored]
      exact ⟨hext, rfl⟩
    | true =>
      obtain ⟨htool, hall⟩ := hok hcompacted
      obtain ⟨text, first, recent, hdrop, htake, hresult⟩ := compacted_cases hrun hcompacted
      rw [happly] at hdrop htake hresult
      generalize hboundary : findCompactionBoundary messages r.settings.retentionPercentage = boundary
        at hdrop htake hresult
      -- the boundary is an assistant message with tool calls
      obtain ⟨hone, hheads⟩ : 1 ≤ boundary ∧ first.body.heads := by
        rcases findCompactionBoundary_spec r.settings.retentionPercentage htool with
          hzero | ⟨hone, m, hm, hheads⟩
        · rw [hboundary] at hzero
          exact absurd (by rw [hzero]; rfl) htake
        rw [hboundary] at hone hm
        have hfirst : (messages.drop boundary)[0]? = some m := by rw [List.getElem?_drop]; exact hm
        rw [hdrop] at hfirst
        cases hfirst
        exact ⟨hone, hheads⟩
      have hrole := (ChatMessage.heads_iff.1 hheads).1
      have huser : first.isUser = false := by
        rw [Message.isUser, hrole]
        rfl
      rw [hresult, huser]
      simp only [Bool.false_eq_true, if_false, storeSummary]
      obtain ⟨front', rest, callId, hmessages, hlength, houtputs, hsub, hmarked, hbranch⟩ :=
        mark_eq hprompt hheads recent (summarize text (messages.take boundary)
          (applyLatestSummaryCheckpoint messages).2) ⟨first :: recent, l.output ++ r.items.map .item, l.branch⟩
      have hback : rest.Sublist tail := by
        have hdropped : messages.drop boundary = tail.drop (boundary - front.length) := by
          rw [show messages = front ++ tail from hsplit, List.drop_append,
            List.drop_eq_nil_of_le (by omega), List.nil_append]
        rw [← hdrop, hdropped] at hsub
        exact hsub.trans (List.drop_sublist _ _)
      -- of the messages of the round only the first one gets a summary
      have hplain : ∀ m ∈ first :: recent, m.output = [] := fun m hm =>
        hext.plain m (List.mem_of_mem_drop (hdrop ▸ hm))
      refine ⟨⟨⟨front', rest, hmessages, hlength, fun m hm => htail m (hback.subset hm),
        horder.sublist hback⟩, ?_, ?_⟩, hbranch⟩
      · intro m hm
        rw [hmessages] at hm
        rcases List.mem_append.1 hm with hm | hm
        · exact (houtputs m hm).elim id fun heq => heq.trans (hplain first List.mem_cons_self)
        · exact hplain m (hsub.subset hm)
      · intro callId' s b hmarker
        rw [hmarked] at hmarker
        rcases List.mem_append.1 hmarker with hmarker | hmarker
        · exact hext.markers callId' s b hmarker
        · obtain ⟨-, rfl, rfl⟩ := Item.marker.inj (List.mem_singleton.1 hmarker)
          intro q hq hl hlt
          exact given_of_atHand hsplit (by omega) horder hdrop (hall q hq hl) hlt

theorem LoopOk.rounds {rounds : List Round} (h : LoopOk asked reply l) (hreply : reply ∉ asked.map Message.origin)
    (hprompt : PromptOk prompt) (hok : RoundsOk dumps o asked user reply prompt l rounds) :
    LoopOk asked reply (rounds.foldl (Loop.round dumps o user reply prompt) l) ∧
      (rounds.foldl (Loop.round dumps o user reply prompt) l).branch = l.branch := by
  induction rounds generalizing l with
  | nil => exact ⟨h, rfl⟩
  | cons r rest ih =>
    obtain ⟨hround, hbranch⟩ := h.round hreply hprompt hok.1
    obtain ⟨hloop, hbranch'⟩ := ih hround hok.2
    exact ⟨hloop, hbranch'.trans hbranch⟩

theorem position_pairwise {ids : List String} (h : ids.Nodup) : ids.Pairwise fun a b => ids.idxOf a < ids.idxOf b := by
  refine List.pairwise_iff_getElem.2 fun i j hi hj hlt => ?_
  rw [h.idxOf_getElem, h.idxOf_getElem]
  exact hlt

theorem nodup_reply (hdistinct : (asked.map Message.origin).Nodup) (hreply : reply ∉ asked.map Message.origin) :
    (asked.map Message.origin ++ [reply]).Nodup :=
  List.nodup_append.2 ⟨hdistinct, List.nodup_singleton _, fun a ha b hb hab =>
    hreply (by rw [← List.mem_singleton.1 hb, ← hab]; exact ha)⟩

theorem loopOk_start (dumps : Json → String) (o : Options) (branch : List Message) {result : Result}
    (hasked : SavedOk asked) (hreply : reply ∉ asked.map Message.origin)
    (hkeeps : Keeps (asked.filter Message.loaded) result front back) :
    LoopOk asked reply ⟨processMessages dumps o result.messages, [], branch⟩ ∧
      PromptOk (lastUserMessage (processMessages dumps o result.messages)) := by
  have hsub : (result.messages.map Message.bare).Sublist (asked.map Message.bare) := by
    rw [← hkeeps.kept]
    refine List.Sublist.map _ (List.Sublist.trans ?_ (List.filter_sublist (p := Message.loaded)))
    rw [hkeeps.split]
    exact List.sublist_append_right _ _
  have hmem : ∀ m ∈ result.messages, ∃ m' ∈ asked, m'.body = m.body ∧ m'.origin = m.origin := by
    intro m hm
    obtain ⟨m', hm', hbare⟩ := List.mem_map.1 (hsub.subset (List.mem_map_of_mem hm))
    have hbody : m'.bare.body = m.bare.body := by rw [hbare]
    have horigin : m'.bare.origin = m.bare.origin := by rw [hbare]
    exact ⟨m', hm', hbody, horigin⟩
  have hcalls : ∀ m ∈ result.messages, CallsFit m.body := by
    intro m hm
    obtain ⟨m', hm', hbody, -⟩ := hmem m hm
    rw [← hbody]
    exact hasked.calls m' hm'
  have hplain : ∀ m ∈ processMessages dumps o result.messages, Plain m := fun m hm =>
    (mem_processMessages hcalls hm).1
  have horder : result.messages.Pairwise fun p q =>
      position asked reply p.origin ≤ position asked reply q.origin := by
    have hids := (position_pairwise (nodup_reply hasked.distinct hreply)).sublist
      (List.sublist_append_left (asked.map Message.origin) [reply])
    have horigins : (result.messages.map Message.origin).Sublist (asked.map Message.origin) := by
      have hmap := hsub.map Message.origin
      rwa [List.map_map, List.map_map] at hmap
    exact (List.pairwise_map.1 (hids.sublist horigins)).imp fun hlt => Nat.le_of_lt hlt
  refine ⟨⟨⟨[], _, rfl, Nat.zero_le _, fun m hm => ⟨(hplain m hm).contextSummary, ?_⟩,
    processMessages_pairwise (R := fun a b => position asked reply a ≤ position asked reply b)
      (fun _ => le_refl _) hcalls horder⟩, fun m hm => (hplain m hm).output, fun _ _ _ hm => (by cases hm)⟩, ?_⟩
  · obtain ⟨-, p, hp, horigin⟩ := mem_processMessages hcalls hm
    obtain ⟨p', hp', -, horigin'⟩ := hmem p hp
    have hin : m.origin ∈ asked.map Message.origin := by
      rw [horigin, ← horigin']
      exact List.mem_map_of_mem hp'
    rw [position, List.idxOf_append_of_mem hin, ← List.length_map (f := Message.origin)]
    exact Nat.le_of_lt (List.idxOf_lt_length_of_mem hin)
  · intro p hp
    have hin : p ∈ processMessages dumps o result.messages := List.mem_reverse.1 (List.mem_of_find?_eq_some hp)
    have huser : p.isUser := List.find?_some hp
    refine ⟨huser, (hplain p hin).output, ?_⟩
    rcases (hplain p hin).calls with hrole | hnone
    · rw [Message.isUser, hrole] at huser
      exact absurd huser (by decide)
    · rw [ChatMessage.calls, hnone]
      rfl

end Rounds

theorem cutPoint_split (h : cutPoint callId rev = some (d, e)) : ∃ pre, rev = pre ++ d :: e := by
  induction rev with
  | nil => cases h
  | cons m before ih =>
    rw [cutPoint] at h
    split at h
    · cases h
      exact ⟨[], rfl⟩
    · obtain ⟨pre, rfl⟩ := ih h
      exact ⟨m :: pre, rfl⟩

theorem SavedOk.append {branch : List Message} (h : SavedOk branch) {m : Message} (hid : m.id = some m.origin)
    (hnew : m.origin ∉ branch.map Message.origin) (hcalls : CallsFit m.body) (hsummary : m.contextSummary = none)
    (hmarker : ∀ callId s b, m.lastMarker = some (callId, s, b) → ∀ pre d e,
      (branch ++ [m]).reverse = pre ++ d :: e → d.origin = b → AllGiven s e) : SavedOk (branch ++ [m]) where
  ids := List.forall_mem_append.2 ⟨h.ids, fun m' hm' => by rw [List.mem_singleton.1 hm']; exact hid⟩
  distinct := by
    rw [List.map_append]
    exact nodup_reply h.distinct hnew
  calls := List.forall_mem_append.2 ⟨h.calls, fun m' hm' => by rw [List.mem_singleton.1 hm']; exact hcalls⟩
  sound := by
    rw [List.reverse_append]
    refine ⟨h.sound, fun s hs => ?_, fun callId s b hlast d e hcut hd => ?_⟩
    · rw [Message.checkpoint, hsummary] at hs
      cases hs
    · obtain ⟨pre, hsplit⟩ := cutPoint_split hcut
      exact hmarker callId s b hlast pre d e (by rw [List.reverse_append]; exact hsplit) hd

theorem mem_storeSummary (h : m ∈ storeSummary stored branch) :
    ∃ m' ∈ branch, m'.origin = m.origin ∧ m'.loaded = m.loaded := by
  cases stored with
  | none => exact ⟨m, h, rfl, rfl⟩
  | some stored =>
    obtain ⟨id, s⟩ := stored
    rw [storeSummary_eq] at h
    obtain ⟨m', hm', rfl⟩ := List.mem_map.1 h
    exact ⟨m', hm', (Message.store_origin id s m').symm, (Message.store_loaded id s m').symm⟩

theorem origin_storeSummary (stored : Option (String × Summary)) (branch : List Message) :
    (storeSummary stored branch).map Message.origin = branch.map Message.origin := by
  cases stored with
  | none => rfl
  | some stored =>
    rw [storeSummary_eq, List.map_map]
    exact List.map_congr_left fun m _ => Message.store_origin stored.1 stored.2 m

theorem LoopOk.given (h : LoopOk asked reply l)
    (hnodup : (asked.map Message.origin ++ [reply]).Nodup) {b : String} (hmarker : Item.marker callId s b ∈ l.output)
    (hreply : m.origin = reply) {d : Message}
    (hsplit : (storeSummary stored asked ++ [m]).reverse = pre ++ d :: e) (hd : d.origin = b) : AllGiven s e := by
  have hids : (storeSummary stored asked ++ [m]).map Message.origin = asked.map Message.origin ++ [reply] := by
    rw [List.map_append, origin_storeSummary, ← hreply]
    rfl
  have horder : (d :: e).Pairwise fun p q => position asked reply q.origin < position asked reply p.origin := by
    -- storing a summary moves no message, and the reply comes last
    have hpairwise := position_pairwise hnodup
    rw [← hids, List.pairwise_map, hids, ← List.pairwise_reverse, hsplit] at hpairwise
    exact (List.pairwise_append.1 hpairwise).2.1
  intro q hq hl
  have hlt := (List.pairwise_cons.1 horder).1 q hq
  have hmem : q ∈ storeSummary stored asked := by
    rw [List.reverse_append, List.reverse_singleton, List.singleton_append] at hsplit
    rw [← List.mem_reverse]
    cases pre with
    | nil =>
      rw [(List.cons.inj hsplit).2]
      exact hq
    | cons m' pre =>
      rw [(List.cons.inj hsplit).2]
      exact List.mem_append_right _ (List.mem_cons_of_mem d hq)
  obtain ⟨q', hq', horigin, hl'⟩ := mem_storeSummary hmem
  rw [← horigin]
  refine h.markers callId s b hmarker q' hq' (by rw [hl']; exact hl) ?_
  rw [horigin, ← hd]
  exact hlt

/-! ## Runs -/

section

variable (dumps : Json → String) (o : Options)

/-- The markers of the chat cut where their boundaries were, and a compacting loop has the whole
chat at hand. -/
def OpOk (c : SavedChat) (op : Op) : Prop :=
  MarkersFit c.branch.reverse ∧
    match op with
    | .turn t =>
      RoundsOk dumps o (c.asked t) t.user t.reply (lastUserMessage (c.start dumps o t).messages)
        (c.start dumps o t) t.rounds
    | .compact _ _ => True

structure ChatOk (c : SavedChat) : Prop where
  branch : SavedOk c.branch
  covered : ∀ r ∈ c.requests, r.Covered

end

variable {dumps : Json → String} {o : Options}

theorem SavedOk.asked (h : SavedOk c.branch) (hnew : t.user ∉ c.branch.map Message.origin) : SavedOk (c.asked t) :=
  h.append rfl hnew (.inr rfl) rfl fun _ _ _ hlast => (by cases hlast)

theorem markersFit_asked (h : MarkersFit c.branch.reverse) : MarkersFit (c.asked t).reverse := by
  rw [SavedChat.asked, List.reverse_append]
  exact ⟨h, fun k hk => (by cases hk)⟩

theorem mem_of_lastMarker {items : List OutputItem}
    (houtput : m.output = output ++ items.map .item) {b : String} (h : m.lastMarker = some (callId, s, b)) :
    Item.marker callId s b ∈ output := by
  rw [Message.lastMarker, houtput] at h
  obtain ⟨item, hitem, hmarker⟩ := List.exists_of_findSome?_eq_some h
  cases item with
  | item i => cases hmarker
  | marker callId' s' b' =>
    obtain ⟨rfl, rfl, rfl⟩ : callId' = callId ∧ s' = s ∧ b' = b := by simpa [Item.marker?] using hmarker
    rcases List.mem_append.1 (List.mem_reverse.1 hitem) with hin | hin
    · exact hin
    · obtain ⟨i, -, hi⟩ := List.mem_map.1 hin
      cases hi

theorem ChatOk.turn (h : ChatOk c) (huser : t.user ∉ c.branch.map Message.origin)
    (hreply : t.reply ∉ t.user :: c.branch.map Message.origin) (hok : OpOk dumps o c (.turn t)) :
    SavedOk (c.answered dumps o t) ∧
      Request.Covered ⟨(c.asked t).filter Message.loaded, (request t.settings t.user (c.asked t)).messages,
        (request t.settings t.user (c.asked t)).summary⟩ := by
  have hasked := h.branch.asked huser
  have hreply : t.reply ∉ (c.asked t).map Message.origin := by
    rw [SavedChat.asked, List.map_append, List.mem_append]
    rintro (hin | hin)
    · exact hreply (List.mem_cons_of_mem _ hin)
    · exact hreply (by rw [List.mem_singleton.1 hin]; exact List.mem_cons_self)
  obtain ⟨front, back, hkeeps⟩ := request_keeps hasked (markersFit_asked hok.1) t.settings t.user
  refine ⟨?_, hkeeps.covered (fun m hm => hasked.ids m (List.mem_filter.1 hm).1)
    fun m hm => (List.mem_filter.1 hm).2⟩
  obtain ⟨hstart, hprompt⟩ := loopOk_start dumps o
    (storeSummary (request t.settings t.user (c.asked t)).stored (c.asked t)) hasked hreply hkeeps
  obtain ⟨hloop, hbranch⟩ := LoopOk.rounds hstart hreply hprompt hok.2
  have hanswered : c.answered dumps o t = storeSummary (request t.settings t.user (c.asked t)).stored (c.asked t) ++
      [saved t.reply "assistant" t.replyContent ((c.loop dumps o t t.rounds).output ++ t.last.map .item)] :=
    congrArg (· ++ _) hbranch
  rw [hanswered]
  refine (hkeeps.savedOk hasked).append rfl ?_ (.inl rfl) rfl fun callId s b hlast pre d e hsplit hd => ?_
  · rw [origin_storeSummary]
    exact hreply
  · exact hloop.given (nodup_reply hasked.distinct hreply) (mem_of_lastMarker rfl hlast) rfl hsplit hd

/-- `compact_chat_branch`. -/
theorem SavedOk.compactChatBranch (h : SavedOk branch) (hfit : MarkersFit branch.reverse) (enabled : Bool)
    (text : Option String) : SavedOk (compactChatBranch enabled text branch) := by
  rw [Compaction.compactChatBranch]
  cases enabled with
  | false => exact h
  | true =>
    obtain ⟨front, back, hsplit, hbare, hgiven⟩ := applyLatestSummaryCheckpoint_spec h.sound hfit
    simp only [Bool.not_true, Bool.false_eq_true, if_false]
    split
    · rename_i m ms current hinit hlast
      cases text with
      | none => exact h
      | some text =>
        have hcurrent : current ∈ branch := List.mem_of_getLast? hlast
        simp only [Option.bind_some, h.ids current hcurrent, Option.map_some, storeSummary_eq]
        refine h.store fun pre m' post heq horigin => ?_
        obtain rfl : m' = current := h.eq_of_origin (by rw [heq]; simp) hcurrent horigin
        -- the summary is stored under the last message
        have hpre : pre = branch.dropLast := by
          have hnodup : branch.Nodup := h.distinct.of_map _
          rw [heq] at hlast hnodup ⊢
          cases post with
          | nil => rw [List.dropLast_concat]
          | cons p post =>
            have hmem : m' ∈ p :: post := by
              rw [List.getLast?_append, List.getLast?_cons_cons] at hlast
              exact List.mem_of_getLast? (by simpa using hlast)
            exact absurd hmem (List.nodup_cons.1 (List.nodup_append.1 hnodup).2.1).1
        -- all but the current message are summarised or dropped
        have hback : branch.dropLast = front ++ back.dropLast := by
          rw [hsplit, List.dropLast_append_of_ne_nil]
          rintro rfl
          rw [List.map_eq_nil_iff.1 hbare.symm] at hinit
          cases hinit
        have horigins : back.dropLast.map Message.origin = (m :: ms).map Message.origin := by
          refine origin_of_bare ?_
          rw [← hinit, List.map_dropLast, List.map_dropLast, hbare]
        intro q hq hl
        rw [hpre, hback] at hq
        simpa using givenFor_summarize text (m :: ms) _ hgiven horigins q hq hl
    · exact h

theorem ChatOk.step (h : ChatOk c) (hok : OpOk dumps o c op) (hstep : c.step dumps o op = some c') : ChatOk c' := by
  cases op with
  | turn t =>
    rw [SavedChat.step] at hstep
    split at hstep
    · rename_i hnew
      cases hstep
      obtain ⟨hanswered, hcovered⟩ := h.turn hnew.1 hnew.2 hok
      refine ⟨hanswered, fun r hr => ?_⟩
      rcases List.mem_append.1 hr with hr | hr
      · exact h.covered r hr
      · rw [List.mem_singleton.1 hr]
        exact hcovered
    · cases hstep
  | compact enabled summary =>
    cases hstep
    exact ⟨h.branch.compactChatBranch hok.1 enabled summary, h.covered⟩

structure Uncompacted (branch : List Message) : Prop where
  ids : ∀ m ∈ branch, m.id = some m.origin
  distinct : (branch.map Message.origin).Nodup
  calls : ∀ m ∈ branch, CallsFit m.body
  unmarked : ∀ m ∈ branch, m.checkpoint = none ∧ m.lastMarker = none

theorem Uncompacted.savedOk (h : Uncompacted branch) : SavedOk branch where
  ids := h.ids
  distinct := h.distinct
  calls := h.calls
  sound := by
    have hunmarked : ∀ m ∈ branch.reverse, m.checkpoint = none ∧ m.lastMarker = none := fun m hm =>
      h.unmarked m (List.mem_reverse.1 hm)
    generalize branch.reverse = rev at hunmarked
    induction rev with
    | nil => trivial
    | cons m before ih =>
      obtain ⟨⟨hcheck, hlast⟩, hbefore⟩ := List.forall_mem_cons.1 hunmarked
      refine ⟨ih hbefore, fun s hs => ?_, fun callId s b hmarker => ?_⟩
      · rw [hcheck] at hs
        cases hs
      · rw [hlast] at hmarker
        cases hmarker

/-- Where every operation is so, all requests are covered, and no boundary parts a call from its
result. -/
theorem compaction_covers (dumps : Json → String) (o : Options) : (∀ start ops c, Uncompacted start →
      Machine.Run (SavedChat.step dumps o) (OpOk dumps o) ⟨start, []⟩ ops c → ∀ r ∈ c.requests, r.Covered) ∧
    ∀ messages retentionPercentage i j, Answers messages i j →
      ¬(i < findCompactionBoundary messages retentionPercentage ∧
        findCompactionBoundary messages retentionPercentage ≤ j) := by
  refine ⟨fun start ops c hstart hrun => ?_, fun messages retentionPercentage i j h => not_separated _ _ h⟩
  have hinitial : ChatOk ⟨start, []⟩ := ⟨hstart.savedOk, fun r hr => (by cases hr)⟩
  exact (hrun.invariant (fun _ _ _ h hok hstep => h.step hok hstep) hinitial).covered

/-! ## Two chats -/

section

variable (dumps : Json → String) (o : Options) (asked : List Message) (user reply : String)

instance (l : Loop) (r : Round) : Decidable (RoundOk dumps o asked user reply l r) :=
  inferInstanceAs (Decidable (_ → _))

instance RoundsOk.decidable (prompt : Option Message) :
    (l : Loop) → (rounds : List Round) → Decidable (RoundsOk dumps o asked user reply prompt l rounds)
  | _, [] => isTrue trivial
  | l, r :: rest =>
    have := RoundsOk.decidable prompt (l.round dumps o user reply prompt r) rest
    inferInstanceAs (Decidable (RoundOk dumps o asked user reply l r ∧ _))

instance (c : SavedChat) : (op : Op) → Decidable (OpOk dumps o c op)
  | .turn _ => inferInstanceAs (Decidable (_ ∧ RoundsOk _ _ _ _ _ _ _ _))
  | .compact _ _ => inferInstanceAs (Decidable (_ ∧ True))

end

def quiet : Settings := ⟨true, false, 40, none⟩

def searchCall (callId : String) : OutputItem :=
  .functionCall ⟨some callId, some "completed", ⟨some "search", .text "\x7b\x7d"⟩, none⟩

def searchResult (callId : String) : OutputItem := .functionCallOutput ⟨some callId, [.inputText (some "found")]⟩

def greeting : Turn := ⟨"u1", .str "hi", quiet, [], [], "a1", .str "hello"⟩

def search : Turn :=
  ⟨"u2", .str "find it", quiet,
    [⟨[searchCall "x", searchResult "x"], quiet⟩,
      ⟨[searchCall "y", searchResult "y"], ⟨true, true, 40, some "tools used"⟩⟩],
    [.message [⟨"output_text", some "done"⟩]], "a2", .str "done"⟩

def thanks : Turn := ⟨"u3", .str "thanks", quiet, [], [], "a3", .str "bye"⟩

def plainOptions : Options := ⟨true, none, true⟩

theorem compaction_covers_search : ∃ c : SavedChat, c.requests.map (fun r => r.messages.map Message.id) =
      [[some "u1"], [some "u1", some "a1", some "u2"], [some "u2", some "a2", some "u3"]] ∧
      ∀ r ∈ c.requests, r.Covered := by
  have hexec : (Machine.exec (fun c op => if OpOk (fun _ => "") plainOptions c op then
      SavedChat.step (fun _ => "") plainOptions c op else none) ⟨[], []⟩
      [.turn greeting, .turn search, .turn thanks]).map
      (fun c => c.requests.map fun r => r.messages.map Message.id) =
      some [[some "u1"], [some "u1", some "a1", some "u2"], [some "u2", some "a2", some "u3"]] := by
    decide
  obtain ⟨c, hc, hmessages⟩ := Option.map_eq_some_iff.1 hexec
  have hstart : Uncompacted [] := by constructor <;> simp
  exact ⟨c, hmessages, (compaction_covers _ plainOptions).1 [] _ c hstart (Machine.run_of_exec hc)⟩

/-- The loop of the second request compacts without the summary in its prompt, and the first message
is gone. -/
theorem compaction_uncovers :
    ∃ (ops : List Op) (c : SavedChat), Machine.AnyRun (SavedChat.step (fun _ => "") plainOptions) ⟨[], []⟩ ops c ∧
      ∃ r ∈ c.requests, r.chain.map Message.id = [some "u1", some "a1", some "u2", some "a2", some "u3"] ∧
        r.messages.map Message.id = [some "u2", some "a2", some "u3"] ∧
        (r.summary.map Summary.given) = some ["a1", "u2", "a2", "a2"] ∧ ¬r.Covered := by
  have hexec : ((Machine.exec (SavedChat.step (fun _ => "") plainOptions) ⟨[], []⟩
      [.turn greeting, .compact true (some "greetings"), .turn search, .turn thanks]).bind
      fun c => c.requests[2]?).map (fun r => (r.chain.map Message.id, r.messages.map Message.id,
        r.summary.map Summary.given, decide r.Covered)) =
      some ([some "u1", some "a1", some "u2", some "a2", some "u3"], [some "u2", some "a2", some "u3"],
        some ["a1", "u2", "a2", "a2"], false) := by
    decide
  obtain ⟨r, hr, heq⟩ := Option.map_eq_some_iff.1 hexec
  obtain ⟨c, hc, hmem⟩ := Option.bind_eq_some_iff.1 hr
  simp only [Prod.mk.injEq, decide_eq_false_iff_not] at heq
  exact ⟨_, c, Machine.anyRun_of_exec hc, r, List.mem_of_getElem? hmem, heq⟩

end RyanAI.Chat.Compaction
