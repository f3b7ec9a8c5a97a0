import RyanAI.Gateway.BridgeEvent

/-!
# Which events come over the bridge unchanged

What the normaliser puts into an event is not blank, and the fencing fields come with a shard (`WellNamed`). Of such an
event the parser gets back every field it accepts, so the body is read as the event at a whole millisecond
(`parseForm_wire`), and the events that come back equal are those that are `Bridgeable`.
-/

namespace RyanAI.Gateway.OpenClaw

open Lib
open RyanAI.Gateway.Hmac (lower HexDigest hexChar)

/-! ## Texts that are not blank -/

def Shown (s : Option String) : Prop := ∀ t ∈ s, blank t = false

theorem shown_none : Shown none := by
  intro t ht
  cases ht

theorem shown_some (h : blank s = false) : Shown (some s) := by
  rintro t ⟨⟩
  exact h

theorem shown_text (v : Json) : Shown (text v) := by
  intro t ht
  cases v with
  | str s =>
    simp only [text] at ht
    split_ifs at ht with hs
    · cases ht
    · cases ht
      rw [blank_trim]
      simpa using hs
  | num q =>
    cases ht
    exact JsNumber.not_blank_toText q
  | null => cases ht
  | bool b => cases ht
  | arr items => cases ht
  | obj fields => cases ht

theorem Shown.orElse (ha : Shown a) (hb : Shown b) : Shown (a <|> b) := by
  cases a with
  | none => simpa using hb
  | some s => simpa using ha

theorem Shown.present (h : Shown s) : Shown (present s) := by
  intro t ht
  exact h t (Option.filter_eq_some_iff.1 ht).1

theorem shown_configured (setting : Option String) : Shown (configured setting) := by
  intro t ht
  simp only [configured, OpenClaw.present, Option.mem_def, Option.filter_eq_some_iff, Option.map_eq_some_iff] at ht
  obtain ⟨⟨s, -, rfl⟩, hne⟩ := ht
  rw [blank_trim]
  simpa [blank] using hne

theorem required_eq_ok : required thrown s = .ok t ↔ s = some t := by
  cases s with
  | none => simp [required]
  | some s => simp [required]

theorem Shown.required (hs : Shown s) (h : required thrown s = .ok t) : blank t = false := hs t (required_eq_ok.1 h)

theorem not_blank_normalizedEventId (sha256Hex : List UInt8 → String) (candidate : Option String)
    (parts : List (Option String)) : blank (normalizedEventId sha256Hex candidate parts) = false := by
  have hstable : ∀ parts, blank (stableEventId sha256Hex parts) = false := fun parts =>
    not_blank_append (by decide)
  rw [normalizedEventId]
  cases htext : text (value candidate) with
  | none => exact hstable _
  | some s =>
    simp only
    split_ifs with hok
    · exact shown_text _ s htext
    · exact hstable _

theorem jsSpace_of_mimeChar (h : mimeChar c = true) : NumericText.jsSpace c = false := by
  rw [NumericText.jsSpace, decide_eq_false_iff_not]
  intro hspace
  simp only [mimeChar, alphanumeric, Bool.or_eq_true, decide_eq_true_eq] at h
  rcases h with h | h
  · simp [NumericText.commonSpaces] at hspace
    omega
  · simp only [List.mem_cons, List.not_mem_nil, or_false] at h
    rcases h with rfl | rfl | rfl | rfl | rfl | rfl | rfl | rfl | rfl <;> revert hspace <;> decide

theorem not_blank_of_mimeOk (h : mimeOk s = true) : blank s = false := by
  rw [mimeOk] at h
  cases htake : s.toList.takeWhile mimeChar with
  | nil =>
    rw [htake] at h
    simp at h
  | cons c cs =>
    have hmem : c ∈ s.toList.takeWhile mimeChar := by
      rw [htake]
      exact List.mem_cons_self
    exact not_blank_of_mem ((List.takeWhile_prefix mimeChar).subset hmem)
      (jsSpace_of_mimeChar (List.mem_takeWhile_imp hmem))

/-- Every content type of the table has a slash. -/
theorem mimeByExtension_shown : ∀ entry ∈ mimeByExtension, blank entry.2 = false := by
  have hslash : ∀ {l : List Char}, '/' ∈ l → blank (String.ofList l) = false := fun h =>
    not_blank_of_mem (by rwa [String.toList_ofList]) (by decide)
  simp only [mimeByExtension, List.forall_mem_cons, List.not_mem_nil, false_implies, implies_true, and_true]
  and_intros <;> exact hslash (by decide)

theorem not_blank_detected (h : detectedContentType bytes = some detected) : blank detected = false := by
  rw [detectedContentType] at h
  split_ifs at h <;> cases h <;> decide

theorem not_blank_contentType (declared : Option String) (fileName : String) (bytes : List UInt8) :
    blank (inferAttachmentContentType declared fileName bytes) = false := by
  rw [inferAttachmentContentType]
  cases hmime : concreteMime declared with
  | some mime =>
    simp only [concreteMime, Option.filter_eq_some_iff, Bool.and_eq_true] at hmime
    exact not_blank_of_mimeOk hmime.2.1.1.2
  | none =>
    cases hdetected : detectedContentType bytes with
    | some detected => exact not_blank_detected hdetected
    | none =>
      cases hlookup : mimeByExtension.lookup (lower (extname fileName)) with
      | some extensionType =>
        obtain ⟨before, after, hsplit, -⟩ := List.lookup_eq_some_iff.1 hlookup
        refine mimeByExtension_shown (lower (extname fileName), extensionType) ?_
        rw [hsplit]
        exact List.mem_append_right before List.mem_cons_self
      | none =>
        split_ifs <;> decide

/-! ## Attachments -/

def ShownIds (candidates : List AttachmentCandidate) : Prop := ∀ candidate ∈ candidates, Shown candidate.id

variable {candidates : List AttachmentCandidate}

section

variable (h : ShownIds candidates)

include h

theorem ShownIds.append {candidate : AttachmentCandidate} (hnew : Shown candidate.id) :
    ShownIds (appendAttachmentCandidate candidate candidates) := by
  induction candidates with
  | nil =>
    intro c hc
    obtain rfl := List.mem_singleton.1 hc
    exact hnew
  | cons existing rest ih =>
    have hrest : ShownIds rest := fun c hc => h c (List.mem_cons_of_mem _ hc)
    rw [appendAttachmentCandidate]
    split_ifs with hpath
    · intro c hc
      rcases List.mem_cons.1 hc with rfl | hc
      · exact (h existing List.mem_cons_self).orElse hnew
      · exact hrest c hc
    · intro c hc
      rcases List.mem_cons.1 hc with rfl | hc
      · exact h c List.mem_cons_self
      · exact ih hrest c hc

theorem ShownIds.appendPaths : ShownIds (appendPaths types paths index candidates) := by
  induction paths generalizing index candidates with
  | nil => exact h
  | cons path rest ih =>
    cases path with
    | none => exact ih h
    | some localPath => exact ih (h.append shown_none)

theorem ShownIds.appendStandardMedia : ShownIds (appendStandardMedia source candidates) := by
  simp only [OpenClaw.appendStandardMedia]
  split
  · exact h.appendPaths
  · exact h.appendPaths.append shown_none

theorem ShownIds.appendLegacy (hresult : appendLegacy values candidates = .ok result) : ShownIds result := by
  induction values generalizing candidates with
  | nil =>
    cases hresult
    exact h
  | cons item rest ih =>
    rw [OpenClaw.appendLegacy] at hresult
    split at hresult
    · cases hresult
    · exact ih (h.append (shown_text _)) hresult

end

theorem shownIds_collect
    (h : collectAttachmentCandidates event metadata bridge = .ok candidates) : ShownIds candidates := by
  have hnil : ShownIds [] := by
    intro c hc
    cases hc
  exact hnil.appendStandardMedia.appendStandardMedia.appendLegacy h

def ShownAttachment (attachment : InboundAttachment) : Prop :=
  blank attachment.id = false ∧ blank attachment.contentType = false

theorem shown_attachmentOf (h : Shown candidate.id) (resolved : String)
    (bytes : List UInt8) (loaded : ℕ) : ShownAttachment (attachmentOf candidate resolved bytes loaded) := by
  refine ⟨?_, not_blank_contentType _ _ _⟩
  rw [attachmentOf]
  cases hid : candidate.id with
  | none => exact not_blank_append (by decide)
  | some id => exact h id hid

theorem shown_loadCandidates {files : FileSystem} {config : Config}
    {resolvedPaths : List String} {total : ℕ} {attachments result : List InboundAttachment}
    (hids : ShownIds candidates) (hsofar : ∀ a ∈ attachments, ShownAttachment a)
    (h : loadCandidates files config candidates resolvedPaths total attachments = .ok result) :
    ∀ a ∈ result, ShownAttachment a := by
  induction candidates generalizing resolvedPaths total attachments with
  | nil =>
    cases h
    exact hsofar
  | cons candidate rest ih =>
    have hrest : ShownIds rest := fun c hc => hids c (List.mem_cons_of_mem _ hc)
    rw [loadCandidates, bind_eq_ok] at h
    obtain ⟨resolved, -, h⟩ := h
    split_ifs at h with hseen
    · exact ih hrest hsofar h
    obtain ⟨⟨total', bytes⟩, -, h⟩ := bind_eq_ok.1 h
    refine ih hrest ?_ h
    intro a ha
    rcases List.mem_append.1 ha with ha | ha
    · exact hsofar a ha
    · obtain rfl := List.mem_singleton.1 ha
      exact shown_attachmentOf (hids candidate List.mem_cons_self) resolved bytes attachments.length

/-! ## What the normaliser produces -/

structure Fenced (shardId nodeId : Option String) (leaseEpoch assignmentGeneration : Option ℤ) : Prop where
  shard : shardId = none → nodeId = none ∧ leaseEpoch = none ∧ assignmentGeneration = none
  epoch : ∀ n ∈ leaseEpoch, |n| < 2 ^ 53
  generation : ∀ n ∈ assignmentGeneration, |n| < 2 ^ 53

theorem fenced_none : Fenced none none none none where
  shard := fun _ => ⟨rfl, rfl, rfl⟩
  epoch := fun n hn => by cases hn
  generation := fun n hn => by cases hn

structure WellNamed (event : InboundEvent) : Prop where
  eventId : blank event.eventId = false
  connectionId : blank event.connectionId = false
  accountKey : Shown event.accountKey
  shardId : Shown event.shardId
  nodeId : Shown event.nodeId
  fenced : Fenced event.shardId event.nodeId event.leaseEpoch event.assignmentGeneration
  conversationId : blank event.conversation.id = false
  conversationName : Shown event.conversation.name
  senderId : blank event.sender.id = false
  senderName : Shown event.sender.name
  attachments : ∀ a ∈ event.attachments, ShownAttachment a

inductive Produced (host : Host) (config : Config) (event : InboundEvent) : Prop where
  | messageHook (hook : MessageHook) (ctx : AgentContext)
      (h : normalizeMessageHook host hook ctx config = .ok event)
  | inboundClaim (hook : MessageHook) (ctx : AgentContext)
      (h : normalizeInboundClaim host hook ctx config = .ok event)
  | replyDispatch (hook : ReplyDispatchHook) (h : normalizeReplyDispatch host hook config = .ok event)
  | beforeAgentReply (cleanedBody : String) (ctx : AgentContext)
      (h : normalizeBeforeAgentReply host cleanedBody ctx = .ok event)

theorem abs_lt_of_safeNumber : ∀ n ∈ safeNumber setting, |n| < 2 ^ 53 := by
  intro n hn
  simp only [safeNumber, Option.mem_def, Option.bind_eq_some_iff] at hn
  obtain ⟨s, -, q, -, hsafe⟩ := hn
  rw [NumericText.safeInteger] at hsafe
  split_ifs at hsafe with hok
  · cases hsafe
    exact hok.2

/-- What `resolveEventRouting` yields. -/
structure ShownRouting (routing : EventRouting) : Prop where
  connectionId : blank routing.connectionId = false
  accountKey : Shown routing.accountKey
  shardId : Shown routing.shardId
  nodeId : Shown routing.nodeId
  fenced : Fenced (present routing.shardId) (present routing.nodeId) routing.leaseEpoch routing.assignmentGeneration

theorem not_blank_connectionId
    (h : resolveConnectionId env channel bridge = .ok connectionId) : blank connectionId = false := by
  rw [resolveConnectionId, bind_eq_ok] at h
  obtain ⟨mapped, hmapped, h⟩ := h
  have hresult : connectionId = mapped := by
    split at h
    · split_ifs at h
      · cases h
        rfl
    · cases h
      rfl
  rw [hresult]
  rw [mapOpenClawConnectionId] at hmapped
  split at hmapped
  · rename_i setting hsetting
    split_ifs at hmapped
    · cases hmapped
      exact shown_configured _ _ hsetting
  · cases hmapped
    cases channel <;> decide

theorem shown_routing (haccount : Shown accountId)
    (h : resolveEventRouting env channel accountId bridge = .ok routing) : ShownRouting routing := by
  rw [resolveEventRouting, bind_eq_ok] at h
  obtain ⟨shardId, hshard, h⟩ := h
  cases shardId with
  | none =>
    obtain ⟨connectionId, hconnection, h⟩ := bind_eq_ok.1 h
    cases h
    exact ⟨not_blank_connectionId hconnection, shown_none, shown_none, shown_none, fenced_none⟩
  | some shardId =>
    cases accountId with
    | none => cases h
    | some account =>
      cases h
      have hid : blank shardId = false := by
        rw [mapOpenClawShardId] at hshard
        split at hshard
        · cases hshard
        · rename_i setting hsetting
          split_ifs at hshard
          · cases hshard
            exact shown_configured _ _ hsetting
      have hne : present (some shardId) ≠ none := by
        have hnonempty : shardId ≠ "" := by
          rintro rfl
          revert hid
          decide
        simp [present, hnonempty]
      exact ⟨not_blank_append (by decide), haccount, shown_some hid, shown_configured _,
        ⟨fun hnone => absurd hnone hne, abs_lt_of_safeNumber, abs_lt_of_safeNumber⟩⟩

theorem wellNamed_messageHook {host : Host} {hook : MessageHook} {ctx : AgentContext} {config : Config}
    {event : InboundEvent} (h : normalizeMessageHook host hook ctx config = .ok event) : WellNamed event := by
  simp only [normalizeMessageHook, bind_eq_ok] at h
  obtain ⟨channel, -, -, -, conversationId, hconversation, senderId, hsender, routing, hrouting, attachments,
    hattachments, h⟩ := h
  cases h
  have hrouted := shown_routing
    ((shown_text _).orElse ((shown_text _).orElse ((shown_text _).orElse (shown_text _)))) hrouting
  have hconv := Shown.required
    ((shown_text _).orElse ((shown_text _).orElse ((shown_text _).orElse ((shown_text _).orElse
      ((shown_text _).orElse ((shown_text _).orElse ((shown_text _).orElse ((shown_text _).orElse
        (shown_text _))))))))) hconversation
  have hsend : blank senderId = false := by
    refine Shown.required ((shown_text _).orElse ((shown_text _).orElse ((shown_text _).orElse
      ((shown_text _).orElse ?_)))) hsender
    split_ifs
    · exact shown_none
    · exact (shown_text _).orElse (shown_text _)
  have hloaded : ∀ a ∈ attachments, ShownAttachment a := by
    rw [loadAttachments, bind_eq_ok] at hattachments
    obtain ⟨candidates, hcandidates, hload⟩ := hattachments
    exact shown_loadCandidates (shownIds_collect hcandidates) (fun a ha => by cases ha) hload
  exact
    { eventId := not_blank_normalizedEventId _ _ _
      connectionId := hrouted.connectionId
      accountKey := hrouted.accountKey.present
      shardId := hrouted.shardId.present
      nodeId := hrouted.nodeId.present
      fenced := hrouted.fenced
      conversationId := hconv
      conversationName := (shown_text _).orElse ((shown_text _).orElse (shown_text _))
      senderId := hsend
      senderName := (shown_text _).orElse ((shown_text _).orElse ((shown_text _).orElse (shown_text _)))
      attachments := hloaded }

theorem wellNamed_beforeAgentReply
    (h : normalizeBeforeAgentReply host cleanedBody ctx = .ok event) : WellNamed event := by
  simp only [normalizeBeforeAgentReply, bind_eq_ok] at h
  obtain ⟨channel, -, conversationId, hconversation, senderId, hsender, routing, hrouting, h⟩ := h
  cases h
  have hrouted := shown_routing (shown_text _) hrouting
  exact
    { eventId := not_blank_normalizedEventId _ _ _
      connectionId := hrouted.connectionId
      accountKey := hrouted.accountKey.present
      shardId := hrouted.shardId.present
      nodeId := hrouted.nodeId.present
      fenced := hrouted.fenced
      conversationId := Shown.required
        ((shown_text _).orElse ((shown_text _).orElse ((shown_text _).orElse (shown_text _)))) hconversation
      conversationName := shown_none
      senderId := Shown.required ((shown_text _).orElse (shown_text _)) hsender
      senderName := shown_none
      attachments := fun a ha => by cases ha }

theorem Produced.wellNamed (h : Produced host config event) : WellNamed event := by
  cases h with
  | messageHook hook ctx h => exact wellNamed_messageHook h
  | inboundClaim hook ctx h =>
    rw [normalizeInboundClaim, bind_eq_ok] at h
    obtain ⟨_, -, h⟩ := h
    split at h
    · cases h
    · exact wellNamed_messageHook h
  | replyDispatch hook h =>
    simp only [normalizeReplyDispatch, bind_eq_ok] at h
    obtain ⟨_, -, _, -, _, -, h⟩ := h
    exact wellNamed_messageHook h
  | beforeAgentReply cleanedBody ctx h => exact wellNamed_beforeAgentReply h

/-! ## The fields of the wire -/

theorem lookup_optionalField (key k : String) (v : Option Json) (rest : Dict) :
    (optionalField key v ++ rest).lookup k = if k = key then v <|> rest.lookup k else rest.lookup k := by
  cases v with
  | none => simp [optionalField]
  | some v => simp [optionalField, Dict.lookup_cons]

theorem present_of_shown (h : Shown s) : present s = s := by
  cases s with
  | none => rfl
  | some s =>
    have hne : s ≠ "" := by
      rintro rfl
      exact absurd (h "" rfl) (by decide)
    simp [present, hne]

theorem string_null (field : String) : string .null field = .error (invalidBridge (field ++ " is required")) := rfl

theorem integer_null (field : String) :
    integer .null field = .error (invalidBridge (field ++ " must be an integer")) := rfl

theorem string_of_shown (h : blank s = false) (field : String) : string (.str s) field = .ok s := by
  simp [string, h]

theorem optionalString_of_shown (h : Shown s) : optionalString ((s.map Json.str).getD .null) = s := by
  cases s with
  | none => rfl
  | some s => simp [optionalString, h s rfl]

theorem integer_intCast (n : ℤ) (field : String) : integer (.num n) field =
      if |n| < 2 ^ 53 ∧ 0 ≤ n then .ok n else .error (invalidBridge (field ++ " must be an integer")) := by
  simp [integer]

section Wire

variable {sha256Hex : List UInt8 → String} {event : InboundEvent} {occurredAt : String}

def FencingOk (event : InboundEvent) : Prop :=
  (event.nodeId = none ∧ event.leaseEpoch = none ∧ event.assignmentGeneration = none) ∨
    (event.nodeId.isSome ∧ (∃ epoch ∈ event.leaseEpoch, 0 ≤ epoch) ∧
      ∃ generation ∈ event.assignmentGeneration, 0 ≤ generation)

theorem fencingOk_iff (hl : event.leaseEpoch = some epoch) (hn : event.nodeId = some node) :
    FencingOk event ↔ 0 ≤ epoch ∧ ∃ generation ∈ event.assignmentGeneration, 0 ≤ generation := by
  simp [FencingOk, hl, hn]

theorem parseFencing_wire (h : WellNamed event) (fencing : Fencing) :
    parseFencing (wireFields sha256Hex event occurredAt) = .ok fencing ↔
      FencingOk event ∧ fencing = ⟨event.shardId, event.nodeId, event.leaseEpoch, event.assignmentGeneration⟩ := by
  have hversion : (wireFields sha256Hex event occurredAt).get "version" =
      .str (if event.leaseEpoch = none then "1.0" else "1.1") := by
    simp [wireFields, Dict.get]
  have hshardId : (wireFields sha256Hex event occurredAt).get "shard_id" = (event.shardId.map Json.str).getD .null := by
    simp [wireFields, Dict.get, lookup_optionalField, Dict.lookup_cons, present_of_shown h.shardId]
  have hnodeId : (wireFields sha256Hex event occurredAt).lookup "node_id" = event.nodeId.map Json.str := by
    simp [wireFields, lookup_optionalField, Dict.lookup_cons, present_of_shown h.nodeId]
  have hepoch : (wireFields sha256Hex event occurredAt).lookup "lease_epoch" =
      event.leaseEpoch.map fun (n : ℤ) => .num n := by
    simp [wireFields, lookup_optionalField, Dict.lookup_cons]
  have hgeneration : (wireFields sha256Hex event occurredAt).lookup "assignment_generation" =
      event.assignmentGeneration.map fun (n : ℤ) => .num n := by
    simp [wireFields, lookup_optionalField, Dict.lookup_cons]
  rw [parseFencing, hversion, hshardId]
  cases hl : event.leaseEpoch with
  | none =>
    -- without an epoch the version allows no fencing field
    rw [if_pos (by simp)]
    cases hn : event.nodeId <;> cases hg : event.assignmentGeneration <;>
      simp [fencingFields, hnodeId, hepoch, hgeneration, hl, hn, hg, FencingOk, optionalString_of_shown h.shardId,
        eq_comm]
  | some epoch =>
    obtain ⟨shard, hs⟩ : ∃ shard, event.shardId = some shard := by
      cases hs : event.shardId with
      | none => simp [(h.fenced.shard hs).2.1] at hl
      | some shard => exact ⟨shard, rfl⟩
    have hversion' : ¬ Json.str (if some epoch = none then "1.0" else "1.1") = .str "1.0" := by simp
    rw [if_neg hversion', hs]
    simp only [Dict.get, hnodeId, hepoch, hgeneration, hl, Option.map_some, Option.getD_some,
      string_of_shown (h.shardId shard hs), ok_bind]
    cases hn : event.nodeId with
    | none =>
      simp only [Option.map_none, Option.getD_none, string_null, error_bind, reduceCtorEq, false_iff]
      rintro ⟨⟨-, hnone, -⟩ | ⟨hsome, -⟩, -⟩
      · simp [hl] at hnone
      · simp [hn] at hsome
    | some node =>
      simp only [Option.map_some, Option.getD_some, string_of_shown (h.nodeId node hn), ok_bind, integer_intCast,
        h.fenced.epoch epoch hl, true_and]
      rw [fencingOk_iff hl hn]
      by_cases hpos : 0 ≤ epoch
      · simp only [hpos, if_true, ok_bind, true_and]
        cases hg : event.assignmentGeneration with
        | none => simp [integer_null, error_bind]
        | some generation =>
          simp only [Option.map_some, Option.getD_some, integer_intCast, h.fenced.generation generation hg, true_and]
          by_cases hpos' : 0 ≤ generation
          · simp [hpos', ok_bind, eq_comm]
          · simp [hpos', error_bind]
      · simp [hpos, error_bind]

end Wire

/-! ## Attachments on the wire -/

theorem toList_fieldName (index : ℕ) : (fieldName index).toList = "attachment_".toList ++ Nat.toDigits 10 index := by
  simp [fieldName]

theorem fieldName_inj (h : fieldName i = fieldName j) : i = j := by
  have hlists := congrArg String.toList h
  rw [toList_fieldName, toList_fieldName] at hlists
  have hdigits := List.append_cancel_left hlists
  calc
    i = Nat.ofDigitChars 10 (Nat.toDigits 10 i) 0 := Nat.ofDigitChars_ten_toDigits.symm
    _ = Nat.ofDigitChars 10 (Nat.toDigits 10 j) 0 := by rw [hdigits]
    _ = j := Nat.ofDigitChars_ten_toDigits

theorem fieldNameOk_fieldName (index : ℕ) : fieldNameOk (fieldName index) = true := by
  have hdrop : (fieldName index).toList.drop "attachment_".length = Nat.toDigits 10 index := by
    rw [toList_fieldName]
    rfl
  have hdigits : (Nat.toDigits 10 index).all Char.isDigit = true := List.all_eq_true.2 fun c hc =>
    Nat.isDigit_of_mem_toDigits (by decide) (by decide) hc
  have hfront : "attachment_".toList.isPrefixOf (fieldName index).toList = true := by
    rw [List.isPrefixOf_iff_prefix, toList_fieldName]
    exact List.prefix_append _ _
  simp only [fieldNameOk]
  rw [hdrop, hdigits, hfront]
  simp

theorem fieldName_ne_event (index : ℕ) : fieldName index ≠ "event" := by
  intro h
  have hok := fieldNameOk_fieldName index
  rw [h] at hok
  revert hok
  decide

theorem hashOk_of_hexDigest (h : HexDigest s) : hashOk s = true := by
  simp only [hashOk, Bool.and_eq_true, decide_eq_true_eq, List.all_eq_true]
  exact ⟨h.1, h.2⟩

theorem not_blank_of_hexDigest (h : HexDigest s) : blank s = false := by
  obtain ⟨hlength, hhex⟩ := h
  cases hs : s.toList with
  | nil => simp [hs] at hlength
  | cons c cs =>
    have hmem : c ∈ s.toList := by
      rw [hs]
      exact List.mem_cons_self
    refine not_blank_of_mem hmem ?_
    have hc := hhex c hmem
    rw [NumericText.jsSpace, decide_eq_false_iff_not]
    intro hspace
    simp only [Hmac.hexChar, decide_eq_true_eq] at hc
    simp [NumericText.commonSpaces] at hspace
    omega

theorem get_cons (k k' : String) (v : Json) (rest : Dict) :
    Dict.get ((k, v) :: rest) k' = if k' = k then v else Dict.get rest k' := by
  rw [Dict.get, Dict.lookup_cons]
  split_ifs
  · rfl
  · rfl

section Attachments

variable {sha256Hex : List UInt8 → String} {config : Config} {form : List (String × Part)}

theorem parseAttachment_wire (hsha : ∀ bytes, HexDigest (sha256Hex bytes))
    (expectedFields : List String) (total : ℕ) (hshown : ShownAttachment attachment)
    (hform : form.lookup (fieldName index) = some (.file attachment.bytes))
    (hnew : fieldName index ∉ expectedFields) (hsize : attachment.bytes.length ≤ config.maxAttachmentBytes)
    (htotal : total + attachment.bytes.length ≤ config.maxTotalAttachmentBytes) :
    parseAttachment sha256Hex config form (descriptor sha256Hex attachment index) index expectedFields total =
      if blank attachment.fileName then
        .error (invalidBridge ("attachments[" ++ toString index ++ "].file_name" ++ " is required"))
      else .ok (fieldName index, total + attachment.bytes.length, attachment) := by
  have hname : blank (fieldName index) = false := not_blank_append (by decide)
  have hhash := hsha attachment.bytes
  have hbound := config.maxAttachmentBytes_le
  have hsafe : |(attachment.bytes.length : ℤ)| < 2 ^ 53 ∧ 0 ≤ (attachment.bytes.length : ℤ) := by
    rw [abs_of_nonneg (Int.natCast_nonneg _)]
    omega
  have hcast : ((attachment.bytes.length : ℕ) : ℚ) = ((attachment.bytes.length : ℤ) : ℚ) := by simp
  have hfile : (!fieldNameOk (fieldName index) || decide (fieldName index ∈ expectedFields)) = false := by
    simp [fieldNameOk_fieldName, hnew]
  have hbytes : ¬ ((attachment.bytes.length : ℤ) ≠ attachment.bytes.length ∨
      config.maxAttachmentBytes < attachment.bytes.length) := by
    rintro (h | h)
    · exact h rfl
    · omega
  have hhashed : (!hashOk (lower (sha256Hex attachment.bytes)) ||
      decide (sha256Hex attachment.bytes ≠ lower (sha256Hex attachment.bytes))) = false := by
    rw [hhash.lower]
    simp [hashOk_of_hexDigest hhash]
  simp only [parseAttachment, descriptor, object, ok_bind, attachedFile, checkBytes, get_cons, String.reduceEq,
    if_true, if_false, string_of_shown hname, hfile, Bool.false_eq_true, hform, hcast, integer_intCast, if_pos hsafe]
  rw [if_neg hbytes, if_neg (not_lt.2 htotal), string_of_shown (not_blank_of_hexDigest hhash), ok_bind]
  simp only [hhashed, Bool.false_eq_true, if_false, ok_bind, string_of_shown hshown.1, string_of_shown hshown.2]
  by_cases hfileName : blank attachment.fileName = true
  · simp [string, hfileName, error_bind]
  · simp [string, hfileName, ok_bind]

/-- The names of the parts of attachments that are numbered from `start` on. -/
def partNames (attachments : List InboundAttachment) (start : ℕ) : List String :=
  (attachments.zipIdx start).map fun entry => fieldName entry.2

theorem parseAttachments_wire (hsha : ∀ bytes, HexDigest (sha256Hex bytes))
    (start : ℕ) (expectedFields : List String) (total : ℕ) (hshown : ∀ a ∈ attachments, ShownAttachment a)
    (hform : ∀ entry ∈ attachments.zipIdx start, form.lookup (fieldName entry.2) = some (.file entry.1.bytes))
    (hnew : ∀ i, start ≤ i → fieldName i ∉ expectedFields)
    (hsize : ∀ a ∈ attachments, a.bytes.length ≤ config.maxAttachmentBytes)
    (htotal : total + (attachments.map fun a => a.bytes.length).sum ≤ config.maxTotalAttachmentBytes)
    (result : List String × List InboundAttachment) :
    parseAttachments sha256Hex config form
        ((attachments.zipIdx start).map fun entry => descriptor sha256Hex entry.1 entry.2) start expectedFields total =
      .ok result ↔ (∀ a ∈ attachments, blank a.fileName = false) ∧
        result = ((partNames attachments start).reverse ++ expectedFields, attachments) := by
  induction attachments generalizing start expectedFields total result with
  | nil =>
    constructor
    · intro h
      cases h
      exact ⟨by simp, rfl⟩
    · rintro ⟨-, rfl⟩
      rfl
  | cons attachment rest ih =>
    simp only [List.map_cons, List.sum_cons] at htotal
    have hhead := parseAttachment_wire hsha expectedFields total
      (hshown attachment List.mem_cons_self) (hform (attachment, start) (by simp [List.zipIdx_cons]))
      (hnew start le_rfl) (hsize attachment List.mem_cons_self) (by omega)
    have hnew' : ∀ i, start + 1 ≤ i → fieldName i ∉ fieldName start :: expectedFields := by
      intro i hi hmem
      rcases List.mem_cons.1 hmem with heq | hmem
      · have := fieldName_inj heq
        omega
      · exact hnew i (by omega) hmem
    have htail := ih (start + 1) (fieldName start :: expectedFields) (total + attachment.bytes.length)
      (List.forall_mem_of_forall_mem_cons hshown)
      (fun entry he => hform entry (by rw [List.zipIdx_cons]; exact List.mem_cons_of_mem _ he)) hnew'
      (List.forall_mem_of_forall_mem_cons hsize) (by omega)
    simp only [List.zipIdx_cons, List.map_cons, parseAttachments, hhead, List.forall_mem_cons]
    by_cases hname : blank attachment.fileName = true
    · rw [if_pos hname, error_bind]
      simp [hname]
    rw [if_neg hname, ok_bind]
    simp only [bind_eq_ok, htail, partNames, List.zipIdx_cons, List.map_cons, List.reverse_cons]
    constructor
    · rintro ⟨tail, ⟨hnames, rfl⟩, h⟩
      cases h
      exact ⟨⟨by simpa using hname, hnames⟩, by simp⟩
    · rintro ⟨⟨-, hnames⟩, rfl⟩
      exact ⟨_, ⟨hnames, rfl⟩, by simp⟩

end Attachments

theorem lookup_files : ∀ entry ∈ attachments.zipIdx start,
      (files attachments start).lookup (fieldName entry.2) = some (.file entry.1.bytes) := by
  induction attachments generalizing start with
  | nil =>
    intro entry he
    cases he
  | cons attachment rest ih =>
    intro entry he
    rw [List.zipIdx_cons] at he
    rcases List.mem_cons.1 he with rfl | he
    · simp [files, List.zipIdx_cons]
    have hlater : start + 1 ≤ entry.2 := List.le_snd_of_mem_zipIdx he
    have hne : fieldName entry.2 ≠ fieldName start := by
      intro heq
      have := fieldName_inj heq
      omega
    have htail := ih entry he
    simp only [files] at htail ⊢
    rw [List.zipIdx_cons, List.map_cons, List.lookup_cons, beq_eq_false_iff_ne.2 hne]
    exact htail

theorem files_names (attachments : List InboundAttachment) (start : ℕ) :
    (files attachments start).map Prod.fst = partNames attachments start := by
  simp [files, partNames]

/-! ## The round trip -/

def WithinLimits (config : Config) (event : InboundEvent) : Prop :=
  (∀ a ∈ event.attachments, a.bytes.length ≤ config.maxAttachmentBytes) ∧
    (event.attachments.map fun a => a.bytes.length).sum ≤ config.maxTotalAttachmentBytes

structure Bridgeable (event : InboundEvent) : Prop where
  time : ∃ t : ℤ, event.occurredAt = .finite t ∧ |t| ≤ IsoDate.maxTime
  fencing : FencingOk event
  count : event.attachments.length ≤ 20
  fileNames : ∀ a ∈ event.attachments, blank a.fileName = false

section RoundTrip

variable {sha256Hex : List UInt8 → String} {config : Config} {event : InboundEvent}

theorem parseChannel_text (channel : Channel) : parseChannel (.str channel.text) = .ok channel := by
  cases channel <;> rfl

theorem parseConversationType_text (type : ConversationType) : parseConversationType (.str type.text) = .ok type := by
  cases type <;> rfl

theorem parseTime_toISOString (otherFormats : String → Option ℤ) (ht : |t| ≤ IsoDate.maxTime) :
    parseTime otherFormats (.str (String.ofList (IsoDate.toISOString t))) = .ok (.finite t) := by
  have hblank : blank (String.ofList (IsoDate.toISOString t)) = false :=
    not_blank_of_mem (c := 'T') (by rw [String.toList_ofList]; simp [IsoDate.toISOString]) (by decide)
  rw [parseTime, string_of_shown hblank, ok_bind, parseDate, String.toList_ofList, IsoDate.parseISO_toISOString ht]

theorem get_optionalName (h : Shown name) : optionalString (Dict.get (optionalName name) "name") = name := by
  have hget : Dict.get (optionalName name) "name" = (name.map Json.str).getD .null := by
    rw [optionalName, present_of_shown h]
    cases name with
    | none => rfl
    | some name => rfl
  rw [hget, optionalString_of_shown h]

theorem parseForm_wire (hsha : ∀ bytes, HexDigest (sha256Hex bytes)) (otherFormats : String → Option ℤ)
    (h : WellNamed event) (hlimits : WithinLimits config event) (ht : |t| ≤ IsoDate.maxTime) (part : Part)
    (read : InboundEvent) :
    parseForm sha256Hex otherFormats config (("event", part) :: files event.attachments 0)
        (wireFields sha256Hex event (String.ofList (IsoDate.toISOString t))) = .ok read ↔
      FencingOk event ∧ event.attachments.length ≤ 20 ∧ (∀ a ∈ event.attachments, blank a.fileName = false) ∧
        read = { event with occurredAt := .finite t } := by
  set form := ("event", part) :: files event.attachments 0 with hform
  set raw := wireFields sha256Hex event (String.ofList (IsoDate.toISOString t)) with hraw
  have hget : ∀ key v, raw.lookup key = some v → raw.get key = v := by
    intro key v hv
    rw [Dict.get, hv, Option.getD_some]
  have hversion : ¬ (raw.get "version" ≠ .str "1.0" ∧ raw.get "version" ≠ .str "1.1") := by
    have hv : raw.get "version" = .str (if event.leaseEpoch = none then "1.0" else "1.1") := by
      simp [hraw, wireFields, Dict.get]
    rw [hv]
    split_ifs <;> simp
  have heventId := hget "event_id" (.str event.eventId) (by simp [hraw, wireFields, Dict.lookup_cons])
  have haccount : raw.get "account_id" = (event.accountKey.map Json.str).getD .null := by
    simp [hraw, wireFields, Dict.get, lookup_optionalField, Dict.lookup_cons, present_of_shown h.accountKey]
  have htime := hget "occurred_at" _
    (by simp [hraw, wireFields, lookup_optionalField, Dict.lookup_cons]; rfl)
  have hchannel := hget "channel" (.str event.channel.text)
    (by simp [hraw, wireFields, lookup_optionalField, Dict.lookup_cons])
  have hconnection := hget "connection_id" (.str event.connectionId)
    (by simp [hraw, wireFields, lookup_optionalField, Dict.lookup_cons])
  have hconversation := hget "conversation" _
    (by simp [hraw, wireFields, lookup_optionalField, Dict.lookup_cons]; rfl)
  have hsender := hget "sender" _ (by simp [hraw, wireFields, lookup_optionalField, Dict.lookup_cons]; rfl)
  have hmessage := hget "message" _ (by simp [hraw, wireFields, lookup_optionalField, Dict.lookup_cons]; rfl)
  have hdescriptors := hget "attachments" _
    (by simp [hraw, wireFields, lookup_optionalField, Dict.lookup_cons]; rfl)
  have hparts : ∀ entry ∈ event.attachments.zipIdx 0, form.lookup (fieldName entry.2) = some (.file entry.1.bytes) := by
    intro entry he
    rw [hform, List.lookup_cons, beq_eq_false_iff_ne.2 (fieldName_ne_event entry.2)]
    exact lookup_files entry he
  have hexpected : form.any (fun part => decide (part.1 ∉ (partNames event.attachments 0).reverse ++ ["event"])) =
      false := by
    rw [List.any_eq_false]
    intro entry he
    have hmem : entry.1 ∈ "event" :: partNames event.attachments 0 := by
      rw [← files_names]
      exact List.mem_map_of_mem (f := Prod.fst) he
    simp only [decide_eq_true_eq, not_not]
    rcases List.mem_cons.1 hmem with heq | hmem
    · simp [heq]
    · simp [hmem]
  have hattachments := fun result => parseAttachments_wire hsha 0 ["event"] 0 h.attachments hparts
    (fun i _ => by simpa using fieldName_ne_event i) hlimits.1 (by simpa using hlimits.2) result
  have hfence : ∀ fencing, parseFencing raw = .ok fencing ↔ FencingOk event ∧
      fencing = ⟨event.shardId, event.nodeId, event.leaseEpoch, event.assignmentGeneration⟩ :=
    fun fencing => parseFencing_wire h fencing
  rw [parseForm, if_neg hversion]
  simp only [hconversation, hsender, hmessage, hchannel, htime, hdescriptors, heventId, hconnection, haccount, object,
    items, get_cons, String.reduceEq, if_true, if_false, ok_bind, parseChannel_text, parseConversationType_text,
    parseTime_toISOString otherFormats ht, List.length_map, List.length_zipIdx, string_of_shown h.eventId,
    string_of_shown h.connectionId, string_of_shown h.conversationId, string_of_shown h.senderId,
    optionalString_of_shown h.accountKey, get_optionalName h.conversationName, get_optionalName h.senderName]
  by_cases hcount : event.attachments.length ≤ 20
  · simp only [if_neg (not_lt.2 hcount), bind_eq_ok, hfence, hattachments]
    constructor
    · rintro ⟨fencing, ⟨hfencing, rfl⟩, result, ⟨hnames, rfl⟩, hread⟩
      simp only [hexpected, Bool.false_eq_true, if_false] at hread
      cases hread
      exact ⟨hfencing, hcount, hnames, by simp⟩
    · rintro ⟨hfencing, -, hnames, rfl⟩
      refine ⟨_, ⟨hfencing, rfl⟩, _, ⟨hnames, rfl⟩, ?_⟩
      simp only [hexpected, Bool.false_eq_true, if_false]
      simp
  · simp only [if_pos (not_le.1 hcount), bind_eq_ok, reduceCtorEq, and_false, exists_false, false_iff]
    rintro ⟨-, h, -⟩
    exact hcount h

theorem multipartType_boundary (boundary : String) :
    multipartType (some ("multipart/form-data; boundary=" ++ boundary)) = true := by
  have hlower : (lower ("multipart/form-data; boundary=" ++ boundary)).toList =
      "multipart/form-data; boundary=".toList ++ (lower boundary).toList := by
    simp only [lower, String.toList_map, String.toList_append, List.map_append]
    congr 1
  simp only [multipartType]
  rw [List.isPrefixOf_iff_prefix, hlower]
  exact List.IsPrefix.trans (by decide) (List.prefix_append _ _)

theorem overBridge_eq (otherFormats : String → Option ℤ) (boundary : String) {q : ℚ}
    (hq : |q| ≤ IsoDate.maxTime) (htime : event.occurredAt = .finite q) :
    overBridge sha256Hex otherFormats boundary config event =
      parseForm sha256Hex otherFormats config
        (("event", .json (some (.obj
          (wireFields sha256Hex event (String.ofList (IsoDate.toISOString (truncate q))))))) :: files event.attachments 0)
        (wireFields sha256Hex event (String.ofList (IsoDate.toISOString (truncate q)))) := by
  simp only [overBridge, buildEventMultipart, buildWireEvent, htime, isoText, if_pos hq, ok_bind,
    parseOpenClawBridgeEvent, multipartType_boundary, Bool.not_true, Bool.false_eq_true, if_false, List.lookup_cons,
    beq_self_eq_true, object]

theorem abs_truncate_le {q : ℚ} {m : ℤ} (h : |q| ≤ m) : |truncate q| ≤ m := by
  obtain ⟨hlo, hhi⟩ := abs_le.1 h
  rw [truncate, abs_le]
  split_ifs with hpos
  · exact ⟨Int.le_floor.2 (by push_cast; exact hlo), by exact_mod_cast (Int.floor_le q).trans hhi⟩
  · exact ⟨by exact_mod_cast hlo.trans (Int.le_ceil q), Int.ceil_le.2 hhi⟩

/-- Events come back equal with complete fencing fields or none, at most 20 named attachments, and a
time in whole milliseconds. -/
theorem bridge_round_trip (host : Host) (hsha : ∀ bytes, HexDigest (host.sha256Hex bytes))
    (otherFormats : String → Option ℤ) (boundary : String) (shardConfig config : Config) (event : InboundEvent)
    (hproduced : Produced host shardConfig event) (hlimits : WithinLimits config event) :
    overBridge host.sha256Hex otherFormats boundary config event = .ok event ↔ Bridgeable event := by
  have hnamed := hproduced.wellNamed
  constructor
  · intro h
    obtain ⟨q, htime, hq⟩ : ∃ q : ℚ, event.occurredAt = .finite q ∧ |q| ≤ IsoDate.maxTime := by
      cases hoccurred : event.occurredAt with
      | finite q =>
        refine ⟨q, rfl, ?_⟩
        by_contra hq
        simp [overBridge, buildEventMultipart, buildWireEvent, isoText, hoccurred, hq, error_bind] at h
      | infinite negative => simp [overBridge, buildEventMultipart, buildWireEvent, isoText, hoccurred, error_bind] at h
      | nan => simp [overBridge, buildEventMultipart, buildWireEvent, isoText, hoccurred, error_bind] at h
    have ht := abs_truncate_le hq
    rw [overBridge_eq otherFormats boundary hq htime, parseForm_wire hsha otherFormats hnamed hlimits ht] at h
    obtain ⟨hfencing, hcount, hnames, hsame⟩ := h
    exact ⟨⟨truncate q, congrArg InboundEvent.occurredAt hsame, ht⟩, hfencing, hcount, hnames⟩
  · rintro ⟨⟨t, htime, ht⟩, hfencing, hcount, hnames⟩
    have htruncate : truncate (t : ℚ) = t := by
      simp [truncate]
    have hq : |(t : ℚ)| ≤ IsoDate.maxTime := by exact_mod_cast ht
    rw [overBridge_eq otherFormats boundary hq htime, htruncate, parseForm_wire hsha otherFormats hnamed hlimits ht]
    refine ⟨hfencing, hcount, hnames, ?_⟩
    rw [← htime]

end RoundTrip

def shardHost (env : Environment) : Host where
  env := env
  now := .finite 1700000000000
  files := ⟨fun _ => none, fun _ => none, fun _ => none⟩
  sha256Hex := fun _ => Hmac.emptySha256

def shardConfig : Config := ⟨[], 20 * 1024 * 1024, 50 * 1024 * 1024, by decide, by decide⟩

def shardHook : MessageHook where
  content := "hello"
  sentFrom := none
  timestamp := some (.finite 1700000000123)
  messageId := some "m-1"
  senderId := some "u1"
  senderName := some " Ada "
  runId := none
  channel := some "qqbot"
  accountId := some "bot-qq-u1"
  conversationId := some "u1"
  isGroup := some false
  wasMentioned := none
  mediaPath := .null
  mediaPaths := .null
  mediaType := .null
  mediaTypes := .null
  metadata := .null

def shardContext : AgentContext := ⟨none, none, none, none, none, none, none, none, none, .null⟩

/-- The event of `shardHook` on a node that holds the given lease. -/
def shardEvent (leaseEpoch assignmentGeneration : Option ℤ) : InboundEvent where
  eventId := "m-1"
  occurredAt := .finite 1700000000123
  channel := .qq
  connectionId := "shard:qq-shard-000"
  accountKey := some "bot-qq-u1"
  shardId := some "qq-shard-000"
  nodeId := some "node-a"
  leaseEpoch := leaseEpoch
  assignmentGeneration := assignmentGeneration
  conversation := ⟨.private_, "u1", none⟩
  sender := ⟨"u1", some "Ada"⟩
  message := ⟨"hello", true⟩
  attachments := []

theorem withinLimits_shardEvent (leaseEpoch assignmentGeneration : Option ℤ) :
    WithinLimits shardConfig (shardEvent leaseEpoch assignmentGeneration) := by
  simp [WithinLimits, shardEvent]

theorem bridge_round_trip_lease :
    overBridge (fun _ => Hmac.emptySha256) (fun _ => none) "b" shardConfig (shardEvent (some 7) (some 3)) =
      .ok (shardEvent (some 7) (some 3)) :=
  (bridge_round_trip (shardHost ⟨none, some "qq-shard-000", some "node-a", some "7", some "3"⟩)
    (fun _ => Hmac.hexDigest_emptySha256) (fun _ => none) "b" shardConfig shardConfig _
    (.messageHook shardHook shardContext (by decide +kernel)) (withinLimits_shardEvent _ _)).2
    { time := ⟨1700000000123, by norm_num [shardEvent], by decide +kernel⟩
      fencing := .inr ⟨rfl, ⟨7, rfl, by decide⟩, 3, rfl, by decide⟩
      count := by decide
      fileNames := by simp [shardEvent] }

/-- The event is of version 1.0 and has a fencing field. -/
theorem bridge_refuses_node_without_lease :
    ¬ ∀ (host : Host) (otherFormats : String → Option ℤ) (boundary : String) (shardConfig config : Config)
      (event : InboundEvent), (∀ bytes, HexDigest (host.sha256Hex bytes)) → Produced host shardConfig event →
        WithinLimits config event → overBridge host.sha256Hex otherFormats boundary config event = .ok event := by
  intro h
  have hread := h (shardHost ⟨none, some "qq-shard-000", some "node-a", none, none⟩) (fun _ => none) "b" shardConfig
    shardConfig (shardEvent none none) (fun _ => Hmac.hexDigest_emptySha256)
    (.messageHook shardHook shardContext (by decide +kernel)) (withinLimits_shardEvent _ _)
  have hrefused : overBridge (fun _ => Hmac.emptySha256) (fun _ => none) "b" shardConfig (shardEvent none none) =
      .error (invalidBridge "Bridge event version 1.0 must not include fencing fields") := by decide +kernel
  rw [show (shardHost ⟨none, some "qq-shard-000", some "node-a", none, none⟩).sha256Hex = fun _ => Hmac.emptySha256
    from rfl, hrefused] at hread
  cases hread

end RyanAI.Gateway.OpenClaw
