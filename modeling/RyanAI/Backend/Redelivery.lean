import RyanAI.Backend.EventLease
import RyanAI.Gateway.ShardLease
import RyanAI.Lib.IsoDate
import RyanAI.Lib.JsonText

/-!
# Redelivery of a channel event

A channel event reaches `receive_event` of `routers/bot_gateway.py` through the control server of a gateway node, which
stamps it in redis mode with the lease it came in under, and through `buildWireEvent` of `ryanai-client.ts`. The backend
hashes the whole event with its stamp, and `claim_event` compares the hash with the one of the row it finds.
`redelivery_recognised_iff` says when a second delivery is taken for the same event.
-/

namespace RyanAI.Backend.Redelivery

open RyanAI.Lib
open RyanAI.Lib.Interleaving
open RyanAI.Lib.JsonText (Value text dumps fieldTexts)
open RyanAI.Gateway (Channel Conversation Message)
open RyanAI.Gateway.ShardLease (Mode)
open RyanAI.Backend.EventLease

/-! ## The event on its way -/

structure Attachment where
  id : String
  fileName : String
  contentType : String
  bytes : List UInt8

/-- What the channel delivers: `GatewayInboundEvent` without the stamp. -/
structure ChannelEvent where
  eventId : String
  occurredAt : ℤ
  channel : Channel
  connectionId : String
  conversation : Conversation
  senderId : String
  senderName : Option String
  message : Message
  attachments : List Attachment

structure Fence where
  shardId : String
  nodeId : String
  leaseEpoch : ℕ
  assignmentGeneration : ℕ
  deriving DecidableEq

def forwarded (mode : Mode) (fence : Fence) : Option Fence :=
  match mode with
  | .single => none
  | .redis => some fence

structure InboundAttachment where
  fieldName : String
  id : String
  fileName : String
  contentType : String
  size : ℕ
  sha256 : String

/-- `InboundEvent` of the backend; `occurredAt` is the text of the time. -/
structure InboundEvent where
  version : String
  eventId : String
  occurredAt : String
  channel : Channel
  connectionId : String
  shardId : Option String
  nodeId : Option String
  leaseEpoch : Option ℕ
  assignmentGeneration : Option ℕ
  conversation : Conversation
  senderId : String
  senderName : Option String
  message : Message
  attachments : List InboundAttachment

/-- `optionalName`: an empty name is left out. -/
def optionalName (name : Option String) : Option String := name.filter fun s => s ≠ ""

section Wire

variable (sha256 : List UInt8 → String) (isoTime : ℤ → String)

def wireAttachment (index : ℕ) (a : Attachment) : InboundAttachment where
  fieldName := "attachment_" ++ toString index
  id := a.id
  fileName := a.fileName
  contentType := a.contentType
  size := a.bytes.length
  sha256 := sha256 a.bytes

/-- `buildWireEvent`, as the backend parses it. -/
def buildWireEvent (event : ChannelEvent) (fence : Option Fence) : InboundEvent where
  version := if fence.isSome then "1.1" else "1.0"
  eventId := event.eventId
  occurredAt := isoTime event.occurredAt
  channel := event.channel
  connectionId := event.connectionId
  shardId := fence.map Fence.shardId
  nodeId := fence.map Fence.nodeId
  leaseEpoch := fence.map Fence.leaseEpoch
  assignmentGeneration := fence.map Fence.assignmentGeneration
  conversation := { event.conversation with name := optionalName event.conversation.name }
  senderId := event.senderId
  senderName := optionalName event.senderName
  message := event.message
  attachments := event.attachments.mapIdx (wireAttachment sha256)

def delivery (mode : Mode) (event : ChannelEvent) (fence : Fence) : InboundEvent :=
  buildWireEvent sha256 isoTime event (forwarded mode fence)

end Wire

def optionalStr : Option String → Value
  | some s => .str s
  | none => .null

def optionalNum : Option ℕ → Value
  | some n => .num n
  | none => .null

def InboundAttachment.modelDump (a : InboundAttachment) : Value :=
  .obj
    [("field_name", .str a.fieldName), ("id", .str a.id), ("file_name", .str a.fileName),
      ("content_type", .str a.contentType), ("size", .num a.size), ("sha256", .str a.sha256)]

/-- `event.model_dump(mode='json')`. -/
def InboundEvent.modelDump (e : InboundEvent) : List (String × Value) :=
  [("version", .str e.version),
    ("event_id", .str e.eventId),
    ("occurred_at", .str e.occurredAt),
    ("channel", .str e.channel.text),
    ("connection_id", .str e.connectionId),
    ("shard_id", optionalStr e.shardId),
    ("node_id", optionalStr e.nodeId),
    ("lease_epoch", optionalNum e.leaseEpoch),
    ("assignment_generation", optionalNum e.assignmentGeneration),
    ("conversation",
      .obj
        [("type", .str e.conversation.type.text), ("id", .str e.conversation.id),
          ("name", optionalStr e.conversation.name)]),
    ("sender", .obj [("id", .str e.senderId), ("name", optionalStr e.senderName)]),
    ("message", .obj [("text", .str e.message.text), ("mentions_bot", .bool e.message.mentionsBot)]),
    ("attachments", .arr (e.attachments.map InboundAttachment.modelDump))]

/-- `semantic_json.encode()`. -/
def InboundEvent.semanticJson (e : InboundEvent) : List UInt8 := (dumps (.obj e.modelDump)).toUTF8.data.toList

/-- The claim that `receive_event` makes for an event. -/
def claimOf (sha256 : List UInt8 → String) (nonce : String) (leaseSeconds : ℤ) (e : InboundEvent) : Claim where
  connectionId := e.connectionId
  eventId := e.eventId
  requestHash := sha256 e.semanticJson
  requestNonce := nonce
  conversationType := e.conversation.type
  externalConversationId := e.conversation.id
  externalSenderId := e.senderId
  leaseSeconds := leaseSeconds

section Stamp

variable {sha256 : List UInt8 → String} {isoTime : ℤ → String}

theorem optionalStr_atom (s : Option String) : (optionalStr s).Atom := by
  cases s with
  | none => trivial
  | some s => trivial

theorem optionalNum_atom (n : Option ℕ) : (optionalNum n).Atom := by
  cases n with
  | none => trivial
  | some n => trivial

theorem modelDump_comparable (event : ChannelEvent) (f g : Option Fence) : List.Forall₂ JsonText.Comparable
      (fieldTexts (buildWireEvent sha256 isoTime event f).modelDump)
      (fieldTexts (buildWireEvent sha256 isoTime event g).modelDump) := by
  simp only [InboundEvent.modelDump, fieldTexts]
  have hsame : ∀ k t, JsonText.Comparable (k, t) (k, t) := fun k t => ⟨rfl, Or.inl rfl⟩
  have hstr : ∀ k s t, JsonText.Comparable (k, text (.str s)) (k, text (.str t)) := fun k s t =>
    ⟨rfl, Or.inr ⟨.str s, .str t, trivial, trivial, rfl, rfl⟩⟩
  have hopt : ∀ k s t, JsonText.Comparable (k, text (optionalStr s)) (k, text (optionalStr t)) :=
    fun k s t => ⟨rfl, Or.inr ⟨_, _, optionalStr_atom s, optionalStr_atom t, rfl, rfl⟩⟩
  have hnum : ∀ k m n, JsonText.Comparable (k, text (optionalNum m)) (k, text (optionalNum n)) :=
    fun k m n => ⟨rfl, Or.inr ⟨_, _, optionalNum_atom m, optionalNum_atom n, rfl, rfl⟩⟩
  refine .cons (hstr _ _ _) (.cons (hsame _ _) (.cons (hsame _ _) (.cons (hsame _ _) (.cons (hsame _ _)
    (.cons (hopt _ _ _) (.cons (hopt _ _ _) (.cons (hnum _ _ _) (.cons (hnum _ _ _)
    (.cons (hsame _ _) (.cons (hsame _ _) (.cons (hsame _ _) (.cons (hsame _ _) .nil))))))))))))

theorem optionalStr_inj (h : optionalStr s = optionalStr t) : s = t := by
  cases s <;> cases t <;> simp_all [optionalStr]

theorem optionalNum_inj (h : optionalNum m = optionalNum n) : m = n := by
  cases m <;> cases n <;> simp_all [optionalNum]

theorem atom_text_eq (hv : v.Atom) (hw : w.Atom) (h : text v = text w) : v = w := by
  have hnil : JsonText.NoDigit [] := by
    intro c hc
    cases hc
  exact (JsonText.atom_text_inj hv hw hnil hnil (congrArg (· ++ []) h)).1

theorem semanticJson_inj (h : (buildWireEvent sha256 isoTime event f).semanticJson =
      (buildWireEvent sha256 isoTime event g).semanticJson) : f = g := by
  have hbytes := ByteArray.ext (Array.toList_inj.1 h)
  have htext := String.ofList_injective (String.toByteArray_inj.1 hbytes)
  have hsorted := JsonText.object_text_inj (modelDump_comparable event f g) htext
  -- a field of the one object is the field of the same key of the other
  have hfield : ∀ a, a ∈ fieldTexts (buildWireEvent sha256 isoTime event f).modelDump →
      a ∈ fieldTexts (buildWireEvent sha256 isoTime event g).modelDump := by
    intro a ha
    rw [← JsonText.mem_sortKeys, ← hsorted, JsonText.mem_sortKeys]
    exact ha
  have hshard := hfield ("shard_id", text (optionalStr (f.map Fence.shardId)))
    (by simp [InboundEvent.modelDump, fieldTexts, buildWireEvent])
  have hnode := hfield ("node_id", text (optionalStr (f.map Fence.nodeId)))
    (by simp [InboundEvent.modelDump, fieldTexts, buildWireEvent])
  have hepoch := hfield ("lease_epoch", text (optionalNum (f.map Fence.leaseEpoch)))
    (by simp [InboundEvent.modelDump, fieldTexts, buildWireEvent])
  have hgeneration := hfield
    ("assignment_generation", text (optionalNum (f.map Fence.assignmentGeneration)))
    (by simp [InboundEvent.modelDump, fieldTexts, buildWireEvent])
  simp [InboundEvent.modelDump, fieldTexts, buildWireEvent] at hshard hnode hepoch hgeneration
  have hshard' := optionalStr_inj (atom_text_eq (optionalStr_atom _) (optionalStr_atom _) hshard)
  have hnode' := optionalStr_inj (atom_text_eq (optionalStr_atom _) (optionalStr_atom _) hnode)
  have hepoch' := optionalNum_inj (atom_text_eq (optionalNum_atom _) (optionalNum_atom _) hepoch)
  have hgeneration' := optionalNum_inj (atom_text_eq (optionalNum_atom _) (optionalNum_atom _) hgeneration)
  cases f with
  | none =>
    cases g with
    | none => rfl
    | some g => simp at hshard'
  | some f =>
    cases g with
    | none => simp at hshard'
    | some g =>
      obtain ⟨s, n, e, a⟩ := f
      obtain ⟨s', n', e', a'⟩ := g
      simp at hshard' hnode' hepoch' hgeneration'
      subst hshard' hnode' hepoch' hgeneration'
      rfl

end Stamp

/-! ## The row of an event -/

def UniqueEvents (t : Events) : Prop :=
  ∀ id id' r r', t.get id = some r → t.get id' = some r' → r.connectionId = r'.connectionId →
    r.eventId = r'.eventId → id = id'

variable {t t' : Events} {id : String} {r : EventRow} {w w' : Worker} {c c' : Conf Events Worker} {a : Claim}
    {k : Choice}

theorem uniqueEvents_set (h : UniqueEvents t) (hget : t.get id = some r) (hkept : RowKept r r') :
    UniqueEvents (t.set id r') := by
  -- every row of the new table stands for a row of the old one
  have hold : ∀ id₁ r₁, (t.set id r').get id₁ = some r₁ →
      ∃ r₀, t.get id₁ = some r₀ ∧ r₁.connectionId = r₀.connectionId ∧ r₁.eventId = r₀.eventId := by
    intro id₁ r₁ h₁
    rw [KeyedTable.get_set] at h₁
    split at h₁
    · rename_i hid
      subst hid
      cases h₁
      exact ⟨r, hget, hkept.connectionId, hkept.eventId⟩
    · exact ⟨r₁, h₁, rfl, rfl⟩
  intro id₁ id₂ r₁ r₂ h₁ h₂ hc he
  obtain ⟨s₁, hs₁, hc₁, he₁⟩ := hold id₁ r₁ h₁
  obtain ⟨s₂, hs₂, hc₂, he₂⟩ := hold id₂ r₂ h₂
  apply h id₁ id₂ s₁ s₂ hs₁ hs₂
  · rw [← hc₁, ← hc₂, hc]
  · rw [← he₁, ← he₂, he]

theorem uniqueEvents_insert (h : UniqueEvents t) (hfree : clashes id row t = false) : UniqueEvents (t.set id row) := by
  simp only [clashes, Bool.or_eq_false_iff, Option.isSome_eq_false_iff, Option.isNone_iff_eq_none] at hfree
  have hnone : ∀ id₁ r₁, t.get id₁ = some r₁ →
      ¬ (r₁.connectionId = row.connectionId ∧ r₁.eventId = row.eventId) := by
    intro id₁ r₁ h₁
    have hnot := KeyedTable.not_of_find?_eq_none hfree.2 h₁
    simpa [EventRow.isFor] using hnot
  intro id₁ id₂ r₁ r₂ h₁ h₂ hc he
  rw [KeyedTable.get_set] at h₁ h₂
  split at h₁ <;> split at h₂
  · rename_i e₁ e₂
    rw [e₁, e₂]
  · cases h₁
    exact absurd ⟨hc.symm, he.symm⟩ (hnone id₂ r₂ h₂)
  · cases h₂
    exact absurd ⟨hc, he⟩ (hnone id₁ r₁ h₁)
  · exact h id₁ id₂ r₁ r₂ h₁ h₂ hc he

theorem uniqueEvents_of_trans (htrans : Trans t w t' w') (h : UniqueEvents t) : UniqueEvents t' := by
  cases htrans with
  | quiet _ _ _ => exact h
  | inserted hfree => exact uniqueEvents_insert h hfree
  | reclaimed hget hre =>
    apply uniqueEvents_set h hget
    exact ⟨rfl, rfl, rfl, fun hc => absurd hc (status_of_reclaimable hre)⟩
  | written _ hget hheld _ => exact uniqueEvents_set h hget (rowKept_written hheld)

theorem uniqueEvents_of_reaches (hr : Reaches next c c') (h : UniqueEvents c.shared) : UniqueEvents c'.shared := by
  induction hr with
  | refl => exact h
  | tail _ hs ih =>
    obtain ⟨i, k, -, -, hn⟩ := hs
    exact uniqueEvents_of_trans (trans_of_next hn) ih

def HasRow (t : Events) (a : Claim) (id : String) : Prop :=
  ∃ r, t.get id = some r ∧ r.connectionId = a.connectionId ∧ r.eventId = a.eventId ∧ r.requestHash = a.requestHash

def phaseRow : Phase → Option String
  | .reclaiming _ id => some id
  | .refreshing id _ => some id
  | .finished (.claimed id _ _) => some id
  | _ => none

theorem HasRow.mono (htrans : Trans t w t' w') (h : HasRow t a id) : HasRow t' a id := by
  obtain ⟨r, hget, hc, he, hh⟩ := h
  obtain ⟨r', hget', hkept⟩ := htrans.row_kept hget
  exact ⟨r', hget', hkept.connectionId.trans hc, hkept.eventId.trans he, hkept.requestHash.trans hh⟩

theorem hasRow_of_nextClaim (h : nextClaim a k t phase = some (t', phase'))
    (hold : ∀ id ∈ phaseRow phase, HasRow t a id) : ∀ id ∈ phaseRow phase', HasRow t' a id := by
  have htrans := trans_of_nextClaim h
  intro id hid
  cases phase with
  | start =>
    simp only [nextClaim] at h
    split at h
    · cases h
      cases hid
    · cases h
      cases hid
      exact ⟨a.row k.now, by simp, rfl, rfl, rfl⟩
  | selecting now =>
    simp only [nextClaim] at h
    split at h
    · cases h
      cases hid
    rename_i id' r hfind
    -- the row that was found is of the event, and its hash is the one of the claim from here on
    obtain ⟨hget, hfor⟩ := KeyedTable.get_of_find? hfind
    simp only [EventRow.isFor, decide_eq_true_eq] at hfor
    split at h
    · cases h
      cases hid
    rename_i hhash
    have hrow : HasRow t a id' := ⟨r, hget, hfor.1, hfor.2, not_not.1 hhash⟩
    split at h
    · cases h
      cases hid
      exact hrow
    · cases h
      cases hid
      exact hrow
  | reclaiming now id' =>
    -- taking the row over changes neither its event nor its hash
    have hrow := (hold id' rfl).mono htrans
    simp only [nextClaim] at h
    cases h
    cases hid
    exact hrow
  | refreshing id' granted =>
    have hrow := (hold id' rfl).mono htrans
    simp only [nextClaim] at h
    split at h
    · cases h
      cases hid
      exact hrow
    · cases h
      cases hid
  | finished o => cases h

def Refers (w : Worker) (t : Events) : Prop := ∀ a, w.call = .claimEvent a → ∀ id ∈ phaseRow w.phase, HasRow t a id

theorem refers_of_next (h : next i t w k = some (t', w')) (hold : Refers w t) : Refers w' t' := by
  rw [next_eq (unfinished_of_next h)] at h
  intro a ha id hid
  split at h
  · cases h
    cases hid
  split at h
  · rename_i b hcall
    rw [Option.map_eq_some_iff] at h
    obtain ⟨⟨t₁, phase₁⟩, hclaim, heq⟩ := h
    cases heq
    have hab := ha.symm.trans hcall
    cases hab
    exact hasRow_of_nextClaim hclaim (hold a hcall) id hid
  · rw [Option.map_eq_some_iff] at h
    obtain ⟨⟨t₁, ok⟩, -, heq⟩ := h
    cases heq
    cases hid

theorem refers_of_reaches (hr : Reaches next c c') (h : ∀ (i : Nat) w, c.procs[i]? = some w → Refers w c.shared) :
    ∀ (i : Nat) w, c'.procs[i]? = some w → Refers w c'.shared := by
  have hholds := invariant_of_frame (G := fun _ => True) (L := fun _ w t => Refers w t)
    (fun i k t w t' w' _ _ hl hn => ⟨trivial, refers_of_next hn hl⟩)
    (fun i j k t w t' w' q _ _ _ _ hl hn a ha id hid => (hl a ha id hid).mono (trans_of_next hn))
    hr ⟨trivial, h⟩
  exact hholds.2

theorem refers_initial (h : Initial c) : ∀ (i : Nat) w, c.procs[i]? = some w → Refers w c.shared := by
  intro i w hw a _ id hid
  rw [h.2 w (List.mem_of_getElem? hw)] at hid
  cases hid

/-! ## A second delivery -/

def Later (same : Prop) : Phase → Prop
  | .start => True
  | .selecting _ => True
  | .reclaiming _ _ => same
  | .refreshing _ _ => same
  | .finished (.claimed _ _ _) => same
  | .finished .conflict => ¬ same
  | .finished .integrity => False
  | .finished (.updated _) => False
  | .finished (.refused _) => True

section

variable (hu : UniqueEvents t) (hget : t.get id = some r) (hc : r.connectionId = a.connectionId)

include hu hget hc

theorem find?_of_row (he : r.eventId = a.eventId) :
    t.find? (EventRow.isFor a.connectionId a.eventId) = some (id, r) := by
  cases hfind : t.find? (EventRow.isFor a.connectionId a.eventId) with
  | none =>
    have hnot := KeyedTable.not_of_find?_eq_none hfind hget
    simp [EventRow.isFor, hc, he] at hnot
  | some found =>
    obtain ⟨id', r'⟩ := found
    obtain ⟨hget', hfor⟩ := KeyedTable.get_of_find? hfind
    simp only [EventRow.isFor, decide_eq_true_eq] at hfor
    have hid := hu id' id r' r hget' hget (hfor.1.trans hc.symm) (hfor.2.trans he.symm)
    subst hid
    rw [hget, Option.some.injEq] at hget'
    rw [hget']

theorem later_of_nextClaim (he : r.eventId = a.eventId) (h : nextClaim a k t phase = some (t', phase'))
    (hl : Later (r.requestHash = a.requestHash) phase) : Later (r.requestHash = a.requestHash) phase' := by
  have hfind := find?_of_row hu hget hc he
  cases phase with
  | start =>
    simp only [nextClaim] at h
    split at h
    · cases h
      trivial
    -- the insert cannot succeed beside the row of the event
    · rename_i hfree
      simp only [clashes, Bool.or_eq_true, not_or, Option.isSome_iff_ne_none, not_not] at hfree
      cases hfind.symm.trans hfree.2
  | selecting now =>
    simp only [nextClaim, hfind] at h
    split at h
    · rename_i hne
      cases h
      exact hne
    rename_i heq
    have hsame := not_not.1 heq
    split at h
    · cases h
      exact hsame
    · cases h
      exact hsame
  | reclaiming now id' =>
    simp only [nextClaim] at h
    cases h
    exact hl
  | refreshing id' granted =>
    simp only [nextClaim] at h
    split at h
    · cases h
      exact hl
    · cases h
      trivial
  | finished o => cases h

theorem later_of_next (he : r.eventId = a.eventId) (hcall : w.call = .claimEvent a) (h : next i t w k = some (t', w'))
    (hl : Later (r.requestHash = a.requestHash) w.phase) : Later (r.requestHash = a.requestHash) w'.phase := by
  rw [next_eq (unfinished_of_next h)] at h
  split at h
  · cases h
    trivial
  rw [hcall] at h
  simp only [Option.map_eq_some_iff] at h
  obtain ⟨⟨t₁, phase₁⟩, hclaim, heq⟩ := h
  cases heq
  exact later_of_nextClaim hu hget hc he hclaim hl

end

theorem later_of_reaches (hr : Reaches next c c') (hu : UniqueEvents c.shared) (hget : c.shared.get id = some r)
    (hc : r.connectionId = a.connectionId) (he : r.eventId = a.eventId) {j : Nat}
    (hj : c.procs[j]? = some ⟨.claimEvent a, .start⟩) :
    ∃ w, c'.procs[j]? = some w ∧ w.call = .claimEvent a ∧ Later (r.requestHash = a.requestHash) w.phase := by
  induction hr with
  | refl => exact ⟨_, hj, rfl, trivial⟩
  | @tail b c' hcb hs ih =>
    obtain ⟨w, hw, hcall, hl⟩ := ih
    obtain ⟨r', hget', hkept⟩ := row_kept_of_reaches hcb hget
    have hub := uniqueEvents_of_reaches hcb hu
    obtain @⟨t, t', ws, v, v', m, k, hp, -, hn⟩ := hs
    by_cases hmj : m = j
    · subst hmj
      rw [hp] at hw
      cases hw
      obtain ⟨hlt, -⟩ := List.getElem?_eq_some_iff.1 hp
      refine ⟨v', List.getElem?_set_self hlt, (trans_of_next hn).call_eq.trans hcall, ?_⟩
      -- the row has kept its hash since the claim started
      rw [← hkept.requestHash] at hl ⊢
      exact later_of_next hub hget' (hkept.connectionId.trans hc) (hkept.eventId.trans he) hcall hn hl
    · exact ⟨w, by rw [List.getElem?_set_ne hmj]; exact hw, hcall, hl⟩

def Recognised : Outcome → Prop
  | .claimed _ _ _ => True
  | _ => False

def SameStamp (mode : Mode) (f₁ f₂ : Fence) : Prop := mode = .single ∨ f₁ = f₂

instance (mode : Mode) (f₁ f₂ : Fence) : Decidable (SameStamp mode f₁ f₂) :=
  inferInstanceAs (Decidable (mode = .single ∨ f₁ = f₂))

theorem forwarded_eq_iff : forwarded mode f₁ = forwarded mode f₂ ↔ SameStamp mode f₁ f₂ := by
  cases mode with
  | single => simp [forwarded, SameStamp]
  | redis => simp [forwarded, SameStamp]

theorem requestHash_eq_iff {sha256 : List UInt8 → String} {isoTime : ℤ → String}
    (hsha : sha256 (delivery sha256 isoTime mode event f₁).semanticJson =
        sha256 (delivery sha256 isoTime mode event f₂).semanticJson →
      (delivery sha256 isoTime mode event f₁).semanticJson = (delivery sha256 isoTime mode event f₂).semanticJson) :
    sha256 (delivery sha256 isoTime mode event f₁).semanticJson =
      sha256 (delivery sha256 isoTime mode event f₂).semanticJson ↔ SameStamp mode f₁ f₂ := by
  rw [← forwarded_eq_iff]
  constructor
  · intro h
    exact semanticJson_inj (hsha h)
  · intro h
    simp only [delivery, h]

section Claim

variable (sha256 : List UInt8 → String) (isoTime : ℤ → String) (mode : Mode) (event : ChannelEvent)
  (fence : Fence) (nonce : String) (leaseSeconds : ℤ)

theorem claimOf_connectionId :
    (claimOf sha256 nonce leaseSeconds (delivery sha256 isoTime mode event fence)).connectionId =
      event.connectionId := rfl

theorem claimOf_eventId : (claimOf sha256 nonce leaseSeconds (delivery sha256 isoTime mode event fence)).eventId =
      event.eventId := rfl

theorem claimOf_requestHash (e : InboundEvent) :
    (claimOf sha256 nonce leaseSeconds e).requestHash = sha256 e.semanticJson := rfl

end Claim

/-- A later delivery is recognised exactly when it carries the same stamp. -/
theorem redelivery_recognised_iff (sha256 : List UInt8 → String) (isoTime : ℤ → String) (mode : Mode)
    (event : ChannelEvent) (f₁ f₂ : Fence) (n₁ n₂ : String) (leaseSeconds : ℤ)
    (hsha : sha256 (delivery sha256 isoTime mode event f₁).semanticJson =
        sha256 (delivery sha256 isoTime mode event f₂).semanticJson →
      (delivery sha256 isoTime mode event f₁).semanticJson = (delivery sha256 isoTime mode event f₂).semanticJson)
    {c₀ c c' : Conf Events Worker} (h₀ : Initial c₀) (hr : Reaches next c₀ c) (hr' : Reaches next c c')
    {i j : Nat} {id : String} {row : EventRow} {granted : Bool} {w : Worker} {o : Outcome}
    (hfirst : c.procs[i]? = some ⟨.claimEvent (claimOf sha256 n₁ leaseSeconds
      (delivery sha256 isoTime mode event f₁)), .finished (.claimed id row granted)⟩)
    (hsecond : c.procs[j]? = some ⟨.claimEvent (claimOf sha256 n₂ leaseSeconds
      (delivery sha256 isoTime mode event f₂)), .start⟩)
    (hw : c'.procs[j]? = some w) (hdone : w.phase = .finished o) (ho : ∀ g, o ≠ .refused g) :
    (Recognised o ↔ SameStamp mode f₁ f₂) ∧ (o = .conflict ↔ ¬ SameStamp mode f₁ f₂) := by
  have hu : UniqueEvents c.shared := by
    apply uniqueEvents_of_reaches hr
    rw [h₀.1]
    intro id id' r r' h
    cases h
  obtain ⟨r, hget, hc, he, hh⟩ := refers_of_reaches hr (refers_initial h₀) i _ hfirst _ rfl id rfl
  rw [claimOf_connectionId] at hc
  rw [claimOf_eventId] at he
  rw [claimOf_requestHash] at hh
  obtain ⟨v, hv, -, hl⟩ := later_of_reaches hr' hu hget (hc.trans (claimOf_connectionId ..).symm)
    (he.trans (claimOf_eventId ..).symm) hsecond
  rw [hw] at hv
  cases hv
  rw [hdone, hh, claimOf_requestHash, requestHash_eq_iff hsha] at hl
  cases o with
  | claimed id' row' g =>
    have hsame : SameStamp mode f₁ f₂ := hl
    simp [Recognised, hsame]
  | conflict =>
    have hdiff : ¬ SameStamp mode f₁ f₂ := hl
    simp [Recognised, hdiff]
  | integrity => exact False.elim hl
  | updated ok => exact False.elim hl
  | refused g => exact absurd rfl (ho g)

/-! ## A handover -/

def sampleTime (ms : ℤ) : String := String.ofList (IsoDate.toISOString ms)

def sampleEvent : ChannelEvent where
  eventId := "message-1"
  occurredAt := 0
  channel := .qq
  connectionId := "conn"
  conversation := ⟨.private_, "chat", none⟩
  senderId := "user"
  senderName := none
  message := ⟨"hello", false⟩
  attachments := []

def sampleFence₁ : Fence := ⟨"qq-0", "node-a", 1, 1⟩

def sampleFence₂ : Fence := ⟨"qq-0", "node-b", 2, 1⟩

/-- The digests of the two deliveries. -/
@[irreducible]
def sampleHash (bytes : List UInt8) : String :=
  if bytes = (delivery (fun _ => "") sampleTime .redis sampleEvent sampleFence₁).semanticJson then
    "79d20c771aa17104af9a367984f591bfcf18ad4193324b91ba6585672b9afa1e"
  else "235064aeac35ed1d8c2906a7c1bbded99e011aa33e0c8e8a15fb6f129bc1988d"

def sampleClaim₁ : Claim := claimOf sampleHash "n1" 600 (delivery sampleHash sampleTime .redis sampleEvent sampleFence₁)

def sampleClaim₂ : Claim := claimOf sampleHash "n2" 600 (delivery sampleHash sampleTime .redis sampleEvent sampleFence₂)

def samplePending : Conf Events Worker :=
  ⟨KeyedTable.empty, [⟨.claimEvent sampleClaim₁, .start⟩, ⟨.claimEvent sampleClaim₂, .start⟩]⟩

def sampleAccepted : Conf Events Worker :=
  ⟨KeyedTable.empty.set "row" (sampleClaim₁.row 0),
    [⟨.claimEvent sampleClaim₁, .finished (.claimed "row" (sampleClaim₁.row 0) true)⟩,
      ⟨.claimEvent sampleClaim₂, .start⟩]⟩

def sampleRefused : Conf Events Worker :=
  ⟨KeyedTable.empty.set "row" (sampleClaim₁.row 0),
    [⟨.claimEvent sampleClaim₁, .finished (.claimed "row" (sampleClaim₁.row 0) true)⟩,
      ⟨.claimEvent sampleClaim₂, .finished .conflict⟩]⟩

theorem sample_initial : Initial samplePending := by
  refine ⟨rfl, fun w hw => ?_⟩
  simp only [samplePending, List.mem_cons, List.not_mem_nil, or_false] at hw
  rcases hw with rfl | rfl <;> rfl

theorem sample_accepted : Reaches next samplePending sampleAccepted := by
  have hs : runSchedule next samplePending [(0, ⟨0, "row", false⟩)] = some sampleAccepted := rfl
  exact reaches_of_runSchedule hs

theorem sample_hash_ne : sampleClaim₁.requestHash ≠ sampleClaim₂.requestHash := by
  have htexts : (delivery (fun _ => "") sampleTime .redis sampleEvent sampleFence₂).semanticJson ≠
      (delivery (fun _ => "") sampleTime .redis sampleEvent sampleFence₁).semanticJson := by
    intro h
    have hstamp := semanticJson_inj h
    revert hstamp
    decide
  -- without attachments nothing else is hashed
  have hwire : ∀ fence, delivery sampleHash sampleTime .redis sampleEvent fence =
      delivery (fun _ => "") sampleTime .redis sampleEvent fence := fun _ => rfl
  rw [sampleClaim₁, sampleClaim₂, claimOf_requestHash, claimOf_requestHash, hwire, hwire]
  unfold sampleHash
  rw [if_pos rfl, if_neg htexts]
  decide

theorem sample_refused : Reaches next sampleAccepted sampleRefused := by
  have hclash : clashes "new" (sampleClaim₂.row 700) sampleAccepted.shared = true := rfl
  have hfind : sampleAccepted.shared.find?
      (EventRow.isFor sampleClaim₂.connectionId sampleClaim₂.eventId) =
      some ("row", sampleClaim₁.row 0) := rfl
  have hne : (sampleClaim₁.row 0).requestHash ≠ sampleClaim₂.requestHash := sample_hash_ne
  have hinsert : next 1 sampleAccepted.shared ⟨.claimEvent sampleClaim₂, .start⟩ ⟨700, "new", false⟩ =
      some (sampleAccepted.shared, ⟨.claimEvent sampleClaim₂, .selecting 700⟩) := by
    simp [next, nextClaim, hclash]
  have hselect : next 1 sampleAccepted.shared ⟨.claimEvent sampleClaim₂, .selecting 700⟩
      ⟨700, "new", false⟩ =
      some (sampleAccepted.shared, ⟨.claimEvent sampleClaim₂, .finished .conflict⟩) := by
    simp [next, nextClaim, hfind, hne]
  have hstep : StepWhere next (fun _ _ _ => True) sampleAccepted
      ⟨sampleAccepted.shared, sampleAccepted.procs.set 1 ⟨.claimEvent sampleClaim₂, .selecting 700⟩⟩ :=
    .act 1 _ rfl trivial hinsert
  exact Relation.ReflTransGen.tail (.single hstep) (.act 1 _ rfl trivial hselect)

/-- After a handover the second delivery is refused as a reuse of the event id. -/
theorem handover_conflicts : ∃ c₀ c c' : Conf Events Worker, Initial c₀ ∧ Reaches next c₀ c ∧ Reaches next c c' ∧
      c.procs[0]? = some ⟨.claimEvent sampleClaim₁, .finished (.claimed "row" (sampleClaim₁.row 0) true)⟩ ∧
      c.procs[1]? = some ⟨.claimEvent sampleClaim₂, .start⟩ ∧
      c'.procs[1]? = some ⟨.claimEvent sampleClaim₂, .finished .conflict⟩ ∧ ¬ Recognised .conflict :=
  ⟨samplePending, sampleAccepted, sampleRefused, sample_initial, sample_accepted, sample_refused, rfl, rfl,
    rfl, fun h => h⟩

theorem redelivery_recognised_iff_handover : ¬ SameStamp .redis sampleFence₁ sampleFence₂ ∧
      (Recognised .conflict ↔ SameStamp .redis sampleFence₁ sampleFence₂) ∧
      (Outcome.conflict = .conflict ↔ ¬ SameStamp .redis sampleFence₁ sampleFence₂) :=
  ⟨by decide,
    redelivery_recognised_iff sampleHash sampleTime .redis sampleEvent sampleFence₁ sampleFence₂ "n1" "n2"
      600 (fun h => absurd h sample_hash_ne) sample_initial sample_accepted sample_refused (i := 0) (j := 1) rfl rfl rfl rfl
      (by simp)⟩

end RyanAI.Backend.Redelivery
