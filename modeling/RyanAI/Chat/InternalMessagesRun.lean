import RyanAI.Chat.InternalMessages

/-!
# Internal messages are delivered exactly once

`ChatState` adds to the messages what has happened to them: those that were waiting, the deliveries, and every id drawn
or named. `Good` is their invariant: they are linked, carry their own ids, and name only used ids. A delivery keeps it
because a pending message is a leaf, so that its parent is never in a batch (`Taken.parent_not_pending`), and the links
afterwards are those of the remaining messages with two nodes put in place (`Taken.links_result`).

`delivered_exactly_once` accounts for every message: it waits unchanged or is in one batch.
-/

namespace RyanAI.Chat

open RyanAI.Lib

/-! ## Runs -/

structure ChatState where
  messages : Messages
  currentId : Option String
  /-- The internal messages that were pending at the start or have been inserted. -/
  inserted : List (String × Message)
  deliveries : List Delivery
  /-- Ids that messages have or name, or once had. -/
  used : List String

structure ProcessCall where
  active : Bool
  verified : Bool
  run : RunModel
  newId : String
  assistantId : String
  now : ℕ

inductive InternalEvent where
  | insert (id : String) (message : Message)
  | process (call : ProcessCall)

def insertInternal (id : String) (message : Message) (messages : Messages) : Messages :=
  addChildIdToParent (messages.set id message) (Message.parent message) id

def applyEvent (s : ChatState) : InternalEvent → ChatState
  | .insert id message =>
    { s with
      messages := insertInternal id message s.messages
      inserted := s.inserted ++ [(id, message)]
      used := id :: (Message.parent message).toList ++ s.used }
  | .process call =>
    if call.active || !call.verified then s
    else
      match processPendingInternalMessages call.run call.newId call.assistantId call.now s.messages with
      | .error _ | .ok none => s
      | .ok (some d) =>
        { s with
          messages := d.result
          currentId := some d.assistantId
          deliveries := s.deliveries ++ [d]
          used := call.newId :: call.assistantId :: s.used }

def Allowed (s : ChatState) : InternalEvent → Prop
  | .insert id message =>
    id ∉ s.used ∧ isPending message = true ∧ textOf (Message.field "id" message) = some id ∧
      Message.parent message ≠ some id ∧
      (((Message.parent message).bind s.messages.get).all fun parent => !isPending parent) = true
  | .process call => call.newId ∉ s.used ∧ call.assistantId ∉ s.used ∧ call.newId ≠ call.assistantId

instance (s : ChatState) : (e : InternalEvent) → Decidable (Allowed s e)
  | .insert _ _ => inferInstanceAs (Decidable (_ ∧ _))
  | .process _ => inferInstanceAs (Decidable (_ ∧ _))

def step (s : ChatState) (e : InternalEvent) : Option ChatState := some (applyEvent s e)

def Delivery.ids (d : Delivery) : List String := d.userId :: d.assistantId :: d.batch.map Prod.fst

structure Combined (d : Delivery) (message : Message) : Prop where
  role : Message.field "role" message = .str "user"
  content : Message.field "content" message = .str ("\n\n".intercalate (contentsOf d.batch))
  children : Message.childItems message = [.str d.assistantId]
  parent : ∀ entry ∈ d.batch, Message.field "parentId" message = Message.field "parentId" entry.2

structure DeliveredOnce (d : Delivery) : Prop where
  nonempty : d.batch ≠ []
  pending : ∀ entry ∈ d.batch, d.before.get entry.1 = some entry.2 ∧ isPending entry.2 = true
  ordered : d.batch.Sublist d.before.entries
  combined : ∃ message, d.result.get d.userId = some message ∧ Combined d message
  reply : ∃ message, d.result.get d.assistantId = some message ∧
    Message.field "role" message = .str "assistant" ∧ Message.parent message = some d.userId ∧
    Message.childItems message = []
  gone : ∀ id ∈ d.batch.map Prod.fst, id ≠ d.userId → d.result.get id = none
  others : ∀ id, id ∉ d.ids → (∀ entry ∈ d.batch, Message.parent entry.2 ≠ some id) → d.result.get id = d.before.get id
  parent : ∀ id message, id ∉ d.ids → d.before.get id = some message →
    ∃ message', d.result.get id = some message' ∧
      ∀ key, key ≠ "childrenIds" → Message.field key message' = Message.field key message

structure ExactlyOnce (s : ChatState) : Prop where
  each : ∀ d ∈ s.deliveries, DeliveredOnce d
  once : (s.deliveries.flatMap fun d => d.batch.map Prod.fst).Nodup
  users : (s.deliveries.map Delivery.userId).Nodup
  never_again : ∀ d ∈ s.deliveries, ∀ id ∈ d.ids, ∀ message, s.messages.get id = some message →
    isPending message = false
  kept : ∀ d ∈ s.deliveries, ∃ message, s.messages.get d.userId = some message ∧
    Message.field "content" message = .str ("\n\n".intercalate (contentsOf d.batch))
  not_lost : ∀ entry ∈ s.inserted,
    s.messages.get entry.1 = some entry.2 ∧ isPending entry.2 = true ∨ ∃ d ∈ s.deliveries, entry ∈ d.batch
  linked : Links.Linked (links s.messages)

/-! ## Well-formed messages -/

def Mentions (messages : Messages) (id : String) : Prop :=
  ∃ key message, messages.get key = some message ∧
    (id = key ∨ Message.parent message = some id ∨ id ∈ Message.children message)

structure Good (used : List String) (messages : Messages) : Prop where
  linked : Links.Linked (links messages)
  keyed : ∀ key message id, messages.get key = some message → textOf (Message.field "id" message) = some id → id = key
  empty_used : "" ∈ used
  empty_absent : messages.get "" = none
  mentioned : ∀ id, Mentions messages id → id ∈ used

structure Start (s : ChatState) : Prop where
  good : Good s.used s.messages
  inserted : s.inserted = pendingMessages s.messages
  deliveries : s.deliveries = []

variable {c id q : String} {child m : Message} {s : ChatState}

section Good

variable {used : List String} {messages : Messages} {id q : String} {m : Message}

variable (h : Good used messages)

include h

theorem Good.used_of_get (hm : messages.get q = some m) : q ∈ used := h.mentioned q ⟨q, m, hm, .inl rfl⟩

theorem Good.used_of_parent (hm : messages.get q = some m) (hp : Message.parent m = some id) : id ∈ used :=
  h.mentioned id ⟨q, m, hm, .inr (.inl hp)⟩

theorem Good.used_of_child (hm : messages.get q = some m) (hc : id ∈ Message.children m) : id ∈ used :=
  h.mentioned id ⟨q, m, hm, .inr (.inr hc)⟩

theorem Good.get_of_fresh (hid : id ∉ used) : messages.get id = none := by
  cases hm : messages.get id with
  | none => rfl
  | some m => exact absurd (h.used_of_get hm) hid

theorem Good.empty_ne (hid : id ∉ used) : "" ≠ id := by
  rintro rfl
  exact hid h.empty_used

theorem Good.mem_children (hm : messages.get q = some m) (hc : messages.get c = some child)
    (hp : Message.parent child = some q) :
    c ∈ Message.children m := by
  have hcount := h.linked q _ c _ (links_of_get hm) (links_of_get hc)
  apply List.count_pos_iff.1
  have hdue : Links.due (Message.parent child) q = 1 := if_pos hp
  rw [hcount, hdue]
  exact Nat.one_pos

theorem Good.parent_of_mem_children (hm : messages.get q = some m)
    (hc : messages.get c = some child) (hmem : c ∈ Message.children m) :
    Message.parent child = some q := by
  have hcount := h.linked q _ c _ (links_of_get hm) (links_of_get hc)
  have hpos := List.count_pos_iff.2 hmem
  by_contra hne
  have hdue : Links.due (Message.parent child) q = 0 := if_neg hne
  simp only at hcount
  omega

theorem Good.leaf_of_isPending (hm : messages.get q = some m) (hp : isPending m = true)
    (hc : messages.get c = some child) :
    Message.parent child ≠ some q := by
  intro hparent
  have hmem := h.mem_children hm hc hparent
  rw [children_of_isPending hp] at hmem
  cases hmem

end Good

/-! ## One delivery -/

structure Taken (used : List String) (first : String × Message) (removed : List String) (d : Delivery) : Prop where
  replaces : Replaces first removed d
  good : Good used d.before
  ordered : d.batch.Sublist d.before.entries
  pending : ∀ entry ∈ d.batch, isPending entry.2 = true
  parentId : ∀ entry ∈ d.batch, Message.field "parentId" entry.2 = Message.field "parentId" first.2
  user : removed = [] ∧ d.batch = [first] ∧ d.userId = first.1 ∨ removed = d.batch.map Prod.fst ∧ d.userId ∉ used
  assistant_fresh : d.assistantId ∉ used
  distinct : d.userId ≠ d.assistantId

theorem taken_of_process (hg : Good used messages) (hnew : newId ∉ used)
    (hassistant : assistantId ∉ used) (hne : newId ≠ assistantId)
    (h : processPendingInternalMessages run newId assistantId now messages = .ok (some d)) :
    d.before = messages ∧ d.assistantId = assistantId ∧ (d.userId = newId ∨ d.userId ∈ used) ∧
      ∃ first removed, Taken used first removed d := by
  unfold processPendingInternalMessages at h
  split at h
  · cases h
  cases hpending : pendingMessages messages with
  | nil =>
    rw [hpending] at h
    cases h
  | cons first rest =>
    rw [hpending] at h
    simp only at h
    split at h
    · cases h
    rename_i model hmodel
    cases hdeliver : deliver first.2 (batchOf first model (first :: rest)) model newId assistantId now messages with
    | error e =>
      rw [hdeliver] at h
      cases h
    | ok d' =>
      rw [hdeliver] at h
      obtain rfl : d' = d := Option.some.inj (Except.ok.inj h)
      have hmem : ∀ entry ∈ first :: rest, messages.get entry.1 = some entry.2 ∧ isPending entry.2 = true :=
        fun entry he => mem_pendingMessages.1 (hpending ▸ he)
      obtain ⟨hfirst, hsub⟩ := batchOf_spec rest (hmem first List.mem_cons_self).2 hmodel
      have hkeyed : ∀ entry ∈ batchOf first model (first :: rest), ∀ id,
          textOf (Message.field "id" entry.2) = some id → id = entry.1 :=
        fun entry he id hid => hg.keyed entry.1 entry.2 id (hmem entry (hsub.subset he)).1 hid
      obtain ⟨removed, hrep, hbefore, hbatch, hassist, huser⟩ := deliver_eq_ok hg.empty_absent hfirst hkeyed hdeliver
      have hfirst_used : first.1 ∈ used := hg.used_of_get (hmem first List.mem_cons_self).1
      have hcases : removed = [] ∧ d'.batch = [first] ∧ d'.userId = first.1 ∨
          removed = d'.batch.map Prod.fst ∧ d'.userId = newId := by
        rcases hrep.removed_cases with hr | hr
        · exact Or.inl hr
        · refine Or.inr ⟨hr, huser.resolve_right fun hnil => ?_⟩
          have hm : first.1 ∈ d'.batch.map Prod.fst := List.mem_map_of_mem hrep.first_mem
          rw [← hr, hnil] at hm
          cases hm
      have hid : d'.userId = newId ∨ d'.userId ∈ used := by
        rcases hcases with ⟨-, -, hu⟩ | ⟨-, hu⟩
        · exact Or.inr (hu ▸ hfirst_used)
        · exact Or.inl hu
      refine ⟨hbefore, hassist, hid, first, removed, hrep, hbefore ▸ hg, ?_, ?_, ?_, ?_, hassist ▸ hassistant, ?_⟩
      · rw [hbatch, hbefore]
        have hfilter : (first :: rest).Sublist messages.entries := by
          rw [← hpending]
          exact List.filter_sublist
        exact hsub.trans hfilter
      · rw [hbatch]
        exact fun entry he => (hmem entry (hsub.subset he)).2
      · rw [hbatch]
        exact fun entry he => parentId_of_mem_batchOf he
      · rcases hcases with hr | ⟨hr, hu⟩
        · exact Or.inl hr
        · exact Or.inr ⟨hr, hu ▸ hnew⟩
      · rw [hassist]
        rcases hid with hu | hu
        · exact hu ▸ hne
        · rintro heq
          exact hassistant (heq ▸ hu)

namespace Taken

variable {used : List String} {first : String × Message} {removed : List String} {d : Delivery}

variable (h : Taken used first removed d)

include h

theorem get_of_mem (he : entry ∈ d.batch) : d.before.get entry.1 = some entry.2 :=
  KeyedTable.get_eq_some.2 (h.ordered.subset he)

theorem get_first : d.before.get first.1 = some first.2 := h.get_of_mem h.replaces.first_mem

theorem mem_batch_ids : id ∈ d.batch.map Prod.fst ↔ id ∈ removed ∨ removed = [] ∧ id = d.userId := by
  rcases h.user with ⟨hr, hb, hu⟩ | ⟨hr, hu⟩
  · simp [hr, hb, hu]
  constructor
  · exact fun hid => Or.inl (hr ▸ hid)
  rintro (hid | ⟨hnil, -⟩)
  · exact hr ▸ hid
  · have hm : first.1 ∈ d.batch.map Prod.fst := List.mem_map_of_mem h.replaces.first_mem
    rw [← hr, hnil] at hm
    cases hm

theorem user_leaf (hc : d.before.get c = some child) : Message.parent child ≠ some d.userId := by
  rcases h.user with ⟨-, -, hu⟩ | ⟨-, hu⟩
  · rw [hu]
    exact h.good.leaf_of_isPending h.get_first (h.pending first h.replaces.first_mem) hc
  · exact fun hp => hu (h.good.used_of_parent hc hp)

theorem listed_user (hm : d.before.get q = some m) (hmem : d.userId ∈ Message.children m) :
    Message.parent first.2 = some q := by
  rcases h.user with ⟨-, -, hu⟩ | ⟨-, hu⟩
  · rw [hu] at hmem
    exact h.good.parent_of_mem_children hm h.get_first hmem
  · exact absurd (h.good.used_of_child hm hmem) hu

theorem parent_not_pending (hp : Message.parent first.2 = some p)
    (hm : d.before.get p = some m) : isPending m = false :=
  not_isPending_of_child (h.good.mem_children hm h.get_first hp)

theorem parent_ne_user : Message.parent first.2 ≠ some d.userId := h.user_leaf h.get_first

theorem assistant_absent : d.before.get d.assistantId = none := h.good.get_of_fresh h.assistant_fresh

theorem parent_ne_assistant : Message.parent first.2 ≠ some d.assistantId :=
  fun hp => h.assistant_fresh (h.good.used_of_parent h.get_first hp)

theorem get_result_of_not_mem (hq : q ∉ d.ids) : d.result.get q = if Message.parent first.2 = some q then
        (d.before.get q).map fun m => Message.setChildren (childrenAfter removed d.userId (Message.childItems m)) m
      else d.before.get q := by
  obtain ⟨old, content, model, fields, now, -, hget⟩ := h.replaces.get_result
  simp only [Delivery.ids, List.mem_cons, not_or] at hq
  have hr : q ∉ removed := fun hr => hq.2.2 (h.mem_batch_ids.2 (Or.inl hr))
  rw [hget, if_neg hq.2.1, if_neg hq.1, if_neg hr]
  rfl

theorem get_result_assistant :
    ∃ model now, d.result.get d.assistantId = some (assistantMessage d.assistantId d.userId model now) := by
  obtain ⟨old, content, model, fields, now, -, hget⟩ := h.replaces.get_result
  exact ⟨model, now, by rw [hget, if_pos rfl]⟩

theorem get_result_user :
    ∃ old model fields now, d.result.get d.userId = some (KeyedTable.update old (userMessage d.userId d.assistantId
      (Message.field "parentId" first.2) ("\n\n".intercalate (contentsOf d.batch)) model fields now)) := by
  obtain ⟨old, content, model, fields, now, hcontent, hget⟩ := h.replaces.get_result
  have htext : content = "\n\n".intercalate (contentsOf d.batch) := by
    unfold combinedContent at hcontent
    split at hcontent
    · cases hcontent
    · exact (Except.ok.inj hcontent).symm
  exact ⟨old, model, fields, now, by rw [hget, if_neg h.distinct, if_pos rfl, htext]⟩

theorem get_result_removed (hid : id ∈ d.batch.map Prod.fst) (hne : id ≠ d.userId) : d.result.get id = none := by
  obtain ⟨old, content, model, fields, now, -, hget⟩ := h.replaces.get_result
  have hr : id ∈ removed := (h.mem_batch_ids.1 hid).resolve_right fun hu => hne hu.2
  have hassistant : id ≠ d.assistantId := by
    rintro rfl
    obtain ⟨entry, he, heq⟩ := List.mem_map.1 hid
    have habsent := h.assistant_absent
    rw [← heq, h.get_of_mem he] at habsent
    cases habsent
  rw [hget, if_neg hassistant, if_neg hne, if_pos hr]

theorem deliveredOnce : DeliveredOnce d where
  nonempty := List.ne_nil_of_mem h.replaces.first_mem
  pending entry he := ⟨h.get_of_mem he, h.pending entry he⟩
  ordered := h.ordered
  combined := by
    obtain ⟨old, model, fields, now, hget⟩ := h.get_result_user
    refine ⟨_, hget, ?_, ?_, ?_, fun entry he => ?_⟩
    · rw [field_update_userMessage _ _ _ _ _ _ _ _ (by simp)]
      rfl
    · rw [field_update_userMessage _ _ _ _ _ _ _ _ (by simp)]
      rfl
    · rw [Message.childItems, field_update_userMessage _ _ _ _ _ _ _ _ (by simp)]
      rfl
    · rw [field_update_userMessage _ _ _ _ _ _ _ _ (by simp), h.parentId entry he]
      rfl
  reply := by
    obtain ⟨model, now, hget⟩ := h.get_result_assistant
    exact ⟨_, hget, rfl, rfl, rfl⟩
  gone id hid hne := h.get_result_removed hid hne
  others id hid hparent := by
    rw [h.get_result_of_not_mem hid, if_neg (hparent first h.replaces.first_mem)]
  parent id m hid hm := by
    rw [h.get_result_of_not_mem hid]
    split
    · refine ⟨Message.setChildren (childrenAfter removed d.userId (Message.childItems m)) m, by rw [hm]; rfl, ?_⟩
      intro key hkey
      rw [Message.setChildren, Message.field_set, if_neg hkey]
    · exact ⟨m, hm, fun _ _ => rfl⟩

theorem links_result : links d.result = Links.place d.assistantId (some d.userId) []
      (Links.place d.userId (Message.parent first.2) [d.assistantId]
        (Links.drop (d.userId :: removed) (Message.parent first.2) (links d.before))) := by
  obtain ⟨old, content, model, fields, now, -, hget⟩ := h.replaces.get_result
  set g := Links.drop (d.userId :: removed) (Message.parent first.2) (links d.before) with hg
  -- the parent lists neither the batch nor the combined message when that one is put in place
  have hunlisted : ∀ p k, Message.parent first.2 = some p →
      Links.put d.userId (Message.parent first.2, [d.assistantId]) g p = some k → d.userId ∉ k.2 := by
    intro p k hp hk hmem
    have hpu : p ≠ d.userId := fun heq => h.parent_ne_user (heq ▸ hp)
    rw [Links.put, Function.update_of_ne hpu, hg] at hk
    obtain ⟨-, k₀, -, -, -, hdropped⟩ := Links.drop_eq_some hk
    exact hdropped hp d.userId hmem List.mem_cons_self
  have hinner : ∀ q, Links.place d.userId (Message.parent first.2) [d.assistantId] g q =
      if Message.parent first.2 = some q then
        (Links.put d.userId (Message.parent first.2, [d.assistantId]) g q).map fun k => (k.1, k.2 ++ [d.userId])
      else Links.put d.userId (Message.parent first.2, [d.assistantId]) g q :=
    fun q => Links.addChild_of_not_mem hunlisted q
  have huser : Links.place d.userId (Message.parent first.2) [d.assistantId] g d.userId =
      some (Message.parent first.2, [d.assistantId]) := by
    rw [hinner, if_neg h.parent_ne_user, Links.put, Function.update_self]
  have houter : Links.place d.assistantId (some d.userId) []
      (Links.place d.userId (Message.parent first.2) [d.assistantId] g) =
        Links.put d.assistantId (some d.userId, [])
          (Links.place d.userId (Message.parent first.2) [d.assistantId] g) := by
    refine Links.addChild_of_mem (k := (Message.parent first.2, [d.assistantId])) ?_ (List.mem_singleton_self _)
    rw [Links.put, Function.update_of_ne h.distinct, huser]
  rw [houter]
  funext q
  simp only [links, hget]
  by_cases hqa : q = d.assistantId
  · subst hqa
    rw [if_pos rfl, Links.put, Function.update_self]
    rfl
  rw [if_neg hqa, Links.put, Function.update_of_ne hqa, hinner]
  by_cases hqu : q = d.userId
  · subst hqu
    rw [if_pos rfl, if_neg h.parent_ne_user, Links.put, Function.update_self, Option.map_some,
      parent_update_userMessage, children_update_userMessage]
    rfl
  rw [if_neg hqu, Links.put, Function.update_of_ne hqu, hg]
  simp only [Links.drop, List.mem_cons, hqu, false_or]
  by_cases hqr : q ∈ removed
  · simp [hqr]
  by_cases hp : Message.parent first.2 = some q
  · have htext : textOf (Message.field "parentId" first.2) = some q := hp
    simp only [hqr, if_false, htext, if_true, hp, links, Option.map_map]
    congr 1
    funext m
    simp only [Function.comp_apply, Message.parent_setChildren, Message.children_setChildren,
      filterMap_textOf_childrenAfter, List.mem_cons]
    rfl
  · have htext : textOf (Message.field "parentId" first.2) ≠ some q := hp
    simp only [hqr, if_false, htext, hp, links, Option.map_map]
    rfl

theorem linked_result : Links.Linked (links d.result) := by
  have hdrop := Links.linkedBut_of_linked (h.good.linked.drop (d.userId :: removed) (Message.parent first.2))
    fun _ => False
  -- what is left of the links of a message
  have hleft : ∀ q k, Links.drop (d.userId :: removed) (Message.parent first.2) (links d.before) q = some k →
      ∃ m, d.before.get q = some m ∧ q ≠ d.userId ∧ k.1 = Message.parent m ∧ (∀ c ∈ k.2, c ∈ Message.children m) ∧
        (Message.parent first.2 = some q → d.userId ∉ k.2) := by
    intro q k hk
    obtain ⟨hq, k₀, hk₀, hparent, hsub, hdropped⟩ := Links.drop_eq_some hk
    obtain ⟨m, hm, rfl⟩ := links_eq_some.1 hk₀
    exact ⟨m, hm, fun heq => hq (heq ▸ List.mem_cons_self), hparent, hsub,
      fun hp hmem => hdropped hp d.userId hmem List.mem_cons_self⟩
  rw [h.links_result]
  have hfirst : Links.LinkedBut (fun c => False ∧ c ≠ d.userId)
      (Links.place d.userId (Message.parent first.2) [d.assistantId]
        (Links.drop (d.userId :: removed) (Message.parent first.2) (links d.before))) := by
    apply hdrop.place
    refine ⟨fun q k hq _ hk => ?_, fun c k hc _ hk => ?_, ?_⟩
    · obtain ⟨m, hm, -, -, hsub, hparent⟩ := hleft q k hk
      have hnot : d.userId ∉ k.2 := fun hmem => hparent (h.listed_user hm (hsub _ hmem)) hmem
      rw [List.count_eq_zero_of_not_mem hnot]
      exact Nat.zero_le _
    · obtain ⟨m, hm, -, hpar, -, -⟩ := hleft c k hk
      have hca : c ≠ d.assistantId := by
        rintro rfl
        rw [h.assistant_absent] at hm
        cases hm
      have hdue : Links.due k.1 d.userId = 0 := if_neg (hpar ▸ h.user_leaf hm)
      rw [hdue]
      exact List.count_eq_zero_of_not_mem (by simpa using hca)
    · rw [List.count_eq_zero_of_not_mem (by simpa using h.distinct)]
      exact Nat.zero_le _
  refine Links.linked_of_linkedBut (hfirst.place ?_) fun c hc => hc.1.1
  -- nobody knows the id of the reply but the combined message
  have hinner : ∀ q k, Links.place d.userId (Message.parent first.2) [d.assistantId]
      (Links.drop (d.userId :: removed) (Message.parent first.2) (links d.before)) q = some k →
        k.1 ≠ some d.assistantId ∧ (q ≠ d.userId → d.assistantId ∉ k.2) := by
    intro q k hk
    obtain ⟨k₀, hk₀, hparent, hcount⟩ := Links.place_cases hk
    have hmem : d.assistantId ∈ k.2 ↔ d.assistantId ∈ k₀.2 := by
      rw [← List.count_pos_iff, ← List.count_pos_iff, hcount d.assistantId h.distinct.symm]
    rw [hparent, hmem]
    by_cases hq : q = d.userId
    · subst hq
      rw [Links.put, Function.update_self] at hk₀
      cases hk₀
      exact ⟨h.parent_ne_assistant, fun hne => absurd rfl hne⟩
    · rw [Links.put, Function.update_of_ne hq] at hk₀
      obtain ⟨m, hm, -, hpar, hsub, -⟩ := hleft q k₀ hk₀
      refine ⟨fun hp => h.assistant_fresh (h.good.used_of_parent hm (hpar ▸ hp)), fun _ hc => ?_⟩
      exact h.assistant_fresh (h.good.used_of_child hm (hsub _ hc))
  have huser : ∀ k, Links.place d.userId (Message.parent first.2) [d.assistantId]
      (Links.drop (d.userId :: removed) (Message.parent first.2) (links d.before)) d.userId = some k →
        k.2.count d.assistantId = 1 := by
    intro k hk
    obtain ⟨k₀, hk₀, -, hcount⟩ := Links.place_cases hk
    rw [Links.put, Function.update_self] at hk₀
    cases hk₀
    rw [hcount d.assistantId h.distinct.symm]
    simp
  refine ⟨fun q k _ _ hk => ?_, fun c k _ _ hk => ?_, by simp⟩
  · by_cases hq : q = d.userId
    · subst hq
      rw [huser k hk]
      simp [Links.due]
    · rw [List.count_eq_zero_of_not_mem ((hinner q k hk).2 hq)]
      exact Nat.zero_le _
  · have hdue : Links.due k.1 d.assistantId = 0 := if_neg (hinner c k hk).1
    rw [hdue]
    rfl

theorem get_result_cases (hm : d.result.get q = some m) :
    (q = d.assistantId ∧ ∃ model now, m = assistantMessage d.assistantId d.userId model now) ∨
      (q = d.userId ∧ ∃ old content model fields now, m = KeyedTable.update old
        (userMessage d.userId d.assistantId (Message.field "parentId" first.2) content model fields now)) ∨
      q ∉ d.ids ∧ ∃ m₀, d.before.get q = some m₀ ∧
        (m = m₀ ∧ Message.parent first.2 ≠ some q ∨ Message.parent first.2 = some q ∧
          m = Message.setChildren (childrenAfter removed d.userId (Message.childItems m₀)) m₀) := by
  by_cases hqa : q = d.assistantId
  · subst hqa
    obtain ⟨model, now, hget⟩ := h.get_result_assistant
    rw [hget, Option.some.injEq] at hm
    exact Or.inl ⟨rfl, model, now, hm.symm⟩
  by_cases hqu : q = d.userId
  · subst hqu
    obtain ⟨old, model, fields, now, hget⟩ := h.get_result_user
    rw [hget, Option.some.injEq] at hm
    exact Or.inr (Or.inl ⟨rfl, old, _, model, fields, now, hm.symm⟩)
  have hids : q ∉ d.ids := by
    simp only [Delivery.ids, List.mem_cons, not_or]
    refine ⟨hqu, hqa, fun hb => ?_⟩
    rw [h.get_result_removed hb hqu] at hm
    cases hm
  refine Or.inr (Or.inr ⟨hids, ?_⟩)
  rw [h.get_result_of_not_mem hids] at hm
  split at hm
  · rename_i hp
    obtain ⟨m₀, hm₀, rfl⟩ := Option.map_eq_some_iff.1 hm
    exact ⟨m₀, hm₀, Or.inr ⟨hp, rfl⟩⟩
  · rename_i hp
    exact ⟨m, hm, Or.inl ⟨rfl, hp⟩⟩

theorem pending_result (hm : d.result.get q = some m) (hp : isPending m = true) :
    d.before.get q = some m ∧ q ∉ d.ids := by
  rcases h.get_result_cases hm with ⟨-, model, now, rfl⟩ | ⟨-, old, content, model, fields, now, rfl⟩ |
    ⟨hids, m₀, hm₀, ⟨rfl, -⟩ | ⟨-, rfl⟩⟩
  · have hrole : Json.str "assistant" = .str "user" := role_of_isPending hp
    simp at hrole
  · have hchildren := children_of_isPending hp
    rw [children_update_userMessage] at hchildren
    cases hchildren
  · exact ⟨hm₀, hids⟩
  · have hchildren := children_of_isPending hp
    rw [Message.children_setChildren, filterMap_textOf_childrenAfter] at hchildren
    simp at hchildren

theorem get_result_of_pending (hm : d.before.get q = some m) (hp : isPending m = true) (hq : q ∉ d.batch.map Prod.fst) :
    d.result.get q = some m := by
  have hqa : q ≠ d.assistantId := by
    rintro rfl
    rw [h.assistant_absent] at hm
    cases hm
  have hqu : q ≠ d.userId := by
    rintro rfl
    rcases h.user with ⟨-, hb, hu⟩ | ⟨-, hu⟩
    · exact hq (by simp [hb, hu])
    · exact hu (h.good.used_of_get hm)
  have hparent : Message.parent first.2 ≠ some q := fun heq =>
    Bool.noConfusion ((h.parent_not_pending heq hm).symm.trans hp)
  rw [h.get_result_of_not_mem (by simp [Delivery.ids, hqa, hqu, hq]), if_neg hparent]
  exact hm

theorem user_used_cases (hid : id ∈ d.batch.map Prod.fst) : id ∈ used := by
  obtain ⟨entry, he, rfl⟩ := List.mem_map.1 hid
  exact h.good.used_of_get (h.get_of_mem he)

theorem good_result (hsub : ∀ id ∈ used, id ∈ used')
    (hassistant : d.assistantId ∈ used') (huser : d.userId ∈ used') : Good used' d.result where
  linked := h.linked_result
  keyed key m id hm hid := by
    rcases h.get_result_cases hm with ⟨rfl, model, now, rfl⟩ | ⟨rfl, old, content, model, fields, now, rfl⟩ |
      ⟨-, m₀, hm₀, ⟨rfl, -⟩ | ⟨-, rfl⟩⟩
    · exact (Option.some.inj hid).symm
    · rw [field_update_userMessage _ _ _ _ _ _ _ _ (by simp)] at hid
      exact (Option.some.inj hid).symm
    · exact h.good.keyed key m id hm₀ hid
    · rw [Message.setChildren, Message.field_set, if_neg (by decide)] at hid
      exact h.good.keyed key m₀ id hm₀ hid
  empty_used := hsub "" h.good.empty_used
  empty_absent := by
    cases hm : d.result.get "" with
    | none => rfl
    | some m =>
      have hempty := h.good.empty_absent
      rcases h.get_result_cases hm with ⟨heq, -⟩ | ⟨heq, -⟩ | ⟨-, m₀, hm₀, -⟩
      · exact absurd (heq ▸ h.good.empty_used) h.assistant_fresh
      · rcases h.user with ⟨-, -, hu⟩ | ⟨-, hu⟩
        · rw [heq, hu, h.get_first] at hempty
          cases hempty
        · exact absurd (heq ▸ h.good.empty_used) hu
      · rw [hempty] at hm₀
        cases hm₀
  mentioned id hid := by
    obtain ⟨key, m, hm, hid⟩ := hid
    rcases h.get_result_cases hm with ⟨rfl, model, now, rfl⟩ | ⟨rfl, old, content, model, fields, now, rfl⟩ |
      ⟨-, m₀, hm₀, hm'⟩
    · rcases hid with rfl | hp | hc
      · exact hassistant
      · exact Option.some.inj hp ▸ huser
      · cases hc
    · rw [parent_update_userMessage, children_update_userMessage] at hid
      rcases hid with rfl | hp | hc
      · exact huser
      · exact hsub id (h.good.used_of_parent h.get_first hp)
      · exact List.mem_singleton.1 hc ▸ hassistant
    have hold := h.good.mentioned id
    rcases hm' with ⟨rfl, -⟩ | ⟨-, rfl⟩
    · exact hsub id (hold ⟨key, m, hm₀, hid⟩)
    rw [Message.parent_setChildren, Message.children_setChildren, filterMap_textOf_childrenAfter] at hid
    rcases hid with rfl | hp | hc
    · exact hsub id (hold ⟨id, m₀, hm₀, .inl rfl⟩)
    · exact hsub id (hold ⟨key, m₀, hm₀, .inr (.inl hp)⟩)
    · rcases List.mem_append.1 hc with hc | hc
      · exact hsub id (hold ⟨key, m₀, hm₀, .inr (.inr (List.mem_of_mem_filter hc))⟩)
      · exact List.mem_singleton.1 hc ▸ huser

end Taken

section Insertion

variable {used : List String} {messages : Messages} {id : String} {message : Message}

section

variable (hg : Good used messages) (hid : id ∉ used)

include hg hid

theorem get_insertInternal (hself : Message.parent message ≠ some id) (q : String) :
    (insertInternal id message messages).get q =
      if q = id then some message
      else if Message.parent message = some q then
        (messages.get q).map fun m => Message.setChildren (Message.childItems m ++ [.str id]) m
      else messages.get q := by
  have hempty : (messages.set id message).get "" = none := by
    rw [KeyedTable.get_set, if_neg (hg.empty_ne hid), hg.empty_absent]
  unfold insertInternal addChildIdToParent
  cases hp : Message.parent message with
  | none => simp
  | some p =>
    have hpid : p ≠ id := fun heq => hself (heq ▸ hp)
    simp only [Option.some.injEq]
    by_cases hpe : p = ""
    · rw [if_pos hpe, KeyedTable.get_set]
      split
      · rfl
      split
      · rename_i heq
        rw [← heq, hpe, hg.empty_absent]
        rfl
      · rfl
    rw [if_neg hpe, KeyedTable.get_set, if_neg hpid]
    cases hget : messages.get p with
    | none =>
      simp only [KeyedTable.get_set]
      split
      · rfl
      split
      · rename_i heq
        rw [← heq, hget]
        rfl
      · rfl
    | some m =>
      have hnot : Json.str id ∉ Message.childItems m := fun hmem =>
        hid (hg.used_of_child hget (Message.mem_children.2 hmem))
      simp only [if_neg hnot, KeyedTable.get_set]
      by_cases hq : q = p
      · subst hq
        simp [hpid, hget]
      · simp [hq, Ne.symm hq]

theorem linked_insertInternal (hp : isPending message = true) :
    Links.Linked (links (insertInternal id message messages)) := by
  have hempty : Message.parent message = some "" → ∀ k, links (messages.set id message) "" = some k → id ∈ k.2 := by
    intro _ k hk
    rw [links_set, Links.put, Function.update_of_ne (hg.empty_ne hid)] at hk
    simp [links, hg.empty_absent] at hk
  have hlinks : links (insertInternal id message messages) =
      Links.place id (Message.parent message) [] (links messages) := by
    rw [insertInternal, links_addChildIdToParent hempty, links_set, children_of_isPending hp]
    rfl
  rw [hlinks]
  have hbut := Links.linkedBut_of_linked hg.linked fun _ => False
  refine Links.linked_of_linkedBut (hbut.place ⟨fun q k _ _ hk => ?_, fun c k _ _ hk => ?_, by simp⟩)
    fun c hc => hc.1
  · obtain ⟨m, hm, rfl⟩ := links_eq_some.1 hk
    rw [List.count_eq_zero_of_not_mem fun hc => hid (hg.used_of_child hm hc)]
    exact Nat.zero_le _
  · obtain ⟨m, hm, rfl⟩ := links_eq_some.1 hk
    have hdue : Links.due (Message.parent m) id = 0 := if_neg fun hpar => hid (hg.used_of_parent hm hpar)
    rw [hdue]
    rfl

theorem get_insertInternal_cases (hself : Message.parent message ≠ some id)
    (hm : (insertInternal id message messages).get q = some m) :
    (q = id ∧ m = message) ∨ q ≠ id ∧ ∃ m₀, messages.get q = some m₀ ∧
      (m = m₀ ∨ m = Message.setChildren (Message.childItems m₀ ++ [.str id]) m₀) := by
  rw [get_insertInternal hg hid hself] at hm
  split at hm
  · rename_i heq
    exact Or.inl ⟨heq, (Option.some.inj hm).symm⟩
  rename_i hne
  split at hm
  · obtain ⟨m₀, hm₀, rfl⟩ := Option.map_eq_some_iff.1 hm
    exact Or.inr ⟨hne, m₀, hm₀, Or.inr rfl⟩
  · exact Or.inr ⟨hne, m, hm, Or.inl rfl⟩

end

theorem children_addedChild (m : Message) (id : String) :
    Message.children (Message.setChildren (Message.childItems m ++ [.str id]) m) = Message.children m ++ [id] := by
  rw [Message.children_setChildren, List.filterMap_append]
  rfl

theorem good_insertInternal (hg : Good used messages) (hid : id ∉ used) (hp : isPending message = true)
    (hself : Message.parent message ≠ some id) (hown : textOf (Message.field "id" message) = some id) :
    Good (id :: (Message.parent message).toList ++ used) (insertInternal id message messages) where
  linked := linked_insertInternal hg hid hp
  keyed key m i hm hi := by
    rcases get_insertInternal_cases hg hid hself hm with ⟨rfl, rfl⟩ | ⟨-, m₀, hm₀, rfl | rfl⟩
    · rw [hown] at hi
      exact (Option.some.inj hi).symm
    · exact hg.keyed key m i hm₀ hi
    · rw [Message.setChildren, Message.field_set, if_neg (by decide)] at hi
      exact hg.keyed key m₀ i hm₀ hi
  empty_used := List.mem_append_right _ hg.empty_used
  empty_absent := by
    rw [get_insertInternal hg hid hself, if_neg (hg.empty_ne hid), hg.empty_absent]
    simp
  mentioned i hi := by
    obtain ⟨key, m, hm, hi⟩ := hi
    rcases get_insertInternal_cases hg hid hself hm with ⟨rfl, rfl⟩ | ⟨-, m₀, hm₀, rfl | rfl⟩
    · rcases hi with rfl | hpar | hc
      · simp
      · simp [hpar]
      · rw [children_of_isPending hp] at hc
        cases hc
    · exact List.mem_append_right _ (hg.mentioned i ⟨key, m, hm₀, hi⟩)
    · rw [Message.parent_setChildren, children_addedChild] at hi
      rcases hi with rfl | hpar | hc
      · exact List.mem_append_right _ (hg.used_of_get hm₀)
      · exact List.mem_append_right _ (hg.used_of_parent hm₀ hpar)
      · rcases List.mem_append.1 hc with hc | hc
        · exact List.mem_append_right _ (hg.used_of_child hm₀ hc)
        · rw [List.mem_singleton.1 hc]
          simp

theorem pending_insertInternal (hg : Good used messages) (hid : id ∉ used) (hself : Message.parent message ≠ some id)
    (hm : (insertInternal id message messages).get q = some m) (hp : isPending m = true) :
    q = id ∧ m = message ∨ messages.get q = some m := by
  rcases get_insertInternal_cases hg hid hself hm with h | ⟨-, m₀, hm₀, rfl | rfl⟩
  · exact Or.inl h
  · exact Or.inr hm₀
  · have hchildren := children_of_isPending hp
    rw [children_addedChild] at hchildren
    simp at hchildren

end Insertion

/-! ## The account of a run -/

structure Account (s : ChatState) : Prop where
  good : Good s.used s.messages
  exactly : ExactlyOnce s
  ids_used : ∀ d ∈ s.deliveries, ∀ id ∈ d.ids, id ∈ s.used

theorem account_of_start (h : Start s) : Account s where
  good := h.good
  exactly :=
    { each := by simp [h.deliveries]
      once := by simp [h.deliveries]
      users := by simp [h.deliveries]
      never_again := by simp [h.deliveries]
      kept := by simp [h.deliveries]
      not_lost := fun entry he => Or.inl (mem_pendingMessages.1 (h.inserted ▸ he))
      linked := h.good.linked }
  ids_used := by simp [h.deliveries]

theorem Account.insert (h : Account s) {message : Message} (hok : Allowed s (.insert id message)) :
    Account (applyEvent s (.insert id message)) := by
  obtain ⟨hid, hp, hown, hself, hparent⟩ := hok
  have hg := h.good
  have hgood := good_insertInternal hg hid hp hself hown
  have hnew : ∀ d ∈ s.deliveries, ∀ i ∈ d.ids, i ≠ id := fun d hd i hi heq => hid (heq ▸ h.ids_used d hd i hi)
  refine ⟨hgood, ⟨h.exactly.each, h.exactly.once, h.exactly.users, ?_, ?_, ?_, hgood.linked⟩, ?_⟩
  · intro d hd i hi m hm
    by_contra hpend
    rcases pending_insertInternal hg hid hself hm (by simpa using hpend) with ⟨heq, -⟩ | hm₀
    · exact hnew d hd i hi heq
    · exact hpend (h.exactly.never_again d hd i hi m hm₀)
  · intro d hd
    obtain ⟨m, hm, hcontent⟩ := h.exactly.kept d hd
    have hne : d.userId ≠ id := hnew d hd d.userId List.mem_cons_self
    simp only [applyEvent, get_insertInternal hg hid hself, if_neg hne, hm, Option.map_some]
    split
    · refine ⟨_, rfl, ?_⟩
      rw [Message.setChildren, Message.field_set, if_neg (by decide)]
      exact hcontent
    · exact ⟨m, rfl, hcontent⟩
  · intro entry he
    rcases List.mem_append.1 he with he | he
    · rcases h.exactly.not_lost entry he with ⟨hm, hpend⟩ | hd
      · left
        refine ⟨?_, hpend⟩
        have hne : entry.1 ≠ id := fun heq => hid (heq ▸ hg.used_of_get hm)
        -- the parent of the new message is not waiting
        have hpar : Message.parent message ≠ some entry.1 := by
          intro heq
          rw [heq, Option.bind_some, hm, Option.all_some, hpend] at hparent
          cases hparent
        simp only [applyEvent, get_insertInternal hg hid hself, if_neg hne, if_neg hpar, hm]
      · exact Or.inr hd
    · obtain rfl := List.mem_singleton.1 he
      left
      refine ⟨?_, hp⟩
      simp only [applyEvent, get_insertInternal hg hid hself, if_pos]
  · intro d hd i hi
    exact List.mem_append_right _ (h.ids_used d hd i hi)

theorem Account.deliver (h : Account s) (ht : Taken s.used first removed d) (hbefore : d.before = s.messages)
    (hsub : ∀ id ∈ s.used, id ∈ used) (hassistant : d.assistantId ∈ used) (huser : d.userId ∈ used) :
    Account { s with
      messages := d.result, currentId := some d.assistantId, deliveries := s.deliveries ++ [d], used := used } := by
  have hgood := ht.good_result hsub hassistant huser
  -- what earlier deliveries have dealt with is not in the batch
  have hspent : ∀ d' ∈ s.deliveries, ∀ id ∈ d'.ids, id ∉ d.batch.map Prod.fst := by
    intro d' hd' id hid hmem
    obtain ⟨entry, he, rfl⟩ := List.mem_map.1 hmem
    have hm := hbefore ▸ ht.get_of_mem he
    exact Bool.noConfusion ((h.exactly.never_again d' hd' entry.1 hid entry.2 hm).symm.trans (ht.pending entry he))
  have hnotuser : ∀ d' ∈ s.deliveries, d'.userId ≠ d.userId := by
    intro d' hd' heq
    rcases ht.user with ⟨-, hb, hu⟩ | ⟨-, hu⟩
    · exact hspent d' hd' d'.userId List.mem_cons_self (by simp [heq, hb, hu])
    · exact hu (heq ▸ h.ids_used d' hd' d'.userId List.mem_cons_self)
  refine ⟨hgood, ⟨?_, ?_, ?_, ?_, ?_, ?_, hgood.linked⟩, ?_⟩
  · intro d' hd'
    rcases List.mem_append.1 hd' with hd' | hd'
    · exact h.exactly.each d' hd'
    · exact List.mem_singleton.1 hd' ▸ ht.deliveredOnce
  · simp only [List.flatMap_append, List.flatMap_cons, List.flatMap_nil, List.append_nil]
    refine List.nodup_append.2 ⟨h.exactly.once, d.before.nodup_keys.sublist (ht.ordered.map Prod.fst), ?_⟩
    rintro id hid id' hid' rfl
    obtain ⟨d', hd', hmem⟩ := List.mem_flatMap.1 hid
    exact hspent d' hd' id (List.mem_cons_of_mem _ (List.mem_cons_of_mem _ hmem)) hid'
  · simp only [List.map_append, List.map_cons, List.map_nil]
    refine List.nodup_append.2 ⟨h.exactly.users, List.nodup_singleton _, ?_⟩
    rintro id hid id' hid' rfl
    obtain ⟨d', hd', rfl⟩ := List.mem_map.1 hid
    exact hnotuser d' hd' (List.mem_singleton.1 hid')
  · intro d' hd' id hid m hm
    by_contra hpend
    obtain ⟨hm₀, hids⟩ := ht.pending_result hm (by simpa using hpend)
    rcases List.mem_append.1 hd' with hd' | hd'
    · exact hpend (h.exactly.never_again d' hd' id hid m (hbefore ▸ hm₀))
    · exact hids (List.mem_singleton.1 hd' ▸ hid)
  · intro d' hd'
    rcases List.mem_append.1 hd' with hd' | hd'
    · obtain ⟨m, hm, hcontent⟩ := h.exactly.kept d' hd'
      have hids : d'.userId ∉ d.ids := by
        simp only [Delivery.ids, List.mem_cons, not_or]
        refine ⟨hnotuser d' hd', fun heq => ?_, hspent d' hd' d'.userId List.mem_cons_self⟩
        exact ht.assistant_fresh (heq ▸ h.ids_used d' hd' d'.userId List.mem_cons_self)
      obtain ⟨m', hm', hsame⟩ := ht.deliveredOnce.parent d'.userId m hids (hbefore ▸ hm)
      exact ⟨m', hm', (hsame "content" (by decide)).trans hcontent⟩
    · obtain rfl := List.mem_singleton.1 hd'
      obtain ⟨m, hm, hcombined⟩ := ht.deliveredOnce.combined
      exact ⟨m, hm, hcombined.content⟩
  · intro entry he
    rcases h.exactly.not_lost entry he with ⟨hm, hpend⟩ | ⟨d', hd', hmem⟩
    · have hm' : d.before.get entry.1 = some entry.2 := hbefore ▸ hm
      by_cases hb : entry.1 ∈ d.batch.map Prod.fst
      · obtain ⟨entry', he', heq⟩ := List.mem_map.1 hb
        have hsame : entry' = entry := by
          have hget := ht.get_of_mem he'
          rw [heq, hm', Option.some.injEq] at hget
          exact Prod.ext heq hget.symm
        exact Or.inr ⟨d, List.mem_append_right _ (List.mem_singleton_self d), hsame ▸ he'⟩
      · exact Or.inl ⟨ht.get_result_of_pending hm' hpend hb, hpend⟩
    · exact Or.inr ⟨d', List.mem_append_left _ hd', hmem⟩
  · intro d' hd' id hid
    rcases List.mem_append.1 hd' with hd' | hd'
    · exact hsub id (h.ids_used d' hd' id hid)
    obtain rfl := List.mem_singleton.1 hd'
    simp only [Delivery.ids, List.mem_cons] at hid
    rcases hid with rfl | rfl | hid
    · exact huser
    · exact hassistant
    · exact hsub id (ht.user_used_cases hid)

theorem Account.process (h : Account s) (hok : Allowed s (.process call)) : Account (applyEvent s (.process call)) := by
  obtain ⟨hnew, hassistant, hne⟩ := hok
  simp only [applyEvent]
  split
  · exact h
  split
  · exact h
  · exact h
  rename_i d hd
  obtain ⟨hbefore, hassist, hid, first, removed, ht⟩ := taken_of_process h.good hnew hassistant hne hd
  refine h.deliver ht hbefore (fun id hi => by simp [hi]) (by simp [hassist]) ?_
  rcases hid with hu | hu <;> simp [hu]

theorem Account.step (h : Account s) (hok : Allowed s e) (hs : step s e = some s') : Account s' := by
  cases hs
  cases e with
  | insert id message => exact h.insert hok
  | process call => exact h.process hok

/-- Each result waits unchanged or is in exactly one batch, and each batch became one message with
one reply. -/
theorem delivered_exactly_once {s s' : ChatState} {es : List InternalEvent} (hs : Start s)
    (hrun : Machine.Run step Allowed s es s') : ExactlyOnce s' :=
  (hrun.invariant (I := Account) (fun _ _ _ h hok hst => h.step hok hst) (account_of_start hs)).exactly

def delegating : Message :=
  KeyedTable.empty
    |> KeyedTable.set "id" (.str "a0")
    |> KeyedTable.set "role" (.str "assistant")

def subagentResult (id content : String) (status : Json) : Message :=
  KeyedTable.empty
    |> KeyedTable.set "id" (.str id)
    |> KeyedTable.set "parentId" (.str "a0")
    |> KeyedTable.set "childrenIds" (.arr [])
    |> KeyedTable.set "role" (.str "user")
    |> KeyedTable.set "content" (.str content)
    |> KeyedTable.set "model" (.str "gpt")
    |> KeyedTable.set "meta" (.obj [("internal", .bool true), ("type", .str "subagent"), ("status", status)])

def delegatingChat : ChatState where
  messages := KeyedTable.set "a0" delegating KeyedTable.empty
  currentId := some "a0"
  inserted := []
  deliveries := []
  used := ["", "a0"]

theorem start_delegatingChat : Start delegatingChat where
  good :=
    { linked := by decide
      keyed := fun key message id hm hid => by
        simp only [delegatingChat, KeyedTable.get_set, KeyedTable.get_empty] at hm
        split at hm
        · rename_i hkey
          cases hm
          exact (Option.some.inj hid).symm.trans hkey.symm
        · cases hm
      empty_used := by simp [delegatingChat]
      empty_absent := by simp [delegatingChat]
      mentioned := fun id hid => by
        obtain ⟨key, message, hm, hid⟩ := hid
        simp only [delegatingChat, KeyedTable.get_set, KeyedTable.get_empty] at hm
        split at hm
        · rename_i hkey
          cases hm
          rcases hid with rfl | hp | hc
          · simp [delegatingChat, hkey]
          · cases hp
          · cases hc
        · cases hm }
  inserted := (List.isEmpty_iff.1 (by decide)).symm
  deliveries := rfl

def threeResults : List InternalEvent :=
  [.insert "p1" (subagentResult "p1" "first" (.str "pending")),
    .insert "p2" (subagentResult "p2" "second" (.str "pending")),
    .process ⟨false, true, ⟨none, fun _ => none⟩, "u1", "r1", 1⟩,
    .insert "p3" (subagentResult "p3" "third" .null),
    .process ⟨false, true, ⟨none, fun _ => none⟩, "u2", "r2", 2⟩]

theorem delivered_exactly_once_three :
    ∃ s, s.deliveries.map (fun d => (d.batch.map Prod.fst, d.userId, contentsOf d.batch)) =
      [(["p1", "p2"], "u1", ["first", "second"]), (["p3"], "p3", ["third"])] ∧ ExactlyOnce s := by
  have hexec : (Machine.exec (fun s e => if Allowed s e then step s e else none) delegatingChat threeResults).map
      (fun s => s.deliveries.map fun d => (d.batch.map Prod.fst, d.userId, contentsOf d.batch)) =
        some [(["p1", "p2"], "u1", ["first", "second"]), (["p3"], "p3", ["third"])] := by
    decide +kernel
  obtain ⟨s, hs, hd⟩ := Option.map_eq_some_iff.1 hexec
  exact ⟨s, hd, delivered_exactly_once start_delegatingChat (Machine.run_of_exec hs)⟩

end RyanAI.Chat
