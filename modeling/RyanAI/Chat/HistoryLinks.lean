import RyanAI.Chat.HistorySpec
import RyanAI.Lib.Machine

/-!
# Parents and children agree along every run

`Consistent` is the invariant of a history: its messages are linked, and the current id is one of them. Merging
establishes it and deleting keeps it, whatever the messages are. Writing a message keeps it where the message fits
(`UpsertFits`, and `TurnFits` for a turn, whose replies may be waiting for the message of the user). A message that
moves to another parent does not fit, because its old parent goes on listing it.
-/

namespace RyanAI.Chat

open RyanAI.Lib

structure Consistent (history : History) : Prop where
  linked : Links.Linked (links history.messages)
  current : ∀ id, history.currentId = some id → (history.messages.get id).isSome = true

instance (messages : Messages) : Decidable (Links.Linked (links messages)) :=
  decidable_of_iff
    (∀ p ∈ messages.entries, ∀ c ∈ messages.entries,
      (Message.children p.2).count c.1 = Links.due (Message.parent c.2) p.1) <| by
    constructor
    · intro h p kp c kc hp hc
      obtain ⟨mp, hmp, rfl⟩ := links_eq_some.1 hp
      obtain ⟨mc, hmc, rfl⟩ := links_eq_some.1 hc
      exact h (p, mp) (KeyedTable.get_eq_some.1 hmp) (c, mc) (KeyedTable.get_eq_some.1 hmc)
    · rintro h ⟨p, mp⟩ hp ⟨c, mc⟩ hc
      exact h p _ c _ (links_of_get (KeyedTable.get_eq_some.2 hp)) (links_of_get (KeyedTable.get_eq_some.2 hc))

instance (history : History) : Decidable (Consistent history) :=
  decidable_of_iff
    (Links.Linked (links history.messages) ∧ history.currentId.all fun id => (history.messages.get id).isSome) <| by
    constructor
    · rintro ⟨hlinked, hcurrent⟩
      refine ⟨hlinked, fun id hid => ?_⟩
      simpa [hid] using hcurrent
    · rintro ⟨hlinked, hcurrent⟩
      refine ⟨hlinked, ?_⟩
      cases hid : history.currentId with
      | none => rfl
      | some id => simpa using hcurrent id hid

theorem links_mergeHistory (existing : History) (incoming : IncomingHistory) :
    links (mergeHistory existing incoming).messages =
      Links.rebuild (mergedIds existing incoming)
        (parentAt (mergedMessages existing.messages incoming.messages)) := by
  funext q
  simp only [links, get_mergeHistory, Links.rebuild, mergedIds, KeyedTable.mem_keys]
  cases hget : (mergedMessages existing.messages incoming.messages).get q with
  | none => simp
  | some message =>
    have hparent : parentAt (mergedMessages existing.messages incoming.messages) q = Message.parent message := by
      simp [parentAt, hget]
    simp only [Option.map_some, Option.isSome_some, if_true, Message.parent_setChildren,
      Message.children_setChildren, filterMap_textOf_str, hparent]
    rfl

theorem consistent_mergeHistory (existing : History) (incoming : IncomingHistory) :
    Consistent (mergeHistory existing incoming) where
  linked := by
    rw [links_mergeHistory]
    exact Links.linked_rebuild (KeyedTable.nodup_keys _) _
  current id hid := by
    have hmerged : ((mergedMessages existing.messages incoming.messages).get id).isSome = true := by
      simp only [mergeHistory, Option.or_eq_some_iff, Option.filter_eq_some_iff] at hid
      rcases hid with ⟨-, hid⟩ | ⟨-, -, hid⟩ <;> exact hid
    rw [get_mergeHistory, Option.isSome_map]
    exact hmerged

theorem present_eq (messages : Messages) (ids : List String) :
    present messages ids = Links.existing (links messages) ids := by
  simp only [present, Links.existing, isSome_links]

theorem grandchildrenOf_eq (messages : Messages) (message : Message) : grandchildrenOf messages message =
      Links.childrenOf (links messages) (Links.existing (links messages) (Message.children message)) := by
  have hsnd : ∀ id, childrenAt messages id = ((links messages id).map Prod.snd).getD [] := by
    intro id
    simp only [childrenAt, links, Option.map_map]
    rfl
  simp only [grandchildrenOf, Links.childrenOf, present_eq, hsnd]

theorem filterMap_textOf_filter (id : String) (items : List Json) :
    (items.filter (· ≠ .str id)).filterMap textOf = (items.filterMap textOf).filter (· ≠ id) := by
  rw [List.filterMap_filter, List.filter_filterMap]
  congr 1
  funext item
  cases item with
  | str s => by_cases hs : s = id <;> simp [textOf, hs, Option.filter]
  | null | bool | num | arr | obj => simp [textOf]

theorem links_afterDelete (messages : Messages) (messageId : String) (message other : Message) (q : String) :
    (Message.parent (afterDelete messages messageId message q other),
      Message.children (afterDelete messages messageId message q other)) =
      (if q ∈ grandchildrenOf messages message then Message.parent message else Message.parent other,
        if Message.parent message = some q then
          (Message.children other).filter (· ≠ messageId) ++ grandchildrenOf messages message
        else Message.children other) := by
  have hparent : ∀ m : Message,
      Message.parent (KeyedTable.set "parentId" (Message.field "parentId" message) m) = Message.parent message := by
    intro m
    simp [Message.parent]
  have hchildren : ∀ m : Message,
      Message.children (KeyedTable.set "parentId" (Message.field "parentId" message) m) =
        Message.children m := fun m => Message.children_set_of_ne (by decide) _ _
  have hlist : ((Message.childItems other).filter (· ≠ .str messageId) ++
      (grandchildrenOf messages message).map Json.str).filterMap textOf =
        (Message.children other).filter (· ≠ messageId) ++ grandchildrenOf messages message := by
    rw [List.filterMap_append, filterMap_textOf_filter, filterMap_textOf_str]
    rfl
  simp only [afterDelete]
  by_cases hq : Message.parent message = some q <;>
    by_cases hg : q ∈ grandchildrenOf messages message <;>
    simp only [hq, hg, if_true, if_false, hparent, hchildren, Message.children_setChildren,
      Message.parent_setChildren, hlist]

variable {history history' : History} {messages : Messages} {turn : Turn} {user : Option String} {id : String}

theorem Consistent.deleteMessage (h : Consistent history) (messageId : String) :
    Consistent (deleteMessageFromHistory history messageId).1 := by
  cases hget : history.messages.get messageId with
  | none =>
    rw [deleteMessage_of_none hget]
    exact h
  | some message =>
    refine ⟨?_, fun id hid => ?_⟩
    · have hlinks : links (deleteMessageFromHistory history messageId).1.messages =
          Links.splice messageId (Message.parent message)
            (Links.existing (links history.messages) (Message.children message))
            (Links.childrenOf (links history.messages)
              (Links.existing (links history.messages) (Message.children message)))
            (links history.messages) := by
        funext q
        rw [← grandchildrenOf_eq, ← present_eq]
        simp only [links, get_deleteMessage hget, Links.splice, List.mem_cons]
        split
        · rfl
        · cases history.messages.get q with
          | none => rfl
          | some other => simp only [Option.map_some, links_afterDelete]
      rw [hlinks]
      exact h.linked.splice (links_of_get hget)
    · simp only [deleteMessageFromHistory, hget] at hid ⊢
      exact (Option.filter_eq_some_iff.1 hid).2

/-! ## Writing one message -/

/-- The links after an upsert: its own, else the stored ones, else the first message that lists
it. -/
def linksAfter (messages : Messages) (messageId : String) (message : Message) : Option String × List String :=
  match messages.get messageId with
  | some existing =>
    (if Message.has "parentId" message then Message.parent message else Message.parent existing,
      if Message.has "childrenIds" message then Message.children message else Message.children existing)
  | none =>
    (if Message.field "parentId" message = .null then listerOf messages messageId
      else Message.parent message, Message.children message)

/-- The message fits a history in which those in `S` are still to be placed. -/
structure UpsertFits (S : String → Prop) (messages : Messages) (messageId : String) (message : Message) :
    Prop where
  fits : Links.Fits S (links messages) messageId (linksAfter messages messageId message).1
    (linksAfter messages messageId message).2
  nonempty : (linksAfter messages messageId message).1 = some "" →
    ∀ k, Links.put messageId (linksAfter messages messageId message) (links messages) "" = some k → messageId ∈ k.2

instance (S : String → Prop) [DecidablePred S] (messages : Messages) (messageId : String)
    (message : Message) : Decidable (UpsertFits S messages messageId message) :=
  let after := linksAfter messages messageId message
  decidable_of_iff
    ((∀ entry ∈ messages.entries, entry.1 ≠ messageId → ¬ S entry.1 →
        (Message.children entry.2).count messageId ≤ Links.due after.1 entry.1) ∧
      (∀ entry ∈ messages.entries, entry.1 ≠ messageId → ¬ S entry.1 →
        after.2.count entry.1 = Links.due (Message.parent entry.2) messageId) ∧
      after.2.count messageId ≤ Links.due after.1 messageId ∧
      (after.1 = some "" → (Links.put messageId after (links messages) "").all
        fun k => decide (messageId ∈ k.2))) <| by
    constructor
    · rintro ⟨hlisted, hlists, hself, hempty⟩
      refine ⟨⟨fun q k hq hS hget => ?_, fun c k hc hS hget => ?_, hself⟩, fun hparent k hk => ?_⟩
      · obtain ⟨m, hm, rfl⟩ := links_eq_some.1 hget
        exact hlisted (q, m) (KeyedTable.get_eq_some.1 hm) hq hS
      · obtain ⟨m, hm, rfl⟩ := links_eq_some.1 hget
        exact hlists (c, m) (KeyedTable.get_eq_some.1 hm) hc hS
      · have hall := hempty hparent
        rw [hk] at hall
        simpa using hall
    · rintro ⟨⟨hlisted, hlists, hself⟩, hempty⟩
      refine ⟨?_, ?_, hself, fun hparent => ?_⟩
      · rintro ⟨q, m⟩ hm hq hS
        exact hlisted q _ hq hS (links_of_get (KeyedTable.get_eq_some.2 hm))
      · rintro ⟨c, m⟩ hm hc hS
        exact hlists c _ hc hS (links_of_get (KeyedTable.get_eq_some.2 hm))
      · cases hget : Links.put messageId after (links messages) "" with
        | none => rfl
        | some k => simpa using hempty hparent k hget

theorem links_upserted (now : ℕ) (messages : Messages) (messageId : String) (message : Message) :
    (Message.parent (upserted now messages messageId message),
      Message.children (upserted now messages messageId message)) =
      linksAfter messages messageId message := by
  unfold upserted linksAfter
  cases messages.get messageId with
  | some existing =>
    have hhas : ∀ key, key ≠ "meta" →
        Message.has key (keepMeta existing message) = Message.has key message := by
      intro key hkey
      rw [Message.has, get_keepMeta existing message hkey, Message.has]
    have hparent : Message.parent (keepMeta existing message) = Message.parent message := by
      simp only [Message.parent, Message.field, get_keepMeta existing message (show "parentId" ≠ "meta" by decide)]
    have hchildren : Message.children (keepMeta existing message) = Message.children message := by
      simp only [Message.children, Message.childItems, Message.field,
        get_keepMeta existing message (show "childrenIds" ≠ "meta" by decide)]
    simp only [Message.parent_update, Message.children_update, hparent, hchildren,
      hhas "parentId" (by decide), hhas "childrenIds" (by decide)]
  | none =>
    have hparent : textOf (newParentId messages messageId message) =
        if Message.field "parentId" message = .null then listerOf messages messageId
        else Message.parent message := by
      unfold newParentId
      split
      · cases listerOf messages messageId <;> rfl
      · rfl
    simp [newMessage, Message.parent, Message.children, Message.childItems, hparent]

theorem links_addChildIdToParent (hempty : parentId = some "" → ∀ k, links messages "" = some k → childId ∈ k.2) :
    links (addChildIdToParent messages parentId childId) = Links.addChild parentId childId (links messages) := by
  cases parentId with
  | none => rfl
  | some p =>
    simp only [addChildIdToParent, Links.addChild]
    cases hp : messages.get p with
    | none =>
      have hnone : links messages p = none := by simp [links, hp]
      simp only [hnone, ite_self]
    | some parent =>
      rw [links_of_get hp]
      by_cases hmem : childId ∈ Message.children parent
      · simp only [Message.mem_children.1 hmem, if_true, ite_self, hmem]
      have hne : p ≠ "" := by
        rintro rfl
        exact hmem (hempty rfl _ (links_of_get hp))
      have hitem : Json.str childId ∉ Message.childItems parent := fun h => hmem (Message.mem_children.2 h)
      simp only [if_neg hne, if_neg hitem, if_neg hmem, links_set, Message.parent_setChildren,
        Message.children_setChildren, List.filterMap_append]
      rfl

theorem links_upsertMessage {S : String → Prop} (now : ℕ) (hfits : UpsertFits S history.messages messageId message) :
    links (upsertMessageToHistory now history messageId message).messages =
      Links.place messageId (linksAfter history.messages messageId message).1
        (linksAfter history.messages messageId message).2 (links history.messages) := by
  have hsaved := links_upserted now history.messages messageId message
  have hparent : Message.parent (upserted now history.messages messageId message) =
      (linksAfter history.messages messageId message).1 := by rw [← hsaved]
  simp only [upsertMessageToHistory]
  rw [links_addChildIdToParent]
  · rw [links_set, hsaved, hparent]
    rfl
  · rw [links_set, hsaved, hparent]
    exact hfits.nonempty

theorem isSome_upsertMessage (now : ℕ) (history : History) (messageId : String) (message : Message) (q : String) :
    ((upsertMessageToHistory now history messageId message).messages.get q).isSome =
      (decide (q = messageId) || (history.messages.get q).isSome) := by
  obtain ⟨f, -, hget⟩ := get_addChildIdToParent
    (history.messages.set messageId (upserted now history.messages messageId message))
    (Message.parent (upserted now history.messages messageId message)) messageId q
  simp only [upsertMessageToHistory, hget, Option.isSome_map, KeyedTable.get_set]
  by_cases hq : q = messageId <;> simp [hq]

theorem current_upsertMessage (now : ℕ) (messageId : String) (message : Message)
    (h : ∀ id, history.currentId = some id → (history.messages.get id).isSome = true) :
    ∀ id, (upsertMessageToHistory now history messageId message).currentId = some id →
      ((upsertMessageToHistory now history messageId message).messages.get id).isSome = true := by
  intro id hid
  rw [isSome_upsertMessage, Bool.or_eq_true]
  simp only [upsertMessageToHistory] at hid
  split at hid
  · exact .inr (h id hid)
  · cases hid
    exact .inl (by simp)

theorem Consistent.upsertMessage (h : Consistent history) (now : ℕ)
    (hfits : UpsertFits (fun _ => False) history.messages messageId message) :
    Consistent (upsertMessageToHistory now history messageId message) where
  linked := by
    rw [links_upsertMessage now hfits]
    have hplace := (Links.linkedBut_of_linked h.linked _).place hfits.fits
    exact Links.linked_of_linkedBut hplace fun c hc => hc.1
  current := current_upsertMessage now messageId message h.current

/-! ## The replies of a turn -/

/-- The user's message; without one a stored reply loses its parent, and a new one goes below the
first that lists it. -/
def replyParent (messages : Messages) (user : Option String) (before : List String) (id : String) : Option String :=
  match user with
  | some u => some u
  | none =>
    if (messages.get id).isSome then none
    else
      (messages.entries.find? fun entry =>
        decide (entry.1 ∉ before) && decide (id ∈ Message.children entry.2)).map Prod.fst

structure RepliesFit (g : Links String) (parentOf : List String → String → Option String)
    (ids : List String) : Prop where
  listed : ∀ before id after, ids = before ++ id :: after →
    ∀ q k, q ∉ ids → g q = some k → k.2.count id ≤ Links.due (parentOf before id) q
  lists : ∀ id ∈ ids, ∀ c k, c ∉ ids → g c = some k → k.1 ≠ some id
  outside : ∀ before id after, ids = before ++ id :: after → ∀ p, parentOf before id = some p → p ∉ ids

theorem exists_of_find? {p : String × Message → Bool} (h : (messages.entries.find? p).map Prod.fst = some q) :
    ∃ message, messages.get q = some message ∧ p (q, message) = true := by
  obtain ⟨⟨q', message⟩, hfind, rfl⟩ := Option.map_eq_some_iff.1 h
  exact ⟨message, KeyedTable.get_eq_some.2 (List.mem_of_find?_eq_some hfind), List.find?_some hfind⟩

theorem linksAfter_replyMessage (huser : Message.field "id" turn.userMessage = (user.map Json.str).getD .null)
    (messages : Messages) (id : String) (entry : ReplyEntry) :
    linksAfter messages id (replyMessage turn entry) = (replyParent messages user [] id, []) := by
  have hpid : Message.field "parentId" (replyMessage turn entry) = (user.map Json.str).getD .null := by
    simp [replyMessage, huser]
  have hparent : Message.parent (replyMessage turn entry) = user := by
    rw [Message.parent, hpid]
    cases user <;> rfl
  have hchildren : Message.children (replyMessage turn entry) = [] := by
    simp [replyMessage, Message.children, Message.childItems]
  have hhas : Message.has "parentId" (replyMessage turn entry) = true ∧
      Message.has "childrenIds" (replyMessage turn entry) = true := by
    simp [replyMessage, Message.has]
  unfold linksAfter replyParent
  cases hget : messages.get id with
  | some existing =>
    simp only [hhas.1, hhas.2, if_true, hparent, hchildren]
    cases user <;> rfl
  | none =>
    simp only [hpid, hparent, hchildren]
    cases user with
    | some u => simp
    | none => simp [listerOf]

theorem RepliesFit.upsertFits (hfit : RepliesFit (links messages) (replyParent messages user) (id :: rest))
    (huser : Message.field "id" turn.userMessage = (user.map Json.str).getD .null) (hne : user ≠ some "")
    (entry : ReplyEntry) : UpsertFits (· ∈ id :: rest) messages id (replyMessage turn entry) := by
  have hlinks := linksAfter_replyMessage huser messages id entry
  refine ⟨?_, ?_⟩
  · rw [hlinks]
    refine ⟨fun q k _ hq hgq => hfit.listed [] id rest rfl q k hq hgq, fun c k _ hc hgc => ?_, by simp⟩
    have hno := hfit.lists id List.mem_cons_self c k hc hgc
    rw [Links.due, if_neg hno]
    simp
  rw [hlinks]
  intro hempty k hk
  -- the parent is `""` only where this message lists the reply
  cases user with
  | some u => exact absurd hempty hne
  | none =>
    simp only [replyParent] at hempty
    split at hempty
    · cases hempty
    rename_i hnew
    obtain ⟨message, hget, hlisted⟩ := exists_of_find? hempty
    have hid : "" ≠ id := by
      rintro rfl
      rw [hget] at hnew
      exact hnew rfl
    rw [Links.put, Function.update_of_ne hid, links_of_get hget] at hk
    cases hk
    simpa using hlisted

theorem find?_addChildIdToParent (hne : id ≠ childId) (before : List String) :
    ((addChildIdToParent messages parentId childId).entries.find? fun entry =>
        decide (entry.1 ∉ before) && decide (id ∈ Message.children entry.2)).map Prod.fst =
      (messages.entries.find? fun entry =>
        decide (entry.1 ∉ before) && decide (id ∈ Message.children entry.2)).map Prod.fst := by
  unfold addChildIdToParent
  cases parentId with
  | none => rfl
  | some p =>
    simp only
    split
    · rfl
    cases hp : messages.get p with
    | none => rfl
    | some parent =>
      simp only
      split
      · rfl
      apply OrderedMap.find?_set_of_eq hp
      have hlist : id ∈ Message.children (Message.setChildren
          (Message.childItems parent ++ [.str childId]) parent) ↔ id ∈ Message.children parent := by
        simp only [Message.children_setChildren, List.filterMap_append, List.mem_append]
        simp [Message.children, textOf, hne]
      simp only [hlist]

/-- Writing a reply moves the parents of the later ones as `replyParent` says. -/
theorem replyParent_upsertMessage
    (huser : Message.field "id" turn.userMessage = (user.map Json.str).getD .null) (hr : r ≠ id) (before : List String) :
    replyParent (upsertMessageToHistory turn.now history id (replyMessage turn entry)).messages user before r =
      replyParent history.messages user (id :: before) r := by
  cases user with
  | some u => rfl
  | none =>
    have hsaved := links_upserted turn.now history.messages id (replyMessage turn entry)
    rw [linksAfter_replyMessage huser] at hsaved
    have hchildren := congrArg Prod.snd hsaved
    simp only [replyParent, isSome_upsertMessage, hr, decide_false, Bool.false_or]
    congr 1
    simp only [upsertMessageToHistory]
    rw [find?_addChildIdToParent hr]
    simp only [KeyedTable.set]
    rw [OrderedMap.find?_set_of_not history.messages.distinct]
    · congr 2
      funext entry
      simp only [List.mem_cons, not_or, Bool.decide_and, Bool.and_assoc]
    · simp only at hchildren
      simp [hchildren]

theorem RepliesFit.rest {rest : List String}
    (hfit : RepliesFit (links history.messages) (replyParent history.messages user) (id :: rest))
    (huser : Message.field "id" turn.userMessage = (user.map Json.str).getD .null) (hne : user ≠ some "")
    (hnodup : (id :: rest).Nodup) (entry : ReplyEntry) :
    let history' := upsertMessageToHistory turn.now history id (replyMessage turn entry)
    RepliesFit (links history'.messages) (replyParent history'.messages user) rest := by
  intro history'
  obtain ⟨hid, -⟩ := List.nodup_cons.1 hnodup
  have hlinks : links history'.messages =
      Links.place id (replyParent history.messages user [] id) [] (links history.messages) := by
    have hplace := links_upsertMessage turn.now (hfit.upsertFits huser hne entry)
    rw [linksAfter_replyMessage huser] at hplace
    exact hplace
  have hparent : ∀ before r, r ∈ rest →
      replyParent history'.messages user before r = replyParent history.messages user (id :: before) r := by
    intro before r hr
    have hrid : r ≠ id := fun heq => hid (heq ▸ hr)
    exact replyParent_upsertMessage huser hrid before
  have hmem : ∀ {before r after}, rest = before ++ r :: after → r ∈ rest := by
    intro before r after hrest
    rw [hrest]
    simp
  refine ⟨?_, ?_, ?_⟩
  · intro before r after hrest q k hq hgq
    have hrid : r ≠ id := fun heq => hid (heq ▸ hmem hrest)
    rw [hlinks] at hgq
    obtain ⟨k₀, hk₀, -, hcount⟩ := Links.place_cases hgq
    rw [hcount r hrid, hparent before r (hmem hrest)]
    by_cases hqid : q = id
    · subst hqid
      simp only [Links.put, Function.update_self] at hk₀
      cases hk₀
      simp
    · rw [Links.put, Function.update_of_ne hqid] at hk₀
      refine hfit.listed (id :: before) r after (by rw [hrest]; rfl) q k₀ ?_ hk₀
      simp [hqid, hq]
  · intro r hr c k hc hgc
    rw [hlinks] at hgc
    obtain ⟨k₀, hk₀, hsame, -⟩ := Links.place_cases hgc
    rw [hsame]
    by_cases hcid : c = id
    · subst hcid
      simp only [Links.put, Function.update_self] at hk₀
      cases hk₀
      intro heq
      exact hfit.outside [] c rest rfl r heq (List.mem_cons_of_mem _ hr)
    · rw [Links.put, Function.update_of_ne hcid] at hk₀
      exact hfit.lists r (List.mem_cons_of_mem _ hr) c k₀ (by simp [hcid, hc]) hk₀
  · intro before r after hrest p hp hmemp
    rw [hparent before r (hmem hrest)] at hp
    exact hfit.outside (id :: before) r after (by rw [hrest]; rfl) p hp (List.mem_cons_of_mem _ hmemp)

theorem linked_foldl_upsertReply (huser : Message.field "id" turn.userMessage = (user.map Json.str).getD .null)
    (hne : user ≠ some "") (entries : List ReplyEntry) (history : History)
    (hnodup : (entries.filterMap fun entry => textOf entry.messageId).Nodup)
    (hfit : RepliesFit (links history.messages) (replyParent history.messages user)
      (entries.filterMap fun entry => textOf entry.messageId))
    (hlinked : Links.LinkedBut (· ∈ entries.filterMap fun entry => textOf entry.messageId)
      (links history.messages)) :
    Links.Linked (links (entries.foldl (upsertReply turn) history).messages) := by
  induction entries generalizing history with
  | nil => exact Links.linked_of_linkedBut hlinked (by simp)
  | cons entry entries ih =>
    rw [List.foldl_cons]
    cases hid : textOf entry.messageId with
    | none =>
      simp only [List.filterMap_cons, hid] at hnodup hfit hlinked
      simp only [upsertReply, hid]
      exact ih history hnodup hfit hlinked
    | some id =>
      simp only [List.filterMap_cons, hid] at hnodup hfit hlinked
      simp only [upsertReply, hid]
      have hupsert := hfit.upsertFits huser hne entry
      refine ih _ (List.nodup_cons.1 hnodup).2 (hfit.rest huser hne hnodup entry) ?_
      rw [links_upsertMessage turn.now hupsert]
      refine (hlinked.place hupsert.fits).mono ?_
      rintro c ⟨hc, hcid⟩
      exact (List.mem_cons.1 hc).resolve_left hcid

def TurnFits (messages : Messages) (turn : Turn) : Prop :=
  if Message.truthy turn.userMessage = true then
    ∀ id, textOf (Message.field "id" turn.userMessage) = some id →
      let message := cleanMessage (turnMessage turn id (storedMessage messages id))
      Message.readable message = true ∧ UpsertFits (· ∈ replyIds turn) messages id message ∧
        RepliesFit (Links.put id (linksAfter messages id message) (links messages)) (fun _ _ => some id)
          (replyIds turn)
  else RepliesFit (links messages) (replyParent messages none) (replyIds turn)

theorem filterMap_of_mapM {items : List Json} {texts : List String} (h : items.mapM textOf = some texts) :
    items.filterMap textOf = texts := by
  induction items generalizing texts with
  | nil =>
    cases h
    rfl
  | cons item rest ih =>
    simp only [List.mapM_cons, Option.bind_eq_bind, Option.bind_eq_some_iff] at h
    obtain ⟨text, htext, texts', hrest, heq⟩ := h
    cases heq
    rw [List.filterMap_cons, htext, ih hrest]

theorem turnIds_spec (h : (turnIds turn).isNone = false) :
    (replyIds turn).Nodup ∧ (Message.truthy turn.userMessage = true →
      ∃ id, Message.field "id" turn.userMessage = .str id ∧ id ≠ "") := by
  unfold turnIds at h
  simp only at h
  split at h
  · cases h
  rename_i texts hmap
  split at h
  · rename_i hok
    rw [Bool.and_eq_true, List.all_eq_true, decide_eq_true_eq] at hok
    have htexts := filterMap_of_mapM hmap
    rw [List.filterMap_append, List.filterMap_map] at htexts
    refine ⟨?_, fun htruthy => ?_⟩
    · have hnodup := htexts ▸ hok.2
      exact (List.nodup_append.1 hnodup).2.1
    rw [if_pos htruthy] at htexts hmap
    cases hid : Message.field "id" turn.userMessage with
    | str id =>
      refine ⟨id, rfl, ?_⟩
      have hmem : id ∈ texts := by
        rw [← htexts, hid]
        simp [textOf]
      simpa using hok.1 id hmem
    | null | bool | num | arr | obj =>
      rw [hid] at hmap
      simp [textOf] at hmap
  · cases h

theorem current_foldl_upsertReply (turn : Turn) (entries : List ReplyEntry) (history : History)
    (h : ∀ id, history.currentId = some id → (history.messages.get id).isSome = true) :
    ∀ id, (entries.foldl (upsertReply turn) history).currentId = some id →
      ((entries.foldl (upsertReply turn) history).messages.get id).isSome = true := by
  induction entries generalizing history with
  | nil => exact h
  | cons entry entries ih =>
    apply ih
    unfold upsertReply
    split
    · exact h
    · exact current_upsertMessage turn.now _ _ h

theorem insertChatTurn_cases (h : insertChatTurn turn (some history) = .ok history') :
    (turnIds turn).isNone = false ∧ ∃ start, history' = turn.replies.foldl (upsertReply turn) start ∧
      ((Message.truthy turn.userMessage = false ∧ start = history) ∨
        (Message.truthy turn.userMessage = true ∧ ∃ id,
          textOf (Message.field "id" turn.userMessage) = some id ∧
          start = upsertMessageToHistory turn.now history id
            (cleanMessage (turnMessage turn id (storedMessage history.messages id))))) := by
  unfold insertChatTurn at h
  split at h
  · cases h
  simp only at h
  split at h
  · cases h
  rename_i hids
  split at h
  · cases h
  split at h
  · cases h
  rename_i start hstart
  cases h
  refine ⟨by simpa only [Bool.not_eq_true] using hids, start, rfl, ?_⟩
  split at hstart
  · rename_i htruthy
    refine .inr ⟨htruthy, ?_⟩
    unfold upsertTurnMessage at hstart
    split at hstart
    · cases hstart
    rename_i id hid
    simp only at hstart
    split at hstart
    · cases hstart
    · split at hstart
      · cases hstart
      · cases hstart
        exact ⟨id, hid, rfl⟩
  · rename_i htruthy
    cases hstart
    exact .inl ⟨by simpa using htruthy, rfl⟩

theorem Consistent.insertChatTurn (h : Consistent history) (hfits : TurnFits history.messages turn)
    (hok : RyanAI.Chat.insertChatTurn turn (some history) = .ok history') : Consistent history' := by
  obtain ⟨hids, start, rfl, hstart⟩ := insertChatTurn_cases hok
  obtain ⟨hnodup, huser⟩ := turnIds_spec hids
  have hlinked := Links.linkedBut_of_linked h.linked (· ∈ replyIds turn)
  unfold TurnFits at hfits
  rcases hstart with ⟨htruthy, rfl⟩ | ⟨htruthy, id, hid, rfl⟩
  · -- no message of the user: the replies have no parent of their own
    rw [if_neg (by simp [htruthy])] at hfits
    have hnone : Message.field "id" turn.userMessage = ((none : Option String).map Json.str).getD .null := by
      have hempty : turn.userMessage.entries = [] := by simpa [Message.truthy] using htruthy
      simp [Message.field, KeyedTable.get, hempty, OrderedMap.get]
    exact ⟨linked_foldl_upsertReply hnone (by simp) turn.replies start hnodup hfits hlinked,
      current_foldl_upsertReply turn turn.replies start h.current⟩
  rw [if_pos htruthy] at hfits
  obtain ⟨-, hupsert, hreplies⟩ := hfits id hid
  obtain ⟨id', hfield, hne⟩ := huser htruthy
  rw [hfield] at hid
  cases hid
  have hsome : Message.field "id" turn.userMessage = ((some id).map Json.str).getD .null := hfield
  -- the message of the user is written, and the replies go below it
  have hlinks := links_upsertMessage turn.now hupsert
  have hplaced := (hlinked.place hupsert.fits).mono fun c hc => hc.1
  rw [← hlinks] at hplaced
  refine ⟨linked_foldl_upsertReply hsome (by simpa using hne) turn.replies _ hnodup ?_ hplaced,
    current_foldl_upsertReply turn turn.replies _ (current_upsertMessage turn.now _ _ h.current)⟩
  have houtside : id ∉ replyIds turn ∨ replyIds turn = [] := by
    cases hreply : replyIds turn with
    | nil => exact .inr rfl
    | cons r rest => exact .inl (hreply ▸ hreplies.outside [] r rest hreply id rfl)
  have hother : ∀ r ∈ replyIds turn, r ≠ id := by
    rintro r hr rfl
    rcases houtside with hno | hnil
    · exact hno hr
    · rw [hnil] at hr
      cases hr
  rw [hlinks]
  refine ⟨?_, ?_, hreplies.outside⟩
  · intro before r after hsplit q k hq hgq
    obtain ⟨k₀, hk₀, -, hcount⟩ := Links.place_cases hgq
    have hr : r ∈ replyIds turn := by
      rw [replyIds, hsplit]
      simp
    rw [hcount r (hother r hr)]
    exact hreplies.listed before r after hsplit q k₀ hq hk₀
  · intro r hr c k hc hgc
    obtain ⟨k₀, hk₀, hsame, -⟩ := Links.place_cases hgc
    rw [hsame]
    exact hreplies.lists r hr c k₀ hc hk₀

/-! ## Runs -/

inductive HistoryOp where
  | upsert (now : ℕ) (messageId : String) (message : Message)
  | delete (messageId : String)
  | merge (incoming : IncomingHistory)
  | turn (turn : Turn)

def applyOp (history : History) : HistoryOp → Option History
  | .upsert now messageId message => some (upsertMessageToHistory now history messageId message)
  | .delete messageId => some (deleteMessageFromHistory history messageId).1
  | .merge incoming => some (mergeHistory history incoming)
  | .turn turn =>
    match insertChatTurn turn (some history) with
    | .ok history' => some history'
    | .error _ => some history

def OpFits (history : History) : HistoryOp → Prop
  | .upsert _ messageId message =>
    readable history.messages = true ∧ Message.readable message = true ∧
      UpsertFits (fun _ => False) history.messages messageId message
  | .delete _ => readable history.messages = true
  | .merge _ => True
  | .turn turn => readable history.messages = true ∧ TurnFits history.messages turn

theorem Consistent.applyOp (h : Consistent history) (hfits : OpFits history op)
    (hstep : RyanAI.Chat.applyOp history op = some history') : Consistent history' := by
  cases op with
  | upsert now messageId message =>
    cases hstep
    exact h.upsertMessage now hfits.2.2
  | delete messageId =>
    cases hstep
    exact h.deleteMessage messageId
  | merge incoming =>
    cases hstep
    exact consistent_mergeHistory history incoming
  | turn turn =>
    simp only [RyanAI.Chat.applyOp] at hstep
    split at hstep
    · rename_i turned hok
      cases hstep
      exact h.insertChatTurn hfits.2 hok
    · cases hstep
      exact h

/-- A run whose messages fit keeps the history consistent. -/
theorem history_consistent {history history' : History} {ops : List HistoryOp}
    (hrun : Machine.Run applyOp OpFits history ops history') (h : Consistent history) :
    Consistent history' :=
  hrun.invariant (fun _ _ _ hi hfits hstep => hi.applyOp hfits hstep) h

def bareMessage (parent : Json) (children : List String) : Message :=
  KeyedTable.empty
    |> KeyedTable.set "parentId" parent
    |> KeyedTable.set "childrenIds" (.arr (children.map .str))

/-- A question `p` with the reply `c`, and another question `q`. -/
def branchedHistory : History where
  messages := KeyedTable.empty
    |> KeyedTable.set "p" (bareMessage .null ["c"])
    |> KeyedTable.set "c" (bareMessage (.str "p") [])
    |> KeyedTable.set "q" (bareMessage .null [])
  currentId := some "c"

theorem history_consistent_sample : Consistent (deleteMessageFromHistory (upsertMessageToHistory 1 branchedHistory "d"
      (bareMessage (.str "p") [])) "c").1 := by
  refine @history_consistent branchedHistory _
    [.upsert 1 "d" (bareMessage (.str "p") []), .delete "c"] ?_ (by decide)
  refine .cons ?_ rfl (.cons ?_ rfl (.nil _))
  · show _ ∧ _ ∧ UpsertFits (fun _ => False) _ _ _
    decide
  · show readable _ = true
    decide

/-- An update moves `c` from `p` to `q`, and `p` goes on listing it. -/
theorem moved_message_stays_listed : ¬ ∀ (history history' : History) (ops : List HistoryOp),
      Consistent history → Machine.AnyRun applyOp history ops history' → Consistent history' := by
  intro h
  have hend := h branchedHistory _ [.upsert 1 "c" (bareMessage (.str "q") [])] (by decide)
    (.cons trivial rfl (.nil _))
  revert hend
  decide

end RyanAI.Chat
