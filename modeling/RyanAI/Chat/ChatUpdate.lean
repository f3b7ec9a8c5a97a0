import RyanAI.Chat.HistorySpec

/-!
# Saving a chat over a newer one

`updateHistory` is what `update_chat_by_id` does to the history of a chat: the stored and the incoming history are
merged, stored messages that the caller may not overwrite are put back, and the lists of children are computed again.
`updateChat` cleans the result for the database. `get_updateHistory` says which version of a message wins. An incoming
value that is no message replaces the stored message before it is dropped, and cleaning can make two ids one.
-/

namespace RyanAI.Chat

open RyanAI.Lib

/-- Whether the stored message wins; the code raises `KeyError` where there is no answer. -/
def isShielded (owner : String) (message : Message) (merged : Option Message) : Option Bool :=
  if authorOf owner message ≠ .str owner then some true
  else if Message.field "role" message = .str "assistant" then
    if Message.field "done" message = .bool false then some true
    else merged.map fun m => decide (Message.field "done" m = .bool false)
  else some false

def putBack (owner : String) (messages : Messages) (entry : String × Message) : Option Messages :=
  (isShielded owner entry.2 (messages.get entry.1)).map fun shielded =>
    if shielded then messages.set entry.1 entry.2 else messages

def noHistory : IncomingHistory := ⟨KeyedTable.empty, none⟩

def updateHistory (owner : String) (stored : History) (incoming : IncomingHistory) : Option History :=
  let merged := mergeHistory stored incoming
  (stored.messages.entries.foldlM (putBack owner) merged.messages).map fun messages =>
    mergeHistory ⟨messages, merged.currentId⟩ noHistory

/-- Equal in every field but `childrenIds`. -/
def SameBut (a b : Message) : Prop := ∀ key, key ≠ "childrenIds" → KeyedTable.get key a = KeyedTable.get key b

theorem sameBut_setChildren (ids : List Json) (message : Message) :
    SameBut (Message.setChildren ids message) message := by
  intro key hkey
  simp [Message.setChildren, hkey]

theorem SameBut.field (h : SameBut a b) (hkey : key ≠ "childrenIds") : Message.field key a = Message.field key b := by
  rw [Message.field, h key hkey, Message.field]

def winner (owner : String) (stored merged : Option Message) : Option Message :=
  match stored with
  | none => merged
  | some message => if isShielded owner message merged = some true then some message else merged

variable {owner : String} {incoming : IncomingHistory} {message : Message}

theorem get_putBack (h : putBack owner messages entry = some messages') :
    ∃ shielded, isShielded owner entry.2 (messages.get entry.1) = some shielded ∧ ∀ q, messages'.get q =
        if q = entry.1 then (if shielded then some entry.2 else messages.get q) else messages.get q := by
  obtain ⟨shielded, hshielded, rfl⟩ := Option.map_eq_some_iff.1 h
  refine ⟨shielded, hshielded, fun q => ?_⟩
  cases shielded with
  | true => simp
  | false => simp

theorem get_foldlM_putBack (hd : OrderedMap.Distinct entries)
    (h : entries.foldlM (putBack owner) messages = some messages') (q : String) :
    messages'.get q = winner owner (OrderedMap.get q entries) (messages.get q) ∧
      ∀ message, OrderedMap.get q entries = some message → isShielded owner message (messages.get q) ≠ none := by
  induction entries generalizing messages with
  | nil =>
    cases h
    exact ⟨rfl, nofun⟩
  | cons entry rest ih =>
    obtain ⟨k, message⟩ := entry
    rw [List.foldlM_cons, Option.bind_eq_bind, Option.bind_eq_some_iff] at h
    obtain ⟨next, hnext, hrest⟩ := h
    simp only [OrderedMap.Distinct, OrderedMap.keys, List.map_cons, List.nodup_cons] at hd
    obtain ⟨shielded, hshielded, hget⟩ := get_putBack hnext
    obtain ⟨ih', hsome⟩ := ih hd.2 hrest
    by_cases hq : k = q
    · -- the id does not occur again
      subst hq
      have hnone : OrderedMap.get k rest = none := by
        have hmem : k ∉ OrderedMap.keys rest := hd.1
        rw [OrderedMap.mem_keys_iff] at hmem
        simpa using hmem
      rw [ih', hnone, OrderedMap.get, if_pos rfl]
      refine ⟨?_, ?_⟩
      · simp only [winner, hget k, if_true]
        cases shielded with
        | true => simp [hshielded]
        | false => simp [hshielded]
      · rintro message' hmessage' hnone'
        cases hmessage'
        rw [hshielded] at hnone'
        cases hnone'
    · have hkeep : next.get q = messages.get q := by
        rw [hget q, if_neg (Ne.symm hq)]
      rw [hkeep] at ih' hsome
      rw [OrderedMap.get, if_neg hq]
      exact ⟨ih', hsome⟩

theorem keys_appendToParent (messages : Messages) (id : String) :
    (appendToParent messages id).keys = messages.keys := by
  unfold appendToParent
  split
  · rfl
  rename_i p hp
  cases hget : messages.get p with
  | none => rfl
  | some parent =>
    apply OrderedMap.keys_set_of_mem
    exact OrderedMap.mem_keys_iff.2 (by rw [show OrderedMap.get p messages.entries = some parent from hget]; rfl)

theorem keys_mergeHistory (existing : History) (incoming : IncomingHistory) :
    (mergeHistory existing incoming).messages.keys = (mergedMessages existing.messages incoming.messages).keys := by
  have hfold : ∀ (ids : List String) (messages : Messages),
      (ids.foldl appendToParent messages).keys = messages.keys := by
    intro ids
    induction ids with
    | nil => exact fun _ => rfl
    | cons id rest ih =>
      intro messages
      rw [List.foldl_cons, ih, keys_appendToParent]
  exact hfold _ _

theorem parentAt_mergeHistory (existing : History) (incoming : IncomingHistory) (q : String) :
    parentAt (mergeHistory existing incoming).messages q =
      parentAt (mergedMessages existing.messages incoming.messages) q := by
  rw [parentAt, parentAt, get_mergeHistory]
  cases (mergedMessages existing.messages incoming.messages).get q <;> simp

def ChildrenExact (messages : Messages) : Prop :=
  ∀ q message, messages.get q = some message →
    Message.field "childrenIds" message = .arr ((childrenAmong messages messages.keys q).map .str)

theorem childrenExact_mergeHistory (existing : History) (incoming : IncomingHistory) :
    ChildrenExact (mergeHistory existing incoming).messages := by
  intro q message hget
  have hsame : childrenAmong (mergeHistory existing incoming).messages
      (mergeHistory existing incoming).messages.keys q =
        childrenAmong (mergedMessages existing.messages incoming.messages) (mergedIds existing incoming) q := by
    rw [keys_mergeHistory]
    simp only [childrenAmong, parentAt_mergeHistory]
    rfl
  rw [hsame]
  rw [get_mergeHistory] at hget
  obtain ⟨message', -, rfl⟩ := Option.map_eq_some_iff.1 hget
  simp [Message.setChildren]

theorem get_updateHistory (h : updateHistory owner stored incoming = some result) (q : String) :
    ChildrenExact result.messages ∧ (∀ message, stored.messages.get q = some message →
        isShielded owner message ((mergeHistory stored incoming).messages.get q) ≠ none) ∧
      ∃ ids, result.messages.get q =
        (winner owner (stored.messages.get q) ((mergeHistory stored incoming).messages.get q)).map
          (Message.setChildren ids) := by
  simp only [updateHistory] at h
  obtain ⟨messages, hfold, rfl⟩ := Option.map_eq_some_iff.1 h
  obtain ⟨hget, hsome⟩ := get_foldlM_putBack stored.messages.distinct hfold q
  obtain ⟨ids, hids⟩ : ∃ ids, (mergeHistory ⟨messages, (mergeHistory stored incoming).currentId⟩
      noHistory).messages.get q = ((mergedMessages messages noHistory.messages).get q).map (Message.setChildren ids) :=
    ⟨_, get_mergeHistory _ _ q⟩
  refine ⟨childrenExact_mergeHistory _ _, hsome, ids, ?_⟩
  have hstored : OrderedMap.get q stored.messages.entries = stored.messages.get q := rfl
  rw [hids, get_mergedMessages, noHistory, KeyedTable.get_empty, Option.none_or, hget, hstored]
  cases winner owner (stored.messages.get q) ((mergeHistory stored incoming).messages.get q) with
  | none => rfl
  | some message => simp

/-- The version of a message that the save keeps, up to its children. -/
def survivor (owner : String) (stored : History) (incoming : IncomingHistory) (id : String) : Option Message :=
  winner owner (stored.messages.get id) ((mergeHistory stored incoming).messages.get id)

/-- The id of a stored message or of a surviving one, or the parent of a surviving one. -/
def Names (owner : String) (stored : History) (incoming : IncomingHistory) (name : String) : Prop :=
  (stored.messages.get name).isSome = true ∨
    ∃ id message, survivor owner stored incoming id = some message ∧ (name = id ∨ Message.parent message = some name)

section Save

variable {stored updated : History} {id : String} {message source : Message}

/-- The messages of the update are the survivors, each with its children. -/
theorem get_update (h : updateHistory owner stored incoming = some updated) (hget : updated.messages.get id = some message) :
    ∃ source ids, survivor owner stored incoming id = some source ∧
      message = Message.setChildren (ids.map .str) source ∧
      ids = childrenAmong updated.messages updated.messages.keys id := by
  obtain ⟨hexact, -, ids, hids⟩ := get_updateHistory h id
  have hlist := hexact id message hget
  rw [hids] at hget
  obtain ⟨source, hsource, rfl⟩ := Option.map_eq_some_iff.1 hget
  refine ⟨source, _, hsource, ?_, rfl⟩
  rw [Message.field, Message.setChildren, KeyedTable.get_set, if_pos rfl] at hlist
  rw [← Json.arr.inj hlist]

end Save

end RyanAI.Chat
