import RyanAI.Chat.MessageMap

/-!
# Pending internal messages

The result of a background sub-agent waits in its parent chat as a user message without children.
`process_pending_internal_messages` takes the first pending message and those that go to the same parent and model, puts
one user message with their contents in their place, and gives it an assistant message to be filled in. A timer is
taken by itself; a batch of one whose status is not `pending` is written over in place.

The parent lock and the chat transaction make a run one step on the history, rolled back by an exception. Parents and
models are texts or null.
-/

namespace RyanAI.Chat

open RyanAI.Lib

/-- `meta.get(key)` where `meta = message.get('meta') or {}`. -/
def metaField (key : String) (message : Message) : Json :=
  match Message.field "meta" message with
  | .obj fields => Dict.get fields key
  | _ => .null

/-- A `meta` that counts as true and is not a dictionary has no `get`. -/
def metaReadable (message : Message) : Bool :=
  match Message.field "meta" message with
  | .obj _ => true
  | value => !value.truthy

/-- `message.get('role') == 'user' and not message.get('childrenIds')`. -/
def awaitsReply (message : Message) : Bool :=
  Message.field "role" message = .str "user" && !(Message.field "childrenIds" message).truthy

def isInternal (type : String) (message : Message) : Bool :=
  metaField "internal" message = .bool true && metaField "type" message = .str type

def isSubagentResult (message : Message) : Bool :=
  isInternal "subagent" message && (metaField "status" message = .null || metaField "status" message = .str "pending")

def isPending (message : Message) : Bool :=
  awaitsReply message && (isSubagentResult message || isInternal "timer" message)

/-- The list `pending`, under the keys of the messages. -/
def pendingMessages (messages : Messages) : List (String × Message) :=
  messages.entries.filter fun entry => isPending entry.2

structure RunModel where
  model_id : Option Json
  /-- The model of the run that is stored with a timer. -/
  timerModel : Json → Option Json

/-- `first.get('model') or run['model_id']`. -/
def modelOf (run : RunModel) (first : Message) : Except Raised Json :=
  if (Message.field "model" first).truthy then .ok (Message.field "model" first)
  else
    let timerId := metaField "timer_id" first
    let stored := if isInternal "timer" first && timerId.truthy then run.timerModel timerId else none
    match stored.or run.model_id with
    | some model => .ok model
    | none => .error .keyError

def batchOf (first : String × Message) (model : Json) (pending : List (String × Message)) : List (String × Message) :=
  if isInternal "timer" first.2 then [first]
  else
    pending.filter fun entry =>
      Message.field "parentId" entry.2 = Message.field "parentId" first.2 &&
        (Message.field "model" entry.2).orElse model = model && isSubagentResult entry.2

def contentsOf (batch : List (String × Message)) : List String :=
  batch.filterMap fun entry => (textOf (Message.field "content" entry.2)).filter (· ≠ "")

/-- `'\n\n'.join(…)`, which raises on a content that is not a text. -/
def combinedContent (batch : List (String × Message)) : Except Raised String :=
  if batch.any fun entry =>
      (Message.field "content" entry.2).truthy && (textOf (Message.field "content" entry.2)).isNone then
    .error .typeError
  else .ok ("\n\n".intercalate (contentsOf batch))

def withIds (key keys : String) (batch : List (String × Message)) (fields : Dict) : Dict :=
  match batch.filterMap fun entry =>
      if (metaField key entry.2).truthy then some (metaField key entry.2) else none with
  | [] => fields
  | [id] => Dict.set fields key id
  | ids => Dict.set fields keys (.arr ids)

def combinedMeta (timer : Bool) (batch : List (String × Message)) : Dict :=
  if timer then withIds "timer_id" "timer_ids" batch [("internal", .bool true), ("type", .str "timer")]
  else
    withIds "subagent_chat_id" "subagent_chat_ids" batch
      (withIds "delegation_id" "delegation_ids" batch [("internal", .bool true), ("type", .str "subagent")])

/-! ## The messages that take its place -/

/-- `message['id']`. -/
def ownId (message : Message) : Except Raised String :=
  match textOf (Message.field "id" message) with
  | some id => .ok id
  | none => .error .keyError

def userMessage (id assistantId : String) (parentId : Json) (content : String) (model : Json) (fields : Dict)
    (now : ℕ) : Message :=
  KeyedTable.empty
    |> KeyedTable.set "id" (.str id)
    |> KeyedTable.set "parentId" parentId
    |> KeyedTable.set "childrenIds" (.arr [.str assistantId])
    |> KeyedTable.set "role" (.str "user")
    |> KeyedTable.set "content" (.str content)
    |> KeyedTable.set "model" model
    |> KeyedTable.set "meta" (.obj fields)
    |> KeyedTable.set "timestamp" (.num now)

def assistantMessage (id userId : String) (model : Json) (now : ℕ) : Message :=
  KeyedTable.empty
    |> KeyedTable.set "id" (.str id)
    |> KeyedTable.set "parentId" (.str userId)
    |> KeyedTable.set "childrenIds" (.arr [])
    |> KeyedTable.set "role" (.str "assistant")
    |> KeyedTable.set "content" (.str "")
    |> KeyedTable.set "done" (.bool false)
    |> KeyedTable.set "model" model
    |> KeyedTable.set "timestamp" (.num now)

/-- `message.get('childrenIds', [])` as a list to go through. -/
def listedChildren (message : Message) : Except Raised (List Json) :=
  match KeyedTable.get "childrenIds" message with
  | none => .ok []
  | some (.arr items) => .ok items
  | some _ => .error .typeError

/-- `messages[parent_id]['childrenIds'] = …`, where there is such a parent. -/
def editChildren (parentId : Json) (edit : List Json → List Json) (messages : Messages) : Except Raised Messages :=
  match (textOf parentId).filter (· ≠ "") with
  | none => .ok messages
  | some id =>
    match messages.get id with
    | none => .ok messages
    | some parent =>
      match listedChildren parent with
      | .error e => .error e
      | .ok items => .ok (messages.set id (Message.setChildren (edit items) parent))

/-- `messages.pop(message_id, None)` for every id. -/
def popAll (ids : List String) (messages : Messages) : Messages := ids.foldl (fun acc id => acc.delete id) messages

/-- `reuse_message`: a batch of one that was not waiting is written over. -/
def reuseMessage (first : Message) (batch : List (String × Message)) : Bool :=
  batch.length = 1 && metaField "status" first ≠ .str "pending"

def removeBatch (reuse : Bool) (parentId : Json) (ids : List String) (messages : Messages) : Except Raised Messages :=
  if reuse then .ok messages
  else editChildren parentId (fun items => items.filter fun item => item ∉ ids.map Json.str) (popAll ids messages)

structure Delivery where
  before : Messages
  batch : List (String × Message)
  userId : String
  assistantId : String
  /-- The conversation that is sent on, up to the parent of the batch. -/
  messageList : List Message
  result : Messages

def deliver (first : Message) (batch : List (String × Message)) (model : Json) (newId assistantId : String)
    (now : ℕ) (messages : Messages) : Except Raised Delivery := do
  let content ← combinedContent batch
  let firstId ← ownId first
  let ids ← batch.mapM fun entry => ownId entry.2
  let userId := if reuseMessage first batch then firstId else newId
  let parentId := Message.field "parentId" first
  let remaining ← removeBatch (reuseMessage first batch) parentId ids messages
  let relisted ← editChildren parentId (fun items => items.filter (· ≠ .str userId) ++ [.str userId]) remaining
  let user := userMessage userId assistantId parentId content model
    (combinedMeta (isInternal "timer" first) batch) now
  let result := (relisted.set userId (((relisted.get userId).getD KeyedTable.empty).update user)).set assistantId
    (assistantMessage assistantId userId model now)
  .ok { before := messages
        batch := batch
        userId := userId
        assistantId := assistantId
        messageList := ((textOf parentId).map (getMessageList remaining)).getD []
        result := result }

/-- The transaction of `process_pending_internal_messages`; `newId` and `assistantId` are drawn. -/
def processPendingInternalMessages (run : RunModel) (newId assistantId : String) (now : ℕ)
    (messages : Messages) : Except Raised (Option Delivery) :=
  if messages.entries.any fun entry => awaitsReply entry.2 && !metaReadable entry.2 then .error .attributeError
  else
    match pendingMessages messages with
    | [] => .ok none
    | first :: rest =>
      match modelOf run first.2 with
      | .error e => .error e
      | .ok model =>
        (deliver first.2 (batchOf first model (first :: rest)) model newId assistantId now messages).map some

/-! ## What the parts do -/

variable {message : Message} {messages : Messages} {first : String × Message} {model : Json}

theorem children_of_isPending (h : isPending message = true) : Message.children message = [] := by
  simp only [isPending, awaitsReply, Bool.and_eq_true, Bool.not_eq_true'] at h
  obtain ⟨⟨-, hfalsy⟩, -⟩ := h
  simp only [Message.children, Message.childItems]
  cases hf : Message.field "childrenIds" message with
  | arr items =>
    rw [hf] at hfalsy
    have hnil : items = [] := by simpa [Json.truthy] using hfalsy
    simp [hnil]
  | null | bool | num | str | obj => rfl

theorem role_of_isPending (h : isPending message = true) : Message.field "role" message = .str "user" := by
  simp only [isPending, awaitsReply, Bool.and_eq_true, decide_eq_true_eq] at h
  exact h.1.1

theorem not_isPending_of_child {id : String} (h : id ∈ Message.children message) : isPending message = false := by
  by_contra hp
  rw [children_of_isPending (by simpa using hp)] at h
  cases h

theorem mem_pendingMessages :
    entry ∈ pendingMessages messages ↔ messages.get entry.1 = some entry.2 ∧ isPending entry.2 = true := by
  rw [pendingMessages, List.mem_filter, KeyedTable.get_eq_some]

theorem batchOf_spec (rest : List (String × Message)) (hp : isPending first.2 = true)
    (hm : modelOf run first.2 = .ok model) :
    first ∈ batchOf first model (first :: rest) ∧ (batchOf first model (first :: rest)).Sublist (first :: rest) := by
  unfold batchOf
  split
  · exact ⟨List.mem_singleton_self _, by simp⟩
  rename_i htimer
  refine ⟨?_, List.filter_sublist⟩
  have hsub : isSubagentResult first.2 = true := by
    simp only [isPending, Bool.and_eq_true, Bool.or_eq_true] at hp
    exact hp.2.resolve_right htimer
  have hmodel : (Message.field "model" first.2).orElse model = model := by
    rw [Json.orElse]
    split
    · rename_i ht
      rw [modelOf, if_pos ht] at hm
      exact Except.ok.inj hm
    · rfl
  simp [hmodel, hsub]

theorem parentId_of_mem_batchOf (h : entry ∈ batchOf first model pending) :
    Message.field "parentId" entry.2 = Message.field "parentId" first.2 := by
  unfold batchOf at h
  split at h
  · rw [List.mem_singleton.1 h]
  · simp only [List.mem_filter, Bool.and_eq_true, decide_eq_true_eq] at h
    exact h.2.1.1

theorem childItems_of_listedChildren (h : listedChildren message = .ok items) : Message.childItems message = items := by
  unfold listedChildren at h
  simp only [Message.childItems, Message.field]
  cases hg : KeyedTable.get "childrenIds" message with
  | none =>
    rw [hg] at h
    cases h
    rfl
  | some value =>
    rw [hg] at h
    cases value with
    | arr =>
      cases h
      rfl
    | null | bool | num | str | obj => cases h

theorem get_editChildren {edit : List Json → List Json}
    (hempty : messages.get "" = none) (h : editChildren parentId edit messages = .ok messages') (q : String) :
    messages'.get q = if textOf parentId = some q then
        (messages.get q).map fun m => Message.setChildren (edit (Message.childItems m)) m else messages.get q := by
  unfold editChildren at h
  split at h
  · rename_i hnone
    cases h
    split
    · -- a parent without a name is no message
      rename_i htext
      rw [htext] at hnone
      have hq : q = "" := by simpa using hnone
      rw [hq, hempty]
      rfl
    · rfl
  · rename_i id hid
    obtain ⟨htext, -⟩ := Option.filter_eq_some_iff.1 hid
    rw [htext]
    simp only [Option.some.injEq]
    split at h
    · rename_i hget
      cases h
      split
      · rename_i heq
        rw [← heq, hget]
        rfl
      · rfl
    · rename_i parent hget
      split at h
      · cases h
      rename_i items hitems
      cases h
      rw [KeyedTable.get_set]
      by_cases hq : id = q
      · subst hq
        rw [if_pos rfl, if_pos rfl, hget, Option.map_some, childItems_of_listedChildren hitems]
      · rw [if_neg (Ne.symm hq), if_neg hq]

theorem get_popAll (ids : List String) (messages : Messages) (q : String) :
    (popAll ids messages).get q = if q ∈ ids then none else messages.get q := by
  unfold popAll
  induction ids generalizing messages with
  | nil => simp
  | cons id rest ih =>
    rw [List.foldl_cons, ih, KeyedTable.get_delete]
    by_cases hr : q ∈ rest <;> by_cases hid : q = id <;> simp [hr, hid]

theorem ownId_eq_ok {id : String} (h : ownId message = .ok id) : textOf (Message.field "id" message) = some id := by
  unfold ownId at h
  split at h
  · rename_i text htext
    cases h
    exact htext
  · cases h

theorem ids_of_mapM {batch : List (String × Message)} {ids : List String}
    (hkeyed : ∀ entry ∈ batch, ∀ id, textOf (Message.field "id" entry.2) = some id → id = entry.1)
    (h : batch.mapM (fun entry => ownId entry.2) = .ok ids) : ids = batch.map Prod.fst := by
  induction batch generalizing ids with
  | nil =>
    cases h
    rfl
  | cons entry rest ih =>
    rw [List.mapM_cons] at h
    obtain ⟨id, hid, h⟩ := bind_eq_ok.1 h
    obtain ⟨ids', hids, h⟩ := bind_eq_ok.1 h
    cases h
    rw [List.map_cons, ← ih (List.forall_mem_of_forall_mem_cons hkeyed) hids]
    congr 1
    exact hkeyed entry List.mem_cons_self id (ownId_eq_ok hid)

section Written

variable (old : Message) (id assistantId : String) (parentId : Json) (content : String) (model : Json)
  (fields : Dict) (now : ℕ)

theorem field_update_userMessage
    (hkey : key ∈ ["id", "parentId", "childrenIds", "role", "content", "model", "meta", "timestamp"]) :
    Message.field key (old.update (userMessage id assistantId parentId content model fields now)) =
      Message.field key (userMessage id assistantId parentId content model fields now) := by
  rw [Message.field_update, if_pos]
  simp only [List.mem_cons, List.not_mem_nil, or_false] at hkey
  rcases hkey with rfl | rfl | rfl | rfl | rfl | rfl | rfl | rfl <;> rfl

theorem children_update_userMessage :
    Message.children (old.update (userMessage id assistantId parentId content model fields now)) = [assistantId] := by
  rw [Message.children, Message.childItems, field_update_userMessage _ _ _ _ _ _ _ _ (by simp)]
  rfl

theorem parent_update_userMessage :
    Message.parent (old.update (userMessage id assistantId parentId content model fields now)) = textOf parentId := by
  rw [Message.parent, field_update_userMessage _ _ _ _ _ _ _ _ (by simp)]
  rfl

end Written

def childrenAfter (removed : List String) (userId : String) (items : List Json) : List Json :=
  (items.filter fun item => item ∉ (userId :: removed).map Json.str) ++ [.str userId]

theorem filterMap_textOf_childrenAfter (removed : List String) (userId : String) (items : List Json) :
    (childrenAfter removed userId items).filterMap textOf =
      ((items.filterMap textOf).filter fun id => id ∉ userId :: removed) ++ [userId] := by
  rw [childrenAfter, List.filterMap_append]
  congr 1
  induction items with
  | nil => rfl
  | cons item rest ih =>
    cases item with
    | str id =>
      have hmem : Json.str id ∈ (userId :: removed).map Json.str ↔ id ∈ userId :: removed := by
        rw [List.mem_map]
        constructor
        · rintro ⟨id', h, heq⟩
          cases heq
          exact h
        · exact fun h => ⟨id, h, rfl⟩
      have hcons : ∀ tail : List Json, (Json.str id :: tail).filterMap textOf = id :: tail.filterMap textOf :=
        fun _ => rfl
      by_cases h : id ∈ userId :: removed
      · rw [List.filter_cons_of_neg (by simpa only [decide_eq_true_eq, not_not] using hmem.2 h), ih, hcons,
          List.filter_cons_of_neg (by simpa only [decide_eq_true_eq, not_not] using h)]
      · rw [List.filter_cons_of_pos (by simpa only [decide_eq_true_eq] using fun hm => h (hmem.1 hm)), hcons, ih,
          hcons, List.filter_cons_of_pos (by simpa only [decide_eq_true_eq] using h)]
    | null | bool | num | arr | obj =>
      simpa [List.filter_cons, List.filterMap_cons, textOf] using ih

/-- The messages after a run; `removed` are gone. -/
structure Replaces (first : String × Message) (removed : List String) (d : Delivery) : Prop where
  first_mem : first ∈ d.batch
  removed_cases : removed = [] ∧ d.batch = [first] ∧ d.userId = first.1 ∨ removed = d.batch.map Prod.fst
  get_result : ∃ (old : Message) (content : String) (model : Json) (fields : Dict) (now : ℕ),
    combinedContent d.batch = .ok content ∧ ∀ q, d.result.get q =
    if q = d.assistantId then some (assistantMessage d.assistantId d.userId model now)
    else if q = d.userId then
      some (KeyedTable.update old (userMessage d.userId d.assistantId (Message.field "parentId" first.2) content model fields now))
    else if q ∈ removed then none
    else if textOf (Message.field "parentId" first.2) = some q then
      (d.before.get q).map fun m => Message.setChildren (childrenAfter removed d.userId (Message.childItems m)) m
    else d.before.get q

theorem get_relisted (hempty : messages.get "" = none)
    (hremaining : removeBatch reuse parentId ids messages = .ok remaining)
    (hrelisted : editChildren parentId (fun items => items.filter (· ≠ .str userId) ++ [.str userId]) remaining =
      .ok relisted) (q : String) :
    relisted.get q = if q ∈ (if reuse then [] else ids) then none
      else if textOf parentId = some q then (messages.get q).map fun m =>
          Message.setChildren (childrenAfter (if reuse then [] else ids) userId (Message.childItems m)) m
      else messages.get q := by
  unfold removeBatch at hremaining
  cases reuse with
  | true =>
    rw [if_pos rfl] at hremaining
    cases hremaining
    rw [get_editChildren hempty hrelisted]
    simp [childrenAfter]
  | false =>
    rw [if_neg Bool.false_ne_true] at hremaining
    have hpop : (popAll ids messages).get "" = none := by
      rw [get_popAll, hempty, ite_self]
    have hget := get_editChildren hpop hremaining
    have hrem : remaining.get "" = none := by
      rw [hget, hpop]
      simp
    rw [get_editChildren hrem hrelisted, hget, get_popAll]
    by_cases hq : q ∈ ids
    · simp [hq]
    by_cases hp : textOf parentId = some q
    · simp only [hq, hp, if_true, if_false, Bool.false_eq_true, Option.map_map, Function.comp_def,
        Message.setChildren_setChildren, Message.childItems_setChildren, List.filter_filter, childrenAfter]
      congr 1
      funext m
      congr 3
      funext item
      simp [eq_comm]
    · simp only [hq, hp, if_false, Bool.false_eq_true]

theorem deliver_eq_ok {now : ℕ} {d : Delivery} (hempty : messages.get "" = none) (hfirst : first ∈ batch)
    (hkeyed : ∀ entry ∈ batch, ∀ id, textOf (Message.field "id" entry.2) = some id → id = entry.1)
    (h : deliver first.2 batch model newId assistantId now messages = .ok d) :
    ∃ removed, Replaces first removed d ∧ d.before = messages ∧ d.batch = batch ∧ d.assistantId = assistantId ∧
      (d.userId = newId ∨ removed = []) := by
  unfold deliver at h
  obtain ⟨content, hcontent, h⟩ := bind_eq_ok.1 h
  obtain ⟨firstId, hfirstId, h⟩ := bind_eq_ok.1 h
  obtain ⟨ids, hids, h⟩ := bind_eq_ok.1 h
  obtain rfl := ids_of_mapM hkeyed hids
  obtain ⟨remaining, hremaining, h⟩ := bind_eq_ok.1 h
  obtain ⟨relisted, hrelisted, h⟩ := bind_eq_ok.1 h
  cases h
  have hid : firstId = first.1 := hkeyed first hfirst firstId (ownId_eq_ok hfirstId)
  have hrel := get_relisted hempty hremaining hrelisted
  refine ⟨if reuseMessage first.2 batch then [] else batch.map Prod.fst, ⟨hfirst, ?_, ?_⟩, rfl, rfl, rfl, ?_⟩
  · cases hreuse : reuseMessage first.2 batch with
    | true =>
      simp only [reuseMessage, Bool.and_eq_true, decide_eq_true_eq] at hreuse
      obtain ⟨entry, hbatch⟩ := List.length_eq_one_iff.1 hreuse.1
      obtain rfl : first = entry := by simpa [hbatch] using hfirst
      exact Or.inl ⟨rfl, hbatch, hid⟩
    | false => exact Or.inr rfl
  · refine ⟨(relisted.get (if reuseMessage first.2 batch then firstId else newId)).getD KeyedTable.empty, content,
      model, combinedMeta (isInternal "timer" first.2) batch, now, hcontent, fun q => ?_⟩
    simp only [KeyedTable.get_set, hrel]
  · cases reuseMessage first.2 batch with
    | true => exact Or.inr rfl
    | false => exact Or.inl rfl

end RyanAI.Chat
