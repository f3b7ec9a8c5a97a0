import RyanAI.Chat.Message
import RyanAI.Lib.Walk

/-!
# The history of a chat

The operations on the history of a chat: `merge_history`, `delete_message_from_history`,
`upsert_message_to_history` and `insert_chat_turn`, which checks a turn and then upserts its messages one
after another. The clock is an argument.
-/

namespace RyanAI.Chat

open RyanAI.Lib

structure History where
  messages : Messages
  currentId : Option String

/-- A history as a client sends it; a value that is not a dictionary is `none`. -/
structure IncomingHistory where
  messages : KeyedTable String (Option Message)
  currentId : Option String

/-- `merged[parent_id]['childrenIds'].append(message_id)` -/
def appendToParent (messages : Messages) (messageId : String) : Messages :=
  match (messages.get messageId).bind Message.parent with
  | none => messages
  | some parentId =>
    match messages.get parentId with
    | none => messages
    | some parent =>
      messages.set parentId (Message.setChildren (Message.childItems parent ++ [.str messageId]) parent)

/-- `{**existing, **incoming}`, without what is no message and with no children. -/
def mergedMessages (existing : Messages) (incoming : KeyedTable String (Option Message)) : Messages :=
  ((existing.map fun _ message => some message).update incoming).filterMap fun _ message =>
    message.map (Message.setChildren [])

/-- `merge_history`. -/
def mergeHistory (existing : History) (incoming : IncomingHistory) : History :=
  let merged := mergedMessages existing.messages incoming.messages
  let isMessage := fun id => (merged.get id).isSome
  { messages := merged.keys.foldl appendToParent merged
    currentId := (incoming.currentId.filter isMessage).or (existing.currentId.filter isMessage) }

def present (messages : Messages) (ids : List String) : List String := ids.filter fun id => (messages.get id).isSome

/-- `messages.get(id, {}).get('childrenIds', [])`. -/
def childrenAt (messages : Messages) (id : String) : List String := ((messages.get id).map Message.children).getD []

/-- `messages[id] = f(messages[id])`, where there is such a message. -/
def modifyAt (id : String) (f : Message → Message) (messages : Messages) : Messages :=
  match messages.get id with
  | none => messages
  | some message => messages.set id (f message)

/-- From the last of `childIds` down to a last child that has none or was visited. -/
def lastOfBranch (messages : Messages) (start : Option String) (childIds : List String) : Option String :=
  match childIds.getLast? with
  | none => start
  | some id =>
    (walk (fun id => (childrenAt messages id).getLast?) (messages.keys.length + 1) [] id).getLast?

/-- `delete_message_from_history`: the history and the ids that were deleted. -/
def deleteMessageFromHistory (history : History) (messageId : String) : History × List String :=
  let messages := history.messages
  match messages.get messageId with
  | none => (history, [])
  | some message =>
    let parentId := Message.field "parentId" message
    let childIds := present messages (Message.children message)
    let grandchildIds := childIds.flatMap fun childId => present messages (childrenAt messages childId)
    let relisted :=
      match Message.parent message with
      | none => messages
      | some parent =>
        modifyAt parent (fun m => Message.setChildren
          ((Message.childItems m).filter (· ≠ .str messageId) ++ grandchildIds.map .str) m) messages
    let moved := grandchildIds.foldl
      (fun acc grandchildId => modifyAt grandchildId (KeyedTable.set "parentId" parentId) acc) relisted
    let deletedIds := messageId :: childIds
    let remaining := deletedIds.foldl (fun acc deletedId => acc.delete deletedId) moved
    -- the message to show next: the end of the last branch below the parent
    let childIds :=
      if parentId = .null then
        remaining.keys.filter fun id => (remaining.get id).map (Message.field "parentId") = some .null
      else ((Message.parent message).map (childrenAt remaining)).getD []
    let currentId := lastOfBranch remaining (Message.parent message) childIds
    ({ messages := remaining, currentId := currentId.filter fun id => (remaining.get id).isSome },
      deletedIds)

/-! ## Writing one message -/

/-- `_add_child_id_to_parent`. -/
def addChildIdToParent (messages : Messages) (parentId : Option String) (childId : String) : Messages :=
  match parentId with
  | none => messages
  | some parentId =>
    if parentId = "" then messages
    else
      match messages.get parentId with
      | none => messages
      | some parent =>
        if Json.str childId ∈ Message.childItems parent then messages
        else
          messages.set parentId (Message.setChildren (Message.childItems parent ++ [.str childId]) parent)

/-- The keys of `meta` that a voice update carries. -/
def voiceKeys : List String := ["voice", "task_id", "response_started_at", "response_ended_at"]

/-- The `meta` of an update, with what is kept of the stored one. -/
def keepMeta (existing message : Message) : Message :=
  match Message.field "meta" message with
  | .obj incoming =>
    let stored : Dict := match Message.field "meta" existing with
      | .obj fields => fields
      | _ => []
    if incoming.all fun entry => entry.1 ∈ voiceKeys then
      KeyedTable.set "meta" (.obj (Dict.update stored incoming)) message
    else
      let kept : Dict := voiceKeys.filterMap fun key => (stored.lookup key).map fun value => (key, value)
      KeyedTable.set "meta" (.obj (Dict.update kept incoming)) message
  | _ => message

/-- The first role among the items of `output`. -/
def outputRole (message : Message) : Json :=
  match Message.field "output" message with
  | .arr items =>
    let roles := items.filterMap fun item => match item with
      | .obj fields => some (Dict.get fields "role")
      | _ => none
    (roles.find? Json.truthy).getD .null
  | _ => .null

def listerOf (messages : Messages) (messageId : String) : Option String :=
  (messages.entries.find? fun entry => decide (messageId ∈ Message.children entry.2)).map Prod.fst

/-- The `parentId` of a new message: its own, else the message that lists it. -/
def newParentId (messages : Messages) (messageId : String) (message : Message) : Json :=
  if Message.field "parentId" message = .null then ((listerOf messages messageId).map .str).getD .null
  else Message.field "parentId" message

def newRole (messages : Messages) (parentId : Json) (message : Message) : Json :=
  let role := Json.orElse (Message.field "role" message) (outputRole message)
  if role.truthy then role
  else
    let parentRole := (((textOf parentId).filter (· ≠ "")).bind messages.get).map (Message.field "role")
    if parentRole = some (.str "user") then .str "assistant"
    else if parentRole = some (.str "assistant") then .str "user"
    else .str "assistant"

def newMessage (now : ℕ) (messages : Messages) (messageId : String) (message : Message) : Message :=
  let parentId := newParentId messages messageId message
  message
    |> KeyedTable.set "id" (Json.orElse (Message.field "id" message) (.str messageId))
    |> KeyedTable.set "parentId" parentId
    |> KeyedTable.set "childrenIds" (.arr (Message.childItems message))
    |> KeyedTable.set "role" (newRole messages parentId message)
    |> KeyedTable.set "timestamp" (Json.orElse (Message.field "timestamp" message) (.num now))

/-- What `upsert_message_to_history` stores under the id. -/
def upserted (now : ℕ) (messages : Messages) (messageId : String) (message : Message) : Message :=
  match messages.get messageId with
  | some existing => KeyedTable.update existing (keepMeta existing message)
  | none => newMessage now messages messageId message

/-- `upsert_message_to_history`. -/
def upsertMessageToHistory (now : ℕ) (history : History) (messageId : String) (message : Message) : History :=
  let saved := upserted now history.messages messageId message
  let messages := history.messages.set messageId saved
  { messages := addChildIdToParent messages (Message.parent saved) messageId
    currentId := if (history.messages.get messageId).isSome then history.currentId else some messageId }

/-! ## A turn: the message of the user and the replies to come -/

structure User where
  id : String
  name : String

/-- An entry of `message_ids`. -/
structure ReplyEntry where
  messageId : Json
  modelId : Json
  modelIdx : Json

inductive TurnError where
  | notAllowed
  | chatNotFound
  | invalidId
  | notUserMessage
  | parentMissing
  deriving DecidableEq

def TurnError.response : TurnError → ℕ × String
  | .notAllowed => (403, "Chat continuation is not allowed.")
  | .chatNotFound => (404, "Chat not found.")
  | .invalidId => (409, "Message already exists or has an invalid ID.")
  | .notUserMessage => (403, "You can only regenerate replies to user messages.")
  | .parentMissing => (409, "Parent message no longer exists.")

structure Turn where
  allowed : Bool
  now : ℕ
  owner : String
  user : User
  userMessage : Message
  replies : List ReplyEntry

def authorOf (owner : String) (message : Message) : Json := Json.orElse (Message.field "user_id" message) (.str owner)

def preparedReply (turn : Turn) (reply : Message) : Bool :=
  Message.field "role" reply = .str "assistant" &&
    !(Message.field "done" reply).truthy && !(Message.field "content" reply).truthy &&
    !(Message.field "output" reply).truthy && authorOf turn.owner reply = .str turn.user.id &&
    (!Message.truthy turn.userMessage || Message.field "parentId" reply = Message.field "id" turn.userMessage)

def turnIds (turn : Turn) : Option (List String) :=
  let ids := (if Message.truthy turn.userMessage then [Message.field "id" turn.userMessage] else []) ++
    turn.replies.map ReplyEntry.messageId
  match ids.mapM textOf with
  | none => none
  | some texts => if texts.all (· ≠ "") && texts.Nodup then some texts else none

def replyIds (turn : Turn) : List String := turn.replies.filterMap fun entry => textOf entry.messageId

def storedMessage (messages : Messages) (id : String) : Option Message := (messages.get id).filter Message.truthy

def sharedKeys : List String := ["content", "files", "models"]

def restrictTo (keys : List String) (message : Message) : Message :=
  keys.foldl (fun acc key => match KeyedTable.get key message with
    | none => acc
    | some value => KeyedTable.set key value acc) KeyedTable.empty

def turnMessage (turn : Turn) (messageId : String) (stored : Option Message) : Message :=
  match stored with
  | some existing =>
    match KeyedTable.get "models" turn.userMessage with
    | some models =>
      if authorOf turn.owner existing = .str turn.user.id then KeyedTable.set "models" models existing
      else existing
    | none => existing
  | none =>
    (if turn.owner = turn.user.id then turn.userMessage else restrictTo sharedKeys turn.userMessage)
      |> KeyedTable.set "id" (.str messageId)
      |> KeyedTable.set "parentId" (Message.field "parentId" turn.userMessage)
      |> KeyedTable.set "role" (.str "user")
      |> KeyedTable.set "childrenIds" (.arr [])
      |> KeyedTable.set "timestamp" (.num turn.now)
      |> KeyedTable.set "user_id" (.str turn.user.id)
      |> KeyedTable.set "user" (.obj [("id", .str turn.user.id), ("name", .str turn.user.name)])

def replyMessage (turn : Turn) (entry : ReplyEntry) : Message :=
  KeyedTable.empty
    |> KeyedTable.set "id" entry.messageId
    |> KeyedTable.set "parentId" (Message.field "id" turn.userMessage)
    |> KeyedTable.set "childrenIds" (.arr [])
    |> KeyedTable.set "role" (.str "assistant")
    |> KeyedTable.set "content" (.str "")
    |> KeyedTable.set "done" (.bool false)
    |> KeyedTable.set "model" entry.modelId
    |> KeyedTable.set "modelIdx" entry.modelIdx
    |> KeyedTable.set "timestamp" (.num turn.now)
    |> KeyedTable.set "user_id" (.str turn.user.id)

/-- `parent_id is not None and parent_id not in messages`. -/
def parentIsMissing (messages : Messages) (parentId : Json) : Bool :=
  parentId ≠ .null && ((textOf parentId).bind messages.get).isNone

def upsertTurnMessage (turn : Turn) (history : History) : Except TurnError History :=
  match textOf (Message.field "id" turn.userMessage) with
  | none => .error .invalidId
  | some messageId =>
    let existing := storedMessage history.messages messageId
    let parentId := Message.field "parentId" (existing.getD turn.userMessage)
    if (existing.map fun message => decide (Message.field "role" message ≠ .str "user")).getD false then
      .error .notUserMessage
    else if parentIsMissing history.messages parentId then .error .parentMissing
    else
      .ok (upsertMessageToHistory turn.now history messageId
        (cleanMessage (turnMessage turn messageId existing)))

def upsertReply (turn : Turn) (history : History) (entry : ReplyEntry) : History :=
  match textOf entry.messageId with
  | none => history
  | some messageId => upsertMessageToHistory turn.now history messageId (replyMessage turn entry)

/-- `insert_chat_turn`, on the history of the chat where there is one. -/
def insertChatTurn (turn : Turn) (chat : Option History) : Except TurnError History :=
  if !turn.allowed then .error .notAllowed
  else
    match chat with
    | none => .error .chatNotFound
    | some history =>
      if (turnIds turn).isNone then .error .invalidId
      else if (replyIds turn).any (fun id =>
          ((storedMessage history.messages id).map fun reply => !preparedReply turn reply).getD false) then
        .error .invalidId
      else
        match (if Message.truthy turn.userMessage then upsertTurnMessage turn history else .ok history) with
        | .error error => .error error
        | .ok history => .ok (turn.replies.foldl (upsertReply turn) history)

end RyanAI.Chat
