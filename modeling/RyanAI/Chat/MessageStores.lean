import RyanAI.Chat.ChatUpdate

/-!
# The two stores of the messages

The messages of a chat are stored in its history and, each in a row of its own, in the table of messages (`Stores`). The
operations write the history and then the rows of some messages (`writeRows`); a row that exists is patched with the
keys that its message carries (`applyMessageData`). An operation that raises is rolled back and has no result. What the
validation of a row accepts (`valid`) and the text of an output (`outputText`) are parameters.
-/

namespace RyanAI.Chat

open RyanAI.Lib

/-! ## Rows -/

inductive Column where
  | role
  | parentId
  | content
  | modelId
  | files
  | sources
  | embeds
  | metaData
  | done
  | statusHistory
  | error
  | contextSummary
  deriving DecidableEq

namespace Column

def key : Column → String
  | role => "role"
  | parentId => "parentId"
  | content => "content"
  | modelId => "model"
  | files => "files"
  | sources => "sources"
  | embeds => "embeds"
  | metaData => "meta"
  | done => "done"
  | statusHistory => "statusHistory"
  | error => "error"
  | contextSummary => "contextSummary"

def otherKey : Column → Option String
  | parentId => some "parent_id"
  | modelId => some "model_id"
  | statusHistory => some "status_history"
  | contextSummary => some "context_summary"
  | _ => none

def default : Column → Json
  | role => .str "user"
  | done => .bool true
  | _ => .null

def carried (column : Column) (data : Message) : Bool :=
  Message.has column.key data || column.otherKey.any fun key => Message.has key data

/-- `data.get(other_key) or data.get(key)`. -/
def read (column : Column) (data : Message) : Json :=
  match column.otherKey with
  | none => Message.field column.key data
  | some key => Json.orElse (Message.field key data) (Message.field column.key data)

end Column

abbrev Row := Column → Json

abbrev Rows := KeyedTable String Row

/-- `_apply_message_data`. -/
def applyMessageData (row : Row) (data : Message) : Row := fun column =>
  if column.carried data then column.read data else row column

/-- `_build_message`. -/
def buildMessage (data : Message) : Row := fun column =>
  if column.carried data then column.read data else column.default

structure Stores where
  history : History
  rows : Rows

/-- `message.get('role')`. -/
def hasRole (message : Message) : Bool := (Message.field "role" message).truthy

section Operations

variable (valid : Row → Bool) (outputText : Json → String) (owner : String)

/-- `upsert_message`. -/
def upsertRow (rows : Rows) (id : String) (data : Message) : Option Rows :=
  let row := match rows.get id with
    | some row => applyMessageData row data
    | none => buildMessage data
  if valid row then some (rows.set id row) else none

def writeRows (messages : Messages) (rows : Rows) (ids : List String) : Option Rows :=
  ids.foldlM (fun rows id => match messages.get id with
    | none => some rows
    | some message => upsertRow valid rows id message) rows

/-- `_last_descendant_id`: the last child that is one, and so on. -/
def lastDescendantId (messages : Messages) : ℕ → List String → String → String
  | 0, _, id => id
  | fuel + 1, seen, id =>
    match messages.get id with
    | none => id
    | some message =>
      if id ∈ seen then id
      else
        let isChild := fun childId => childId ∉ id :: seen &&
          ((messages.get childId).any fun child =>
            Message.field "id" child = .str childId && hasRole child && Message.field "parentId" child = .str id)
        match ((Message.children message).reverse.find? isChild).filter (· ≠ "") with
        | none => id
        | some next => lastDescendantId messages fuel (id :: seen) next

def latestLeaf (messages : Messages) : Option (Option (String × ℚ)) :=
  messages.entries.foldlM (fun best entry =>
    if !hasRole entry.2 || !(Message.childItems entry.2).isEmpty then some best
    else
      (Json.orElse (Message.field "timestamp" entry.2) (.num 0)).number.map fun timestamp =>
        if (best.map Prod.snd).getD (-1) < timestamp then some (entry.1, timestamp) else best) none

def listAtParents (messages : Messages) : Messages :=
  messages.entries.foldl (fun acc entry => addChildIdToParent acc (Message.parent entry.2) entry.1) messages

def isBadLeaf (messages : Messages) (current : Message) : Bool :=
  outputRole current = .str "assistant" && Message.field "parentId" current = .null &&
    !(Message.field "timestamp" current).truthy && decide (1 < messages.keys.length)

/-- `_repair_chat_current_id`. -/
def repairChatCurrentId (history : History) : Option History :=
  let messages := listAtParents history.messages
  let current := history.currentId.bind fun id => (messages.get id).map fun message => (id, message)
  if current.any fun entry => Message.outputRaises entry.2 then none
  else
    match current.filter fun entry => (Message.field "id" entry.2).truthy && hasRole entry.2 &&
        !isBadLeaf messages entry.2 with
    | some (id, _) =>
      some ⟨messages, some (lastDescendantId messages (messages.keys.length + 1) [] id)⟩
    | none =>
      (latestLeaf messages).map fun leaf =>
        match (leaf.map Prod.fst).filter (· ≠ "") with
        | none => ⟨messages, history.currentId⟩
        | some id => ⟨messages, some id⟩

/-! ## Writing messages -/

end Operations

end RyanAI.Chat
