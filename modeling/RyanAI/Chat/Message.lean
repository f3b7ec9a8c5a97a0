import RyanAI.Lib.Json
import RyanAI.Lib.OrderedMap
import RyanAI.Lib.ParentLinks

/-!
# Messages of a chat

A message is a dictionary, and the history of a chat holds its messages under their ids. `parent` and
`children` read the two fields that link the messages, `links` reads them for a whole map. A `parentId`
that is not a text names no message, and the entries of `childrenIds` that are not texts list none.
What the code does with a `childrenIds` that is no list differs from place to place; the results about it ask
for `readable` messages.

`clean` is `sanitize_data_for_db`: null characters are removed from every text, the keys of dictionaries
included, so that two keys can become one.
-/

namespace RyanAI.Chat

open RyanAI.Lib

abbrev Message := KeyedTable String Json

abbrev Messages := KeyedTable String Message

def textOf : Json → Option String
  | .str s => some s
  | _ => none

namespace Message

/-- `message.get(key)`. -/
def field (key : String) (message : Message) : Json := (KeyedTable.get key message).getD .null

/-- `key in message`. -/
def has (key : String) (message : Message) : Bool := (KeyedTable.get key message).isSome

/-- The items of `childrenIds` where it is a list. -/
def childItems (message : Message) : List Json :=
  match field "childrenIds" message with
  | .arr items => items
  | _ => []

/-- The ids in `childrenIds`. -/
def children (message : Message) : List String := (childItems message).filterMap textOf

/-- The id in `parentId`. -/
def parent (message : Message) : Option String := textOf (field "parentId" message)

def setChildren (ids : List Json) (message : Message) : Message := KeyedTable.set "childrenIds" (.arr ids) message

/-- Iterating over `message.get('output') or []` raises a `TypeError`. -/
def outputRaises (message : Message) : Bool :=
  match field "output" message with
  | .num q => q ≠ 0
  | .bool b => b
  | _ => false

/-- `childrenIds` is missing or a list of ids, `parentId` can be looked up and `output` be iterated over. For other
values the code reads the characters of a text or the keys of a dictionary, or raises. -/
def readable (message : Message) : Bool :=
  (match KeyedTable.get "childrenIds" message with
    | none => true
    | some (.arr items) => items.all fun item => (textOf item).isSome
    | some _ => false) &&
  (match field "parentId" message with
    | .arr _ | .obj _ => false
    | _ => true) && !outputRaises message

/-- `if message`: an empty dictionary counts as false. -/
def truthy (message : Message) : Bool := !message.entries.isEmpty

end Message

def readable (messages : Messages) : Bool := messages.entries.all fun entry => Message.readable entry.2

/-! ## Reading and setting fields -/

variable {key id : String} {β : Type}

namespace Message

@[simp]
theorem field_set (key key' : String) (value : Json) (message : Message) :
    field key' (KeyedTable.set key value message) = if key' = key then value else field key' message := by
  simp only [field, KeyedTable.get_set]
  split <;> rfl

theorem field_update (key : String) (message other : Message) : field key (KeyedTable.update message other) =
      if has key other = true then field key other else field key message := by
  simp only [field, has, KeyedTable.get_update]
  by_cases h : (KeyedTable.get key other).isSome = true
  · obtain ⟨value, hvalue⟩ := Option.isSome_iff_exists.1 h
    simp [hvalue]
  · have hnone : KeyedTable.get key other = none := by simpa using h
    simp [hnone]

theorem parent_update (message other : Message) : parent (KeyedTable.update message other) =
      if has "parentId" other = true then parent other else parent message := by
  simp only [parent, field_update]
  split <;> rfl

theorem children_update (message other : Message) : children (KeyedTable.update message other) =
      if has "childrenIds" other = true then children other else children message := by
  by_cases h : has "childrenIds" other = true
  · simp only [children, childItems, field_update, h, if_true]
  · simp only [children, childItems, field_update, if_neg h]

@[simp]
theorem children_set_of_ne (h : key ≠ "childrenIds") (value : Json) (message : Message) :
    children (KeyedTable.set key value message) = children message := by
  simp only [children, childItems, field_set, if_neg (Ne.symm h)]

@[simp]
theorem parent_set_of_ne (h : key ≠ "parentId") (value : Json) (message : Message) :
    parent (KeyedTable.set key value message) = parent message := by
  simp only [parent, field_set, if_neg (Ne.symm h)]

@[simp]
theorem childItems_setChildren (ids : List Json) (message : Message) : childItems (setChildren ids message) = ids := by
  simp [childItems, setChildren]

@[simp]
theorem children_setChildren (ids : List Json) (message : Message) :
    children (setChildren ids message) = ids.filterMap textOf := by
  rw [children, childItems_setChildren]

@[simp]
theorem parent_setChildren (ids : List Json) (message : Message) : parent (setChildren ids message) = parent message :=
  parent_set_of_ne (by decide) _ _

@[simp]
theorem setChildren_setChildren (ids ids' : List Json) (message : Message) :
    setChildren ids' (setChildren ids message) = setChildren ids' message :=
  KeyedTable.set_set _ _ _ _

theorem mem_children : id ∈ children message ↔ Json.str id ∈ childItems message := by
  simp only [children, List.mem_filterMap]
  constructor
  · rintro ⟨item, hitem, htext⟩
    cases item with
    | str s =>
      cases htext
      exact hitem
    | null | bool | num | arr | obj => cases htext
  · intro hitem
    exact ⟨.str id, hitem, rfl⟩

end Message

theorem filterMap_textOf_str (ids : List String) : (ids.map Json.str).filterMap textOf = ids := by
  rw [List.filterMap_map]
  exact List.filterMap_some

def links (messages : Messages) : Links String := fun id =>
  (messages.get id).map fun message => (Message.parent message, Message.children message)

theorem links_eq_some : links messages id = some k ↔
      ∃ message, messages.get id = some message ∧ (Message.parent message, Message.children message) = k :=
  Option.map_eq_some_iff

theorem links_of_get (h : messages.get id = some message) :
    links messages id = some (Message.parent message, Message.children message) := by
  simp [links, h]

@[simp]
theorem isSome_links (messages : Messages) (id : String) : (links messages id).isSome = (messages.get id).isSome := by
  simp [links]

theorem links_set (messages : Messages) (id : String) (message : Message) : links (messages.set id message) =
      Links.put id (Message.parent message, Message.children message) (links messages) := by
  funext q
  simp only [links, KeyedTable.get_set, Links.put, Function.update_apply]
  split <;> rfl

/-! ## Cleaning for the database -/

/-- `sanitize_text_for_db`, on texts without surrogates. -/
def cleanText (s : String) : String := String.ofList (s.toList.filter (· ≠ '\x00'))

mutual

/-- `sanitize_data_for_db`. -/
def clean : Json → Json
  | .str s => .str (cleanText s)
  | .arr items => .arr (cleanList items)
  | .obj fields => .obj (cleanFields [] fields)
  | .null => .null
  | .bool b => .bool b
  | .num q => .num q

def cleanList : List Json → List Json
  | [] => []
  | item :: rest => clean item :: cleanList rest

def cleanFields (acc : Dict) : List (String × Json) → Dict
  | [] => acc
  | (key, value) :: rest => cleanFields (Dict.set acc (cleanText key) (clean value)) rest

end

def cleanTable {β : Type} (cleanValue : β → β) (table : KeyedTable String β) : KeyedTable String β :=
  table.entries.foldl (fun acc entry => acc.set (cleanText entry.1) (cleanValue entry.2)) KeyedTable.empty

def cleanMessage (message : Message) : Message := cleanTable clean message

end RyanAI.Chat
