import RyanAI.Lib.Json

/-!
# The reducer of a response stream

`handle_responses_streaming_event` of `utils/response.py` folds the events of a Responses stream into a list of output
items, returned with the metadata it emits; `none` is `None`. Events and items are JSON of any shape, and every
exception that a wrong shape raises is a result of its own. Numbers are their exact values, so an integer and a float
that are equal are one number. `repr` is the text that `str` makes of a value that is no text.
-/

namespace RyanAI.Chat.ResponseStream

open Lib

inductive Failure where
  | typeError
  | attributeError
  | indexError
  deriving DecidableEq

/-! ## Values -/

/-- What `get` needs: a dictionary. -/
def asDict : Json → Except Failure Dict
  | .obj fields => .ok fields
  | _ => .error .attributeError

/-- `value.copy()`; a list has a copy too, whose `use` as a dictionary raises. -/
def copyOf (use : Failure) : Json → Except Failure Dict
  | .obj fields => .ok fields
  | .arr _ => .error use
  | _ => .error .attributeError

/-- `value.get(key)`. -/
def getField (key : String) (value : Json) : Except Failure Json := do
  let fields ← asDict value
  return Dict.get fields key

/-- `list(value)`. -/
def listOf : Json → Except Failure (List Json)
  | .arr items => .ok items
  | .obj fields => .ok (fields.map fun field => .str field.1)
  | .str s => .ok (s.toList.map fun c => .str (String.singleton c))
  | _ => .error .typeError

/-- `data.get(field, default)`, where the value is compared with a length. -/
def indexOr (data : Dict) (field : String) (default : ℚ) : Except Failure ℚ :=
  match data.lookup field with
  | none => .ok default
  | some value =>
    match value.number with
    | some q => .ok q
    | none => .error .typeError

def position (index : ℚ) (length : ℕ) : Except Failure ℕ :=
  if index.den ≠ 1 then .error .typeError
  else if 0 ≤ index ∧ index < length then .ok index.num.toNat
  else if index < 0 ∧ 0 ≤ index + length then .ok (index + length).num.toNat
  else .error .indexError

/-- `while len(items) <= index: items.append(filler)`. -/
def padded (items : List Json) (index : ℚ) (filler : Json) : List Json :=
  items ++ List.replicate (⌊index⌋ + 1 - items.length).toNat filler

/-- `items[index] = items[index].copy()` and a change of the copy. -/
def modifyAt (use : Failure) (items : List Json) (index : ℚ) (change : Dict → Except Failure Dict) :
    Except Failure (List Json) := do
  let i ← position index items.length
  let fields ← copyOf use (items.getD i .null)
  let fields ← change fields
  return items.set i (.obj fields)

mutual

def deepMerge : (target source : Json) → Json
  | .obj target, .obj source => .obj (mergeFields target source)
  | .str target, .str source => .str (target ++ source)
  | _, source => source

def mergeFields (target : Dict) : (source : Dict) → Dict
  | [] => target
  | (k, v) :: rest =>
    mergeFields
      (Dict.set target k
        (match target.lookup k with
          | some old => deepMerge old v
          | none => v))
      rest

end

/-- `str(value)`. -/
def strOf (repr : Json → String) : Json → String
  | .str s => s
  | value => repr value

/-- `data.get('type', '')`; what is not a text has no `startswith`. -/
def typeOf (data : Dict) : Except Failure String :=
  match data.lookup "type" with
  | none => .ok ""
  | some (.str eventType) => .ok eventType
  | some _ => .error .attributeError

def startsWith (s t : String) : Bool := t.toList.isPrefixOf s.toList

def endsWith (s t : String) : Bool := t.toList.isSuffixOf s.toList

/-- `event_type.split('.')`. -/
def components (eventType : String) : List String := (eventType.toList.splitOn '.').map String.ofList

/-- `event_type.startswith('response.') and event_type.endswith(suffix)`. -/
def isResponse (eventType suffix : String) : Bool := startsWith eventType "response." && endsWith eventType suffix

structure DeltaKey where
  eventType : String
  itemId : Json
  outputIndex : Json
  contentIndex : Json
  summaryIndex : Json
  deriving DecidableEq

/-- `==` on two keys. -/
def DeltaKey.eqv (a b : DeltaKey) : Bool :=
  a.eventType == b.eventType && a.itemId.eqv b.itemId && a.outputIndex.eqv b.outputIndex &&
    a.contentIndex.eqv b.contentIndex && a.summaryIndex.eqv b.summaryIndex

/-- `get_response_delta_key`. -/
def getResponseDeltaKey (data : Dict) : Except Failure (Option DeltaKey) := do
  let eventType ← typeOf data
  if isResponse eventType ".delta" then
    return some
      { eventType
        itemId := Dict.get data "item_id"
        outputIndex := Dict.get data "output_index"
        contentIndex := Dict.get data "content_index"
        summaryIndex := Dict.get data "summary_index" }
  else return none

/-! ## Items -/

abbrev Reduced := Except Failure (List Json × Option Dict)

/-- `existing.get(key) == item.get(key)`. -/
def sameField (key : String) (item existing : Json) : Except Failure Bool := do
  let value ← getField key existing
  let value' ← getField key item
  return value.eqv value'

def sameItem (item existing : Json) : Except Failure Bool := do
  let id ← getField "id" item
  let sameId ← (if id.truthy then sameField "id" item existing else .ok false : Except Failure Bool)
  if sameId then return true
  let callId ← getField "call_id" item
  if !callId.truthy then return false
  let sameType ← sameField "type" item existing
  if !sameType then return false
  sameField "call_id" item existing

/-- The first item that `output_item.added` finds. -/
def existingIndex (item : Json) : List Json → Except Failure (Option ℕ)
  | [] => .ok none
  | existing :: rest => do
    if ← sameItem item existing then return some 0
    return (← existingIndex item rest).map (· + 1)

def outputItemAdded (data : Dict) (output : List Json) : Reduced := do
  let item := (data.lookup "item").getD (.obj [])
  if item.truthy then
    match ← existingIndex item output with
    | some i => return (output.set i item, none)
    | none =>
      let index ← indexOr data "output_index" output.length
      if 0 ≤ index ∧ index < output.length then
        -- `insert` takes an integer, which `position` checks
        return (output.insertIdx (← position index output.length) item, none)
      else return (output ++ [item], none)
  else return (output, none)

/-- `output_index`, when it is an index of the output; by default the last one. -/
def itemIndex (data : Dict) (output : List Json) : Except Failure (Option ℚ) :=
  if output = [] then .ok none
  else do
    let index ← indexOr data "output_index" (output.length - 1)
    return if 0 ≤ index ∧ index < output.length then some index else none

/-- `list(item[field])`, or an empty list where the item has no such field. -/
def partsOf (field : String) (item : Dict) : Except Failure (List Json) :=
  match item.lookup field with
  | none => .ok []
  | some parts => listOf parts

/-- Appended to the list in `field`, but not to the content of reasoning. -/
def addPart (field : String) (part : Json) (item : Dict) : Except Failure Dict := do
  let parts ← partsOf field item
  if field = "content" ∧ Dict.get item "type" = .str "reasoning" then return Dict.set item field (.arr parts)
  else return Dict.set item field (.arr (parts ++ [part]))

/-- `content_part.added` and `reasoning_summary_part.added`. -/
def partAdded (field : String) (data : Dict) (output : List Json) : Reduced := do
  let part := (data.lookup "part").getD (.obj [])
  match ← itemIndex data output with
  | none => return (output, none)
  | some index =>
    let output ← modifyAt .typeError output index (addPart field part)
    return (output, none)

/-! ## Deltas -/

def startedItem : Json :=
  .obj [("type", .str "message"), ("status", .str "in_progress"), ("role", .str "assistant"), ("content", .arr [])]

def startedType (deltaType : String) : String :=
  if startsWith deltaType "reasoning" then "reasoning"
  else if deltaType = "function_call_arguments" then "function_call"
  else "message"

def startItem (deltaType : String) (data : Dict) (index : ℚ) (output : List Json) : Except Failure (List Json) :=
  if index < output.length then .ok output
  else
    modifyAt .attributeError (padded output index startedItem) index fun item =>
      .ok (Dict.update item [("id", Dict.get data "item_id"), ("type", .str (startedType deltaType))])

/-- `deep_merge(current_val, delta)`, from empty where the value is missing or null. -/
def mergeValue (key : String) (delta : Json) (target : Dict) : Dict :=
  let current := Dict.get target key
  let current :=
    if current = .null then
      match delta with
      | .obj _ => .obj []
      | _ => .str ""
    else current
  Dict.set target key (deepMerge current delta)

def mergeText (delta : Json) (part : Dict) : Dict :=
  Dict.set part "text" (deepMerge ((part.lookup "text").getD (.str "")) delta)

/-- Merges a delta into the part at an index of the list in `field`. -/
def mergePart (field : String) (partType : String) (index : Except Failure ℚ) (merge : Dict → Dict) (item : Dict) :
    Except Failure Dict := do
  let parts ← partsOf field item
  let index ← index
  let filler : Json := .obj [("type", .str partType), ("text", .str "")]
  let parts ← modifyAt .attributeError (padded parts index filler) index fun part => .ok (merge part)
  return Dict.set item field (.arr parts)

/-- `item['arguments'] = item.get('arguments', '') + str(delta)`. -/
def appendArguments (repr : Json → String) (delta : Json) (item : Dict) : Except Failure Dict :=
  match (item.lookup "arguments").getD (.str "") with
  | .str arguments => .ok (Dict.set item "arguments" (.str (arguments ++ strOf repr delta)))
  | _ => .error .typeError

def deltaField (deltaType : String) : String :=
  if deltaType = "text" ∨ deltaType = "output_text" then "text" else deltaType

def deltaItem (repr : Json → String) (deltaType : String) (contentIndex summaryIndex : Except Failure ℚ)
    (delta : Json) (item : Dict) : Except Failure Dict :=
  let itemType := (item.lookup "type").getD (.str "")
  if deltaType = "function_call_arguments" then
    if itemType = .str "function_call" then appendArguments repr delta item else .ok item
  else if itemType = .str "message" then
    -- reasoning belongs to an item of its own
    if deltaType = "reasoning_text" ∨ deltaType = "reasoning_summary_text" then .ok item
    else mergePart "content" "text" contentIndex (mergeValue (deltaField deltaType) delta) item
  else if itemType = .str "reasoning" then
    if deltaType = "reasoning_summary_text" then
      mergePart "summary" "summary_text" summaryIndex (mergeText delta) item
    else if deltaType = "reasoning_text" then mergePart "content" "text" contentIndex (mergeText delta) item
    else .ok item
  else .ok (mergeValue (deltaField deltaType) delta item)

def deltaOf (data : Dict) : Json := (data.lookup "delta").getD (.str "")

def deltaOutput (repr : Json → String) (deltaType : String) (data : Dict) (output : List Json) :
    Except Failure (List Json) := do
  let index ← indexOr data "output_index" ((output.length - 1 : ℕ) : ℚ)
  let output ← startItem deltaType data index output
  if 0 ≤ index ∧ index < output.length then
    modifyAt .attributeError output index
      (deltaItem repr deltaType (indexOr data "content_index" 0) (indexOr data "summary_index" 0) (deltaOf data))
  else return output

/-! ## Items and fields that are done -/

def outputItemDone (data : Dict) (output : List Json) : Reduced := do
  let item := Dict.get data "item"
  if item.truthy then
    let index ← indexOr data "output_index" (output.length - 1)
    if 0 ≤ index ∧ index < output.length then return (output.set (← position index output.length) item, some [])
    else return (output ++ [item], some [])
  else return (output, some [])

def partDone (field indexField : String) (data : Dict) (output : List Json) : Reduced := do
  let part := Dict.get data "part"
  if part.truthy then
    match ← itemIndex data output with
    | none => return (output, none)
    | some index =>
      let i ← position index output.length
      match output.getD i .null with
      | .obj item =>
        match item.lookup field with
        | none => return (output, none)
        | some parts =>
          let parts ← listOf parts
          let partIndex ← indexOr data indexField (parts.length - 1)
          if 0 ≤ partIndex ∧ partIndex < parts.length then
            let k ← position partIndex parts.length
            return (output.set i (.obj (Dict.set item field (.arr (parts.set k part)))), some [])
          else return (output, none)
      -- `field in item` asks a list for the element, and only then is the list subscripted
      | .arr items => if .str field ∈ items then .error .typeError else return (output, none)
      | _ => .error .attributeError
  else return (output, none)

def doneField (typeName : String) : String :=
  if typeName = "function_call_arguments" then "arguments"
  else if typeName ∈ ["text", "output_text", "reasoning_text", "reasoning_summary_text"] then "text"
  else typeName

def doneItem (typeName : String) (contentIndex : Except Failure ℚ) (value : Json) (item : Dict) :
    Except Failure Dict := do
  let itemType := (item.lookup "type").getD (.str "")
  if typeName = "function_call_arguments" then
    return if itemType = .str "function_call" then Dict.set item "arguments" value else item
  else if itemType = .str "message" then
    match item.lookup "content" with
    | none => return item
    | some content =>
      let parts ← listOf content
      let index ← contentIndex
      if index < parts.length then
        let parts ← modifyAt .typeError parts index fun part => .ok (Dict.set part (doneField typeName) value)
        return Dict.set item "content" (.arr parts)
      else return Dict.set item "content" (.arr parts)
  else if itemType = .str "reasoning" then return Dict.set item "status" (.str "completed")
  else return Dict.set item (doneField typeName) value

/-- `text.done`, `function_call_arguments.done` and the like. -/
def fieldDone (typeName : String) (data : Dict) (output : List Json) : Reduced := do
  if typeName = "completed" ∨ typeName = "failed" then return (output, none)
  match ← itemIndex data output with
  | none => return (output, none)
  | some index =>
    match data.lookup (doneField typeName) with
    | none => return (output, none)
    | some value =>
      let output ← modifyAt .attributeError output index (doneItem typeName (indexOr data "content_index" 0) value)
      return (output, some [])

/-- The events of the form `response.….done`, by their second component. -/
def done (typeName : String) (data : Dict) (output : List Json) : Reduced :=
  if typeName = "content_part" then partDone "content" "content_index" data output
  else if typeName = "reasoning_summary_part" then partDone "summary" "summary_index" data output
  else fieldDone typeName data output

def completeItem (item : Json) : Except Failure Json := do
  let fields ← asDict item
  if Dict.get fields "type" = .str "reasoning" then return .obj (Dict.set fields "status" (.str "completed"))
  else return item

def completed (data : Dict) (output : List Json) : Reduced := do
  let response ← asDict ((data.lookup "response").getD (.obj []))
  let final := Dict.get response "output"
  let output ← if final.truthy then listOf final else pure output
  let output ← output.mapM completeItem
  return (output,
    some [("usage", Dict.get response "usage"), ("done", .bool true), ("response_id", Dict.get response "id")])

/-- `data.get('response', {}).get('error', {})`. -/
def failed (data : Dict) (output : List Json) : Reduced := do
  let response ← asDict ((data.lookup "response").getD (.obj []))
  return (output, some [("error", (response.lookup "error").getD (.obj []))])

/-- `handle_responses_streaming_event`. -/
def handle (repr : Json → String) (data : Dict) (output : List Json) : Reduced := do
  let eventType ← typeOf data
  if eventType = "response.output_item.added" then outputItemAdded data output
  else if eventType = "response.content_part.added" then partAdded "content" data output
  else if eventType = "response.reasoning_summary_part.added" then partAdded "summary" data output
  else if isResponse eventType ".delta" then
    match components eventType with
    | _ :: deltaType :: _ :: _ => return (← deltaOutput repr deltaType data output, none)
    | _ => return (output, none)
  else if eventType = "response.output_item.done" then outputItemDone data output
  else if isResponse eventType ".done" then
    match components eventType with
    | _ :: typeName :: _ :: _ => done typeName data output
    | _ => return (output, none)
  else if eventType = "response.completed" then completed data output
  else if eventType = "response.failed" then failed data output
  else if eventType = "error" then return (output, some [("error", .obj data)])
  else return (output, none)

def reduce (repr : Json → String) (output : List Json) (data : Dict) : Except Failure (List Json) := do
  let (output, _) ← handle repr data output
  return output

def reduceAll (repr : Json → String) (output : List Json) (events : List Dict) : Except Failure (List Json) :=
  events.foldlM (reduce repr) output

end RyanAI.Chat.ResponseStream
