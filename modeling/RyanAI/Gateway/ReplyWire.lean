import RyanAI.Gateway.Event
import RyanAI.Lib.JsonText
import RyanAI.Lib.NumericText

/-!
# The reply on the wire

`_wire_reply` and `_wire_response` of `routers/bot_gateway.py` build the response to an event, and `RyanAiClient.send`
of `ryanai-client.ts` reads it. Both cut off at 100,000 characters. The reader also takes at most 20 messages and 1 MiB,
and `status: ok` only with a reply, which the writer leaves out if all parts are blank. `reply_wire_agreement_iff` says
which replies are refused.
-/

namespace RyanAI.Gateway.ReplyWire

open Lib.JsonText Lib.NumericText

/-! ## The writer -/

/-- `BOT_GATEWAY_MAX_REPLY_CHARS`. -/
def maxReplyChars : ℕ := 100000

inductive Reply where
  | text (s : String)
  | parts (items : List String)

/-- The loop of `_wire_reply`. -/
def keepMessages : ℕ → List String → List (List Char)
  | _, [] => []
  | remaining, item :: rest =>
    let message := strip stripSpace item.toList
    if message = [] ∨ remaining = 0 then keepMessages remaining rest
    else message.take remaining :: keepMessages (remaining - (message.take remaining).length) rest

structure WireReply where
  text : String
  messages : Option (List String)

/-- `_wire_reply`. -/
def wireReply : Reply → Option WireReply
  | .text s => some ⟨String.ofList (s.toList.take maxReplyChars), none⟩
  | .parts items =>
    let messages := keepMessages maxReplyChars items
    if messages = [] then none
    else some ⟨String.ofList ((['\n', '\n'].intercalate messages).take maxReplyChars),
      some (messages.map String.ofList)⟩

def WireReply.json (reply : WireReply) : Value :=
  .obj (("text", .str reply.text) ::
    match reply.messages with
    | none => []
    | some messages => [("messages", .arr (messages.map .str))])

/-- `reply` of `_wire_response`. -/
def responseReply (text : Option Reply) (ignored : Bool) : Option WireReply :=
  if ignored then none else text.bind wireReply

/-- `_wire_response`. -/
def wireResponse (eventId : String) (text : Option Reply) (ignored : Bool) : Value :=
  .obj [("version", .str "1.0"), ("event_id", .str eventId),
    ("status", .str (if ignored then "ignored" else "ok")),
    ("reply", ((responseReply text ignored).map WireReply.json).getD .null)]

mutual

def body : Value → List Char
  | .null => ['n', 'u', 'l', 'l']
  | .bool true => ['t', 'r', 'u', 'e']
  | .bool false => ['f', 'a', 'l', 's', 'e']
  | .num n => Nat.toDigits 10 n
  | .str s => quote s
  | .arr items => '[' :: ([','].intercalate (bodies items) ++ [']'])
  | .obj fields => '{' :: ([','].intercalate (fieldBodies fields) ++ ['}'])

def bodies : List Value → List (List Char)
  | [] => []
  | v :: rest => body v :: bodies rest

def fieldBodies : List (String × Value) → List (List Char)
  | [] => []
  | (k, v) :: rest => (quote k ++ ':' :: body v) :: fieldBodies rest

end

def byteSize (cs : List Char) : ℕ := (cs.map Char.utf8Size).sum

/-! ## The reader -/

/-- `value.key` of an object. -/
def field (key : String) : Value → Option Value
  | .obj fields => fields.lookup key
  | _ => none

/-- `value === s`. -/
def isText (s : String) : Option Value → Bool
  | some (.str t) => t = s
  | _ => false

/-- The default of `maxResponseTextChars`. -/
def maxResponseTextChars : ℕ := 100000

def maxBodyBytes : ℕ := 1048576

def maxMessages : ℕ := 20

def messageStrings : List Value → Option (List String)
  | [] => some []
  | .str s :: rest => if s = "" then none else (messageStrings rest).map (s :: ·)
  | _ :: _ => none

/-- The checks on `reply.messages`. -/
def readMessages (text : String) : Option Value → Except String RyanAiResult
  | none => .ok ⟨some text, none⟩
  | some (.arr items) =>
    match messageStrings items with
    | none => .error "invalid_reply_messages"
    | some messages =>
      if messages = [] ∨ maxMessages < messages.length then .error "invalid_reply_messages"
      else if maxResponseTextChars < (messages.map String.length).sum then .error "reply_too_large"
      else .ok ⟨some text, some messages⟩
  | some _ => .error "invalid_reply_messages"

/-- The checks on `reply`. -/
def readReply (reply : Option Value) : Except String RyanAiResult :=
  match reply.bind (field "text") with
  | some (.str text) =>
    if maxResponseTextChars < text.length then .error "reply_too_large"
    else readMessages text (reply.bind (field "messages"))
  | _ => .error "missing_reply"

/-- `RyanAiClient.send` from a response with status 200 on. -/
def send (eventId : String) (parsed : Value) : Except String RyanAiResult :=
  if maxBodyBytes < byteSize (body parsed) then .error "response_too_large"
  else if !isText "1.0" (field "version" parsed) || !isText eventId (field "event_id" parsed) ||
      (!isText "ok" (field "status" parsed) && !isText "ignored" (field "status" parsed)) then
    .error "invalid_response"
  else if isText "ignored" (field "status" parsed) then .ok ⟨none, none⟩
  else readReply (field "reply" parsed)

def Agrees (eventId : String) (text : Option Reply) (ignored : Bool) : Prop :=
  send eventId (wireResponse eventId text ignored) =
    .ok ⟨(responseReply text ignored).map WireReply.text, (responseReply text ignored).bind WireReply.messages⟩

/-! ## What the writer keeps -/

def visible (items : List String) : List (List Char) :=
  (items.map fun item => strip stripSpace item.toList).filter (· ≠ [])

/-- How many of the parts begin within the first `budget` characters. -/
def startingWithin (budget : ℕ) (parts : List (List Char)) : ℕ :=
  ((List.range parts.length).filter fun i => (parts.take i).flatten.length < budget).length

def truncate : ℕ → List (List Char) → List (List Char)
  | _, [] => []
  | budget, part :: rest =>
    if budget = 0 then [] else part.take budget :: truncate (budget - part.length) rest

theorem truncate_zero (parts : List (List Char)) : truncate 0 parts = [] := by
  cases parts with
  | nil => rfl
  | cons part rest => rfl

theorem keepMessages_zero (items : List String) : keepMessages 0 items = [] := by
  induction items with
  | nil => rfl
  | cons item rest ih => simp [keepMessages, ih]

theorem keepMessages_eq (budget : ℕ) (items : List String) :
    keepMessages budget items = truncate budget (visible items) := by
  induction items generalizing budget with
  | nil => rfl
  | cons item rest ih =>
    by_cases hbudget : budget = 0
    · rw [hbudget, keepMessages_zero, truncate_zero]
    by_cases hblank : strip stripSpace item.toList = []
    · have hvisible : visible (item :: rest) = visible rest := by simp [visible, hblank]
      rw [keepMessages, hvisible, if_pos (.inl hblank), ih]
    have hvisible : visible (item :: rest) = strip stripSpace item.toList :: visible rest := by
      simp [visible, hblank]
    have hrest : budget - ((strip stripSpace item.toList).take budget).length =
        budget - (strip stripSpace item.toList).length := by
      rw [List.length_take]
      omega
    rw [keepMessages, hvisible, if_neg (by simp [hblank, hbudget]), truncate, if_neg hbudget, hrest, ih]

theorem flatten_truncate (budget : ℕ) (parts : List (List Char)) :
    (truncate budget parts).flatten = parts.flatten.take budget := by
  induction parts generalizing budget with
  | nil => simp [truncate]
  | cons part rest ih =>
    rw [truncate]
    split
    · rename_i hzero
      simp [hzero]
    · rw [List.flatten_cons, List.flatten_cons, ih, List.take_append]

theorem intercalate_truncate (sep : List Char) (budget : ℕ) (parts : List (List Char)) :
    (sep.intercalate (truncate budget parts)).take budget = (sep.intercalate parts).take budget := by
  induction parts generalizing budget with
  | nil => rfl
  | cons part rest ih =>
    rw [truncate]
    split
    · rename_i hzero
      simp [hzero]
    cases rest with
    | nil => simp [truncate]
    | cons next rest =>
      rw [List.intercalate_cons_cons]
      by_cases hfull : budget ≤ part.length
      · -- the first part takes all there is
        have hnone : budget - part.length = 0 := by omega
        rw [hnone, truncate_zero, List.intercalate_singleton, List.take_take, Nat.min_self,
          List.append_assoc, List.take_append_of_le_length hfull]
      have htake : part.take budget = part := List.take_of_length_le (by omega)
      have hcons : ∃ m ms, truncate (budget - part.length) (next :: rest) = m :: ms := by
        rw [truncate, if_neg (by omega)]
        exact ⟨_, _, rfl⟩
      obtain ⟨m, ms, hms⟩ := hcons
      have ih' := ih (budget - part.length)
      rw [htake, hms, List.intercalate_cons_cons, List.append_assoc, List.append_assoc,
        List.take_append, List.take_append]
      -- past the separator both go on alike
      rw [hms] at ih'
      rw [List.take_append, List.take_append]
      congr 1
      have hshort := congrArg (List.take (budget - part.length - sep.length)) ih'
      rw [List.take_take, List.take_take, Nat.min_eq_left (Nat.sub_le _ _)] at hshort
      rw [hshort]

theorem length_truncate (budget : ℕ) (parts : List (List Char)) :
    (truncate budget parts).length = startingWithin budget parts := by
  induction parts generalizing budget with
  | nil => rfl
  | cons part rest ih =>
    rw [startingWithin, List.length_cons, List.range_succ_eq_map, truncate]
    by_cases hzero : budget = 0
    · simp [hzero]
    have hshift : ((List.range rest.length).map Nat.succ).filter
        (fun i => ((part :: rest).take i).flatten.length < budget) =
        ((List.range rest.length).filter fun i => (rest.take i).flatten.length < budget - part.length).map
          Nat.succ := by
      rw [List.filter_map]
      congr 1
      apply List.filter_congr
      intro i _
      have hiff : part.length + (rest.take i).flatten.length < budget ↔
          (rest.take i).flatten.length < budget - part.length := by omega
      simp only [Function.comp_apply, Nat.succ_eq_add_one, List.take_succ_cons, List.flatten_cons,
        List.length_append, hiff]
    have hfirst : ((part :: rest).take 0).flatten.length < budget := Nat.pos_of_ne_zero hzero
    rw [if_neg hzero, List.filter_cons, if_pos (decide_eq_true hfirst), hshift, List.length_cons,
      List.length_cons, List.length_map, ih, startingWithin]

/-! ## The size of the body -/

def charBytes (c : Char) : ℕ := byteSize (escape c)

def textBytes (cs : List Char) : ℕ := (cs.map charBytes).sum

@[simp]
theorem byteSize_nil : byteSize [] = 0 := rfl

@[simp]
theorem byteSize_cons (c : Char) (cs : List Char) : byteSize (c :: cs) = c.utf8Size + byteSize cs := rfl

@[simp]
theorem byteSize_append (xs ys : List Char) : byteSize (xs ++ ys) = byteSize xs + byteSize ys := by
  simp [byteSize]

@[simp]
theorem textBytes_append (xs ys : List Char) : textBytes (xs ++ ys) = textBytes xs + textBytes ys := by
  simp [textBytes]

theorem byteSize_escapeAll (cs : List Char) : byteSize (escapeAll cs) = textBytes cs := by
  induction cs with
  | nil => rfl
  | cons c cs ih => rw [escapeAll, byteSize_append, ih, textBytes, textBytes, List.map_cons, List.sum_cons, charBytes]

theorem byteSize_quote (s : String) : byteSize (quote s) = textBytes s.toList + 2 := by
  rw [quote, byteSize_cons, byteSize_append, byteSize_escapeAll]
  have hquote : Char.utf8Size '"' = 1 := by decide
  simp only [byteSize_cons, byteSize_nil, hquote]
  omega

theorem charBytes_le (c : Char) : charBytes c ≤ 6 := by
  have hshort : ∀ e ∈ shortEscapes, byteSize ['\\', e.2] ≤ 6 := by decide
  rw [charBytes, escape]
  split
  · rename_i d hd
    exact hshort _ (mem_of_shortEscape hd)
  · split
    · rename_i hcontrol
      have hall : ∀ n, n < 32 → byteSize
          ['\\', 'u', '0', '0', Lib.JsonText.hexDigit (n / 16), Lib.JsonText.hexDigit (n % 16)] ≤ 6 := by
        decide
      exact hall c.toNat hcontrol
    · have hsize := Char.utf8Size_le_four c
      simp only [byteSize_cons, byteSize_nil]
      omega

theorem textBytes_le (cs : List Char) : textBytes cs ≤ 6 * cs.length := by
  induction cs with
  | nil => simp [textBytes]
  | cons c cs ih =>
    have hc := charBytes_le c
    rw [textBytes, List.map_cons, List.sum_cons, List.length_cons]
    rw [textBytes] at ih
    omega

theorem byteSize_intercalate (parts : List (List Char)) (h : parts ≠ []) :
    byteSize ([','].intercalate parts) + 1 = (parts.map byteSize).sum + parts.length := by
  have hcomma : Char.utf8Size ',' = 1 := by decide
  induction parts with
  | nil => exact absurd rfl h
  | cons part rest ih =>
    cases rest with
    | nil => simp
    | cons next rest =>
      have ih' := ih (List.cons_ne_nil _ _)
      rw [List.intercalate_cons_cons, byteSize_append, byteSize_append, byteSize_cons, byteSize_nil, hcomma,
        List.map_cons, List.sum_cons, List.length_cons]
      omega

theorem byteSize_bodies (messages : List (List Char)) :
    ((bodies ((messages.map String.ofList).map .str)).map byteSize).sum =
      textBytes messages.flatten + 2 * messages.length := by
  induction messages with
  | nil => rfl
  | cons message rest ih =>
    rw [List.map_cons, List.map_cons, bodies, body, List.map_cons, List.sum_cons, ih, byteSize_quote,
      String.toList_ofList, List.flatten_cons, textBytes_append, List.length_cons]
    omega

theorem length_bodies (values : List Value) : (bodies values).length = values.length := by
  induction values with
  | nil => rfl
  | cons v rest ih => rw [bodies, List.length_cons, List.length_cons, ih]

theorem byteSize_response (eventId status : String) (reply : Value) :
    byteSize (body (.obj [("version", .str "1.0"), ("event_id", .str eventId), ("status", .str status),
      ("reply", reply)])) = textBytes eventId.toList + textBytes status.toList + byteSize (body reply) + 52 := by
  have hversion : byteSize (quote "version" ++ ':' :: quote "1.0") = 15 := by decide
  have hkey : byteSize (quote "event_id") = 10 := by decide
  have hstatus : byteSize (quote "status") = 8 := by decide
  have hreply : byteSize (quote "reply") = 7 := by decide
  have hcolon : Char.utf8Size ':' = 1 := by decide
  have hopen : Char.utf8Size '{' = 1 := by decide
  have hclose : Char.utf8Size '}' = 1 := by decide
  have hjoin := byteSize_intercalate (fieldBodies [("version", .str "1.0"), ("event_id", .str eventId),
    ("status", .str status), ("reply", reply)]) (by simp [fieldBodies])
  simp only [fieldBodies, body, List.map_cons, List.map_nil, List.sum_cons, List.sum_nil, List.length_cons,
    List.length_nil, hversion] at hjoin
  simp only [byteSize_append, byteSize_cons, byteSize_quote eventId, byteSize_quote status, hkey, hstatus, hreply,
    hcolon] at hjoin
  simp only [body, fieldBodies, byteSize_cons, byteSize_append, byteSize_nil, hopen, hclose]
  omega

theorem byteSize_text (text : String) : byteSize (body (WireReply.json ⟨text, none⟩)) = textBytes text.toList + 11 := by
  have hkey : byteSize (quote "text") = 6 := by decide
  have hcolon : Char.utf8Size ':' = 1 := by decide
  have hopen : Char.utf8Size '{' = 1 := by decide
  have hclose : Char.utf8Size '}' = 1 := by decide
  simp only [WireReply.json, body, fieldBodies, List.intercalate_singleton, byteSize_cons, byteSize_append,
    byteSize_nil, byteSize_quote text, hkey, hcolon, hopen, hclose]
  omega

theorem byteSize_messages (text : String) (messages : List (List Char)) (h : messages ≠ []) :
    byteSize (body (WireReply.json ⟨text, some (messages.map String.ofList)⟩)) + 1 =
      textBytes text.toList + textBytes messages.flatten + 3 * messages.length + 25 := by
  have htext : byteSize (quote "text") = 6 := by decide
  have hmessages : byteSize (quote "messages") = 10 := by decide
  have hcomma : Char.utf8Size ',' = 1 := by decide
  have hcolon : Char.utf8Size ':' = 1 := by decide
  have hopen : Char.utf8Size '{' = 1 := by decide
  have hclose : Char.utf8Size '}' = 1 := by decide
  have hopen' : Char.utf8Size '[' = 1 := by decide
  have hclose' : Char.utf8Size ']' = 1 := by decide
  have hjoin := byteSize_intercalate (bodies ((messages.map String.ofList).map .str)) (by
    cases messages with
    | nil => exact absurd rfl h
    | cons message rest => simp [bodies])
  rw [byteSize_bodies, length_bodies, List.length_map, List.length_map] at hjoin
  simp only [WireReply.json, body, fieldBodies, List.intercalate_cons_cons, List.intercalate_singleton, byteSize_cons,
    byteSize_append, byteSize_nil, byteSize_quote text, htext, hmessages, hcomma, hcolon, hopen, hclose, hopen',
    hclose']
  omega

theorem truncate_ne_nil (hparts : ∀ part ∈ parts, part ≠ []) : ∀ message ∈ truncate budget parts, message ≠ [] := by
  induction parts generalizing budget with
  | nil => simp [truncate]
  | cons part rest ih =>
    rw [truncate]
    split
    · simp
    rename_i hbudget
    intro message hmessage
    rcases List.mem_cons.1 hmessage with rfl | hrest
    · have hpart := hparts part List.mem_cons_self
      rw [Ne, List.take_eq_nil_iff, not_or]
      exact ⟨hbudget, hpart⟩
    · exact ih (List.forall_mem_of_forall_mem_cons hparts) message hrest

theorem messageStrings_map {messages : List (List Char)} (h : ∀ message ∈ messages, message ≠ []) :
    messageStrings ((messages.map String.ofList).map .str) = some (messages.map String.ofList) := by
  induction messages with
  | nil => rfl
  | cons message rest ih =>
    have hne : String.ofList message ≠ "" := by
      intro hempty
      apply h message List.mem_cons_self
      simpa using congrArg String.toList hempty
    rw [List.map_cons, List.map_cons, messageStrings, if_neg hne,
      ih fun m hm => h m (List.mem_cons_of_mem _ hm), Option.map_some]

theorem sum_length_map (messages : List (List Char)) :
    ((messages.map String.ofList).map String.length).sum = messages.flatten.length := by
  induction messages with
  | nil => rfl
  | cons message rest ih =>
    rw [List.map_cons, List.map_cons, List.sum_cons, ih, List.flatten_cons, List.length_append, String.length_ofList]

theorem send_wireResponse (eventId : String) (text : Option Reply) (ignored : Bool) :
    send eventId (wireResponse eventId text ignored) =
      if maxBodyBytes < byteSize (body (wireResponse eventId text ignored)) then .error "response_too_large"
      else if ignored then .ok ⟨none, none⟩
      else readReply (((responseReply text ignored).map WireReply.json).getD .null) := by
  have hversion : field "version" (wireResponse eventId text ignored) = some (.str "1.0") := rfl
  have hevent : field "event_id" (wireResponse eventId text ignored) = some (.str eventId) := rfl
  have hstatus : field "status" (wireResponse eventId text ignored) =
      some (.str (if ignored then "ignored" else "ok")) := rfl
  have hreply : field "reply" (wireResponse eventId text ignored) =
      some (((responseReply text ignored).map WireReply.json).getD .null) := rfl
  rw [send, hversion, hevent, hstatus, hreply]
  cases ignored with
  | false => simp [isText]
  | true => simp [isText]

theorem readReply_text {text : String} (h : text.length ≤ maxResponseTextChars) :
    readReply (WireReply.json ⟨text, none⟩) = .ok ⟨some text, none⟩ := by
  have htext : field "text" (WireReply.json ⟨text, none⟩) = some (.str text) := rfl
  have hmessages : field "messages" (WireReply.json ⟨text, none⟩) = none := rfl
  rw [readReply, Option.bind_some, Option.bind_some, htext, hmessages]
  simp [h, readMessages]

theorem readReply_messages {text : String} {messages : List (List Char)} (htext : text.length ≤ maxResponseTextChars)
    (hne : messages ≠ []) (hall : ∀ message ∈ messages, message ≠ [])
    (htotal : messages.flatten.length ≤ maxResponseTextChars) :
    readReply (WireReply.json ⟨text, some (messages.map String.ofList)⟩) =
      if maxMessages < messages.length then .error "invalid_reply_messages"
      else .ok ⟨some text, some (messages.map String.ofList)⟩ := by
  have hfield : field "text" (WireReply.json ⟨text, some (messages.map String.ofList)⟩) = some (.str text) := rfl
  have hfield' : field "messages" (WireReply.json ⟨text, some (messages.map String.ofList)⟩) =
      some (.arr ((messages.map String.ofList).map .str)) := rfl
  rw [readReply, Option.bind_some, Option.bind_some, hfield, hfield']
  have hnil : messages.map String.ofList ≠ [] := by
    rw [Ne, List.map_eq_nil_iff]
    exact hne
  simp only [readMessages, messageStrings_map hall, hnil, false_or, List.length_map, sum_length_map,
    if_neg (not_lt.2 htext), if_neg (not_lt.2 htotal)]

/-! ## Writer and reader -/

def partsBytes (eventId : String) (items : List String) : ℕ :=
  textBytes eventId.toList + textBytes ((['\n', '\n'].intercalate (visible items)).take maxReplyChars) +
    textBytes ((visible items).flatten.take maxReplyChars) + 3 * startingWithin maxReplyChars (visible items) + 78

/-- All texts; of parts one is not blank, at most twenty begin within the limit, and they are not
too large. -/
def Fits (eventId : String) : Option Reply → Bool → Prop
  | _, true => True
  | none, false => False
  | some (.text _), false => True
  | some (.parts items), false =>
    visible items ≠ [] ∧ startingWithin maxReplyChars (visible items) ≤ maxMessages ∧
      partsBytes eventId items ≤ maxBodyBytes

theorem agrees_ignored (hid : eventId.length ≤ 256) (text : Option Reply) : Agrees eventId text true := by
  have hbytes := textBytes_le eventId.toList
  rw [String.length_toList] at hbytes
  have hnull : byteSize (body .null) = 4 := by decide
  have hstatus : textBytes "ignored".toList = 7 := by decide
  have hsize : byteSize (body (wireResponse eventId text true)) ≤ maxBodyBytes := by
    have hresponse := byteSize_response eventId "ignored" .null
    rw [hstatus, hnull] at hresponse
    change byteSize (body (.obj [("version", .str "1.0"), ("event_id", .str eventId), ("status", .str "ignored"),
      ("reply", .null)])) ≤ maxBodyBytes
    rw [hresponse, maxBodyBytes]
    omega
  rw [Agrees, send_wireResponse, if_neg (not_lt.2 hsize), if_pos rfl]
  rfl

theorem agrees_text (hid : eventId.length ≤ 256) (s : String) : Agrees eventId (some (.text s)) false := by
  have hbytes := textBytes_le eventId.toList
  rw [String.length_toList] at hbytes
  have hstatus : textBytes "ok".toList = 2 := by decide
  have htake : (s.toList.take maxReplyChars).length ≤ maxReplyChars := List.length_take_le _ _
  have htext := textBytes_le (s.toList.take maxReplyChars)
  have hsize : byteSize (body (wireResponse eventId (some (.text s)) false)) ≤ maxBodyBytes := by
    have hresponse := byteSize_response eventId "ok" (WireReply.json ⟨String.ofList (s.toList.take maxReplyChars), none⟩)
    rw [hstatus, byteSize_text, String.toList_ofList] at hresponse
    change byteSize (body (.obj [("version", .str "1.0"), ("event_id", .str eventId), ("status", .str "ok"),
      ("reply", WireReply.json ⟨String.ofList (s.toList.take maxReplyChars), none⟩)])) ≤ maxBodyBytes
    rw [hresponse, maxBodyBytes]
    rw [maxReplyChars] at htake htext ⊢
    omega
  rw [Agrees, send_wireResponse, if_neg (not_lt.2 hsize), if_neg (by decide)]
  have hlength : (String.ofList (s.toList.take maxReplyChars)).length ≤ maxResponseTextChars := by
    rw [String.length_ofList]
    exact htake
  exact readReply_text hlength

theorem not_agrees_of_no_reply {text : Option Reply} (h : responseReply text false = none) :
    ¬ Agrees eventId text false := by
  intro hagrees
  rw [Agrees, send_wireResponse, if_neg (by decide : ¬ (false = true)), h] at hagrees
  split at hagrees <;> cases hagrees

theorem agrees_parts_iff (eventId : String) (items : List String) :
    Agrees eventId (some (.parts items)) false ↔ visible items ≠ [] ∧
      startingWithin maxReplyChars (visible items) ≤ maxMessages ∧ partsBytes eventId items ≤ maxBodyBytes := by
  have hkeep := keepMessages_eq maxReplyChars items
  have hlength := length_truncate maxReplyChars (visible items)
  by_cases hvisible : visible items = []
  · have hnone : responseReply (some (.parts items)) false = none := by
      simp [responseReply, wireReply, hkeep, hvisible, truncate]
    exact iff_of_false (not_agrees_of_no_reply hnone) (fun h => h.1 hvisible)
  have hne : truncate maxReplyChars (visible items) ≠ [] := by
    cases hparts : visible items with
    | nil => exact absurd hparts hvisible
    | cons part rest => simp [truncate, maxReplyChars]
  have hall : ∀ message ∈ truncate maxReplyChars (visible items), message ≠ [] := by
    apply truncate_ne_nil
    intro part hpart
    simpa using (List.mem_filter.1 hpart).2
  have hreply : responseReply (some (.parts items)) false =
      some ⟨String.ofList ((['\n', '\n'].intercalate (visible items)).take maxReplyChars),
        some ((truncate maxReplyChars (visible items)).map String.ofList)⟩ := by
    simp only [responseReply, wireReply, Option.bind_some, hkeep, if_neg hne, intercalate_truncate, Bool.false_eq_true,
      if_false]
  have hsize : byteSize (body (wireResponse eventId (some (.parts items)) false)) = partsBytes eventId items := by
    have hstatus : textBytes "ok".toList = 2 := by decide
    have hresponse := byteSize_response eventId "ok" (WireReply.json
      ⟨String.ofList ((['\n', '\n'].intercalate (visible items)).take maxReplyChars),
        some ((truncate maxReplyChars (visible items)).map String.ofList)⟩)
    have hmessages := byteSize_messages (String.ofList ((['\n', '\n'].intercalate (visible items)).take maxReplyChars))
      _ hne
    rw [String.toList_ofList, flatten_truncate, hlength] at hmessages
    rw [wireResponse, hreply, Option.map_some, Option.getD_some, partsBytes]
    simp only [Bool.false_eq_true, if_false]
    omega
  have htext : (String.ofList ((['\n', '\n'].intercalate (visible items)).take maxReplyChars)).length ≤
      maxResponseTextChars := by
    rw [String.length_ofList]
    exact List.length_take_le _ _
  have htotal : (truncate maxReplyChars (visible items)).flatten.length ≤ maxResponseTextChars := by
    rw [flatten_truncate]
    exact List.length_take_le _ _
  -- what is left are the two checks of the reader that the writer does not make
  rw [Agrees, send_wireResponse, hsize, hreply, if_neg (by decide : ¬ (false = true)), Option.map_some,
    Option.getD_some, readReply_messages htext hne hall htotal, hlength, Option.map_some, Option.bind_some]
  by_cases hbytes : partsBytes eventId items ≤ maxBodyBytes
  · rw [if_neg (not_lt.2 hbytes)]
    by_cases hcount : startingWithin maxReplyChars (visible items) ≤ maxMessages
    · rw [if_neg (not_lt.2 hcount)]
      exact iff_of_true rfl ⟨hvisible, hcount, hbytes⟩
    · rw [if_pos (not_le.1 hcount)]
      exact iff_of_false (by simp) (fun h => hcount h.2.1)
  · rw [if_pos (not_le.1 hbytes)]
    exact iff_of_false (by simp) (fun h => hbytes h.2.2)

/-- The reader accepts what was sent exactly if the reply fits. -/
theorem reply_wire_agreement_iff (eventId : String) (hid : eventId.length ≤ 256) (text : Option Reply)
    (ignored : Bool) : Agrees eventId text ignored ↔ Fits eventId text ignored := by
  cases ignored with
  | true => exact iff_of_true (agrees_ignored hid text) trivial
  | false =>
    cases text with
    | none => exact iff_of_false (not_agrees_of_no_reply rfl) id
    | some reply =>
      cases reply with
      | text s => exact iff_of_true (agrees_text hid s) trivial
      | parts items => exact agrees_parts_iff eventId items

theorem reply_wire_agreement_iff_image :
    Agrees "e" (some (.parts ["see", "https://host/1"])) false ∧
      Fits "e" (some (.parts ["see", "https://host/1"])) false := by
  have hiff := reply_wire_agreement_iff "e" (by decide) (some (.parts ["see", "https://host/1"])) false
  have hfits : Fits "e" (some (.parts ["see", "https://host/1"])) false := by
    refine ⟨by decide +kernel, by decide +kernel, by decide +kernel⟩
  exact ⟨hiff.2 hfits, hfits⟩

/-- A reply of twenty-one images is refused. -/
theorem twenty_one_images_refused :
    ¬ Agrees "e" (some (.parts ((List.range 21).map fun n => "https://host/" ++ toString n))) false := by
  rw [agrees_parts_iff]
  rintro ⟨_, hcount, _⟩
  have hmany : ¬ startingWithin maxReplyChars (visible ((List.range 21).map fun n => "https://host/" ++ toString n)) ≤
      maxMessages := by decide +kernel
  exact hmany hcount

end RyanAI.Gateway.ReplyWire
