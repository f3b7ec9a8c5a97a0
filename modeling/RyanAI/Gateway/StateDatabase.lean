import RyanAI.Gateway.Event
import RyanAI.Lib.Json
import RyanAI.Lib.OrderedMap
import RyanAI.Lib.SqlTable
import RyanAI.Lib.Terminated
import RyanAI.Storage.Like

/-!
# The database of the state store

The tables that `state-worker.ts` creates, with the columns as SQLite keeps them, and the deletion of a connection with
all that belongs to it. A replay row belongs to the connection that its event key names between two NUL characters, and
is found by LIKE, which takes its operands as text that ends at the first NUL: all that is left of the pattern is the
channel. The rows of other connections stay exactly where the connection is there, and no other one has a replay row
whose key starts with a channel (`deleteConnection_iff`).
-/

namespace RyanAI.Gateway.StateDatabase

open RyanAI.Lib
open RyanAI.Storage.Like (likes likes_cons)

/-! ## Tables -/

inductive Cell where
  | num (q : ℚ)
  | text (s : String)
  deriving DecidableEq

/-- A row of `connections`. -/
structure ConnectionRow where
  id : Option String
  channel : String
  ownerUserId : Option String
  enabled : Cell
  status : String
  detail : Option String
  accountLabel : Option String
  trustedOwnerExternalId : Option String
  shardId : Option String
  accountKey : Option String
  assignmentGeneration : Cell
  credentialsConfigured : Cell
  updatedAt : String
  deriving DecidableEq

/-- A row of `groups`. -/
structure GroupRow where
  channel : String
  connectionId : String
  groupId : String
  enabled : Cell
  name : Option String
  lastSeenAt : String
  deriving DecidableEq

def GroupRow.key (row : GroupRow) : Option (String × String × String) :=
  some (row.channel, row.connectionId, row.groupId)

inductive ReplayState where
  | processing
  | completed
  deriving DecidableEq

/-- A row of `replays`; `reply_json` is its object. -/
structure ReplayRow where
  eventId : Option String
  state : ReplayState
  expiresAt : Cell
  replyJson : Option Dict
  deriving DecidableEq

/-- A row of `runtime_state`. -/
structure RuntimeRow where
  json : String
  updatedAt : ℤ
  deriving DecidableEq

structure Database where
  connections : SqlTable ConnectionRow.id
  groups : SqlTable GroupRow.key
  replays : SqlTable ReplayRow.eventId
  metaTable : KeyedTable String String
  runtimeState : KeyedTable String RuntimeRow

def Database.empty : Database := ⟨.empty, .empty, .empty, .empty, .empty⟩

/-- `escapeLike`. -/
def escapeLike (value : String) : String :=
  String.ofList (value.toList.flatMap fun c => if c = '\\' ∨ c = '%' ∨ c = '_' then ['\\', c] else [c])

def likeOperand (text : String) : List Char := (text.toList.takeWhile (· ≠ nul)).map Char.toLower

/-- `value LIKE pattern ESCAPE '\'`. -/
def sqliteLike (pattern value : String) : Bool := likes (fun c => c == '\\') (likeOperand pattern) (likeOperand value)

def replayPattern (channel : Channel) (id : String) : String :=
  channel.text ++ "\u0000" ++ escapeLike id ++ "\u0000" ++ "%"

/-- The condition of `deleteReplaysForConnection`; NULL meets no pattern. -/
def meetsPatterns (id : String) (row : ReplayRow) : Bool :=
  row.eventId.any fun key =>
    sqliteLike (replayPattern .wechat id) key || sqliteLike (replayPattern .qq id) key

/-- `deleteConnection`, with the database that it leaves. -/
def deleteConnection (id : String) (db : Database) : Bool × Database :=
  let connections := db.connections.keep fun row => row.id ≠ some id
  if db.connections.count - connections.count = 0 then (false, db)
  else
    (true, { db with
      connections := connections
      groups := db.groups.keep fun row => row.connectionId ≠ id
      replays := db.replays.keep fun row => !meetsPatterns id row })

/-- The key of the row is one that `eventKey` makes for the connection. -/
def OwnReplay (id : String) (row : ReplayRow) : Prop :=
  ∃ event : GatewayInboundEvent, event.connectionId = id ∧ row.eventId = some (eventKey event)

def keyHead (channel : Channel) (id : String) : String := channel.text ++ "\u0000" ++ id ++ "\u0000"

variable {id : String} {row : ReplayRow} {db : Database}

theorem ownReplay_iff : OwnReplay id row ↔
      ∃ key ∈ row.eventId, (keyHead .wechat id).toList <+: key.toList ∨ (keyHead .qq id).toList <+: key.toList := by
  constructor
  · rintro ⟨event, rfl, hkey⟩
    refine ⟨eventKey event, hkey, ?_⟩
    have hprefix : (keyHead event.channel event.connectionId).toList <+: (eventKey event).toList := by
      rw [eventKey, String.toList_append]
      exact List.prefix_append _ _
    cases hchannel : event.channel with
    | wechat => exact .inl (hchannel ▸ hprefix)
    | qq => exact .inr (hchannel ▸ hprefix)
  · rintro ⟨key, hkey, hprefix⟩
    have hevent : ∀ channel, (keyHead channel id).toList <+: key.toList → OwnReplay id row := by
      rintro channel ⟨rest, hrest⟩
      refine ⟨⟨String.ofList rest, 0, channel, id, none, ⟨.private_, "", none⟩, "", ⟨"", false⟩, []⟩, rfl, ?_⟩
      rw [hkey, eventKey]
      apply congrArg some
      apply String.toList_injective
      rw [String.toList_append, String.toList_ofList]
      exact hrest.symm
    exact hprefix.elim (hevent .wechat) (hevent .qq)

instance (id : String) (row : ReplayRow) : Decidable (OwnReplay id row) := decidable_of_iff _ ownReplay_iff.symm

structure DeletesOwn (id : String) (db db' : Database) : Prop where
  connections : db'.connections.rows = db.connections.rows.filter fun row => row.id ≠ some id
  groups : db'.groups.rows = db.groups.rows.filter fun row => row.connectionId ≠ id
  replays : db'.replays.rows = db.replays.rows.filter fun row => ¬OwnReplay id row
  metaTable : db'.metaTable = db.metaTable
  runtimeState : db'.runtimeState = db.runtimeState

theorem likes_literal {esc : Char → Bool} {pattern : List Char} (h : ∀ c ∈ pattern, esc c = false ∧ c ≠ '%' ∧ c ≠ '_')
    (value : List Char) : likes esc pattern value = true ↔ value = pattern := by
  induction pattern generalizing value with
  | nil => simp [likes]
  | cons c rest ih =>
    obtain ⟨hesc, hmany, hany⟩ := h c List.mem_cons_self
    have ih' := ih fun d hd => h d (List.mem_cons_of_mem c hd)
    rw [likes_cons esc (by simp [hesc]) rest value, if_neg (by simpa using hmany)]
    cases value with
    | nil => simp
    | cons x value => simp [hany, ih']

theorem likeOperand_replayPattern (channel : Channel) (id : String) :
    likeOperand (replayPattern channel id) = channel.text.toList := by
  have hnul : ("\u0000" : String).toList = [nul] := rfl
  rw [likeOperand, replayPattern]
  simp only [String.toList_append, hnul, List.append_assoc, List.singleton_append]
  cases channel <;> rfl

def ChannelHead (row : ReplayRow) : Prop := ∃ key ∈ row.eventId, ∃ channel : Channel, likeOperand key = channel.text.toList

theorem meetsPatterns_iff : meetsPatterns id row = true ↔ ChannelHead row := by
  have hliteral : ∀ (channel : Channel) (key : String),
      sqliteLike (replayPattern channel id) key = true ↔ likeOperand key = channel.text.toList := by
    intro channel key
    rw [sqliteLike, likeOperand_replayPattern]
    apply likes_literal
    cases channel <;> simp [Channel.text]
  rw [meetsPatterns, ChannelHead, Option.any_eq_true]
  constructor
  · rintro ⟨key, hkey, hlike⟩
    rw [Bool.or_eq_true, hliteral, hliteral] at hlike
    exact ⟨key, hkey, hlike.elim (fun h => ⟨.wechat, h⟩) fun h => ⟨.qq, h⟩⟩
  rintro ⟨key, hkey, channel, h⟩
  refine ⟨key, hkey, ?_⟩
  rw [Bool.or_eq_true, hliteral, hliteral]
  cases channel with
  | wechat => exact .inl h
  | qq => exact .inr h

theorem OwnReplay.channelHead (h : OwnReplay id row) : ChannelHead row := by
  obtain ⟨event, -, hkey⟩ := h
  have hnul : ("\u0000" : String).toList = [nul] := rfl
  refine ⟨eventKey event, hkey, event.channel, ?_⟩
  rw [likeOperand, eventKey]
  simp only [String.toList_append, hnul, List.append_assoc, List.singleton_append]
  cases event.channel <;> rfl

/-! ## The deletion -/

/-- The connection is there and the only one such keys belong to, or nothing of it is left. -/
def Undisturbed (id : String) (db : Database) : Prop :=
  ((∃ row ∈ db.connections.rows, row.id = some id) ∧ ∀ row ∈ db.replays.rows, ChannelHead row → OwnReplay id row) ∨
    ((∀ row ∈ db.connections.rows, row.id ≠ some id) ∧ (∀ row ∈ db.groups.rows, row.connectionId ≠ id) ∧
      ∀ row ∈ db.replays.rows, ¬OwnReplay id row)

theorem deleteConnection_of_absent (h : ∀ row ∈ db.connections.rows, row.id ≠ some id) :
    deleteConnection id db = (false, db) := by
  have hkeep : (db.connections.keep fun row => row.id ≠ some id).count = db.connections.count :=
    congrArg List.length (List.filter_eq_self.2 (by simpa using h))
  rw [deleteConnection, hkeep, if_pos (Nat.sub_self _)]

theorem deleteConnection_of_present (h : ∃ row ∈ db.connections.rows, row.id = some id) :
    deleteConnection id db = (true, { db with
      connections := db.connections.keep fun row => row.id ≠ some id
      groups := db.groups.keep fun row => row.connectionId ≠ id
      replays := db.replays.keep fun row => !meetsPatterns id row }) := by
  obtain ⟨row, hrow, hid⟩ := h
  have hlt : (db.connections.keep fun row => row.id ≠ some id).count < db.connections.count := by
    apply List.length_filter_lt_length_iff_exists.2
    exact ⟨row, hrow, by simp [hid]⟩
  rw [deleteConnection, if_neg (by omega)]

theorem DeletesOwn.own (h : DeletesOwn id db (deleteConnection id db).2)
    (hpresent : ∃ row ∈ db.connections.rows, row.id = some id) (hrow : row ∈ db.replays.rows) (hhead : ChannelHead row) :
    OwnReplay id row := by
  by_contra hown
  have hkept : row ∈ db.replays.rows.filter fun row => ¬OwnReplay id row := List.mem_filter.2 ⟨hrow, decide_eq_true hown⟩
  rw [← h.replays, deleteConnection_of_present hpresent] at hkept
  have hmeets := (List.mem_filter.1 hkept).2
  rw [meetsPatterns_iff.2 hhead] at hmeets
  cases hmeets

/-- A deletion removes its own exactly if no other row has a key that starts with a channel, or
nothing is there. -/
theorem deleteConnection_iff (id : String) (db : Database) :
    DeletesOwn id db (deleteConnection id db).2 ↔ Undisturbed id db := by
  by_cases hpresent : ∃ row ∈ db.connections.rows, row.id = some id
  · constructor
    · intro h
      exact .inl ⟨hpresent, fun row hrow hhead => h.own hpresent hrow hhead⟩
    · rintro (⟨-, hown⟩ | ⟨habsent, -⟩)
      · rw [deleteConnection_of_present hpresent]
        refine ⟨rfl, rfl, List.filter_congr fun row hrow => ?_, rfl, rfl⟩
        rw [Bool.eq_iff_iff, Bool.not_eq_true', ← Bool.not_eq_true, meetsPatterns_iff, decide_eq_true_eq, not_iff_not]
        exact ⟨hown row hrow, OwnReplay.channelHead⟩
      · obtain ⟨row, hrow, hid⟩ := hpresent
        exact absurd hid (habsent row hrow)
  · have habsent : ∀ row ∈ db.connections.rows, row.id ≠ some id := fun row hrow hid => hpresent ⟨row, hrow, hid⟩
    rw [deleteConnection_of_absent habsent]
    constructor
    · intro h
      refine .inr ⟨habsent, fun row hrow => ?_, fun row hrow => ?_⟩
      · have hkept := h.groups ▸ hrow
        simpa using (List.mem_filter.1 hkept).2
      · have hkept := h.replays ▸ hrow
        simpa using (List.mem_filter.1 hkept).2
    · rintro (⟨hthere, -⟩ | ⟨-, hgroups, hreplays⟩)
      · exact absurd hthere hpresent
      · exact ⟨(List.filter_eq_self.2 (by simpa using habsent)).symm,
          (List.filter_eq_self.2 (by simpa using hgroups)).symm,
          (List.filter_eq_self.2 (by simpa using hreplays)).symm, rfl, rfl⟩

def wechatConnection (id : String) : ConnectionRow :=
  ⟨some id, "wechat", none, .num 1, "connected", none, none, none, none, none, .num 0, .num 0, "2026-01-01T00:00:00.000Z"⟩

def answeredRow (key : String) : ReplayRow := ⟨some key, .completed, .num 0, none⟩

def twoConnections : Database where
  connections := ⟨[wechatConnection "first", wechatConnection "second"], by simp [wechatConnection]⟩
  groups := .empty
  replays := ⟨[answeredRow "wechat\u0000second\u0000event"], by simp [answeredRow]⟩
  metaTable := .empty
  runtimeState := .empty

/-- Deleting the first connection forgets the event of the second one. -/
theorem deleteConnection_reaches_other :
    ¬DeletesOwn "first" twoConnections (deleteConnection "first" twoConnections).2 := by
  intro h
  have hhead : ChannelHead (answeredRow "wechat\u0000second\u0000event") := ⟨_, rfl, .wechat, rfl⟩
  have hown := h.own ⟨wechatConnection "first", List.mem_cons_self, rfl⟩ List.mem_cons_self hhead
  obtain ⟨key, hkey, hprefix⟩ := ownReplay_iff.1 hown
  cases hkey
  rcases hprefix with hprefix | hprefix <;> simp [keyHead, Channel.text] at hprefix

end RyanAI.Gateway.StateDatabase
