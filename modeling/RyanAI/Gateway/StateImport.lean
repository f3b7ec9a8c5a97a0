import RyanAI.Gateway.StateDatabase
import RyanAI.Lib.JsNumber
import RyanAI.Lib.Transaction

/-!
# Importing the legacy state file

`migrateLegacyJson` of `state.ts` reads the JSON file in which the state was kept before, has the worker import it in
one transaction and then renames it. The import writes a receipt with the checksum of the file, so that a second run
does nothing.

Values are those that `JSON.parse` returns, with `none` for `undefined`. What SQLite makes of a number in a TEXT column
and of a text in an INTEGER column is a parameter. A value that cannot be bound to a statement throws.
-/

namespace RyanAI.Gateway.StateDatabase

open RyanAI.Lib

/-- An exception of the language or driver, a failed constraint, or an error with its text. -/
inductive Thrown where
  | typeError
  | unbindable
  | constraint
  | error (message : String)
  | engine
  deriving DecidableEq

/-! ## JavaScript values -/

/-- `undefined` is `none`. -/
abbrev JsValue := Option Json

/-- `value.name`. -/
def property (value : Json) (name : String) : Except Thrown JsValue :=
  match value with
  | .null => .error .typeError
  | .obj fields => .ok (fields.lookup name)
  | _ => .ok none

/-- The test of `value ? … : …`. -/
def jsTruthy : JsValue → Bool
  | none => false
  | some .null => false
  | some (.bool b) => b
  | some (.num q) => q ≠ 0
  | some (.str s) => s ≠ ""
  | some (.arr _) => true
  | some (.obj _) => true

/-- `value ?? other`. -/
def orElse (value : JsValue) (other : Json) : JsValue :=
  match value with
  | none => some other
  | some .null => some other
  | some v => some v

mutual

/-- `String(value)`; an object with a field `toString` cannot be converted. -/
def jsString : Json → Except Thrown String
  | .null => .ok "null"
  | .bool b => .ok (if b then "true" else "false")
  | .num q => .ok (JsNumber.toText (.finite q))
  | .str s => .ok s
  | .arr items => do
    let texts ← jsStrings items
    .ok (String.intercalate "," texts)
  | .obj fields => if (fields.lookup "toString").isSome then .error .typeError else .ok "[object Object]"

/-- The texts that `join` puts together. -/
def jsStrings : List Json → Except Thrown (List String)
  | [] => .ok []
  | .null :: rest => do
    let texts ← jsStrings rest
    .ok ("" :: texts)
  | item :: rest => do
    let text ← jsString item
    let texts ← jsStrings rest
    .ok (text :: texts)

end

/-- `Object.entries(value ?? \x7b\x7d)`. -/
def objectEntries : JsValue → List (String × Json)
  | some (.obj fields) => fields
  | some (.arr items) => items.zipIdx.map fun item => (toString item.2, item.1)
  | some (.str s) => s.toList.zipIdx.map fun c => (toString c.2, .str (String.singleton c.1))
  | _ => []

/-- `nullable`: a text, or `null`. -/
def nullable : JsValue → Except Thrown Json
  | none => .ok .null
  | some .null => .ok .null
  | some (.str "") => .ok .null
  | some value => do
    let text ← jsString value
    .ok (.str text)

def boolToInt (value : JsValue) : Json := .num (if jsTruthy value then 1 else 0)

structure Sqlite where
  realText : ℚ → String
  number : String → Option ℚ

/-- Bind a value to a TEXT column; `none` is NULL. -/
def Sqlite.bindText (sql : Sqlite) : JsValue → Except Thrown (Option String)
  | some .null => .ok none
  | some (.num q) => .ok (some (sql.realText q))
  | some (.str s) => .ok (some s)
  | _ => .error .unbindable

def Sqlite.bindInteger (sql : Sqlite) : JsValue → Except Thrown (Option Cell)
  | some .null => .ok none
  | some (.num q) => .ok (some (.num q))
  | some (.str s) => .ok (some (((sql.number s).map Cell.num).getD (.text s)))
  | _ => .error .unbindable

def required {α : Type} : Option α → Except Thrown α
  | some a => .ok a
  | none => .error .constraint

/-- The row that `insertConnection` writes. -/
def connectionRow (sql : Sqlite) (connection : Json) : Except Thrown ConnectionRow := do
  let id ← property connection "id"
  let channel ← property connection "channel"
  let ownerUserId ← nullable (← property connection "ownerUserId")
  let enabled := boolToInt (← property connection "enabled")
  let status ← property connection "status"
  let detail ← nullable (← property connection "detail")
  let accountLabel ← nullable (← property connection "accountLabel")
  let trustedOwnerExternalId ← nullable (← property connection "trustedOwnerExternalId")
  let shardId ← nullable (← property connection "shardId")
  let accountKey ← nullable (← property connection "accountKey")
  let assignmentGeneration := orElse (← property connection "assignmentGeneration") (.num 0)
  let credentialsConfigured := boolToInt (orElse (← property connection "credentialsConfigured") (.bool false))
  let updatedAt ← property connection "updatedAt"
  let id ← sql.bindText id
  let channel ← sql.bindText channel
  let ownerUserId ← sql.bindText ownerUserId
  let enabled ← sql.bindInteger enabled
  let status ← sql.bindText status
  let detail ← sql.bindText detail
  let accountLabel ← sql.bindText accountLabel
  let trustedOwnerExternalId ← sql.bindText trustedOwnerExternalId
  let shardId ← sql.bindText shardId
  let accountKey ← sql.bindText accountKey
  let assignmentGeneration ← sql.bindInteger assignmentGeneration
  let credentialsConfigured ← sql.bindInteger credentialsConfigured
  let updatedAt ← sql.bindText updatedAt
  return {
    id := id
    channel := ← required channel
    ownerUserId := ownerUserId
    enabled := ← required enabled
    status := ← required status
    detail := detail
    accountLabel := accountLabel
    trustedOwnerExternalId := trustedOwnerExternalId
    shardId := shardId
    accountKey := accountKey
    assignmentGeneration := ← required assignmentGeneration
    credentialsConfigured := ← required credentialsConfigured
    updatedAt := ← required updatedAt }

/-- The row for a group; `none` where a column that is NOT NULL would be NULL. -/
def groupRow (sql : Sqlite) (group : Json) : Except Thrown (Option GroupRow) := do
  let channel ← property group "channel"
  let connectionId ← property group "connectionId"
  let groupId ← property group "groupId"
  let enabled := boolToInt (← property group "enabled")
  let name ← nullable (← property group "name")
  let lastSeenAt ← property group "lastSeenAt"
  let channel ← sql.bindText channel
  let connectionId ← sql.bindText connectionId
  let groupId ← sql.bindText groupId
  let enabled ← sql.bindInteger enabled
  let name ← sql.bindText name
  let lastSeenAt ← sql.bindText lastSeenAt
  return do
    return { channel := ← channel, connectionId := ← connectionId, groupId := ← groupId, enabled := ← enabled,
             name := name, lastSeenAt := ← lastSeenAt }

/-- `stringifyReply`, as the object that the text is of. -/
def replyObject (reply : Json) : Except Thrown Dict := do
  let chunks ← property reply "chunks"
  let isError ← property reply "isError"
  let reason ← property reply "reason"
  let field (key : String) (value : JsValue) : Dict := value.elim [] fun v => [(key, v)]
  return field "chunks" chunks ++ field "isError" isError ++ field "reason" reason

/-- `'reply' in record && … ? stringifyReply(record.reply) : null` -/
def replyJson (record : Json) : Except Thrown (Option Dict) :=
  match record with
  | .obj fields =>
    match fields.lookup "reply" with
    | some reply => do
      let reply ← replyObject reply
      return some reply
    | none => return none
  | .arr _ => return none
  | _ => throw .typeError

/-- The row that `insertReplay` writes. -/
def replayRow (sql : Sqlite) (eventId : String) (record : Json) : Except Thrown ReplayRow := do
  let state ← property record "state"
  let expiresAt ← property record "expiresAt"
  let reply ← replyJson record
  let eventId ← sql.bindText (some (.str eventId))
  let expiresAt ← sql.bindInteger expiresAt
  return {
    eventId := eventId
    state := if state = some (.str "completed") then .completed else .processing
    expiresAt := ← required expiresAt
    replyJson := reply }

/-! ## The import -/

structure Counts where
  replays : ℕ
  connections : ℕ
  groups : ℕ
  deriving DecidableEq

/-- `JSON.stringify(counts)`. -/
def Counts.text (c : Counts) : String :=
  "\x7b\"replays\":" ++ toString c.replays ++ ",\"connections\":" ++ toString c.connections ++ ",\"groups\":" ++
    toString c.groups ++ "\x7d"

def Counts.of (db : Database) : Counts := ⟨db.replays.count, db.connections.count, db.groups.count⟩

/-- The request `importJsonState`. -/
structure ImportRequest where
  replays : JsValue
  connections : JsValue
  groups : JsValue
  sourceCounts : Counts
  checksum : String

def checksumKey : String := "migrated_json_checksum"

def rowsKey : String := "migrated_json_rows"

def mismatchText (counts sourceCounts : Counts) : String :=
  "Gateway state row count mismatch: replays " ++ toString counts.replays ++ "/" ++ toString sourceCounts.replays ++
    ", connections " ++ toString counts.connections ++ "/" ++ toString sourceCounts.connections ++
    ", groups " ++ toString counts.groups ++ "/" ++ toString sourceCounts.groups

abbrev Connections := SqlTable ConnectionRow.id

abbrev Groups := SqlTable GroupRow.key

abbrev Replays := SqlTable ReplayRow.eventId

def importConnection (sql : Sqlite) (t : Connections) (entry : String × Json) : Except Thrown Connections := do
  let row ← connectionRow sql entry.2
  return t.upsert row

def importGroup (sql : Sqlite) (t : Groups) (entry : String × Json) : Except Thrown Groups := do
  match ← groupRow sql entry.2 with
  | some row => return t.insertOrIgnore row
  | none => return t

def importReplay (sql : Sqlite) (t : Replays) (entry : String × Json) : Except Thrown Replays := do
  let row ← replayRow sql entry.1 entry.2
  match t.insert? row with
  | some t => return t
  | none => throw .constraint

/-- The operation of `importJsonState`; `true` where the file was imported before. -/
def importOperation (sql : Sqlite) (r : ImportRequest) (db : Database) : Except Thrown (Option Bool × Database) :=
  match db.metaTable.get checksumKey with
  | some previous =>
    if previous = r.checksum then .ok (some true, db)
    else .error (.error "Gateway state file checksum differs from the recorded migration receipt")
  | none =>
    let existing := Counts.of db
    if existing.replays ≠ 0 ∨ existing.connections ≠ 0 ∨ existing.groups ≠ 0 then
      .error (.error "Gateway state JSON can only be imported into an empty SQLite store")
    else do
      let connections ← (objectEntries r.connections).foldlM (importConnection sql) db.connections
      let groups ← (objectEntries r.groups).foldlM (importGroup sql) db.groups
      let replays ← (objectEntries r.replays).foldlM (importReplay sql) db.replays
      let counts : Counts := ⟨replays.count, connections.count, groups.count⟩
      if counts ≠ r.sourceCounts then .error (.error (mismatchText counts r.sourceCounts))
      else
        .ok (none, { db with
          connections := connections
          groups := groups
          replays := replays
          metaTable := (db.metaTable.set checksumKey r.checksum).set rowsKey r.sourceCounts.text })

/-- `importJsonState`. -/
def importJsonState (sql : Sqlite) (r : ImportRequest) (mishap : Option (Mishap Database Thrown)) (db : Database) :
    Answered Thrown (Option Bool) × Session Database :=
  transaction (importOperation sql r) mishap (.open_ db)

/-- Reading a file: `JSON.parse` of the text, and the checksum of the bytes. -/
structure Reader where
  parse : List UInt8 → Option Json
  sha256Hex : List UInt8 → String

def importRequest (reader : Reader) (raw : List UInt8) : Option ImportRequest := do
  let parsed ← reader.parse raw
  let version ← (property parsed "version").toOption
  let replays ← (property parsed "replays").toOption
  let connections ← (property parsed "connections").toOption
  let groups ← (property parsed "groups").toOption
  if version ≠ some (.num 1) then none
  else
    return {
      replays := replays
      connections := connections
      groups := groups
      sourceCounts :=
        ⟨(objectEntries replays).length, (objectEntries connections).length, (objectEntries groups).length⟩
      checksum := reader.sha256Hex raw }

/-- The state directory: the database, and the legacy file until it is renamed. -/
structure Disk where
  database : Database
  file : Option (List UInt8)

/-- An unreadable file, a failed transaction, a late answer, or a rename that does not happen. -/
structure Interruption where
  reads : Bool
  mishap : Option (Mishap Database Thrown)
  answers : Bool
  renames : Bool

/-- `migrateLegacyJson`. -/
def migrateLegacyJson (sql : Sqlite) (reader : Reader) (i : Interruption) (d : Disk) : Disk :=
  match d.file with
  | none => d
  | some raw =>
    if !i.reads then d
    else
      match importRequest reader raw with
      | none => d
      | some request =>
        let result := importJsonState sql request i.mishap d.database
        -- the file is renamed once the worker has answered
        let renamed := result.1.isReturned && i.answers && i.renames
        ⟨result.2.committed, if renamed then none else some raw⟩

/-! ## One import -/

structure Imported (sql : Sqlite) (r : ImportRequest) (db db' : Database) : Prop where
  empty : db.connections.rows = [] ∧ db.groups.rows = [] ∧ db.replays.rows = []
  connections : List.Forall₂ (fun entry row => connectionRow sql entry.2 = .ok row) (objectEntries r.connections)
    db'.connections.rows
  groups : List.Forall₂ (fun entry row => groupRow sql entry.2 = .ok (some row)) (objectEntries r.groups)
    db'.groups.rows
  replays : List.Forall₂ (fun entry row => replayRow sql entry.1 entry.2 = .ok row) (objectEntries r.replays)
    db'.replays.rows
  receipt : db'.metaTable = (db.metaTable.set checksumKey r.checksum).set rowsKey r.sourceCounts.text
  runtimeState : db'.runtimeState = db.runtimeState

def ImportRequest.Counted (r : ImportRequest) : Prop :=
  r.sourceCounts = ⟨(objectEntries r.replays).length, (objectEntries r.connections).length,
    (objectEntries r.groups).length⟩

variable {r : ImportRequest} {reader : Reader} {raw : List UInt8} {sql : Sqlite} {db db' : Database} {a : Option Bool}

theorem counted_of_importRequest (h : importRequest reader raw = some r) : r.Counted := by
  simp only [importRequest, Option.bind_eq_bind, Option.bind_eq_some_iff] at h
  obtain ⟨parsed, -, version, -, replays, -, connections, -, groups, -, h⟩ := h
  split at h
  · cases h
  · cases h
    rfl

theorem importConnection_grows (t : Connections) (entry : String × Json) (t' : Connections)
    (h : importConnection sql t entry = .ok t') :
    (∃ row, connectionRow sql entry.2 = .ok row ∧ t'.rows = t.rows ++ [row]) ∨ t'.count = t.count := by
  obtain ⟨row, hrow, hupsert⟩ := bind_eq_ok.1 h
  cases hupsert
  exact (SqlTable.grows_upsert t row).imp_left fun hgrows => ⟨row, hrow, hgrows⟩

theorem importGroup_grows (t : Groups) (entry : String × Json) (t' : Groups) (h : importGroup sql t entry = .ok t') :
    (∃ row, groupRow sql entry.2 = .ok (some row) ∧ t'.rows = t.rows ++ [row]) ∨ t'.count = t.count := by
  obtain ⟨row, hrow, hinsert⟩ := bind_eq_ok.1 h
  cases row with
  | none =>
    cases hinsert
    exact .inr rfl
  | some row =>
    cases hinsert
    exact (SqlTable.grows_insertOrIgnore t row).imp_left fun hgrows => ⟨row, hrow, hgrows⟩

theorem importReplay_grows (t : Replays) (entry : String × Json) (t' : Replays) (h : importReplay sql t entry = .ok t') :
    (∃ row, replayRow sql entry.1 entry.2 = .ok row ∧ t'.rows = t.rows ++ [row]) ∨ t'.count = t.count := by
  obtain ⟨row, hrow, hinsert⟩ := bind_eq_ok.1 h
  cases hinserted : t.insert? row with
  | none =>
    rw [hinserted] at hinsert
    cases hinsert
  | some t₁ =>
    rw [hinserted] at hinsert
    cases hinsert
    exact (SqlTable.grows_insert? hinserted).imp_left fun hgrows => ⟨row, hrow, hgrows⟩

theorem rows_of_count_zero {R K : Type} {key : R → Option K} {t : SqlTable key} (h : t.count = 0) : t.rows = [] :=
  List.length_eq_zero_iff.1 h

theorem filled {R K A : Type} {key : R → Option K} {image : A → R → Prop}
    {step : SqlTable key → A → Except Thrown (SqlTable key)}
    (hstep : ∀ t a t', step t a = .ok t' → (∃ row, image a row ∧ t'.rows = t.rows ++ [row]) ∨ t'.count = t.count)
    {as : List A} {t t' : SqlTable key} (hempty : t.rows = []) (h : as.foldlM step t = .ok t')
    (hcount : t'.count = as.length) : List.Forall₂ image as t'.rows := by
  have hzero : t.count = 0 := by rw [SqlTable.count, hempty]; rfl
  obtain ⟨rows, hall, hrows⟩ := (SqlTable.foldlM_grows hstep h).2 (by omega)
  rw [hrows, hempty]
  exact hall

theorem importOperation_ok (hcounted : r.Counted) (h : importOperation sql r db = .ok (a, db')) :
    (db.metaTable.get checksumKey = some r.checksum ∧ db' = db) ∨ Imported sql r db db' := by
  rw [importOperation] at h
  cases hprevious : db.metaTable.get checksumKey with
  | some previous =>
    rw [hprevious] at h
    dsimp only at h
    split at h
    · rename_i heq
      cases h
      exact .inl ⟨congrArg some heq, rfl⟩
    · cases h
  | none =>
    rw [hprevious] at h
    dsimp only at h
    split at h
    · cases h
    rename_i hexisting
    simp only [Counts.of, ne_eq, not_or, not_not] at hexisting
    have hempty := rows_of_count_zero hexisting.1
    have hempty' := rows_of_count_zero hexisting.2.1
    have hempty'' := rows_of_count_zero hexisting.2.2
    obtain ⟨connections, hconnections, h⟩ := bind_eq_ok.1 h
    obtain ⟨groups, hgroups, h⟩ := bind_eq_ok.1 h
    obtain ⟨replays, hreplays, h⟩ := bind_eq_ok.1 h
    split at h
    · cases h
    rename_i hcounts
    rw [ne_eq, not_not, hcounted, Counts.mk.injEq] at hcounts
    cases h
    exact .inr ⟨⟨hempty', hempty'', hempty⟩, filled importConnection_grows hempty' hconnections hcounts.2.1,
      filled importGroup_grows hempty'' hgroups hcounts.2.2, filled importReplay_grows hempty hreplays hcounts.1,
      rfl, rfl⟩

theorem importOperation_again (hcounted : r.Counted) (h : importOperation sql r db = .ok (a, db')) :
    importOperation sql r db' = .ok (some true, db') := by
  have hreceipt : db'.metaTable.get checksumKey = some r.checksum := by
    rcases importOperation_ok hcounted h with ⟨hfound, rfl⟩ | himported
    · exact hfound
    · rw [himported.receipt, KeyedTable.get_set, if_neg (by decide), KeyedTable.get_set, if_pos rfl]
  rw [importOperation, hreceipt]
  exact if_pos rfl

theorem importJsonState_spec (hcounted : r.Counted) (mishap : Option (Mishap Database Thrown)) (db : Database) :
    let result := importJsonState sql r mishap db
    result.2.working = none ∧
      ((result.2.committed = db ∧ result.1.isReturned = false) ∨
        (db.metaTable.get checksumKey = some r.checksum ∧ result.2.committed = db) ∨
        Imported sql r db result.2.committed) := by
  obtain ⟨hidle, hcommitted⟩ := transaction_spec (importOperation sql r) mishap db
  refine ⟨hidle, ?_⟩
  rcases hcommitted with ⟨hold, hthrew, -⟩ | ⟨a, db', hop, -, hnew, -⟩
  · exact .inl ⟨hold, hthrew⟩
  · rcases importOperation_ok hcounted hop with ⟨hfound, rfl⟩ | himported
    · exact .inr (.inl ⟨hfound, hnew⟩)
    · exact .inr (.inr (hnew ▸ himported))

/-! ## Runs of the migration -/

def importOnce (sql : Sqlite) (reader : Reader) (raw : List UInt8) (db : Database) : Database :=
  match importRequest reader raw with
  | none => db
  | some r => (importJsonState sql r none db).2.committed

def Interruption.commits (i : Interruption) : Bool := i.reads && Commits i.mishap

theorem importOnce_of_error (hr : importRequest reader raw = some r) (h : importOperation sql r db = .error e) :
    importOnce sql reader raw db = db := by
  simp only [importOnce, hr, importJsonState, transaction, Session.open_, h, Session.rollback]

theorem importOnce_of_ok (hr : importRequest reader raw = some r) (h : importOperation sql r db = .ok (a, db')) :
    importOnce sql reader raw db = db' := by
  simp only [importOnce, hr, importJsonState, transaction, Session.open_, h, Session.commit, Option.getD_some]

theorem importOnce_importOnce (sql : Sqlite) (reader : Reader) (raw : List UInt8) (db : Database) :
    importOnce sql reader raw (importOnce sql reader raw db) = importOnce sql reader raw db := by
  cases hr : importRequest reader raw with
  | none => simp only [importOnce, hr]
  | some r =>
    cases hop : importOperation sql r db with
    | error e => rw [importOnce_of_error hr hop, importOnce_of_error hr hop]
    | ok result =>
      obtain ⟨a, db'⟩ := result
      rw [importOnce_of_ok hr hop]
      exact importOnce_of_ok hr (importOperation_again (counted_of_importRequest hr) hop)

theorem migrateLegacyJson_spec (sql : Sqlite) (reader : Reader) (i : Interruption) (raw : List UInt8) (db : Database) :
    let d := migrateLegacyJson sql reader i ⟨db, some raw⟩
    d.database = (if i.commits then importOnce sql reader raw db else db) ∧
      (d.file = some raw ∨ (d.file = none ∧ i.commits = true)) := by
  cases hreads : i.reads with
  | false => simp [migrateLegacyJson, Interruption.commits, hreads]
  | true =>
    cases hr : importRequest reader raw with
    | none => simp [migrateLegacyJson, hreads, hr, importOnce]
    | some r =>
      obtain ⟨-, hcommitted⟩ := transaction_spec (importOperation sql r) i.mishap db
      have hrun : migrateLegacyJson sql reader i ⟨db, some raw⟩ =
          ⟨(importJsonState sql r i.mishap db).2.committed,
            if (importJsonState sql r i.mishap db).1.isReturned && i.answers && i.renames then none else some raw⟩ := by
        simp only [migrateLegacyJson, hreads, hr, Bool.not_true, Bool.false_eq_true, if_false]
      have hcommits : i.commits = Commits i.mishap := by rw [Interruption.commits, hreads, Bool.true_and]
      rw [hrun, hcommits]
      rcases hcommitted with ⟨hold, hthrew, hwhy⟩ | ⟨a, db', hop, hsurvives, hnew, -⟩
      · refine ⟨hold.trans ?_, .inl ?_⟩
        · rcases hwhy with hlost | ⟨e, herror⟩
          · rw [hlost, if_neg Bool.false_ne_true]
          · rw [importOnce_of_error hr herror, ite_self]
        · rw [importJsonState, hthrew]
          rfl
      · refine ⟨hnew.trans ?_, ?_⟩
        · rw [hsurvives, if_pos rfl, importOnce_of_ok hr hop]
        · split
          · exact .inr ⟨rfl, hsurvives⟩
          · exact .inl rfl

def migrations (sql : Sqlite) (reader : Reader) (runs : List Interruption) (d : Disk) : Disk :=
  runs.foldl (fun d i => migrateLegacyJson sql reader i d) d

theorem migrations_of_renamed (sql : Sqlite) (reader : Reader) (runs : List Interruption) (db : Database) :
    migrations sql reader runs ⟨db, none⟩ = ⟨db, none⟩ := by
  induction runs with
  | nil => rfl
  | cons i rest ih => exact ih

theorem migrations_spec (sql : Sqlite) (reader : Reader) (raw : List UInt8) (runs : List Interruption) (db : Database) :
    let d := migrations sql reader runs ⟨db, some raw⟩
    d.database = (if runs.any Interruption.commits then importOnce sql reader raw db else db) ∧
      (d.file = none → runs.any Interruption.commits = true) := by
  induction runs generalizing db with
  | nil => exact ⟨rfl, fun h => by cases h⟩
  | cons i rest ih =>
    obtain ⟨hdatabase, hfile⟩ := migrateLegacyJson_spec sql reader i raw db
    have hcons : migrations sql reader (i :: rest) ⟨db, some raw⟩ =
        migrations sql reader rest
          ⟨(migrateLegacyJson sql reader i ⟨db, some raw⟩).database,
            (migrateLegacyJson sql reader i ⟨db, some raw⟩).file⟩ := rfl
    rw [hcons, hdatabase, List.any_cons]
    rcases hfile with hkept | ⟨hrenamed, hcommits⟩
    · rw [hkept]
      cases hcommits : i.commits with
      | false => simpa using ih db
      | true =>
        -- what a second import does has been done by the first
        obtain ⟨hdatabase', -⟩ := ih (importOnce sql reader raw db)
        rw [importOnce_importOnce, ite_self] at hdatabase'
        exact ⟨hdatabase', fun _ => rfl⟩
    · rw [hrenamed, hcommits, migrations_of_renamed]
      exact ⟨rfl, fun _ => rfl⟩

/-- An import fails and changes nothing, finds its checksum, or fills empty tables with one row for
each entry; interrupted migrations end with a single import. -/
theorem migrateLegacyJson_once (sql : Sqlite) (reader : Reader) (raw : List UInt8) (db : Database) :
    (∀ r ∈ importRequest reader raw, ∀ mishap,
      let result := importJsonState sql r mishap db
      result.2.working = none ∧
        ((result.2.committed = db ∧ result.1.isReturned = false) ∨
          (db.metaTable.get checksumKey = some r.checksum ∧ result.2.committed = db) ∨
          Imported sql r db result.2.committed)) ∧
      ∀ runs,
        let d := migrations sql reader runs ⟨db, some raw⟩
        d.database = (if runs.any Interruption.commits then importOnce sql reader raw db else db) ∧
          (d.file = none → d.database = importOnce sql reader raw db) := by
  refine ⟨fun r hr mishap => importJsonState_spec (counted_of_importRequest hr) mishap db, fun runs => ?_⟩
  obtain ⟨hdatabase, hrenamed⟩ := migrations_spec sql reader raw runs db
  refine ⟨hdatabase, fun hfile => ?_⟩
  rw [hdatabase, if_pos (hrenamed hfile)]

def sampleFile : Json :=
  .obj [("version", .num 1),
    ("replays", .obj [("wechat\u0000c\u0000e", .obj [("state", .str "completed"), ("expiresAt", .num 5)])]),
    ("connections", .obj [("c", .obj [("id", .str "c"), ("channel", .str "wechat"), ("enabled", .bool true),
      ("status", .str "connected"), ("updatedAt", .str "2026-01-01T00:00:00.000Z")])])]

def sampleSql : Sqlite := ⟨fun _ => "", fun _ => none⟩

def sampleReader : Reader := ⟨fun _ => some sampleFile, fun _ => "checksum"⟩

theorem migrateLegacyJson_once_interrupted :
    let d := migrations sampleSql sampleReader [⟨true, none, true, false⟩, ⟨true, none, true, true⟩] ⟨.empty, some []⟩
    d.database = importOnce sampleSql sampleReader [] .empty ∧ d.file = none ∧
      d.database.connections.count = 1 ∧ d.database.replays.count = 1 := by
  have hdatabase := ((migrateLegacyJson_once sampleSql sampleReader [] .empty).2
    [⟨true, none, true, false⟩, ⟨true, none, true, true⟩]).1
  exact ⟨hdatabase, by decide, by decide, by decide⟩

end RyanAI.Gateway.StateDatabase
