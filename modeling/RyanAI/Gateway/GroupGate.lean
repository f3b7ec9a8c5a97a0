import RyanAI.Gateway.Delivery

/-!
# Groups that are answered

The gateway answers a group only if an administrator has enabled it. `handleClaimedSerial` of `gateway.ts` records the
group of an event, passes over an event that does not mention the bot, reads the row of the group, and calls the
transport if the row is enabled. The rows live behind the worker thread of `state-worker.ts`.

The row may be disabled before the gateway goes on with what it has read (`disabled_before_sent`). What holds in every
run (`group_gate`) is that the last thing a handling learns before it sends a group event is that the row is enabled,
and that a row becomes enabled through `patchGroup` and `importJsonState` only.
-/

namespace RyanAI.Gateway

open RyanAI.Lib
open RyanAI.Lib.Program

/-! ## The tables of the worker -/

/-- A row of `connections`. -/
structure ConnectionRow where
  channel : Channel
  enabled : Bool

/-- The tables, and the checksum in `meta` of the state file that was imported. -/
structure Tables where
  store : Store
  connections : KeyedTable String ConnectionRow
  migrated : Option String

structure GroupPatch where
  enabled : Option Bool
  name : Option String

structure JsonState where
  replays : KeyedTable String ReplayRow
  connections : List (String × ConnectionRow)
  groups : List (GroupKey × GroupRow)
  sourceCounts : Nat × Nat × Nat
  checksum : String

inductive AdminRequest where
  | upsertConnection (id : String) (row : ConnectionRow)
  | patchConnection (id : String) (enabled : Bool)
  | deleteConnection (id : String)
  | patchGroup (key : GroupKey) (patch : GroupPatch)
  | importJsonState (state : JsonState)

namespace Tables

/-- `INSERT OR IGNORE INTO groups`. -/
def insertGroup (groups : KeyedTable GroupKey GroupRow) (entry : GroupKey × GroupRow) : KeyedTable GroupKey GroupRow :=
  match groups.get entry.1 with
  | some _ => groups
  | none => groups.set entry.1 entry.2

def patchGroup (key : GroupKey) (patch : GroupPatch) (t : Tables) : Tables :=
  match t.store.groups.get key with
  | none => t
  | some row =>
    let next : GroupRow := ⟨patch.enabled.getD row.enabled, patch.name <|> row.name, row.lastSeenAt⟩
    { t with store := { t.store with groups := t.store.groups.set key next } }

variable (likeConnection : String → String → Bool)

/-- `deleteConnection`; `likeConnection` are the two `LIKE` patterns. -/
def deleteConnection (id : String) (t : Tables) : Tables :=
  match t.connections.get id with
  | none => t
  | some _ =>
    { t with
      connections := t.connections.delete id
      store := {
        groups := t.store.groups.filter fun key _ => decide (key.connectionId ≠ id)
        replays := t.store.replays.filter fun eventId _ => !likeConnection id eventId } }

/-- `importJsonState`. Where it throws, the transaction is rolled back. -/
def importJsonState (state : JsonState) (t : Tables) : Tables :=
  if t.migrated.isSome then t
  else if t.store.replays.entries.isEmpty && t.connections.entries.isEmpty && t.store.groups.entries.isEmpty then
    let connections := state.connections.foldl (fun table entry => table.set entry.1 entry.2) t.connections
    let groups := state.groups.foldl insertGroup t.store.groups
    if (state.replays.entries.length, connections.entries.length, groups.entries.length) = state.sourceCounts then
      ⟨⟨state.replays, groups⟩, connections, some state.checksum⟩
    else t
  else t

def admin (t : Tables) : AdminRequest → Tables
  | .upsertConnection id row => { t with connections := t.connections.set id row }
  | .patchConnection id enabled =>
    match t.connections.get id with
    | none => t
    | some row => { t with connections := t.connections.set id { row with enabled := enabled } }
  | .deleteConnection id => t.deleteConnection likeConnection id
  | .patchGroup key patch => t.patchGroup key patch
  | .importJsonState state => t.importJsonState state

end Tables

def Store.enabled (key : GroupKey) (st : Store) : Bool := (st.getGroup key).any GroupRow.enabled

def AdminRequest.Enables (key : GroupKey) : AdminRequest → Prop
  | .patchGroup key' patch => key' = key ∧ patch.enabled = some true
  | .importJsonState state => ∃ row, (key, row) ∈ state.groups ∧ row.enabled = true
  | _ => False

/-! ## What enables a group -/

variable {key : GroupKey} {st : Store} {t : Tables}

namespace Store

theorem enabled_eq_true : st.enabled key = true ↔ ∃ row, st.groups.get key = some row ∧ row.enabled = true := by
  rw [enabled, getGroup]
  cases st.groups.get key with
  | none => simp
  | some row => simp

theorem enabled_upsertGroup (key' : GroupKey) (hgroup : group.enabled = false)
    (h : (st.upsertGroup key' group).enabled key = true) : st.enabled key = true := by
  obtain ⟨row, hrow, henabled⟩ := enabled_eq_true.1 h
  simp only [upsertGroup, KeyedTable.get_set] at hrow
  split at hrow
  · rename_i hkey
    subst hkey
    cases hrow
    cases hget : st.groups.get key with
    | none =>
      rw [hget] at henabled
      simp [hgroup] at henabled
    | some old =>
      rw [hget] at henabled
      exact enabled_eq_true.2 ⟨old, hget, henabled⟩
  · exact enabled_eq_true.2 ⟨row, hrow, henabled⟩

end Store

def Request.Discovers : Request → Prop
  | .upsertGroup _ group => group.enabled = false
  | _ => True

namespace Store

theorem claimEvent_groups (ttl : Nat) (eventId : String) (now : ℤ) (st : Store) :
    (st.claimEvent ttl eventId now).2.groups = st.groups := by
  obtain ⟨_, _, -, heq⟩ | ⟨_, _, -, heq⟩ | ⟨-, heq⟩ := claimEvent_cases ttl eventId now st
  · rw [heq]
    rfl
  · rw [heq]
    rfl
  · rw [heq]
    rfl

theorem enabled_handle (hr : r.Discovers) (h : (st.handle ttl r).2.enabled key = true) : st.enabled key = true := by
  cases r with
  | purgeExpired now => exact h
  | claimEvent eventId now =>
    rw [enabled, getGroup, handle, claimEvent_groups] at h
    exact h
  | completeEvent eventId reply now =>
    rw [handle, completeEvent] at h
    split at h <;> exact h
  | releaseEvent eventId =>
    rw [handle, releaseEvent] at h
    split at h <;> exact h
  | upsertGroup key' group => exact enabled_upsertGroup key' hr h
  | getGroup key' => exact h

end Store

namespace Tables

theorem get_insertGroups {entries : List (GroupKey × GroupRow)} {groups : KeyedTable GroupKey GroupRow}
    (h : (entries.foldl insertGroup groups).get key = some row) :
    groups.get key = some row ∨ (key, row) ∈ entries := by
  induction entries generalizing groups with
  | nil => exact Or.inl h
  | cons entry rest ih =>
    rcases ih h with hget | hmem
    · rw [insertGroup] at hget
      split at hget
      · exact Or.inl hget
      rw [KeyedTable.get_set] at hget
      split at hget
      · rename_i hkey
        cases hget
        subst hkey
        exact Or.inr List.mem_cons_self
      · exact Or.inl hget
    · exact Or.inr (List.mem_cons_of_mem _ hmem)

theorem enabled_patchGroup (h : (t.patchGroup key' patch).store.enabled key = true) :
    t.store.enabled key = true ∨ (AdminRequest.patchGroup key' patch).Enables key := by
  rw [patchGroup] at h
  split at h
  · exact Or.inl h
  rename_i old hold
  obtain ⟨row, hrow, henabled⟩ := Store.enabled_eq_true.1 h
  simp only [KeyedTable.get_set] at hrow
  split at hrow
  · rename_i hkey
    subst hkey
    cases hrow
    cases hpatch : patch.enabled with
    | none =>
      rw [hpatch] at henabled
      exact Or.inl (Store.enabled_eq_true.2 ⟨old, hold, henabled⟩)
    | some value =>
      rw [hpatch] at henabled
      have hvalue : value = true := henabled
      exact Or.inr ⟨rfl, hvalue ▸ hpatch⟩
  · exact Or.inl (Store.enabled_eq_true.2 ⟨row, hrow, henabled⟩)

theorem enabled_importJsonState {state : JsonState} (h : (t.importJsonState state).store.enabled key = true) :
    t.store.enabled key = true ∨ (AdminRequest.importJsonState state).Enables key := by
  simp only [importJsonState] at h
  split at h
  · exact Or.inl h
  split at h
  · split at h
    · obtain ⟨row, hrow, henabled⟩ := Store.enabled_eq_true.1 h
      rcases get_insertGroups hrow with hget | hmem
      · exact Or.inl (Store.enabled_eq_true.2 ⟨row, hget, henabled⟩)
      · exact Or.inr ⟨row, hmem, henabled⟩
    · exact Or.inl h
  · exact Or.inl h

variable {likeConnection : String → String → Bool}

theorem enabled_admin
    (h : (t.admin likeConnection r).store.enabled key = true) : t.store.enabled key = true ∨ r.Enables key := by
  cases r with
  | upsertConnection id row => exact Or.inl h
  | patchConnection id enabled =>
    rw [admin] at h
    split at h <;> exact Or.inl h
  | deleteConnection id =>
    rw [admin, deleteConnection] at h
    split at h
    · exact Or.inl h
    · obtain ⟨row, hrow, henabled⟩ := Store.enabled_eq_true.1 h
      rw [KeyedTable.get_filter] at hrow
      exact Or.inl (Store.enabled_eq_true.2 ⟨row, (Option.filter_eq_some_iff.1 hrow).1, henabled⟩)
  | patchGroup key' patch => exact enabled_patchGroup h
  | importJsonState state => exact enabled_importJsonState h

end Tables

/-! ## What a handling asks for -/

abbrev LastRead := Option GroupKey

def afterAnswer : (e : Effect) → e.Answer → LastRead
  | .store (.getGroup key), .ok (some row) => if row.enabled then some key else none
  | _, _ => none

def mayAskGated (last : LastRead) : Effect → Prop
  | .send event => isGroup event = true → event.message.mentionsBot = true ∧ last = some (groupKey event)
  | .store r => r.Discovers
  | _ => True

def gateProtocol : Protocol Effect.Answer LastRead := ⟨mayAskGated, fun _ => afterAnswer⟩

abbrev Gated {α : Type} (last : LastRead) (p : Handler α) : Prop := p.Follows gateProtocol (fun _ _ => True) last

variable {last : LastRead}

theorem Gated.bind {α β : Type} {p : Handler α} {f : α → Handler β} (h : Gated last p) (hf : ∀ last a, Gated last (f a)) :
    Gated last (p >>= f) :=
  Follows.bind h (fun _ _ _ => trivial) fun last a _ => hf last a

theorem request_gated {r : Request} (hr : r.Discovers) (last : LastRead) : Gated last (Handler.request r) := by
  refine ⟨hr, ?_⟩
  intro answer
  cases answer with
  | ok value => trivial
  | failed reached => trivial

theorem finishWith_gated (key : String) (reply : GatewayReply) (last : LastRead) : Gated last (finishWith key reply) := by
  refine ⟨trivial, ?_⟩
  intro now
  refine ⟨trivial, ?_⟩
  intro answer
  cases answer with
  | ok value => trivial
  | failed reached => trivial

theorem discoverGroup_gated (event : GatewayInboundEvent) (last : LastRead) : Gated last (discoverGroup event) := by
  cases hgroup : isGroup event with
  | true =>
    simp only [discoverGroup, hgroup]
    apply request_gated
    exact Eq.refl false
  | false =>
    simp only [discoverGroup, hgroup]
    trivial

theorem groupDisabled_follows_gate (event : GatewayInboundEvent) (last : LastRead) :
    (groupDisabled event).Follows gateProtocol
      (fun last result => result = .ok false → isGroup event = true → last = some (groupKey event)) last := by
  rw [groupDisabled]
  split
  · refine ⟨trivial, ?_⟩
    intro answer
    cases answer with
    | failed reached =>
      intro h
      cases h
    | ok group =>
      cases group with
      | none =>
        intro h
        cases h
      | some row =>
        cases henabled : row.enabled with
        | false =>
          intro h
          simp [henabled] at h
        | true =>
          intro _ _
          show afterAnswer (.store (.getGroup (groupKey event))) (.ok (some row)) = _
          rw [afterAnswer, if_pos henabled]
  · rename_i hgroup
    intro _ h
    exact absurd h hgroup

theorem recover_gated (cfg : Config) (event : GatewayInboundEvent) (key : String) (error : Thrown) (last : LastRead) :
    Gated last (recover cfg event key error) := by
  rw [recover]
  split
  · apply (finishWith_gated key _ last).bind
    intro last reply
    exact ⟨trivial, fun _ => trivial⟩
  obtain ⟨reply, hreply⟩ := safeError_ok cfg event.eventId event.channel false
  rw [hreply]
  split
  · apply (@request_gated (.releaseEvent key) trivial last).bind
    intro last _
    trivial
  · exact finishWith_gated key reply last

theorem deliver_gated (cfg : Config) (key : String)
    (h : isGroup event = true → event.message.mentionsBot = true ∧ last = some (groupKey event)) :
    Gated last (deliver cfg event key) := by
  have hattempt : Gated last (Handler.send event >>= fun result => Handler.lift (replyTo cfg event result)) := by
    refine ⟨h, ?_⟩
    intro answer
    cases answer with
    | ok result => trivial
    | error error => trivial
  apply hattempt.andThen
  intro last result _
  cases result with
  | ok reply => exact finishWith_gated key reply last
  | error error => exact recover_gated cfg event key error last

theorem handleClaimedSerial_gated (cfg : Config) (event : GatewayInboundEvent) (key : String) (last : LastRead) :
    Gated last (handleClaimedSerial cfg event key) := by
  apply (discoverGroup_gated event last).bind
  intro last _
  split
  · exact finishWith_gated key _ last
  rename_i hmentions
  apply (groupDisabled_follows_gate event last).bind
  · intro last err _
    trivial
  intro last disabled hread
  split
  · exact finishWith_gated key _ last
  rename_i hdisabled
  apply deliver_gated
  intro hgroup
  refine ⟨?_, hread (by simp [hdisabled]) hgroup⟩
  simpa [hgroup] using hmentions

theorem handleClaimed_gated (cfg : Config) (event : GatewayInboundEvent) (key : String) (last : LastRead) :
    Gated last (handleClaimed cfg event key) := by
  have hqueues : Gated last (Handler.runFair event.connectionId (eventPayloadBytes event)
      (Handler.runSerial (conversationKey event) (handleClaimedSerial cfg event key))) := by
    refine ⟨trivial, ?_⟩
    intro admitted
    cases admitted with
    | error code => trivial
    | ok _ =>
      refine ⟨trivial, ?_⟩
      intro turn
      cases turn with
      | error error => trivial
      | ok _ => exact handleClaimedSerial_gated cfg event key _
  apply hqueues.tryCatch
  · intro last reply _
    trivial
  intro last err _
  split
  · obtain ⟨reply, hreply⟩ := safeError_ok cfg event.eventId event.channel false
    rw [hreply]
    exact finishWith_gated key reply last
  · trivial

theorem handleSafely_gated (cfg : Config) (validateEvent : GatewayInboundEvent → Except Thrown GatewayInboundEvent)
    (input : GatewayInboundEvent) (last : LastRead) : Gated last (handleSafely cfg validateEvent input) := by
  have hvalidated : Gated last (handleValidated cfg validateEvent input) := by
    rw [handleValidated]
    cases validateEvent input with
    | error err => trivial
    | ok event =>
      refine ⟨trivial, ?_⟩
      intro now
      refine ⟨trivial, ?_⟩
      intro answer
      cases answer with
      | failed reached => trivial
      | ok claim =>
        cases claim with
        | completed stored => trivial
        | processing =>
          obtain ⟨reply, hreply⟩ := safeError_ok cfg event.eventId event.channel true
          rw [hreply]
          trivial
        | new => exact handleClaimed_gated cfg event _ _
  apply hvalidated.tryCatch
  · intro last reply _
    trivial
  · intro last err _
    trivial

/-! ## The system -/

inductive Handling where
  | waiting (p : Handler GatewayReply)
  | answered (p : Handler GatewayReply)

def Handling.program : Handling → Handler GatewayReply
  | .waiting p => p
  | .answered p => p

/-- A row is read, or an event is sent; `enabled` is the row at that time. -/
inductive GateHappening where
  | started (task : String)
  | read (task : String) (group : GroupKey) (enabled : Bool)
  | asked (task : String)
  | sent (task : String) (event : GatewayInboundEvent) (enabled : Bool)
  | admin (r : AdminRequest)

def GateHappening.task : GateHappening → Option String
  | .started task => some task
  | .read task _ _ => some task
  | .asked task => some task
  | .sent _ _ _ => none
  | .admin _ => none

def shown (task : String) : (e : Effect) → e.Answer → GateHappening
  | .store (.getGroup key), .ok row => .read task key (Option.any GroupRow.enabled row)
  | _, _ => .asked task

/-- The tables, `inFlightEvents`, and the history of the gate. -/
structure GateSystem where
  tables : Tables
  inFlight : KeyedTable String Handling
  history : List GateHappening

/-- `answer` answers the question of a handling, `resume` lets it go on. -/
inductive GateMove where
  | deliver (input : GatewayInboundEvent) (validated : Except Thrown GatewayInboundEvent)
  | answer (task : String) (o : Outside)
  | resume (task : String)
  | settle (task : String)
  | admin (r : AdminRequest)
  | purge (now : ℤ)
  | restart

namespace GateSystem

def start (t : Tables) : GateSystem := ⟨t, .empty, []⟩

def sends (task : String) (st : Store) : Handler GatewayReply → List GateHappening
  | .ask (.send event) _ => [.sent task event (st.enabled (groupKey event))]
  | _ => []

def goOn (task : String) (p : Handler GatewayReply) (s : GateSystem) : GateSystem :=
  { s with
    inFlight := s.inFlight.set task (.waiting p)
    history := s.history ++ sends task s.tables.store p }

variable (cfg : Config) (ttl : Nat) (likeConnection : String → String → Bool)

def step (s : GateSystem) : GateMove → Option GateSystem
  | .deliver input validated =>
    let task := eventKey input
    match s.inFlight.get task with
    | some _ => some s
    | none =>
      some (goOn task (handleSafely cfg (fun _ => validated) input)
        { s with history := s.history ++ [.started task] })
  | .answer task o =>
    match s.inFlight.get task with
    | some (.waiting (.ask e next)) =>
      let (answer, st) := o.respond ttl s.tables.store e
      some { tables := { s.tables with store := st }
             inFlight := s.inFlight.set task (.answered (next answer))
             history := s.history ++ [shown task e answer] }
    | _ => none
  | .resume task =>
    match s.inFlight.get task with
    | some (.answered p) => some (s.goOn task p)
    | _ => none
  | .settle task =>
    match s.inFlight.get task with
    | some (.waiting (.done _)) => some { s with inFlight := s.inFlight.delete task }
    | _ => none
  | .admin r =>
    some { s with
      tables := s.tables.admin likeConnection r
      history := s.history ++ [.admin r] }
  | .purge now => some { s with tables := { s.tables with store := s.tables.store.purgeExpired now } }
  -- the handlings are lost, the tables are kept
  | .restart => some { s with inFlight := .empty }

end GateSystem

/-! ## The gate is kept -/

def lastRead (task : String) : LastRead → GateHappening → LastRead
  | last, .read task' group enabled => if task' = task then (if enabled then some group else none) else last
  | last, x => if x.task = some task then none else last

def readBy (task : String) (history : List GateHappening) : LastRead := history.foldl (lastRead task) none

def GateKept (history : List GateHappening) : Prop :=
  ∀ before task event enabled after, history = before ++ .sent task event enabled :: after → isGroup event = true →
    event.message.mentionsBot = true ∧
      ∃ earlier since, before = earlier ++ .read task (groupKey event) true :: since ∧ ∀ x ∈ since, x.task ≠ some task

section History

variable {task : String} {history : List GateHappening} {x : GateHappening}

theorem readBy_append : readBy task (history ++ [x]) = lastRead task (readBy task history) x := by
  rw [readBy, List.foldl_append]
  rfl

theorem lastRead_of_ne (h : x.task ≠ some task) : lastRead task last x = last := by
  cases x with
  | read task' group enabled =>
    have hne : task' ≠ task := by
      rintro rfl
      exact h rfl
    rw [lastRead, if_neg hne]
  | started task' => exact @if_neg _ _ h _ none last
  | asked task' => exact @if_neg _ _ h _ none last
  | sent task' event enabled => exact @if_neg _ _ h _ none last
  | admin r => exact @if_neg _ _ h _ none last

theorem exists_read (h : readBy task history = some group) :
    ∃ earlier since, history = earlier ++ .read task group true :: since ∧ ∀ y ∈ since, y.task ≠ some task := by
  induction history using List.reverseRecOn with
  | nil => cases h
  | append_singleton history x ih =>
    rw [readBy_append] at h
    by_cases hx : x.task = some task
    · cases x with
      | read task' group' enabled =>
        have htask : task' = task := Option.some.inj hx
        subst htask
        rw [lastRead, if_pos rfl] at h
        split at h
        · rename_i henabled
          cases h
          refine ⟨history, [], by rw [henabled], ?_⟩
          intro y hy
          cases hy
        · cases h
      | started task' => cases (if_pos hx).symm.trans h
      | asked task' => cases (if_pos hx).symm.trans h
      | sent task' event enabled => cases hx
      | admin r => cases hx
    · rw [lastRead_of_ne hx] at h
      obtain ⟨earlier, since, rfl, hsince⟩ := ih h
      refine ⟨earlier, since ++ [x], by simp, ?_⟩
      intro y hy
      rcases List.mem_append.1 hy with hy | hy
      · exact hsince y hy
      · rw [List.mem_singleton.1 hy]
        exact hx

theorem lastRead_shown (last : LastRead) (e : Effect) (answer : e.Answer) :
    lastRead task last (shown task e answer) = afterAnswer e answer := by
  have hasked : lastRead task last (.asked task) = none := if_pos rfl
  cases e with
  | store r =>
    cases r with
    | getGroup key =>
      cases answer with
      | failed reached => exact hasked
      | ok row =>
        cases row with
        | none =>
          show lastRead task last (.read task key false) = none
          rw [lastRead, if_pos rfl, if_neg (by decide)]
        | some row =>
          show lastRead task last (.read task key row.enabled) = if row.enabled then some key else none
          rw [lastRead, if_pos rfl]
    | _ => exact hasked
  | _ => exact hasked

theorem shown_task (e : Effect) (answer : e.Answer) : (shown task e answer).task = some task := by
  cases e with
  | store r =>
    cases r with
    | getGroup key => cases answer <;> rfl
    | _ => rfl
  | _ => rfl

theorem gateKept_nil : GateKept [] := by
  intro before task event enabled after h
  cases before <;> cases h

theorem GateKept.append (h : GateKept history)
    (hx : ∀ task event enabled, x = .sent task event enabled → isGroup event = true →
      event.message.mentionsBot = true ∧ readBy task history = some (groupKey event)) : GateKept (history ++ [x]) := by
  intro before task event enabled after heq hgroup
  rcases List.eq_nil_or_concat after with rfl | ⟨after, y, rfl⟩
  · obtain ⟨hbefore, hlast⟩ := List.append_inj' heq rfl
    obtain ⟨hmentions, hread⟩ := hx task event enabled (List.cons.inj hlast).1 hgroup
    exact ⟨hmentions, exists_read (hbefore ▸ hread)⟩
  · have hcut : history ++ [x] = (before ++ .sent task event enabled :: after) ++ [y] := by simpa using heq
    obtain ⟨rfl, -⟩ := List.append_inj' hcut rfl
    exact h before task event enabled after rfl hgroup

end History

structure GateInvariant (s : GateSystem) : Prop where
  kept : GateKept s.history
  gated : ∀ task handling, s.inFlight.get task = some handling → Gated (readBy task s.history) handling.program

variable {s : GateSystem}

namespace GateSystem

variable {cfg : Config} {ttl : Nat} {likeConnection : String → String → Bool}

theorem start_invariant (t : Tables) : GateInvariant (start t) where
  kept := gateKept_nil
  gated := by
    intro task handling h
    cases h

theorem gated_append (h : GateInvariant s) (hx : ∀ other, x.task = some other → other = task) (hne : other ≠ task)
    (hget : s.inFlight.get other = some handling) : Gated (readBy other (s.history ++ [x])) handling.program := by
  rw [readBy_append, lastRead_of_ne]
  · exact h.gated other handling hget
  · intro heq
    exact hne (hx other heq)

theorem goOn_invariant (hkept : GateKept s.history)
    (hothers : ∀ other handling, other ≠ task → s.inFlight.get other = some handling →
      Gated (readBy other s.history) handling.program) (hp : Gated (readBy task s.history) p) :
    GateInvariant (s.goOn task p) := by
  have hreads : ∀ other, readBy other (s.history ++ sends task s.tables.store p) = readBy other s.history := by
    intro other
    cases p with
    | done result => exact congrArg (readBy other) (List.append_nil _)
    | ask e next =>
      cases e with
      | send event =>
        rw [sends, readBy_append, lastRead_of_ne]
        intro heq
        cases heq
      | _ => exact congrArg (readBy other) (List.append_nil _)
  refine ⟨?_, ?_⟩
  · show GateKept (s.history ++ sends task s.tables.store p)
    cases p with
    | done result => exact (List.append_nil s.history).symm ▸ hkept
    | ask e next =>
      cases e with
      | send event =>
        apply hkept.append
        intro task' event' enabled' heq hgroup
        cases heq
        exact hp.1 hgroup
      | _ => exact (List.append_nil s.history).symm ▸ hkept
  · intro other handling hget
    show Gated (readBy other (s.history ++ sends task s.tables.store p)) handling.program
    rw [hreads]
    simp only [goOn, KeyedTable.get_set] at hget
    split at hget
    · rename_i heq
      cases hget
      rw [heq]
      exact hp
    · rename_i hne
      exact hothers other handling hne hget

theorem step_invariant (s : GateSystem) (m : GateMove) (s' : GateSystem) (h : GateInvariant s) (_ : True)
    (hstep : step cfg ttl likeConnection s m = some s') : GateInvariant s' := by
  cases m with
  | deliver input validated =>
    simp only [step] at hstep
    split at hstep
    · cases hstep
      exact h
    cases hstep
    apply goOn_invariant
    · apply h.kept.append
      intro task event enabled heq
      cases heq
    · intro other handling hne hget
      apply gated_append h _ hne hget
      intro task heq
      exact (Option.some.inj heq).symm
    · exact handleSafely_gated cfg _ input _
  | answer task o =>
    simp only [step] at hstep
    split at hstep
    · rename_i e next hget
      cases hstep
      refine ⟨?_, ?_⟩
      · apply h.kept.append
        intro task' event enabled heq
        have htask : (shown task e (o.respond ttl s.tables.store e).1).task = some task := shown_task e _
        rw [heq] at htask
        cases htask
      intro other handling hother
      simp only [KeyedTable.get_set] at hother
      split at hother
      · rename_i heq
        cases hother
        subst heq
        rw [readBy_append, lastRead_shown]
        exact (h.gated _ _ hget).2 _
      · rename_i hne
        apply gated_append h _ hne hother
        intro task' htask
        rw [shown_task] at htask
        exact (Option.some.inj htask).symm
    · cases hstep
  | resume task =>
    simp only [step] at hstep
    split at hstep
    · rename_i p hget
      cases hstep
      exact goOn_invariant h.kept (fun other handling _ hother => h.gated other handling hother) (h.gated _ _ hget)
    · cases hstep
  | settle task =>
    simp only [step] at hstep
    split at hstep
    · cases hstep
      refine ⟨h.kept, ?_⟩
      intro other handling hother
      simp only [KeyedTable.get_delete] at hother
      split at hother
      · cases hother
      · exact h.gated other handling hother
    · cases hstep
  | admin r =>
    cases hstep
    refine ⟨?_, ?_⟩
    · apply h.kept.append
      intro task event enabled heq
      cases heq
    · intro other handling hother
      rw [readBy_append, lastRead_of_ne (by simp [GateHappening.task])]
      exact h.gated other handling hother
  | purge now =>
    cases hstep
    exact ⟨h.kept, h.gated⟩
  | restart =>
    cases hstep
    refine ⟨h.kept, ?_⟩
    intro other handling hother
    cases hother

end GateSystem

theorem GateSystem.enables (h : GateInvariant s) (hstep : s.step cfg ttl likeConnection m = some s')
    (hbefore : s.tables.store.enabled key = false) (hafter : s'.tables.store.enabled key = true) :
    ∃ r, m = .admin r ∧ r.Enables key := by
  have hkept : ¬ s.tables.store.enabled key = true := by simp [hbefore]
  cases m with
  | admin r =>
    cases hstep
    rcases Tables.enabled_admin hafter with henabled | henables
    · exact absurd henabled hkept
    · exact ⟨r, rfl, henables⟩
  | answer task o =>
    simp only [step] at hstep
    split at hstep
    · rename_i e next hget
      cases hstep
      exfalso
      apply hkept
      cases e with
      | store r =>
        have hdiscovers : r.Discovers := (h.gated _ _ hget).1
        simp only [Outside.respond] at hafter
        split at hafter
        · exact Store.enabled_handle hdiscovers hafter
        · split at hafter
          · exact Store.enabled_handle hdiscovers hafter
          · exact hafter
      | _ => exact hafter
    · cases hstep
  | deliver input validated =>
    simp only [step] at hstep
    split at hstep <;> cases hstep <;> exact absurd hafter hkept
  | resume task =>
    simp only [step] at hstep
    split at hstep <;> cases hstep
    exact absurd hafter hkept
  | settle task =>
    simp only [step] at hstep
    split at hstep <;> cases hstep
    exact absurd hafter hkept
  | purge now =>
    cases hstep
    exact absurd hafter hkept
  | restart =>
    cases hstep
    exact absurd hafter hkept

/-- A sent group event mentions the bot and has just read its row as enabled, and only patches and
imports enable rows. -/
theorem group_gate (cfg : Config) (ttl : Nat) (likeConnection : String → String → Bool) (t : Tables)
    {moves : List GateMove} {s : GateSystem}
    (h : Machine.AnyRun (GateSystem.step cfg ttl likeConnection) (.start t) moves s) :
    GateKept s.history ∧
      ∀ m s' key, s.step cfg ttl likeConnection m = some s' → s.tables.store.enabled key = false →
        s'.tables.store.enabled key = true → ∃ r, m = .admin r ∧ r.Enables key := by
  have hinv : GateInvariant s := h.invariant GateSystem.step_invariant (GateSystem.start_invariant t)
  exact ⟨hinv.kept, fun m s' key hstep => GateSystem.enables hinv hstep⟩

/-! ### Sample runs -/

def sampleGroup : GroupKey := ⟨.qq, "c1", "g1"⟩

def sampleGroupEvent : GatewayInboundEvent :=
  ⟨"e1", 0, .qq, "c1", none, ⟨.group, "g1", none⟩, "u1", ⟨"hello", true⟩, []⟩

def sampleTables : Tables :=
  ⟨⟨.empty, KeyedTable.empty.set sampleGroup ⟨true, none, 0⟩⟩, KeyedTable.empty.set "c1" ⟨.qq, true⟩, none⟩

def promptOutside : Outside := ⟨0, .ok (), .ok (), .ok ⟨some "hi", none⟩, none⟩

def sampleTask : String := eventKey sampleGroupEvent

def movesToRead : List GateMove :=
  let ask := [.answer sampleTask promptOutside, .resume sampleTask]
  .deliver sampleGroupEvent (.ok sampleGroupEvent) :: ask ++ ask ++ ask ++ ask ++ ask ++
    [.answer sampleTask promptOutside]

def sampleStep : GateSystem → GateMove → Option GateSystem := GateSystem.step sampleConfig 0 fun _ _ => false

def sentIn (moves : List GateMove) : List (GroupKey × Bool) :=
  ((Machine.exec sampleStep (.start sampleTables) moves).elim [] GateSystem.history).filterMap fun
    | .sent _ event enabled => if isGroup event then some (groupKey event, enabled) else none
    | _ => none

theorem run_of_sentIn {moves : List GateMove} {key : GroupKey} {enabled : Bool} (h : (key, enabled) ∈ sentIn moves) :
    ∃ s task event, Machine.AnyRun sampleStep (.start sampleTables) moves s ∧
      .sent task event enabled ∈ s.history ∧ isGroup event = true ∧ groupKey event = key := by
  rw [sentIn] at h
  cases hexec : Machine.exec sampleStep (.start sampleTables) moves with
  | none =>
    rw [hexec] at h
    cases h
  | some s =>
    rw [hexec] at h
    obtain ⟨x, hx, hsent⟩ := List.mem_filterMap.1 h
    cases x with
    | sent task event enabled' =>
      obtain ⟨hgroup, heq⟩ := Option.ite_none_right_eq_some.1 hsent
      cases heq
      exact ⟨s, task, event, Machine.anyRun_of_exec hexec, hx, hgroup, rfl⟩
    | _ => cases hsent

theorem group_gate_sample :
    ∃ s task event, Machine.AnyRun sampleStep (.start sampleTables) (movesToRead ++ [.resume sampleTask]) s ∧
      .sent task event true ∈ s.history ∧ isGroup event = true ∧ GateKept s.history := by
  obtain ⟨s, task, event, hrun, hsent, hgroup, -⟩ := @run_of_sentIn (movesToRead ++ [.resume sampleTask]) sampleGroup true
    (by decide)
  exact ⟨s, task, event, hrun, hsent, hgroup, (group_gate sampleConfig 0 (fun _ _ => false) sampleTables hrun).1⟩

/-- The row is disabled before its answer arrives, and the event is sent. -/
theorem disabled_before_sent : ∃ s task event,
      Machine.AnyRun sampleStep (.start sampleTables)
        (movesToRead ++ [.admin (.patchGroup sampleGroup ⟨some false, none⟩), .resume sampleTask]) s ∧
      .sent task event false ∈ s.history ∧ isGroup event = true ∧ groupKey event = sampleGroup :=
  run_of_sentIn (by decide)

end RyanAI.Gateway
