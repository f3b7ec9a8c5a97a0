import RyanAI.Lib.OrderedMap
import RyanAI.Lib.Machine
import Mathlib.Data.List.Sort

/-!
# Timers

A timer is a row of the chat table that waits to put its prompt into a parent chat. Workers claim due timers and start
one execution for each claim; an event of the owner in the parent chat cancels the timers that list it. The steps are
the database accesses on PostgreSQL:

* `claim_due_timers` locks the rows it selects until it commits, one step; rows locked by others are skipped,
* `cancel_timers_for_chat` selects without a lock (`cancelRead`) and writes what it has read (`cancelWrite`),
* `execute_due_timer` reads the timer (`check`), looks up what it needs (`prepare`), reads the timer again under the
  lock of the parent (`lockParent`) and writes what it has read (`commit`); then the completion runs, and fails or not.

A write replaces the whole `meta` of the row. Locks inside one process and the lock on the parent row are not used:
steps of several workers come in any order.
-/

namespace RyanAI.Chat.Timers

open RyanAI.Lib

/-! ## Rows -/

/-- `chat.read` and `chat.user_message`. -/
inductive Event where
  | read
  | userMessage
  deriving DecidableEq

inductive Status where
  | pending
  | running
  | cancelled
  | completed
  | error
  deriving DecidableEq

/-- The part of `meta` that `create_timer` writes once. -/
structure Task where
  parentChatId : String
  parentMessageId : Option String
  dueAt : ℤ
  timerModelId : Option String
  runModelId : Option String
  cancelOn : List Event
  deriving DecidableEq

/-- The `meta` of a timer. -/
structure Record where
  task : Task
  status : Status
  claimId : Option String
  startedAt : Option ℤ
  cancelledAt : Option ℤ
  cancelledBy : Option Event
  completedAt : Option ℤ
  error : Option String
  deriving DecidableEq

structure Timer where
  userId : String
  timerAt : Option ℤ
  record : Record
  deriving DecidableEq

abbrev Rows := KeyedTable String Timer

/-- `create_timer`. -/
def newTimer (userId : String) (task : Task) : Timer :=
  ⟨userId, some task.dueAt, ⟨task, .pending, none, none, none, none, none, none⟩⟩

def writeRow (id : String) (f : Timer → Timer) (rows : Rows) : Rows :=
  rows.map fun key timer => if key = id then f timer else timer

def isDue (now : ℤ) (timer : Timer) : Bool :=
  match timer.timerAt with
  | some dueAt => decide (dueAt ≤ now) && decide (timer.record.status = .pending)
  | none => false

def dueTimers (now : ℤ) (limit : ℕ) (locked : String → Bool) (rows : Rows) : List (String × Timer) :=
  let due := rows.entries.filter fun entry => isDue now entry.2 && !locked entry.1
  (due.insertionSort fun a b => a.2.timerAt.getD 0 ≤ b.2.timerAt.getD 0).take limit

def claimRow (now : ℤ) (claimId : String) (timer : Timer) : Timer :=
  { timer with
    timerAt := none
    record := { timer.record with status := .running, startedAt := some now, claimId := some claimId } }

structure Cancellation where
  event : Event
  selected : Rows

def selectTimers (userId chatId : String) (rows : Rows) : Rows :=
  rows.filter fun _ timer => timer.timerAt.isSome && decide (timer.userId = userId) &&
    decide (timer.record.task.parentChatId = chatId) && decide (timer.record.status = .pending)

def cancelRow (now : ℤ) (cancellation : Cancellation) (id : String) (timer : Timer) : Timer :=
  match cancellation.selected.get id with
  | some seen =>
    if cancellation.event ∈ seen.record.task.cancelOn then
      { timer with
        timerAt := none
        record := { seen.record with
          status := .cancelled
          cancelledAt := some now
          cancelledBy := some cancellation.event } }
    else timer
  | none => timer

/-! ## `execute_due_timer` -/

inductive TimerError where
  | parentMissing
  | promptMissing
  | userMissing
  | notPermitted
  | modelMissing
  | completionFailed (detail : String)
  deriving DecidableEq

/-- The `timer_error` that is stored. -/
def TimerError.text : TimerError → String
  | .parentMissing => "parent chat no longer exists"
  | .promptMissing => "timer task message is missing"
  | .userMissing => "timer user no longer exists"
  | .notPermitted => "owner no longer permitted to run timers"
  | .modelMissing => "model context is missing"
  | .completionFailed detail => String.ofList (detail.toList.take 500)

/-- Read before the parent is locked: the parent chat, the prompt and the user's role. -/
structure Lookups where
  parentFound : Bool
  prompt : Option String
  role : Option String

/-- `run.get('model_id') or meta.get('timer_model_id')`. -/
def modelId (task : Task) : Option String :=
  match task.runModelId.filter (· ≠ "") with
  | some model => some model
  | none => task.timerModelId.filter (· ≠ "")

def prepare (lookups : Lookups) (task : Task) : Except TimerError (String × String) :=
  if !lookups.parentFound then .error .parentMissing
  else
    match lookups.prompt with
    | none => .error .promptMissing
    | some prompt =>
      match lookups.role with
      | none => .error .userMissing
      | some role =>
        if role ∉ ["user", "admin"] then .error .notPermitted
        else
          match modelId task with
          | none => .error .modelMissing
          | some model => .ok (model, prompt)

structure ParentMessage where
  id : String
  role : String
  done : Option Bool
  timestamp : ℤ

def newest : List ParentMessage → Option ParentMessage
  | [] => none
  | message :: rest =>
    match newest rest with
    | none => some message
    | some other => if message.timestamp < other.timestamp then some other else some message

def promptParent (messages : List ParentMessage) (task : Task) : Option String :=
  match newest (messages.filter fun m => decide (m.role = "assistant") && decide (m.done ≠ some false)) with
  | some message => some message.id
  | none => task.parentMessageId

structure Turn where
  chatId : String
  timerId : String
  prompt : String
  modelId : String
  parentId : Option String
  userMessageId : String
  assistantMessageId : String
  deriving DecidableEq

inductive Phase where
  | started
  | checked (seen : Record)
  | prepared (seen : Record) (model prompt : String)
  | requeueing (read : Option Record)
  | inserting (read : Option Record) (turn : Turn)
  | inserted
  | failing (error : TimerError) (read : Option Record)

structure Execution where
  timerId : String
  claimId : String
  phase : Phase

structure Parent where
  messages : Option (List ParentMessage)
  busy : Bool
  userMessageId : String
  assistantMessageId : String

def lockParent (parent : Parent) (timerId : String) (seen : Record) (model prompt : String)
    (read : Option Record) : Phase :=
  match parent.messages with
  | none => .failing .parentMissing read
  | some messages =>
    if parent.busy then .requeueing read
    else
      .inserting read ⟨seen.task.parentChatId, timerId, prompt, model, promptParent messages seen.task,
        parent.userMessageId, parent.assistantMessageId⟩

def requeueRow (read : Record) (timer : Timer) : Timer :=
  { timer with
    timerAt := some read.task.dueAt
    record := { read with status := .pending, claimId := none, startedAt := none } }

def completeRow (now : ℤ) (read : Record) (timer : Timer) : Timer :=
  { timer with record := { read with status := .completed, completedAt := some now } }

/-- `_set_timer_state` with an error. -/
def failRow (error : TimerError) (read : Record) (timer : Timer) : Timer :=
  { timer with record := { read with status := .error, error := some error.text } }

/-! ## Several workers -/

inductive Entry where
  | created (id userId : String) (task : Task)
  | produced (userId chatId : String) (event : Event)
  | inserted (turn : Turn)
  deriving DecidableEq

structure World where
  rows : Rows
  cancellations : List Cancellation
  executions : List Execution
  log : List Entry

def World.empty : World := ⟨KeyedTable.empty, [], [], []⟩

inductive Op where
  | create (id userId : String) (task : Task)
  | claim (now : ℤ) (limit : ℕ) (locked : String → Bool) (claimId : String → String)
  | cancelRead (userId chatId : String) (event : Event)
  | cancelWrite (i : ℕ) (now : ℤ)
  | check (i : ℕ)
  | prepare (i : ℕ) (lookups : Lookups)
  | lockParent (i : ℕ) (parent : Parent)
  | commit (i : ℕ) (now : ℤ)
  | completionFailed (i : ℕ) (detail : String)
  | completionDone (i : ℕ)

def World.read (world : World) (id : String) : Option Record := (world.rows.get id).map Timer.record

def World.advance (world : World) (i : ℕ) (execution : Execution) (phase : Phase) : World :=
  { world with executions := world.executions.set i { execution with phase := phase } }

def World.leave (world : World) (i : ℕ) : World := { world with executions := world.executions.eraseIdx i }

def World.write (world : World) (id : String) (f : Record → Timer → Timer) (read : Option Record) : World :=
  match read with
  | some record => { world with rows := writeRow id (f record) world.rows }
  | none => world

def commit (world : World) (i : ℕ) (now : ℤ) (execution : Execution) : Option World :=
  match execution.phase with
  | .requeueing read => some ((world.write execution.timerId requeueRow read).leave i)
  | .inserting read turn =>
    let world := (world.write execution.timerId (completeRow now) read).advance i execution .inserted
    some { world with log := .inserted turn :: world.log }
  | .failing error read => some ((world.write execution.timerId (failRow error) read).leave i)
  | _ => none

def isClaimed (claimId : String) (record : Record) : Bool :=
  decide (record.status = .running) && decide (record.claimId = some claimId)

def step (world : World) : Op → Option World
  | .create id userId task =>
    if (world.rows.get id).isSome then none
    else
      some { world with
        rows := world.rows.set id (newTimer userId task)
        log := .created id userId task :: world.log }
  | .claim now limit locked claimId =>
    let claimed := (dueTimers now limit locked world.rows).map Prod.fst
    some { world with
      rows := world.rows.map fun id timer => if id ∈ claimed then claimRow now (claimId id) timer else timer
      executions := world.executions ++ claimed.map fun id => ⟨id, claimId id, .started⟩ }
  | .cancelRead userId chatId event =>
    some { world with
      cancellations := world.cancellations ++ [⟨event, selectTimers userId chatId world.rows⟩]
      log := .produced userId chatId event :: world.log }
  | .cancelWrite i now =>
    match world.cancellations[i]? with
    | none => none
    | some cancellation =>
      some { world with
        rows := world.rows.map (cancelRow now cancellation)
        cancellations := world.cancellations.eraseIdx i }
  | .check i =>
    match world.executions[i]? with
    | some execution =>
      match execution.phase, world.read execution.timerId with
      | .started, some record =>
        if isClaimed execution.claimId record then some (world.advance i execution (.checked record))
        else some (world.leave i)
      | .started, none => some (world.leave i)
      | _, _ => none
    | none => none
  | .prepare i lookups =>
    match world.executions[i]? with
    | some execution =>
      match execution.phase with
      | .checked seen =>
        match prepare lookups seen.task with
        | .error error =>
          some (world.advance i execution (.failing error (world.read execution.timerId)))
        | .ok (model, prompt) => some (world.advance i execution (.prepared seen model prompt))
      | _ => none
    | none => none
  | .lockParent i parent =>
    match world.executions[i]? with
    | some execution =>
      match execution.phase with
      | .prepared seen model prompt =>
        some (world.advance i execution (lockParent parent execution.timerId seen model prompt
          (world.read execution.timerId)))
      | _ => none
    | none => none
  | .commit i now =>
    match world.executions[i]? with
    | some execution => commit world i now execution
    | none => none
  | .completionFailed i detail =>
    match world.executions[i]? with
    | some execution =>
      match execution.phase with
      | .inserted =>
        some (world.advance i execution (.failing (.completionFailed detail)
          (world.read execution.timerId)))
      | _ => none
    | none => none
  | .completionDone i =>
    match world.executions[i]? with
    | some execution =>
      match execution.phase with
      | .inserted => some (world.leave i)
      | _ => none
    | none => none

end RyanAI.Chat.Timers
