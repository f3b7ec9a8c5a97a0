import RyanAI.Chat.Timers
import RyanAI.Lib.OneShot

/-!
# A timer as a one-shot job

Seen from one timer, every step of the workers is a move of a one-shot job (`job_step`): the status of the
row, the execution that holds it and the cancellations that have read it are the state of the job.
`Change` says once what a step does to the tables, and `Acts` what a step of one execution does.
-/

namespace RyanAI.Chat.Timers

open RyanAI.Lib

/-! ## The log -/

def Entry.creates (id : String) : Entry → Bool
  | .created id' _ _ => decide (id' = id)
  | _ => false

def Entry.inserts (id : String) : Entry → Bool
  | .inserted turn => decide (turn.timerId = id)
  | _ => false

def Entry.cancels (userId : String) (task : Task) : Entry → Bool
  | .produced userId' chatId event =>
    decide (userId' = userId) && decide (chatId = task.parentChatId) && decide (event ∈ task.cancelOn)
  | _ => false

def sinceCreation (id : String) (log : List Entry) : List Entry := log.takeWhile fun e => !e.creates id

def Punctual (id userId : String) (task : Task) (log : List Entry) : Prop :=
  (sinceCreation id log).Pairwise fun later earlier => earlier.cancels userId task = true → later.inserts id = false

def Revoked (id userId : String) (task : Task) (log : List Entry) : Prop :=
  ∃ e ∈ sinceCreation id log, e.cancels userId task = true

variable {id : String} {executions : List Execution} {i : ℕ} {execution : Execution} {world world' : World}
    {calm : Prop} {now : ℤ} {timer : Timer}

theorem sinceCreation_cons (h : e.creates id = false) (log : List Entry) :
    sinceCreation id (e :: log) = e :: sinceCreation id log := by
  rw [sinceCreation, List.takeWhile_cons, if_pos (by simp [h])]
  rfl

theorem revoked_cons {id : String} {e : Entry} (h : e.creates id = false) (userId : String) (task : Task)
    (log : List Entry) :
    Revoked id userId task (e :: log) ↔ e.cancels userId task = true ∨ Revoked id userId task log := by
  simp only [Revoked, sinceCreation_cons h, List.exists_mem_cons_iff]

theorem punctual_cons {id : String} {e : Entry} (h : e.creates id = false) (userId : String) (task : Task)
    (log : List Entry) :
    ¬ Punctual id userId task (e :: log) ↔
      ¬ Punctual id userId task log ∨ (e.inserts id = true ∧ Revoked id userId task log) := by
  simp only [Punctual, sinceCreation_cons h, List.pairwise_cons, not_and_or, Revoked]
  constructor
  · rintro (hearlier | hrest)
    · push Not at hearlier
      obtain ⟨earlier, hmem, hcancels, hinserts⟩ := hearlier
      exact .inr ⟨by simpa using hinserts, earlier, hmem, hcancels⟩
    · exact .inl hrest
  · rintro (hrest | ⟨hinserts, earlier, hmem, hcancels⟩)
    · exact .inr hrest
    · refine .inl fun hall => ?_
      rw [hall earlier hmem hcancels] at hinserts
      cases hinserts

/-! ## The execution that holds a timer -/

def holder (id : String) (executions : List Execution) : Option Execution :=
  executions.find? fun execution => decide (execution.timerId = id)

def Distinct (executions : List Execution) : Prop := (executions.map Execution.timerId).Nodup

theorem holder_cons (id : String) (execution : Execution) (rest : List Execution) :
    holder id (execution :: rest) = if execution.timerId = id then some execution else holder id rest := by
  rw [holder, List.find?_cons]
  by_cases h : execution.timerId = id
  · rw [if_pos h, decide_eq_true h]
  · rw [if_neg h, decide_eq_false h]
    rfl

theorem holder_eq_none : holder id executions = none ↔ id ∉ executions.map Execution.timerId := by
  simp only [holder, List.find?_eq_none, decide_eq_true_eq, List.mem_map, not_exists, not_and]

theorem holder_append (id : String) (before after : List Execution) :
    holder id (before ++ after) = (holder id before).or (holder id after) := List.find?_append

section

variable (hdistinct : Distinct executions) (h : executions[i]? = some execution)

include hdistinct h

/-- Around an execution, none of the others is of its timer. -/
theorem split_of_getElem? : ∃ before after, executions = before ++ execution :: after ∧
      (∀ execution', executions.set i execution' = before ++ execution' :: after) ∧
      executions.eraseIdx i = before ++ after ∧ holder execution.timerId (before ++ after) = none := by
  obtain ⟨hlt, rfl⟩ := List.getElem?_eq_some_iff.1 h
  have hset := fun execution' => List.set_eq_take_append_cons_drop (l := executions) (i := i) (a := execution')
  simp only [if_pos hlt] at hset
  have hsplit := hset executions[i]
  rw [List.set_getElem_self] at hsplit
  refine ⟨_, _, hsplit, hset, List.eraseIdx_eq_take_drop_succ _ _, holder_eq_none.2 ?_⟩
  rw [Distinct, hsplit, List.map_append, List.map_cons, List.nodup_middle, List.nodup_cons, ← List.map_append] at hdistinct
  exact hdistinct.1

theorem holder_of_getElem? : holder execution.timerId executions = some execution := by
  obtain ⟨before, after, hsplit, -, -, hnone⟩ := split_of_getElem? hdistinct h
  rw [holder_append, Option.or_eq_none_iff] at hnone
  rw [hsplit, holder_append, holder_cons, if_pos rfl, hnone.1, Option.none_or]

theorem holder_set (hid : execution'.timerId = execution.timerId) (id : String) :
    holder id (executions.set i execution') =
      if id = execution.timerId then some execution' else holder id executions := by
  obtain ⟨before, after, hsplit, hset, -, hnone⟩ := split_of_getElem? hdistinct h
  rw [hset, hsplit, holder_append, holder_append, holder_cons, holder_cons, hid]
  by_cases heq : id = execution.timerId
  · rw [holder_append, Option.or_eq_none_iff, ← heq] at hnone
    rw [if_pos heq.symm, if_pos heq, hnone.1, Option.none_or]
  · rw [if_neg (Ne.symm heq), if_neg (Ne.symm heq), if_neg heq]

theorem holder_eraseIdx (id : String) :
    holder id (executions.eraseIdx i) = if id = execution.timerId then none else holder id executions := by
  obtain ⟨before, after, hsplit, -, herase, hnone⟩ := split_of_getElem? hdistinct h
  rw [herase]
  by_cases heq : id = execution.timerId
  · rw [if_pos heq, heq, hnone]
  · rw [if_neg heq, hsplit, holder_append, holder_append, holder_cons, if_neg (Ne.symm heq)]

theorem Distinct.set (hid : execution'.timerId = execution.timerId) : Distinct (executions.set i execution') := by
  have hsame : (executions.set i execution').map Execution.timerId = executions.map Execution.timerId := by
    rw [List.map_set, hid]
    apply List.ext_getElem?
    intro j
    rw [List.getElem?_set]
    split
    · rename_i hij
      subst hij
      split
      · rw [List.getElem?_map, h]
        rfl
      · rename_i hlt
        rw [List.getElem?_eq_none (by omega)]
    · rfl
  rw [Distinct, hsame]
  exact hdistinct

end

theorem Distinct.eraseIdx (hdistinct : Distinct executions) (i : ℕ) : Distinct (executions.eraseIdx i) :=
  List.Nodup.sublist ((List.eraseIdx_sublist executions i).map _) hdistinct

/-! ## A timer as a one-shot job -/

def Cancellation.Targets (cancellation : Cancellation) (id : String) : Prop :=
  ∃ seen, cancellation.selected.get id = some seen ∧ cancellation.event ∈ seen.record.task.cancelOn

instance (cancellation : Cancellation) (id : String) : Decidable (cancellation.Targets id) :=
  inferInstanceAs (Decidable (∃ seen ∈ cancellation.selected.get id,
    cancellation.event ∈ seen.record.task.cancelOn))

def jobStatus : Status → OneShot.Status
  | .pending => .waiting
  | .running => .claimed
  | _ => .closed

def Phase.stage : Phase → OneShot.Stage
  | .started => .fresh
  | .checked _ | .prepared _ _ _ | .requeueing _ | .inserting _ _ => .armed
  | .inserted | .failing _ _ => .leaving

/-- The timer `id`, whose row is `timer`. -/
def job (world : World) (id : String) (timer : Timer) : OneShot.Job where
  status := jobStatus timer.record.status
  holder := (holder id world.executions).map fun execution => execution.phase.stage
  cancelling := ∃ cancellation ∈ world.cancellations, cancellation.Targets id
  revoked := Revoked id timer.userId timer.record.task world.log
  fired := world.log.countP (Entry.inserts id)
  late := ¬ Punctual id timer.userId timer.record.task world.log

def owner (rows : Rows) (id : String) : Option (String × Task) :=
  (rows.get id).map fun timer => (timer.userId, timer.record.task)

def Phase.Fits (id : String) (task : Task) : Phase → Prop
  | .started | .inserted => True
  | .checked seen | .prepared seen _ _ => seen.task = task
  | .requeueing read | .failing _ read => ∃ record, read = some record ∧ record.task = task
  | .inserting read turn => (∃ record, read = some record ∧ record.task = task) ∧ turn.timerId = id

structure Inv (world : World) : Prop where
  distinct : Distinct world.executions
  created : ∀ id userId task, .created id userId task ∈ world.log ↔ owner world.rows id = some (userId, task)
  selected : ∀ cancellation ∈ world.cancellations, ∀ id seen, cancellation.selected.get id = some seen →
    owner world.rows id = some (seen.userId, seen.record.task)
  executions : ∀ execution ∈ world.executions, ∃ userId task,
    owner world.rows execution.timerId = some (userId, task) ∧ execution.phase.Fits execution.timerId task
  inserted : ∀ turn, .inserted turn ∈ world.log → (owner world.rows turn.timerId).isSome
  waiting : ∀ id timer, world.rows.get id = some timer → timer.record.status = .pending → timer.timerAt.isSome
  sound : ∀ id timer, world.rows.get id = some timer → OneShot.Sound (job world id timer)

/-- No listed event while a timer is claimed, and no execution during a cancellation. -/
def Calm (world : World) : Op → Prop
  | .cancelRead userId chatId event =>
    ∀ id timer, world.rows.get id = some timer → timer.userId = userId →
      timer.record.task.parentChatId = chatId → event ∈ timer.record.task.cancelOn → timer.record.status ≠ .running
  | .check i =>
    ∀ execution, world.executions[i]? = some execution →
      ∀ cancellation ∈ world.cancellations, ¬ cancellation.Targets execution.timerId
  | _ => True

theorem calm_cancelRead_iff :
    (∀ entry ∈ world.rows.entries, entry.2.userId = userId → entry.2.record.task.parentChatId = chatId →
      event ∈ entry.2.record.task.cancelOn → entry.2.record.status ≠ .running) ↔
        Calm world (.cancelRead userId chatId event) := by
  constructor
  · intro hall id timer hrow
    exact hall (id, timer) (KeyedTable.get_eq_some.1 hrow)
  · rintro hcalm ⟨id, timer⟩ hmem
    exact hcalm id timer (KeyedTable.get_eq_some.2 hmem)

instance (world : World) : DecidablePred (Calm world)
  | .cancelRead _ _ _ => decidable_of_iff _ calm_cancelRead_iff
  | .check i => inferInstanceAs (Decidable (∀ execution ∈ world.executions[i]?,
      ∀ cancellation ∈ world.cancellations, ¬ cancellation.Targets execution.timerId))
  | .create _ _ _ => .isTrue trivial
  | .claim _ _ _ _ => .isTrue trivial
  | .cancelWrite _ _ => .isTrue trivial
  | .prepare _ _ => .isTrue trivial
  | .lockParent _ _ => .isTrue trivial
  | .commit _ _ => .isTrue trivial
  | .completionFailed _ _ => .isTrue trivial
  | .completionDone _ => .isTrue trivial

inductive Acts (calm : Prop) (world : World) (i : ℕ) (execution : Execution) : World → Prop
  | leave : Acts calm world i execution (world.leave i)
  | arm {record : Record} : execution.phase = .started → world.read execution.timerId = some record →
      record.status = .running →
      (calm → ∀ cancellation ∈ world.cancellations, ¬ cancellation.Targets execution.timerId) →
      Acts calm world i execution (world.advance i execution (.checked record))
  | move {phase : Phase} : execution.phase.stage = .armed → phase.stage = .armed →
      (∀ task, execution.phase.Fits execution.timerId task →
        (∃ record, world.read execution.timerId = some record ∧ record.task = task) →
          phase.Fits execution.timerId task) →
      Acts calm world i execution (world.advance i execution phase)
  | giveUp {error : TimerError} : execution.phase.stage = .armed ∨ execution.phase.stage = .leaving →
      Acts calm world i execution
        (world.advance i execution (.failing error (world.read execution.timerId)))
  | requeue {record : Record} : execution.phase = .requeueing (some record) →
      Acts calm world i execution
        ({ world with rows := writeRow execution.timerId (requeueRow record) world.rows }.leave i)
  | fail {record : Record} {error : TimerError} : execution.phase = .failing error (some record) →
      Acts calm world i execution
        ({ world with rows := writeRow execution.timerId (failRow error record) world.rows }.leave i)
  | insert {record : Record} {turn : Turn} {now : ℤ} : execution.phase = .inserting (some record) turn →
      Acts calm world i execution
        { ({ world with rows := writeRow execution.timerId (completeRow now record) world.rows }.advance i
            execution .inserted) with log := .inserted turn :: world.log }

theorem acts_commit (hfits : execution.phase.Fits execution.timerId task)
    (h : commit world i now execution = some world') : Acts calm world i execution world' := by
  unfold commit at h
  split at h
  · rename_i read hphase
    rw [hphase] at hfits
    obtain ⟨record, rfl, -⟩ := hfits
    cases h
    exact .requeue hphase
  · rename_i read turn hphase
    rw [hphase] at hfits
    obtain ⟨⟨record, rfl, -⟩, -⟩ := hfits
    cases h
    exact .insert hphase
  · rename_i error read hphase
    rw [hphase] at hfits
    obtain ⟨record, rfl, -⟩ := hfits
    cases h
    exact .fail hphase
  · cases h

theorem acts_lockParent (parent : Parent) (hphase : execution.phase = .prepared seen model prompt) :
    Acts calm world i execution (world.advance i execution (lockParent parent execution.timerId seen model prompt
      (world.read execution.timerId))) := by
  have harmed : execution.phase.stage = .armed := by
    rw [hphase]
    rfl
  unfold lockParent
  split
  · exact .giveUp (.inl harmed)
  · split
    · exact .move harmed rfl fun _ _ hread => hread
    · exact .move harmed rfl fun _ _ hread => ⟨hread, rfl⟩

inductive Change (world : World) : Op → World → Prop
  | create {id userId : String} {task : Task} : world.rows.get id = none →
      Change world (.create id userId task) { world with
        rows := world.rows.set id (newTimer userId task)
        log := .created id userId task :: world.log }
  | claim {now : ℤ} {limit : ℕ} {locked : String → Bool} {claimId : String → String} (claimed : List String) :
      claimed = (dueTimers now limit locked world.rows).map Prod.fst →
      Change world (.claim now limit locked claimId) { world with
        rows := world.rows.map fun id timer => if id ∈ claimed then claimRow now (claimId id) timer else timer
        executions := world.executions ++ claimed.map fun id => ⟨id, claimId id, .started⟩ }
  | cancelRead {userId chatId : String} {event : Event} :
      Change world (.cancelRead userId chatId event) { world with
        cancellations := world.cancellations ++ [⟨event, selectTimers userId chatId world.rows⟩]
        log := .produced userId chatId event :: world.log }
  | cancelWrite {i : ℕ} {now : ℤ} {cancellation : Cancellation} :
      world.cancellations[i]? = some cancellation →
      Change world (.cancelWrite i now) { world with
        rows := world.rows.map (cancelRow now cancellation)
        cancellations := world.cancellations.eraseIdx i }
  | act {op : Op} {i : ℕ} {execution : Execution} {world' : World} : world.executions[i]? = some execution →
      Acts (Calm world op) world i execution world' → Change world op world'

theorem change_of_step (hinv : Inv world) (h : step world op = some world') : Change world op world' := by
  cases op with
  | create id userId task =>
    simp only [step] at h
    split at h
    · cases h
    · rename_i hnew
      cases h
      exact .create (by simpa using hnew)
  | claim now limit locked claimId =>
    cases h
    exact .claim _ rfl
  | cancelRead userId chatId event =>
    cases h
    exact .cancelRead
  | cancelWrite i now =>
    simp only [step] at h
    split at h
    · cases h
    · rename_i cancellation hcancellation
      cases h
      exact .cancelWrite hcancellation
  | check i =>
    simp only [step] at h
    split at h
    · rename_i execution hexecution
      refine .act hexecution ?_
      split at h
      · rename_i record hphase hread
        split at h
        · rename_i hclaimed
          simp only [isClaimed, Bool.and_eq_true, decide_eq_true_eq] at hclaimed
          cases h
          exact .arm hphase hread hclaimed.1 fun hcalm => hcalm execution hexecution
        · cases h
          exact .leave
      · cases h
        exact .leave
      · cases h
    · cases h
  | prepare i lookups =>
    simp only [step] at h
    split at h
    · rename_i execution hexecution
      refine .act hexecution ?_
      split at h
      · rename_i seen hphase
        have harmed : execution.phase.stage = .armed := by
          rw [hphase]
          rfl
        split at h
        · cases h
          exact .giveUp (.inl harmed)
        · cases h
          exact .move harmed rfl fun task hfits _ => by
            rw [hphase] at hfits
            exact hfits
      · cases h
    · cases h
  | lockParent i parent =>
    simp only [step] at h
    split at h
    · rename_i execution hexecution
      split at h
      · rename_i seen model prompt hphase
        cases h
        exact .act hexecution (acts_lockParent parent hphase)
      · cases h
    · cases h
  | commit i now =>
    simp only [step] at h
    split at h
    · rename_i execution hexecution
      obtain ⟨_, task, -, hfits⟩ := hinv.executions execution (List.mem_of_getElem? hexecution)
      exact .act hexecution (acts_commit hfits h)
    · cases h
  | completionFailed i detail =>
    simp only [step] at h
    split at h
    · rename_i execution hexecution
      refine .act hexecution ?_
      split at h
      · rename_i hphase
        cases h
        exact .giveUp (.inr (by rw [hphase]; rfl))
      · cases h
    · cases h
  | completionDone i =>
    simp only [step] at h
    split at h
    · rename_i execution hexecution
      refine .act hexecution ?_
      split at h
      · cases h
        exact .leave
      · cases h
    · cases h

/-! ## Each step is a move of the job -/

@[simp]
theorem get_writeRow (id : String) (f : Timer → Timer) (rows : Rows) (key : String) :
    (writeRow id f rows).get key = (rows.get key).map fun timer => if key = id then f timer else timer :=
  KeyedTable.get_map _ _ _

section

variable (hinv : Inv world) (hexecution : world.executions[i]? = some execution)

include hinv hexecution

theorem stage_of_getElem? (timer : Timer) :
    (job world execution.timerId timer).holder = some execution.phase.stage := by
  simp only [job, holder_of_getElem? hinv.distinct hexecution, Option.map_some]

theorem job_leave (id : String) (timer : Timer) :
    job (world.leave i) id timer =
      if id = execution.timerId then { job world id timer with holder := none } else job world id timer := by
  simp only [job, World.leave, holder_eraseIdx hinv.distinct hexecution]
  split <;> rfl

theorem job_advance (phase : Phase) (id : String) (timer : Timer) :
    job (world.advance i execution phase) id timer =
      if id = execution.timerId then { job world id timer with holder := some phase.stage }
      else job world id timer := by
  have hid : ({ execution with phase := phase } : Execution).timerId = execution.timerId := rfl
  simp only [job, World.advance, holder_set hinv.distinct hexecution hid]
  split <;> rfl

end

theorem job_cons {world : World} {id : String} {timer : Timer} {e : Entry} (hcreates : e.creates id = false)
    (hinserts : e.inserts id = false) (hcancels : e.cancels timer.userId timer.record.task = false) :
    job { world with log := e :: world.log } id timer = job world id timer := by
  have hrevoked := revoked_cons hcreates timer.userId timer.record.task world.log
  have hpunctual := punctual_cons hcreates timer.userId timer.record.task world.log
  simp only [hcancels, Bool.false_eq_true, false_or] at hrevoked
  simp only [hinserts, Bool.false_eq_true, false_and, or_false] at hpunctual
  simp only [job, List.countP_cons, hinserts, hrevoked, hpunctual, Bool.false_eq_true, if_false, Nat.add_zero]

theorem job_inserted (hturn : turn.timerId = id) : job { world with log := .inserted turn :: world.log } id timer =
      { job world id timer with
        fired := (job world id timer).fired + 1
        late := (job world id timer).late ∨ (job world id timer).revoked } := by
  have hinserts : Entry.inserts id (.inserted turn) = true := decide_eq_true hturn
  have hrevoked := @revoked_cons id (.inserted turn) rfl timer.userId timer.record.task world.log
  have hpunctual := @punctual_cons id (.inserted turn) rfl timer.userId timer.record.task world.log
  have hcancels : Entry.cancels timer.userId timer.record.task (.inserted turn) = false := rfl
  simp only [hcancels, Bool.false_eq_true, false_or] at hrevoked
  simp only [hinserts, true_and] at hpunctual
  simp only [job, List.countP_cons, hinserts, hrevoked, hpunctual, if_true]

theorem job_row (howner : timer'.userId = timer.userId ∧ timer'.record.task = timer.record.task) :
    job world id timer' = { job world id timer with status := jobStatus timer'.record.status } := by
  simp only [job, howner.1, howner.2]

structure Follows (calm : Prop) (world world' : World) (id : String) (timer timer' : Timer) : Prop where
  row : world'.rows.get id = some timer'
  owner : timer'.userId = timer.userId ∧ timer'.record.task = timer.record.task
  waiting : timer'.record.status = .pending → timer'.timerAt.isSome
  step : OneShot.Step calm (job world id timer) (job world' id timer')

theorem Acts.follows (hinv : Inv world) (hexecution : world.executions[i]? = some execution)
    (h : Acts calm world i execution world') (hrow : world.rows.get id = some timer) :
    ∃ timer', Follows calm world world' id timer timer' := by
  have hstage := stage_of_getElem? hinv hexecution timer
  obtain ⟨userId, task, howner, hfits⟩ := hinv.executions execution (List.mem_of_getElem? hexecution)
  have hwaiting := hinv.waiting id timer hrow
  by_cases hid : id = execution.timerId
  · subst hid
    have htask : timer.record.task = task := by
      rw [owner, hrow] at howner
      exact congrArg Prod.snd (Option.some.inj howner)
    cases h with
    | leave =>
      refine ⟨timer, hrow, ⟨rfl, rfl⟩, hwaiting, ?_⟩
      rw [job_leave hinv hexecution, if_pos rfl]
      exact .leave
    | @arm record hphase hread hrunning hcalm =>
      refine ⟨timer, hrow, ⟨rfl, rfl⟩, hwaiting, ?_⟩
      rw [job_advance hinv hexecution, if_pos rfl]
      rw [World.read, hrow] at hread
      cases hread
      rw [hphase] at hstage
      refine .arm ?_ hstage ?_
      · exact congrArg jobStatus hrunning
      · rintro hcalm' ⟨cancellation, hmem, htargets⟩
        exact hcalm hcalm' cancellation hmem htargets
    | @move phase harmed hphase _ =>
      refine ⟨timer, hrow, ⟨rfl, rfl⟩, hwaiting, ?_⟩
      rw [job_advance hinv hexecution, if_pos rfl, hphase, ← harmed, ← hstage]
      exact .stay _
    | giveUp harmed =>
      refine ⟨timer, hrow, ⟨rfl, rfl⟩, hwaiting, ?_⟩
      rw [job_advance hinv hexecution, if_pos rfl]
      refine .giveUp ?_
      rw [hstage]
      exact harmed.imp (congrArg some) (congrArg some)
    | @requeue record hphase =>
      rw [hphase] at hstage hfits
      obtain ⟨_, hread, hsame⟩ := hfits
      cases hread
      have hkeep : (requeueRow record timer).userId = timer.userId ∧
          (requeueRow record timer).record.task = timer.record.task := ⟨rfl, hsame.trans htask.symm⟩
      refine ⟨requeueRow record timer, ?_, hkeep, fun _ => rfl, ?_⟩
      · exact (get_writeRow _ _ _ _).trans (by rw [hrow, Option.map_some, if_pos rfl])
      · show OneShot.Step calm _ (job (world.leave i) _ _)
        rw [job_leave hinv hexecution, if_pos rfl, job_row hkeep]
        exact .putBack hstage
    | @fail record error hphase =>
      rw [hphase] at hstage hfits
      obtain ⟨_, hread, hsame⟩ := hfits
      cases hread
      have hkeep : (failRow error record timer).userId = timer.userId ∧
          (failRow error record timer).record.task = timer.record.task := ⟨rfl, hsame.trans htask.symm⟩
      refine ⟨failRow error record timer, ?_, hkeep, nofun, ?_⟩
      · exact (get_writeRow _ _ _ _).trans (by rw [hrow, Option.map_some, if_pos rfl])
      · show OneShot.Step calm _ (job (world.leave i) _ _)
        rw [job_leave hinv hexecution, if_pos rfl, job_row hkeep]
        exact .close hstage
    | @insert record turn now hphase =>
      rw [hphase] at hstage hfits
      obtain ⟨⟨_, hread, hsame⟩, hturn⟩ := hfits
      cases hread
      have hkeep : (completeRow now record timer).userId = timer.userId ∧
          (completeRow now record timer).record.task = timer.record.task := ⟨rfl, hsame.trans htask.symm⟩
      refine ⟨completeRow now record timer, ?_, hkeep, nofun, ?_⟩
      · exact (get_writeRow _ _ _ _).trans (by rw [hrow, Option.map_some, if_pos rfl])
      · show OneShot.Step calm _ (job { (world.advance i execution .inserted) with
          log := .inserted turn :: (world.advance i execution .inserted).log } _ _)
        rw [job_inserted hturn, job_advance hinv hexecution, if_pos rfl, job_row hkeep]
        exact .fire hstage
  · -- the step of another timer's execution
    have hwritten : ∀ f : Timer → Timer, (writeRow execution.timerId f world.rows).get id = some timer := by
      intro f
      rw [get_writeRow, hrow, Option.map_some, if_neg hid]
    have hleave := job_leave hinv hexecution id timer
    have hadvance := fun phase => job_advance hinv hexecution phase id timer
    rw [if_neg hid] at hleave
    simp only [if_neg hid] at hadvance
    cases h with
    | leave => exact ⟨timer, hrow, ⟨rfl, rfl⟩, hwaiting, hleave ▸ .stay _⟩
    | arm _ _ _ _ => exact ⟨timer, hrow, ⟨rfl, rfl⟩, hwaiting, hadvance _ ▸ .stay _⟩
    | move _ _ _ => exact ⟨timer, hrow, ⟨rfl, rfl⟩, hwaiting, hadvance _ ▸ .stay _⟩
    | giveUp _ => exact ⟨timer, hrow, ⟨rfl, rfl⟩, hwaiting, hadvance _ ▸ .stay _⟩
    | requeue _ => exact ⟨timer, hwritten _, ⟨rfl, rfl⟩, hwaiting, hleave ▸ .stay _⟩
    | fail _ => exact ⟨timer, hwritten _, ⟨rfl, rfl⟩, hwaiting, hleave ▸ .stay _⟩
    | @insert record turn now hphase =>
      rw [hphase] at hfits
      have hinserts : Entry.inserts id (.inserted turn) = false := by
        refine decide_eq_false fun hturn => hid ?_
        exact hturn.symm.trans hfits.2
      refine ⟨timer, hwritten _, ⟨rfl, rfl⟩, hwaiting, ?_⟩
      have hsame := @job_cons (world.advance i execution .inserted) id timer (.inserted turn) rfl hinserts rfl
      rw [hadvance] at hsame
      show OneShot.Step calm _ (job { (world.advance i execution .inserted) with
        log := .inserted turn :: (world.advance i execution .inserted).log } _ _)
      rw [hsame]
      exact .stay _

theorem follows_create (hinv : Inv world) (hnew : world.rows.get id₀ = none) (hrow : world.rows.get id = some timer) :
    Follows calm world { world with
      rows := world.rows.set id₀ (newTimer userId task)
      log := .created id₀ userId task :: world.log } id timer timer := by
  have hne : id₀ ≠ id := by
    rintro rfl
    rw [hrow] at hnew
    cases hnew
  refine ⟨?_, ⟨rfl, rfl⟩, hinv.waiting id timer hrow, ?_⟩
  · exact (KeyedTable.get_set _ _ _ _).trans (by rw [if_neg (Ne.symm hne), hrow])
  · have hsame := @job_cons world id timer (.created id₀ userId task) (decide_eq_false hne) rfl rfl
    exact hsame ▸ .stay _

theorem of_mem_dueTimers {locked : String → Bool} (h : id ∈ (dueTimers now limit locked rows).map Prod.fst) :
    ∃ timer, rows.get id = some timer ∧ timer.record.status = .pending := by
  obtain ⟨⟨_, timer⟩, hmem, rfl⟩ := List.mem_map.1 h
  have hsorted := List.mem_of_mem_take hmem
  rw [List.mem_insertionSort, List.mem_filter, Bool.and_eq_true] at hsorted
  refine ⟨timer, KeyedTable.get_eq_some.2 hsorted.1, ?_⟩
  have hdue := hsorted.2.1
  simp only [isDue] at hdue
  split at hdue
  · simp only [Bool.and_eq_true, decide_eq_true_eq] at hdue
    exact hdue.2
  · cases hdue

theorem nodup_dueTimers (now : ℤ) (limit : ℕ) (locked : String → Bool) (rows : Rows) :
    ((dueTimers now limit locked rows).map Prod.fst).Nodup := by
  have hfilter : ((rows.entries.filter fun entry => isDue now entry.2 && !locked entry.1).map Prod.fst).Nodup :=
    List.Nodup.sublist (List.filter_sublist.map _) rows.distinct
  have hsorted := ((List.perm_insertionSort (fun a b : String × Timer => a.2.timerAt.getD 0 ≤ b.2.timerAt.getD 0)
    _).map Prod.fst).nodup_iff.2 hfilter
  exact List.Nodup.sublist ((List.take_sublist limit _).map _) hsorted

theorem holder_of_pending (hinv : Inv world) (hrow : world.rows.get id = some timer)
    (hpending : timer.record.status = .pending) :
    holder id world.executions = none := by
  have hunheld := (hinv.sound id timer hrow).unheld (congrArg jobStatus hpending)
  simpa [job] using hunheld

theorem holder_map_started (claimId : String → String) (id : String) (ids : List String) :
    holder id (ids.map fun key => ⟨key, claimId key, .started⟩) =
      if id ∈ ids then some ⟨id, claimId id, .started⟩ else none := by
  induction ids with
  | nil => rfl
  | cons first rest ih =>
    rw [List.map_cons, holder_cons, ih]
    by_cases heq : first = id
    · subst heq
      rw [if_pos rfl, if_pos List.mem_cons_self]
    · rw [if_neg heq]
      simp only [List.mem_cons, Ne.symm heq, false_or]

theorem follows_claim (hinv : Inv world) {locked : String → Bool} (claimId : String → String)
    (hclaimed : claimed = (dueTimers now limit locked world.rows).map Prod.fst)
    (hrow : world.rows.get id = some timer) :
    ∃ timer', Follows calm world { world with
      rows := world.rows.map fun id timer => if id ∈ claimed then claimRow now (claimId id) timer else timer
      executions := world.executions ++ claimed.map fun id => ⟨id, claimId id, .started⟩ } id timer timer' := by
  have hheld : holder id (world.executions ++ claimed.map fun key => ⟨key, claimId key, .started⟩) =
      (holder id world.executions).or (if id ∈ claimed then some ⟨id, claimId id, .started⟩ else none) := by
    rw [← holder_map_started]
    exact List.find?_append
  by_cases hmem : id ∈ claimed
  · obtain ⟨_, hrow', hpending⟩ := of_mem_dueTimers (hclaimed ▸ hmem)
    cases hrow.symm.trans hrow'
    have hwaiting : (job world id timer).status = .waiting := congrArg jobStatus hpending
    rw [holder_of_pending hinv hrow hpending, if_pos hmem] at hheld
    refine ⟨claimRow now (claimId id) timer, ?_, ⟨rfl, rfl⟩, nofun, ?_⟩
    · exact (KeyedTable.get_map _ _ _).trans (by rw [hrow, Option.map_some, if_pos hmem])
    · have hmove := @OneShot.Step.claim calm _ hwaiting
      simp only [job, hheld]
      exact hmove
  · rw [if_neg hmem, Option.or_none] at hheld
    refine ⟨timer, ?_, ⟨rfl, rfl⟩, hinv.waiting id timer hrow, ?_⟩
    · exact (KeyedTable.get_map _ _ _).trans (by rw [hrow, Option.map_some, if_neg hmem])
    · simp only [job, hheld]
      exact .stay _

theorem targets_selectTimers {rows : Rows} {userId chatId : String} {event : Event} {id : String} {timer : Timer}
    (hrow : rows.get id = some timer) (hwaiting : timer.record.status = .pending → timer.timerAt.isSome) :
    Cancellation.Targets ⟨event, selectTimers userId chatId rows⟩ id ↔
      Entry.cancels timer.userId timer.record.task (.produced userId chatId event) = true ∧
        timer.record.status = .pending := by
  simp only [Cancellation.Targets, selectTimers, KeyedTable.get_filter, hrow, Option.filter_eq_some_iff,
    Option.some.injEq, Bool.and_eq_true, decide_eq_true_eq, Entry.cancels]
  constructor
  · rintro ⟨seen, ⟨rfl, ⟨⟨-, huser⟩, hchat⟩, hpending⟩, hlisted⟩
    exact ⟨⟨⟨huser.symm, hchat.symm⟩, hlisted⟩, hpending⟩
  · rintro ⟨⟨⟨rfl, rfl⟩, hlisted⟩, hpending⟩
    exact ⟨timer, ⟨rfl, ⟨⟨hwaiting hpending, rfl⟩, rfl⟩, hpending⟩, hlisted⟩

theorem follows_cancelRead (hinv : Inv world) (userId chatId : String) (event : Event)
    (hrow : world.rows.get id = some timer) :
    Follows (Calm world (.cancelRead userId chatId event)) world { world with
      cancellations := world.cancellations ++ [⟨event, selectTimers userId chatId world.rows⟩]
      log := .produced userId chatId event :: world.log } id timer timer := by
  have hwaiting := hinv.waiting id timer hrow
  have htargets := @targets_selectTimers world.rows userId chatId event id timer hrow hwaiting
  refine ⟨hrow, ⟨rfl, rfl⟩, hwaiting, ?_⟩
  have hcancelling : (∃ c ∈ world.cancellations ++ [⟨event, selectTimers userId chatId world.rows⟩],
      c.Targets id) ↔ (∃ c ∈ world.cancellations, c.Targets id) ∨
        Cancellation.Targets ⟨event, selectTimers userId chatId world.rows⟩ id := by
    simp only [List.mem_append, List.mem_singleton, or_and_right, exists_or, exists_eq_left]
  have hrevoked := @revoked_cons id (.produced userId chatId event) rfl timer.userId timer.record.task world.log
  have hpunctual := @punctual_cons id (.produced userId chatId event) rfl timer.userId timer.record.task world.log
  have hinserts : Entry.inserts id (.produced userId chatId event) = false := rfl
  simp only [hinserts, Bool.false_eq_true, false_and, or_false] at hpunctual
  cases hcancels : Entry.cancels timer.userId timer.record.task (.produced userId chatId event) with
  | true =>
    have hmove := @OneShot.Step.revoke (Calm world (.cancelRead userId chatId event)) (job world id timer) (by
      intro hcalm hclaimed
      simp only [Entry.cancels, Bool.and_eq_true, decide_eq_true_eq] at hcancels
      obtain ⟨⟨rfl, rfl⟩, hlisted⟩ := hcancels
      refine hcalm id timer hrow rfl rfl hlisted ?_
      cases hstatus : timer.record.status <;> simp [job, jobStatus, hstatus] at hclaimed ⊢)
    have hpending : (job world id timer).status = .waiting ↔ timer.record.status = .pending := by
      cases hstatus : timer.record.status <;> simp [job, jobStatus, hstatus]
    rw [hcancels] at hrevoked htargets
    simp only [true_or, iff_true] at hrevoked
    simp only [true_and] at htargets
    rw [hpending] at hmove
    simp only [job, hcancelling, htargets, hrevoked, hpunctual, List.countP_cons, hinserts, Bool.false_eq_true,
      if_false, Nat.add_zero]
    simpa [job] using hmove
  | false =>
    rw [hcancels] at hrevoked htargets
    simp only [Bool.false_eq_true, false_or] at hrevoked
    simp only [Bool.false_eq_true, false_and, iff_false] at htargets
    simp only [job, hcancelling, htargets, hrevoked, hpunctual, List.countP_cons, hinserts, Bool.false_eq_true,
      if_false, Nat.add_zero, or_false]
    exact .stay _

theorem follows_cancelWrite (hinv : Inv world) (now : ℤ)
    (hcancellation : world.cancellations[i]? = some cancellation) (hrow : world.rows.get id = some timer) :
    ∃ timer', Follows calm world { world with
      rows := world.rows.map (cancelRow now cancellation)
      cancellations := world.cancellations.eraseIdx i } id timer timer' := by
  have hmem : cancellation ∈ world.cancellations := List.mem_of_getElem? hcancellation
  have hget : (world.rows.map (cancelRow now cancellation)).get id =
      some (cancelRow now cancellation id timer) := by
    rw [KeyedTable.get_map, hrow, Option.map_some]
  by_cases htargets : cancellation.Targets id
  · obtain ⟨seen, hseen, hlisted⟩ := htargets
    have howner := hinv.selected cancellation hmem id seen hseen
    have hcancel : cancelRow now cancellation id timer = { timer with
        timerAt := none
        record := { seen.record with
          status := .cancelled
          cancelledAt := some now
          cancelledBy := some cancellation.event } } := by
      simp only [cancelRow, hseen, if_pos hlisted]
    have hkeep : (cancelRow now cancellation id timer).userId = timer.userId ∧
        (cancelRow now cancellation id timer).record.task = timer.record.task := by
      rw [owner, hrow] at howner
      rw [hcancel]
      exact ⟨rfl, (congrArg Prod.snd (Option.some.inj howner)).symm⟩
    refine ⟨_, hget, hkeep, ?_, ?_⟩
    · intro hpending
      rw [hcancel] at hpending
      cases hpending
    · rw [job_row hkeep, hcancel]
      refine @OneShot.Step.cancel calm (job world id timer) _ ⟨cancellation, hmem, seen, hseen, hlisted⟩ ?_
      rintro ⟨other, hother, htargets⟩
      exact ⟨other, (List.eraseIdx_sublist _ _).subset hother, htargets⟩
  · have hsame : cancelRow now cancellation id timer = timer := by
      simp only [cancelRow]
      split
      · rename_i seen hseen
        exact if_neg fun hlisted => htargets ⟨seen, hseen, hlisted⟩
      · rfl
    rw [hsame] at hget
    refine ⟨timer, hget, ⟨rfl, rfl⟩, hinv.waiting id timer hrow, ?_⟩
    have hcancelling : (∃ c ∈ world.cancellations.eraseIdx i, c.Targets id) ↔
        ∃ c ∈ world.cancellations, c.Targets id := by
      constructor
      · rintro ⟨other, hother, htarget⟩
        exact ⟨other, (List.eraseIdx_sublist _ _).subset hother, htarget⟩
      rintro ⟨other, hother, htarget⟩
      obtain ⟨j, hj⟩ := List.mem_iff_getElem?.1 hother
      refine ⟨other, List.mem_eraseIdx_iff_getElem?.2 ⟨j, ?_, hj⟩, htarget⟩
      rintro rfl
      cases hcancellation.symm.trans hj
      exact htargets htarget
    simp only [job, hcancelling]
    exact .stay _

theorem job_step (hinv : Inv world) (h : step world op = some world') (hrow : world.rows.get id = some timer) :
    ∃ timer', Follows (Calm world op) world world' id timer timer' := by
  cases change_of_step hinv h with
  | create hnew => exact ⟨timer, follows_create hinv hnew hrow⟩
  | @claim now limit locked claimId claimed hclaimed => exact follows_claim hinv claimId hclaimed hrow
  | cancelRead => exact ⟨timer, follows_cancelRead hinv _ _ _ hrow⟩
  | cancelWrite hcancellation => exact follows_cancelWrite hinv _ hcancellation hrow
  | act hexecution hacts => exact hacts.follows hinv hexecution hrow

end RyanAI.Chat.Timers
