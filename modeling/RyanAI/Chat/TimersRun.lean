import RyanAI.Chat.TimersJob

/-!
# Timers fire once

Every reachable state is one of sound jobs (`inv_step`), so a timer is inserted once at most. It is not
inserted after an event that it lists as long as the run is `Calm`: no such event comes while the timer is
claimed, and no execution starts on a timer that a cancellation has read and not written yet.
-/

namespace RyanAI.Chat.Timers

open RyanAI.Lib

/-! ## The invariant -/

variable {id userId : String} {task : Task} {world world' : World} {op : Op}

theorem owner_eq_some : owner rows id = some (userId, task) ↔
      ∃ timer, rows.get id = some timer ∧ timer.userId = userId ∧ timer.record.task = task := by
  simp only [owner, Option.map_eq_some_iff, Prod.mk.injEq]

theorem owner_step (hinv : Inv world) (h : step world op = some world')
    (howner : owner world.rows id = some (userId, task)) :
    owner world'.rows id = some (userId, task) := by
  obtain ⟨timer, hrow, rfl, rfl⟩ := owner_eq_some.1 howner
  obtain ⟨timer', hfollows⟩ := job_step hinv h hrow
  exact owner_eq_some.2 ⟨timer', hfollows.row, hfollows.owner⟩

theorem Acts.get_none {calm : Prop} (h : Acts calm world i execution world') (hnone : world.rows.get id = none) :
    world'.rows.get id = none := by
  have hwritten : ∀ f : Timer → Timer, (writeRow execution.timerId f world.rows).get id = none := by
    intro f
    rw [get_writeRow, hnone, Option.map_none]
  cases h with
  | leave => exact hnone
  | arm _ _ _ _ => exact hnone
  | move _ _ _ => exact hnone
  | giveUp _ => exact hnone
  | requeue _ => exact hwritten _
  | fail _ => exact hwritten _
  | insert _ => exact hwritten _

section

variable (hinv : Inv world) (h : step world op = some world')

include hinv h

theorem created_of_new (hnone : world.rows.get id = none) (hrow : world'.rows.get id = some timer) :
    ∃ userId task, op = .create id userId task ∧ timer = newTimer userId task := by
  have hcontra : world'.rows.get id ≠ none := by
    rw [hrow]
    nofun
  cases change_of_step hinv h with
  | @create id₀ userId task _ =>
    have hget := (KeyedTable.get_set id₀ id (newTimer userId task) world.rows).symm.trans hrow
    split at hget
    · rename_i heq
      subst heq
      exact ⟨userId, task, rfl, (Option.some.inj hget).symm⟩
    · rw [hnone] at hget
      cases hget
  | claim _ _ => exact absurd ((KeyedTable.get_map _ _ _).trans (by rw [hnone, Option.map_none])) hcontra
  | cancelRead => exact absurd hnone hcontra
  | cancelWrite _ => exact absurd ((KeyedTable.get_map _ _ _).trans (by rw [hnone, Option.map_none])) hcontra
  | act _ hacts => exact absurd (hacts.get_none hnone) hcontra

theorem log_step : world'.log = world.log ∨
    (∃ id userId task, op = .create id userId task ∧ world'.log = .created id userId task :: world.log) ∨
    (∃ userId chatId event, world'.log = .produced userId chatId event :: world.log) ∨
    (∃ turn, world'.log = .inserted turn :: world.log ∧ (owner world.rows turn.timerId).isSome) := by
  cases change_of_step hinv h with
  | @create id userId task _ => exact .inr (.inl ⟨id, userId, task, rfl, rfl⟩)
  | claim _ _ => exact .inl rfl
  | @cancelRead userId chatId event => exact .inr (.inr (.inl ⟨userId, chatId, event, rfl⟩))
  | cancelWrite _ => exact .inl rfl
  | @act _ i execution _ hexecution hacts =>
    cases hacts with
    | leave => exact .inl rfl
    | arm _ _ _ _ => exact .inl rfl
    | move _ _ _ => exact .inl rfl
    | giveUp _ => exact .inl rfl
    | requeue _ => exact .inl rfl
    | fail _ => exact .inl rfl
    | @insert record turn now hphase =>
      obtain ⟨userId, task, howner, hfits⟩ := hinv.executions execution (List.mem_of_getElem? hexecution)
      rw [hphase] at hfits
      refine .inr (.inr (.inr ⟨turn, rfl, ?_⟩))
      rw [hfits.2, howner]
      rfl

theorem selected_step
    (hmem : cancellation ∈ world'.cancellations) (hseen : cancellation.selected.get id = some seen) :
    owner world.rows id = some (seen.userId, seen.record.task) := by
  have hold : cancellation ∈ world.cancellations → owner world.rows id = some (seen.userId, seen.record.task) :=
    fun hmem => hinv.selected cancellation hmem id seen hseen
  cases change_of_step hinv h with
  | create _ => exact hold hmem
  | claim _ _ => exact hold hmem
  | @cancelRead userId chatId event =>
    rcases List.mem_append.1 hmem with hmem | hmem
    · exact hold hmem
    · obtain rfl := List.mem_singleton.1 hmem
      simp only [selectTimers, KeyedTable.get_filter, Option.filter_eq_some_iff] at hseen
      exact owner_eq_some.2 ⟨seen, hseen.1, rfl, rfl⟩
  | cancelWrite _ => exact hold ((List.eraseIdx_sublist _ _).subset hmem)
  | act _ hacts => cases hacts <;> exact hold hmem

end

theorem read_of_owner (h : owner world.rows id = some (userId, task)) :
    ∃ record, world.read id = some record ∧ record.task = task := by
  obtain ⟨timer, hrow, -, htask⟩ := owner_eq_some.1 h
  exact ⟨timer.record, by rw [World.read, hrow, Option.map_some], htask⟩

theorem Acts.executions {calm : Prop} (hinv : Inv world)
    (hexecution : world.executions[i]? = some execution) (h : Acts calm world i execution world') :
    Distinct world'.executions ∧ ∀ execution' ∈ world'.executions, ∃ userId task,
      owner world.rows execution'.timerId = some (userId, task) ∧ execution'.phase.Fits execution'.timerId task := by
  obtain ⟨userId, task, howner, hfits⟩ := hinv.executions execution (List.mem_of_getElem? hexecution)
  have hread := read_of_owner howner
  have hleave : Distinct (world.executions.eraseIdx i) ∧ ∀ execution' ∈ world.executions.eraseIdx i,
      ∃ userId task, owner world.rows execution'.timerId = some (userId, task) ∧
        execution'.phase.Fits execution'.timerId task :=
    ⟨hinv.distinct.eraseIdx i, fun execution' hmem =>
      hinv.executions execution' ((List.eraseIdx_sublist _ _).subset hmem)⟩
  have hadvance : ∀ phase : Phase, phase.Fits execution.timerId task →
      Distinct (world.executions.set i { execution with phase := phase }) ∧
        ∀ execution' ∈ world.executions.set i { execution with phase := phase },
          ∃ userId task, owner world.rows execution'.timerId = some (userId, task) ∧
            execution'.phase.Fits execution'.timerId task := by
    intro phase hphase
    refine ⟨hinv.distinct.set hexecution rfl, fun execution' hmem => ?_⟩
    rcases List.mem_or_eq_of_mem_set hmem with hmem | rfl
    · exact hinv.executions execution' hmem
    · exact ⟨userId, task, howner, hphase⟩
  cases h with
  | leave => exact hleave
  | @arm record _ hrecord _ _ =>
    obtain ⟨record', hrecord', htask⟩ := hread
    cases hrecord.symm.trans hrecord'
    exact hadvance (.checked record) htask
  | @move phase _ _ hmove => exact hadvance phase (hmove task hfits hread)
  | giveUp _ => exact hadvance _ hread
  | requeue _ => exact hleave
  | fail _ => exact hleave
  | insert _ => exact hadvance .inserted trivial

section

variable (hinv : Inv world) (h : step world op = some world')

include hinv h

theorem executions_step : Distinct world'.executions ∧ ∀ execution ∈ world'.executions, ∃ userId task,
      owner world.rows execution.timerId = some (userId, task) ∧ execution.phase.Fits execution.timerId task := by
  cases change_of_step hinv h with
  | create _ => exact ⟨hinv.distinct, hinv.executions⟩
  | @claim now limit locked claimId claimed hclaimed =>
    refine ⟨?_, ?_⟩
    · rw [Distinct, List.map_append, List.map_map]
      have hids : claimed.map (Execution.timerId ∘ fun id => ⟨id, claimId id, .started⟩) = claimed := List.map_id _
      rw [hids]
      refine List.nodup_append.2 ⟨hinv.distinct, hclaimed ▸ nodup_dueTimers _ _ _ _, ?_⟩
      -- a timer that is claimed now waits, so nothing holds it
      rintro id hheld _ hmem rfl
      obtain ⟨timer, hrow, hpending⟩ := of_mem_dueTimers (hclaimed ▸ hmem)
      exact holder_eq_none.1 (holder_of_pending hinv hrow hpending) hheld
    · intro execution hmem
      rcases List.mem_append.1 hmem with hmem | hmem
      · exact hinv.executions execution hmem
      · obtain ⟨id, hid, rfl⟩ := List.mem_map.1 hmem
        obtain ⟨timer, hrow, -⟩ := of_mem_dueTimers (hclaimed ▸ hid)
        exact ⟨timer.userId, timer.record.task, owner_eq_some.2 ⟨timer, hrow, rfl, rfl⟩, trivial⟩
  | cancelRead => exact ⟨hinv.distinct, hinv.executions⟩
  | cancelWrite _ => exact ⟨hinv.distinct, hinv.executions⟩
  | act hexecution hacts => exact hacts.executions hinv hexecution

theorem mem_log_of_step (he : e ∈ world.log) : e ∈ world'.log := by
  rcases log_step hinv h with hlog | ⟨_, _, _, -, hlog⟩ | ⟨_, _, _, hlog⟩ | ⟨_, hlog, -⟩
  · rw [hlog]
    exact he
  · rw [hlog]
    exact List.mem_cons_of_mem _ he
  · rw [hlog]
    exact List.mem_cons_of_mem _ he
  · rw [hlog]
    exact List.mem_cons_of_mem _ he

theorem created_step (hmem : .created id userId task ∈ world'.log) :
    .created id userId task ∈ world.log ∨ op = .create id userId task := by
  rcases log_step hinv h with hlog | ⟨_, _, _, hop, hlog⟩ | ⟨_, _, _, hlog⟩ | ⟨_, hlog, -⟩
  · rw [hlog] at hmem
    exact .inl hmem
  · rw [hlog] at hmem
    rcases List.mem_cons.1 hmem with heq | hmem
    · cases heq
      exact .inr hop
    · exact .inl hmem
  · rw [hlog] at hmem
    exact .inl ((List.mem_cons.1 hmem).resolve_left (by simp))
  · rw [hlog] at hmem
    exact .inl ((List.mem_cons.1 hmem).resolve_left (by simp))

end

theorem countP_inserts_eq_zero (hinv : Inv world) (howner : owner world.rows id = none) :
    world.log.countP (Entry.inserts id) = 0 := by
  rw [List.countP_eq_zero]
  intro e he
  cases e with
  | inserted turn =>
    intro hturn
    have hsome := hinv.inserted turn he
    rw [of_decide_eq_true hturn, howner] at hsome
    cases hsome
  | created _ _ _ => nofun
  | produced _ _ _ => nofun

theorem job_create (hinv : Inv world) (h : step world (.create id userId task) = some world')
    (hnone : world.rows.get id = none) :
    job world' id (newTimer userId task) = OneShot.Job.new ∧
      owner world'.rows id = some (userId, task) ∧ .created id userId task ∈ world'.log := by
  have howner : owner world.rows id = none := by rw [owner, hnone, Option.map_none]
  have hholder : holder id world.executions = none := by
    rw [holder_eq_none]
    intro hheld
    obtain ⟨execution, hmem, rfl⟩ := List.mem_map.1 hheld
    obtain ⟨_, _, howner', -⟩ := hinv.executions execution hmem
    rw [howner] at howner'
    cases howner'
  have hcancelling : ¬ ∃ c ∈ world.cancellations, c.Targets id := by
    rintro ⟨cancellation, hmem, seen, hseen, -⟩
    have howner' := hinv.selected cancellation hmem id seen hseen
    rw [howner] at howner'
    cases howner'
  have hcount := countP_inserts_eq_zero hinv howner
  have hsince : sinceCreation id (.created id userId task :: world.log) = [] := by
    rw [sinceCreation, List.takeWhile_cons, if_neg (by simp [Entry.creates])]
  have hinserts : Entry.inserts id (.created id userId task) = false := rfl
  simp only [step, hnone, Option.isSome_none, Bool.false_eq_true, if_false] at h
  cases h
  refine ⟨?_, ?_, List.mem_cons_self⟩
  · simp only [job, OneShot.Job.new, newTimer, jobStatus, hholder, Option.map_none, hcancelling, Revoked, hsince,
      Punctual, List.countP_cons, hcount, hinserts, List.not_mem_nil, false_and, exists_false,
      List.Pairwise.nil, not_true_eq_false, Bool.false_eq_true, if_false, Nat.add_zero]
  · exact owner_eq_some.2 ⟨newTimer userId task, (KeyedTable.get_set _ _ _ _).trans (if_pos rfl), rfl, rfl⟩

theorem inv_empty : Inv World.empty where
  distinct := List.nodup_nil
  created id userId task := by simp [World.empty, owner]
  selected cancellation hmem := absurd hmem List.not_mem_nil
  executions execution hmem := absurd hmem List.not_mem_nil
  inserted turn hmem := absurd hmem List.not_mem_nil
  waiting id timer hrow := by
    rw [World.empty, KeyedTable.get_empty] at hrow
    cases hrow
  sound id timer hrow := by
    rw [World.empty, KeyedTable.get_empty] at hrow
    cases hrow

theorem inv_step (hinv : Inv world) (h : step world op = some world') : Inv world' where
  distinct := (executions_step hinv h).1
  created := by
    intro id userId task
    constructor
    · intro hmem
      rcases created_step hinv h hmem with hmem | rfl
      · exact owner_step hinv h ((hinv.created id userId task).1 hmem)
      cases hrow : world.rows.get id with
      | none => exact (job_create hinv h hrow).2.1
      | some timer =>
        simp only [step, hrow, Option.isSome_some, if_true] at h
        cases h
    · intro howner
      obtain ⟨timer', hrow', huser, htask⟩ := owner_eq_some.1 howner
      cases hrow : world.rows.get id with
      | none =>
        obtain ⟨userId', task', rfl, rfl⟩ := created_of_new hinv h hrow hrow'
        obtain rfl : userId' = userId := huser
        obtain rfl : task' = task := htask
        exact (job_create hinv h hrow).2.2
      | some timer =>
        have hold := owner_step hinv h (owner_eq_some.2 ⟨timer, hrow, rfl, rfl⟩)
        cases hold.symm.trans howner
        exact mem_log_of_step hinv h ((hinv.created id _ _).2 (owner_eq_some.2 ⟨timer, hrow, rfl, rfl⟩))
  selected cancellation hmem id seen hseen := owner_step hinv h (selected_step hinv h hmem hseen)
  executions execution hmem := by
    obtain ⟨userId, task, howner, hfits⟩ := (executions_step hinv h).2 execution hmem
    exact ⟨userId, task, owner_step hinv h howner, hfits⟩
  inserted := by
    intro turn hmem
    have hold : (owner world.rows turn.timerId).isSome := by
      rcases log_step hinv h with hlog | ⟨_, _, _, -, hlog⟩ | ⟨_, _, _, hlog⟩ | ⟨_, hlog, hsome⟩
      · rw [hlog] at hmem
        exact hinv.inserted turn hmem
      · rw [hlog] at hmem
        exact hinv.inserted turn ((List.mem_cons.1 hmem).resolve_left (by simp))
      · rw [hlog] at hmem
        exact hinv.inserted turn ((List.mem_cons.1 hmem).resolve_left (by simp))
      rw [hlog] at hmem
      rcases List.mem_cons.1 hmem with heq | hmem
      · cases heq
        exact hsome
      · exact hinv.inserted turn hmem
    obtain ⟨⟨userId, task⟩, howner⟩ := Option.isSome_iff_exists.1 hold
    rw [owner_step hinv h howner]
    rfl
  waiting := by
    intro id timer' hrow' hpending
    cases hrow : world.rows.get id with
    | none =>
      obtain ⟨userId, task, -, rfl⟩ := created_of_new hinv h hrow hrow'
      rfl
    | some timer =>
      obtain ⟨timer'', hfollows⟩ := job_step hinv h hrow
      cases hfollows.row.symm.trans hrow'
      exact hfollows.waiting hpending
  sound := by
    intro id timer' hrow'
    cases hrow : world.rows.get id with
    | none =>
      obtain ⟨userId, task, rfl, rfl⟩ := created_of_new hinv h hrow hrow'
      rw [(job_create hinv h hrow).1]
      exact OneShot.sound_new
    | some timer =>
      obtain ⟨timer'', hfollows⟩ := job_step hinv h hrow
      cases hfollows.row.symm.trans hrow'
      exact hfollows.step.sound (hinv.sound id timer hrow)

/-! ## Whole runs -/

def Obeys (world : World) : Prop := ∀ id timer, world.rows.get id = some timer → OneShot.Obeys (job world id timer)

theorem obeys_empty : Obeys World.empty := by
  intro id timer hrow
  rw [World.empty, KeyedTable.get_empty] at hrow
  cases hrow

theorem obeys_step (hinv : Inv world) (hcalm : Calm world op) (h : step world op = some world') (hobeys : Obeys world) :
    Obeys world' := by
  intro id timer' hrow'
  cases hrow : world.rows.get id with
  | none =>
    obtain ⟨userId, task, rfl, rfl⟩ := created_of_new hinv h hrow hrow'
    rw [(job_create hinv h hrow).1]
    exact OneShot.obeys_new
  | some timer =>
    obtain ⟨timer'', hfollows⟩ := job_step hinv h hrow
    cases hfollows.row.symm.trans hrow'
    have hmove := hfollows.step
    rw [eq_true hcalm] at hmove
    exact hmove.obeys (hobeys id timer hrow)

/-- At most one insertion, and in a calm run none after an event of the owner. -/
theorem fires_once_and_honours_cancellation {ops : List Op} {world : World}
    (hrun : Machine.AnyRun step World.empty ops world) :
    (∀ id, world.log.countP (Entry.inserts id) ≤ 1) ∧
    (Machine.Run step Calm World.empty ops world →
      ∀ id userId task, .created id userId task ∈ world.log → Punctual id userId task world.log) := by
  have hinv : Inv world := hrun.invariant (fun _ _ _ hinv _ h => inv_step hinv h) inv_empty
  refine ⟨?_, ?_⟩
  · intro id
    cases hrow : world.rows.get id with
    | none =>
      rw [countP_inserts_eq_zero hinv (by rw [owner, hrow, Option.map_none])]
      exact Nat.zero_le _
    | some timer => exact (hinv.sound id timer hrow).once
  · intro hcalmRun id userId task hcreated
    have hboth : Inv world ∧ Obeys world :=
      hcalmRun.invariant (I := fun world => Inv world ∧ Obeys world)
        (fun _ _ _ hboth hcalm h => ⟨inv_step hboth.1 h, obeys_step hboth.1 hcalm h hboth.2⟩)
        ⟨inv_empty, obeys_empty⟩
    obtain ⟨timer, hrow, rfl, rfl⟩ := owner_eq_some.1 ((hinv.created id userId task).1 hcreated)
    exact not_not.1 (hboth.2 id timer hrow).punctual

def readTask : Task := ⟨"chat", none, 10, some "model", some "model", [.read]⟩

def readWhileClaimed : List Op :=
  [.create "timer" "owner" readTask, .claim 20 10 (fun _ => false) (fun _ => "claim"),
    .cancelRead "owner" "chat" .read, .cancelWrite 0 21, .check 0,
    .prepare 0 ⟨true, some "ping", some "user"⟩, .lockParent 0 ⟨some [⟨"a", "assistant", none, 5⟩], false, "u", "b"⟩,
    .commit 0 22]

/-- The event is not noted, and the prompt is inserted after it. -/
theorem read_of_claimed_timer_ignored : ∃ world, Machine.AnyRun step World.empty readWhileClaimed world ∧
      world.log = [.inserted ⟨"chat", "timer", "ping", "model", some "a", "u", "b"⟩,
        .produced "owner" "chat" .read, .created "timer" "owner" readTask] ∧
      ¬ Punctual "timer" "owner" readTask world.log := by
  refine ⟨_, Machine.anyRun_of_exec rfl, rfl, ?_⟩
  intro hpunctual
  have hsecond := (List.pairwise_cons.1 hpunctual).1 (.produced "owner" "chat" .read) List.mem_cons_self rfl
  cases hsecond

def calmOps : List Op :=
  [.create "timer" "owner" readTask, .create "other" "owner" { readTask with cancelOn := [] },
    .cancelRead "owner" "chat" .read, .cancelWrite 0 15, .claim 20 10 (fun _ => false) (fun _ => "first"), .check 0,
    .prepare 0 ⟨true, some "ping", some "user"⟩, .lockParent 0 ⟨some [], true, "u", "b"⟩, .commit 0 21,
    .claim 30 10 (fun _ => false) (fun _ => "second"), .check 0, .prepare 0 ⟨true, some "ping", some "user"⟩,
    .lockParent 0 ⟨some [], false, "u", "b"⟩, .commit 0 31]

theorem calm_run : ∃ world, Machine.Run step Calm World.empty calmOps world ∧
    world.log = [.inserted ⟨"chat", "other", "ping", "model", none, "u", "b"⟩, .produced "owner" "chat" .read,
      .created "other" "owner" { readTask with cancelOn := [] }, .created "timer" "owner" readTask] :=
  ⟨_, Machine.run_of_exec rfl, rfl⟩

theorem fires_once_and_honours_cancellation_sample :
    ∃ world, Machine.Run step Calm World.empty calmOps world ∧ world.log.countP (Entry.inserts "other") ≤ 1 ∧
      Punctual "timer" "owner" readTask world.log := by
  obtain ⟨world, hrun, hlog⟩ := calm_run
  obtain ⟨honce, hhonours⟩ := fires_once_and_honours_cancellation hrun.any
  refine ⟨world, hrun, honce "other", hhonours hrun "timer" "owner" readTask ?_⟩
  rw [hlog]
  decide

end RyanAI.Chat.Timers
