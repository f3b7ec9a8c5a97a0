import RyanAI.Lib.Machine
import Mathlib.Data.Rat.Floor

/-!
# The supervision of a shard

How `adapters/openclaw.ts` brings a shard back that is down: recovery timers with backoff, a circuit breaker, and a
supervision pass every 15 seconds. The machine is one shard of a started node that is not draining, with one step for
each entry point.

A shard which is down has a timer, a sync or a deadline after which a pass attends to it, as long as no recovery sync
fails while the circuit is half open (`circuit_never_wedges`). In `failed_probe_wedges` one does: the circuit stays half
open past its deadline, and `scheduleShardRecovery` returns at once.
-/

namespace RyanAI.Gateway.ShardSupervisor

open RyanAI.Lib.Machine

def restartWindowMs : ℕ := 10 * 60000

def circuitOpenMs : ℕ := 10 * 60000

def healthyResetMs : ℕ := 5 * 60000

/-- `SupervisorState`, in the state store. -/
structure SupervisorState where
  consecutiveFailures : ℕ
  failures : List ℕ
  nextRetryAt : ℕ
  openUntil : ℕ
  halfOpen : Bool
  lastStartedAt : Option ℕ
deriving DecidableEq

/-- What `supervisorState` returns for a new shard, and `resetCircuit` stores. -/
def SupervisorState.fresh : SupervisorState := ⟨0, [], 0, 0, false, none⟩

/-- One shard: `enabled` has candidates for `runShardSync`, `host` is in `shardHosts`, `running` is
its controller; `pending` waits for its debounce timer, `queue` is the exclusive section. A sync is
the number of recovery timers that wait for it. -/
structure Shard where
  now : ℕ
  enabled : Bool
  running : Bool
  host : Bool
  timer : Option ℕ
  pending : Option ℕ
  queue : List ℕ
  supervisor : SupervisorState
deriving DecidableEq

def Shard.initial : Shard := ⟨0, false, false, false, none, none, [], .fresh⟩

/-! ## Scheduling a recovery -/

def SupervisorState.aged (st : SupervisorState) (now runtimeMs : ℕ) : SupervisorState :=
  let st := if runtimeMs ≥ healthyResetMs then { st with consecutiveFailures := 0, failures := [] } else st
  { st with failures := st.failures.filter fun timestamp => now < timestamp + restartWindowMs }

/-- The delay before a restart; `random` is `Math.random()`. -/
def jittered (immediate : Bool) (consecutiveFailures : ℕ) (random : ℚ) : ℕ :=
  let base := min 60000 (1000 * 2 ^ (consecutiveFailures - 1))
  if immediate then 0 else max 250 ⌊(base : ℚ) * (4 / 5 + random * (2 / 5)) + 1 / 2⌋.toNat

def scheduleShardRecovery (runtimeMs : ℕ) (immediate : Bool) (random : ℚ) (s : Shard) : Shard :=
  if s.timer.isSome then s
  else
    let state := s.supervisor.aged s.now runtimeMs
    -- an open circuit stops every attempt, and a half-open one every attempt but the probe
    if s.now < state.openUntil then s
    else if 0 < state.openUntil ∧ state.halfOpen then s
    else
      let halfOpen := decide (0 < state.openUntil) || state.halfOpen
      let failures := state.failures ++ [s.now]
      let consecutiveFailures := state.consecutiveFailures + 1
      -- the sixth failure within the window opens the circuit, and no timer is set
      if failures.length > 5 then
        { s with
          supervisor :=
            { state with
              consecutiveFailures
              failures
              openUntil := s.now + circuitOpenMs
              nextRetryAt := s.now + circuitOpenMs
              halfOpen := false } }
      else
        let delay := jittered immediate consecutiveFailures random
        { s with
          timer := some (s.now + delay)
          supervisor :=
            { state with
              consecutiveFailures
              failures
              nextRetryAt := s.now + delay
              halfOpen } }

/-- `superviseRuntimes`. -/
def superviseRuntimes (s : Shard) : Shard :=
  if s.host = false ∨ s.running = true ∨ s.timer.isSome then s else scheduleShardRecovery 0 true 0 s

/-- A call by `recoveries` timers joins the sync that is pending. -/
def syncShard (recoveries : ℕ) (s : Shard) : Shard := { s with pending := some (s.pending.getD 0 + recoveries) }

/-- `resetCircuit`. -/
def resetCircuit (s : Shard) : Shard := syncShard 0 { s with timer := none, supervisor := .fresh }

/-- `runShardSync` starts the shard, finds it running, throws, or returns without one; the flags are
the controller and `shardHosts`. -/
inductive Outcome where
  | started
  | unchanged
  | failed (running host : Bool)
  | idle (host : Bool)
deriving DecidableEq

def recovered (recoveries : ℕ) (s : Shard) : Shard :=
  if recoveries = 0 then s else { s with supervisor := { s.supervisor with halfOpen := false, openUntil := 0 } }

def failedRecoveries (recoveries : ℕ) (random : ℚ) (s : Shard) : Shard :=
  (scheduleShardRecovery 0 false random)^[recoveries] s

def syncEnds (outcome : Outcome) (random : ℚ) (s : Shard) : Option Shard :=
  match s.queue with
  | [] => none
  | recoveries :: queue =>
    -- the recovery timers that waited for this sync go on with its outcome
    match outcome with
    | .started =>
      some (recovered recoveries
        { s with
          queue
          running := true
          host := true
          supervisor := { s.supervisor with lastStartedAt := some s.now, nextRetryAt := 0 } })
    | .unchanged => if s.running then some (recovered recoveries { s with queue }) else none
    | .failed running host =>
      if running = true → host = true then
        some (failedRecoveries recoveries random { s with queue, running, host })
      else none
    | .idle host => some (recovered recoveries { s with queue, running := false, host })

inductive Event where
  | exit (runtimeMs : ℕ) (random : ℚ)
  | timerFires
  | syncRequested
  | syncBegins
  | syncEnds (outcome : Outcome) (random : ℚ)
  | superviseRuntimes
  | resetCircuit
  | setEnabled (enabled : Bool)
deriving DecidableEq

def react (s : Shard) : Event → Option Shard
  | .exit runtimeMs random =>
    if s.running then some (scheduleShardRecovery runtimeMs false random { s with running := false })
    else none
  | .timerFires =>
    match s.timer with
    | some due => if due ≤ s.now then some (syncShard 1 { s with timer := none }) else none
    | none => none
  | .syncRequested => some (syncShard 0 s)
  | .syncBegins => s.pending.map fun recoveries => { s with pending := none, queue := s.queue ++ [recoveries] }
  | .syncEnds outcome random => ShardSupervisor.syncEnds outcome random s
  | .superviseRuntimes => some (ShardSupervisor.superviseRuntimes s)
  | .resetCircuit => some (ShardSupervisor.resetCircuit s)
  | .setEnabled enabled => some (syncShard 0 { s with enabled })

def step (s : Shard) (e : ℕ × Event) : Option Shard := if s.now ≤ e.1 then react { s with now := e.1 } e.2 else none

def Shard.Syncing (s : Shard) : Prop := s.pending.isSome = true ∨ s.queue ≠ []

def Shard.Down (s : Shard) : Prop := s.enabled = true ∧ s.running = false

def Shard.Attended (s : Shard) : Prop := s.timer.isSome = true ∨ s.Syncing ∨ s.now < s.supervisor.openUntil

/-- The shard after a supervision pass at time `t`. -/
def Shard.supervisedAt (s : Shard) (t : ℕ) : Shard := superviseRuntimes { s with now := t }

def Shard.Recovering (s : Shard) : Prop :=
  s.timer.isSome = true ∨ s.Syncing ∨ ∀ t, s.now ≤ t → s.supervisor.openUntil ≤ t → (s.supervisedAt t).Attended

/-- No recovery sync fails while the circuit is half open, and controllers of enabled shards
stay. -/
def Allowed (s : Shard) (e : ℕ × Event) : Prop :=
  match e.2 with
  | .syncEnds (.failed _ host) _ =>
    (0 < s.queue.headD 0 → s.supervisor.halfOpen = false) ∧ (s.enabled = true → host = true)
  | .syncEnds (.idle host) _ => s.enabled = true → host = true
  | _ => True

instance (s : Shard) (e : ℕ × Event) : Decidable (Allowed s e) := by
  unfold Allowed
  split <;> infer_instance

/-- What a call of `scheduleShardRecovery` leaves alone. -/
structure SameShard (s s' : Shard) : Prop where
  now : s'.now = s.now
  enabled : s'.enabled = s.enabled
  running : s'.running = s.running
  host : s'.host = s.host
  pending : s'.pending = s.pending
  queue : s'.queue = s.queue

theorem SameShard.refl (s : Shard) : SameShard s s := ⟨rfl, rfl, rfl, rfl, rfl, rfl⟩

variable {s s' : Shard}

theorem SameShard.syncing (h : SameShard s s') : s'.Syncing ↔ s.Syncing := by
  rw [Shard.Syncing, Shard.Syncing, h.pending, h.queue]

theorem aged_openUntil (st : SupervisorState) (now runtimeMs : ℕ) :
    (st.aged now runtimeMs).openUntil = st.openUntil := by
  unfold SupervisorState.aged
  split <;> rfl

theorem aged_halfOpen (st : SupervisorState) (now runtimeMs : ℕ) : (st.aged now runtimeMs).halfOpen = st.halfOpen := by
  unfold SupervisorState.aged
  split <;> rfl

theorem scheduleShardRecovery_cases (runtimeMs : ℕ) (immediate : Bool) (random : ℚ) (s : Shard) :
    SameShard s (scheduleShardRecovery runtimeMs immediate random s) ∧
    ((scheduleShardRecovery runtimeMs immediate random s = s ∧
        (s.timer.isSome = true ∨ s.now < s.supervisor.openUntil ∨ s.supervisor.halfOpen = true)) ∨
     (s.now < (scheduleShardRecovery runtimeMs immediate random s).supervisor.openUntil ∧
        (scheduleShardRecovery runtimeMs immediate random s).supervisor.halfOpen = false) ∨
     (scheduleShardRecovery runtimeMs immediate random s).timer.isSome = true) := by
  unfold scheduleShardRecovery
  simp only [aged_openUntil, aged_halfOpen]
  split_ifs with htimer hopen hhalf hfull
  · exact ⟨.refl s, .inl ⟨rfl, .inl htimer⟩⟩
  · exact ⟨.refl s, .inl ⟨rfl, .inr (.inl hopen)⟩⟩
  · exact ⟨.refl s, .inl ⟨rfl, .inr (.inr hhalf.2)⟩⟩
  -- the circuit opens
  · refine ⟨⟨rfl, rfl, rfl, rfl, rfl, rfl⟩, .inr (.inl ⟨?_, rfl⟩)⟩
    simp [circuitOpenMs]
  · exact ⟨⟨rfl, rfl, rfl, rfl, rfl, rfl⟩, .inr (.inr rfl)⟩

/-- A call attends to the shard, unless the circuit is half open and nothing does. -/
theorem attended_of_schedule (h : s.supervisor.halfOpen = true → s.Attended) (runtimeMs : ℕ) (immediate : Bool)
    (random : ℚ) : (scheduleShardRecovery runtimeMs immediate random s).Attended := by
  obtain ⟨hsame, hcases⟩ := scheduleShardRecovery_cases runtimeMs immediate random s
  rcases hcases with ⟨heq, htimer | hopen | hhalf⟩ | ⟨hopen, -⟩ | htimer
  · rw [heq]
    exact .inl htimer
  · rw [heq]
    exact .inr (.inr hopen)
  · rw [heq]
    exact h hhalf
  · refine .inr (.inr ?_)
    rw [hsame.now]
    exact hopen
  · exact .inl htimer

def Shard.recoveries (s : Shard) : ℕ := s.pending.getD 0 + s.queue.sum

/-- A running controller is in `shardHosts`, a half-open circuit has its probe, and supervision sees
an enabled shard that is down. -/
structure Sound (s : Shard) : Prop where
  hosted : s.running = true → s.host = true
  probing : s.supervisor.halfOpen = true → s.timer.isSome = true ∨ 0 < s.recoveries
  covered : s.Down → ¬ s.Syncing → s.host = true

theorem sound_initial : Sound Shard.initial := by
  constructor
  · intro h
    cases h
  · intro h
    cases h
  · rintro ⟨h, -⟩
    cases h

theorem syncing_of_recoveries (h : 0 < s.recoveries) : s.Syncing := by
  by_contra hidle
  simp only [Shard.Syncing, not_or, Bool.not_eq_true, Option.isSome_eq_false_iff, Option.isNone_iff_eq_none,
    not_not] at hidle
  simp [Shard.recoveries, hidle.1, hidle.2] at h

theorem Sound.tick (h : Sound s) (t : ℕ) : Sound { s with now := t } := ⟨h.hosted, h.probing, h.covered⟩

theorem Sound.schedule (h : Sound s) (runtimeMs : ℕ) (immediate : Bool) (random : ℚ) :
    Sound (scheduleShardRecovery runtimeMs immediate random s) := by
  obtain ⟨hsame, hcases⟩ := scheduleShardRecovery_cases runtimeMs immediate random s
  constructor
  · rw [hsame.running, hsame.host]
    exact h.hosted
  · intro hhalf
    rw [Shard.recoveries, hsame.pending, hsame.queue]
    -- a circuit that opens again is not half open; a call that makes it so sets the timer of the probe
    rcases hcases with ⟨heq, -⟩ | ⟨-, hclosed⟩ | htimer
    · rw [heq] at hhalf ⊢
      exact h.probing hhalf
    · rw [hclosed] at hhalf
      cases hhalf
    · exact .inl htimer
  · rw [Shard.Down, hsame.enabled, hsame.running, hsame.syncing, hsame.host]
    exact h.covered

theorem Sound.supervise (h : Sound s) (hdown : s.Down) : (superviseRuntimes s).Attended := by
  unfold superviseRuntimes
  by_cases hsync : s.Syncing
  · -- a pass does not touch a sync
    split_ifs
    · exact .inr (.inl hsync)
    · exact attended_of_schedule (fun _ => .inr (.inl hsync)) 0 true 0
  by_cases htimer : s.timer.isSome = true
  · rw [if_pos (.inr (.inr htimer))]
    exact .inl htimer
  -- nothing attends to the shard, so it has no probe, and the circuit is not half open
  rw [if_neg (by simp [h.covered hdown hsync, hdown.2, htimer])]
  apply attended_of_schedule
  intro hhalf
  rcases h.probing hhalf with ht | hr
  · exact absurd ht htimer
  · exact absurd (syncing_of_recoveries hr) hsync

theorem syncing_syncShard (recoveries : ℕ) (s : Shard) : (syncShard recoveries s).Syncing := .inl rfl

theorem Sound.syncShard (hhosted : s.running = true → s.host = true)
    (hprobing : s.supervisor.halfOpen = true → s.timer.isSome = true ∨ 0 < s.recoveries + n) :
    Sound (syncShard n s) := by
  constructor
  · exact hhosted
  · intro hhalf
    have hcount : (ShardSupervisor.syncShard n s).recoveries = s.recoveries + n := by
      simp only [ShardSupervisor.syncShard, Shard.recoveries, Option.getD_some]
      omega
    rw [hcount]
    exact hprobing hhalf
  · intro _ hidle
    exact absurd (syncing_syncShard n s) hidle

theorem Sound.failedRecoveries (h : Sound s) (n : ℕ) (random : ℚ) : Sound (failedRecoveries n random s) := by
  induction n generalizing s with
  | zero => exact h
  | succ n ih =>
    rw [ShardSupervisor.failedRecoveries, Function.iterate_succ_apply]
    exact ih (h.schedule 0 false random)

theorem Shard.Attended.failedRecoveries (h : s.Attended) (n : ℕ) (random : ℚ) :
    (failedRecoveries n random s).Attended := by
  induction n generalizing s with
  | zero => exact h
  | succ n ih =>
    rw [ShardSupervisor.failedRecoveries, Function.iterate_succ_apply]
    exact ih (attended_of_schedule (fun _ => h) 0 false random)

theorem Sound.recovered (hhosted : s.running = true → s.host = true)
    (hprobing : s.supervisor.halfOpen = true → s.timer.isSome = true ∨ 0 < s.recoveries + n)
    (hcovered : s.Down → s.host = true) : Sound (recovered n s) := by
  unfold ShardSupervisor.recovered
  split_ifs with hn
  · subst hn
    exact ⟨hhosted, hprobing, fun hdown _ => hcovered hdown⟩
  · refine ⟨hhosted, ?_, fun hdown _ => hcovered hdown⟩
    intro hhalf
    cases hhalf

theorem sound_syncEnds (h : Sound s)
    (hallowed : Allowed s (s.now, .syncEnds outcome random)) (hstep : syncEnds outcome random s = some s') :
    Sound s' := by
  unfold syncEnds at hstep
  cases hqueue : s.queue with
  | nil => simp [hqueue] at hstep
  | cons n queue =>
    simp only [hqueue] at hstep
    have hprobing : s.supervisor.halfOpen = true →
        s.timer.isSome = true ∨ 0 < (s.pending.getD 0 + queue.sum) + n := by
      intro hhalf
      rcases h.probing hhalf with ht | hr
      · exact .inl ht
      · simp only [Shard.recoveries, hqueue, List.sum_cons] at hr
        right
        omega
    cases outcome with
    | started =>
      cases hstep
      apply Sound.recovered
      · exact fun _ => rfl
      · exact hprobing
      · exact fun _ => rfl
    | unchanged =>
      split_ifs at hstep with hrun
      cases hstep
      apply Sound.recovered
      · exact h.hosted
      · exact hprobing
      · exact fun hdown => h.hosted hrun
    | failed running host =>
      simp only at hstep
      split_ifs at hstep with hrun
      cases hstep
      simp only [Allowed, hqueue, List.headD_cons] at hallowed
      apply Sound.failedRecoveries
      constructor
      · exact hrun
      · intro hhalf
        -- a half-open circuit keeps its probe: the sync that failed was not one
        rcases Nat.eq_zero_or_pos n with rfl | hn
        · exact hprobing hhalf
        · exact absurd (hallowed.1 hn) (by simpa using hhalf)
      · intro hdown _
        exact hallowed.2 hdown.1
    | idle host =>
      cases hstep
      apply Sound.recovered
      · intro hrun
        cases hrun
      · exact hprobing
      · intro hdown
        exact hallowed hdown.1

theorem sound_react (h : Sound s) (hallowed : Allowed s (s.now, e)) (hstep : react s e = some s') : Sound s' := by
  cases e with
  | exit runtimeMs random =>
    simp only [react] at hstep
    split_ifs at hstep with hrun
    cases hstep
    apply Sound.schedule
    refine ⟨?_, h.probing, fun _ _ => h.hosted hrun⟩
    intro hrun'
    cases hrun'
  | timerFires =>
    simp only [react] at hstep
    split at hstep
    · split_ifs at hstep
      cases hstep
      apply Sound.syncShard
      · exact h.hosted
      · intro _
        right
        omega
    · cases hstep
  | syncRequested =>
    cases hstep
    exact Sound.syncShard h.hosted h.probing
  | syncBegins =>
    obtain ⟨n, hpending, rfl⟩ := Option.map_eq_some_iff.mp hstep
    constructor
    · exact h.hosted
    · intro hhalf
      have hsum := h.probing hhalf
      simp only [Shard.recoveries, hpending, Option.getD_some] at hsum
      simp only [Shard.recoveries, Option.getD_none, List.sum_append, List.sum_singleton]
      rcases hsum with ht | hr
      · exact .inl ht
      · right
        omega
    · intro _ hidle
      exact absurd (.inr (by simp)) hidle
  | syncEnds outcome random => exact sound_syncEnds h hallowed hstep
  | superviseRuntimes =>
    cases hstep
    unfold superviseRuntimes
    split_ifs
    · exact h
    · exact h.schedule 0 true 0
  | resetCircuit =>
    cases hstep
    apply Sound.syncShard
    · exact h.hosted
    · intro hhalf
      cases hhalf
  | setEnabled enabled =>
    cases hstep
    exact Sound.syncShard h.hosted h.probing

theorem sound_step (s : Shard) (e : ℕ × Event) (s' : Shard) (h : Sound s) (hallowed : Allowed s e)
    (hstep : step s e = some s') : Sound s' := by
  unfold step at hstep
  split_ifs at hstep
  exact sound_react (h.tick e.1) hallowed hstep

/-! ## No shard is forgotten -/

/-- The events that call `scheduleShardRecovery`. -/
def Reschedules (s : Shard) : Event → Prop
  | .exit _ _ => True
  | .superviseRuntimes => True
  | .syncEnds (.failed _ _) _ => 0 < s.queue.headD 0
  | _ => False

theorem attended_react (h : Sound s) (hallowed : Allowed s (s.now, e)) (hsched : Reschedules s e)
    (hstep : react s e = some s') (hdown : s'.Down) : s'.Attended := by
  cases e with
  | exit runtimeMs random =>
    simp only [react] at hstep
    split_ifs at hstep
    cases hstep
    apply attended_of_schedule
    -- the call returns at once, but the probe is under way
    intro hhalf
    rcases h.probing hhalf with ht | hr
    · exact .inl ht
    · exact .inr (.inl (syncing_of_recoveries hr))
  | superviseRuntimes =>
    cases hstep
    apply h.supervise
    unfold superviseRuntimes at hdown
    split_ifs at hdown
    · exact hdown
    · have hsame := (scheduleShardRecovery_cases 0 true 0 s).1
      rwa [Shard.Down, hsame.enabled, hsame.running] at hdown
  | syncEnds outcome random =>
    cases outcome with
    | failed running host =>
      cases hqueue : s.queue with
      | nil => simp [Reschedules, hqueue] at hsched
      | cons n queue =>
        simp only [Reschedules, hqueue, List.headD_cons] at hsched
        simp only [Allowed, hqueue, List.headD_cons] at hallowed
        simp only [react, syncEnds, hqueue] at hstep
        split_ifs at hstep
        cases hstep
        -- the first timer attends to the shard, and the others leave it so
        obtain ⟨m, rfl⟩ := Nat.exists_eq_succ_of_ne_zero hsched.ne'
        rw [failedRecoveries, Function.iterate_succ_apply]
        apply Shard.Attended.failedRecoveries
        apply attended_of_schedule
        intro hhalf
        cases (hallowed.1 hsched).symm.trans hhalf
    | started => cases hsched
    | unchanged => cases hsched
    | idle host => cases hsched
  | timerFires => cases hsched
  | syncRequested => cases hsched
  | syncBegins => cases hsched
  | resetCircuit => cases hsched
  | setEnabled enabled => cases hsched

/-- A shard that is down recovers, if no recovery sync fails while the circuit is half open. -/
theorem circuit_never_wedges {es : List (ℕ × Event)} {s : Shard} (h : Run step Allowed Shard.initial es s) :
    (s.Down → s.Recovering) ∧
    ∀ t e s', Allowed s (t, e) → Reschedules s e → step s (t, e) = some s' → s'.Down → s'.Attended := by
  have hsound := h.invariant sound_step sound_initial
  constructor
  · intro hdown
    refine .inr (.inr ?_)
    intro t _ _
    exact (hsound.tick t).supervise hdown
  · intro t e s' hallowed hsched hstep hdown
    unfold step at hstep
    split_ifs at hstep
    exact attended_react (hsound.tick t) hallowed hsched hstep hdown

def firstFailure : List (ℕ × Event) :=
  [(0, .setEnabled true), (0, .syncBegins), (0, .syncEnds (.failed false true) (1 / 2))]

def failedShard : Shard := ⟨0, true, false, true, none, none, [], .fresh⟩

theorem circuit_never_wedges_first :
    Run step Allowed Shard.initial firstFailure failedShard ∧ failedShard.Down ∧ failedShard.Recovering := by
  have hrun : Run step Allowed Shard.initial firstFailure failedShard := run_of_exec (by decide)
  have hdown : failedShard.Down := ⟨rfl, rfl⟩
  exact ⟨hrun, hdown, (circuit_never_wedges hrun).1 hdown⟩

def failedRetry (t : ℕ) : List (ℕ × Event) :=
  [(t, .timerFires), (t, .syncBegins), (t, .syncEnds (.failed false true) (1 / 2))]

def failedProbe : List (ℕ × Event) :=
  firstFailure ++ [(15000, .superviseRuntimes)] ++ failedRetry 15000 ++ failedRetry 17000 ++
    failedRetry 21000 ++ failedRetry 29000 ++ failedRetry 45000 ++ [(645000, .superviseRuntimes)] ++
    failedRetry 645000

def wedgedShard : Shard := ⟨645000, true, false, true, none, none, [], ⟨7, [645000], 645000, 645000, true, none⟩⟩

/-- Nothing is pending, the deadline is over, and no later pass acts. -/
theorem failed_probe_wedges :
    ¬ ∀ (es : List (ℕ × Event)) (s : Shard), AnyRun step Shard.initial es s → s.Down → s.Recovering := by
  intro h
  have hrun : AnyRun step Shard.initial failedProbe wedgedShard := anyRun_of_exec (by decide +kernel)
  rcases h _ _ hrun ⟨rfl, rfl⟩ with htimer | hsync | hpass
  · cases htimer
  · simp [Shard.Syncing, wedgedShard] at hsync
  · have hsame : wedgedShard.supervisedAt 645000 = wedgedShard := by decide +kernel
    have hattended := hpass 645000 le_rfl le_rfl
    rw [hsame] at hattended
    simp [Shard.Attended, Shard.Syncing, wedgedShard] at hattended

end RyanAI.Gateway.ShardSupervisor
