import RyanAI.Lib.Machine
import RyanAI.Lib.OrderedMap
import RyanAI.Lib.RoundRobin

/-!
# The fair connection queue

`FairConnectionQueue` of `bot-gateway/src/queue.ts` admits tasks under global and per-connection limits and dispatches
them round robin over the connections with queued tasks. `step` executes one call or callback as an event loop does.

The last fields of `Core` record what has happened: the tasks being executed, those whose `finally` callback is due,
every settled promise, and the moments at which the set of waiting connections may have changed.
-/

namespace RyanAI.Gateway.FairQueue

open RyanAI.Lib
open RyanAI.Lib.Machine

/-- `FairQueueLimits`, without the waiting time. -/
structure Limits where
  maxGlobalActive : Nat
  maxConnectionActive : Nat
  maxGlobalQueued : Nat
  maxConnectionQueued : Nat
  maxQueuedBytes : Nat

structure FairTask where
  id : Nat
  connectionId : String
  bytes : Nat
  deriving DecidableEq

inductive Outcome where
  | executed
  | expired
  | cancelled
  deriving DecidableEq

structure Moment where
  dispatched : Option FairTask
  waiting : List String

/-- The bookkeeping. `rotation` holds both `rotation` and `rotationIndex`. -/
structure Core where
  active : ℤ
  queued : ℤ
  queuedBytes : ℤ
  activeByConnection : OrderedMap String ℤ
  queues : OrderedMap String (List FairTask)
  rotation : Cursor String
  nextId : Nat
  executing : List FairTask
  finishing : List FairTask
  settled : List (Nat × Outcome)
  moments : List Moment

/-- The queue. `idle` records the waiters that were told that it is idle. -/
structure State where
  accepting : Bool
  core : Core
  idleWaiters : List Nat
  idle : List Nat

def init : State where
  accepting := true
  core := ⟨0, 0, 0, [], [], ⟨[], 0⟩, 0, [], [], [], []⟩
  idleWaiters := []
  idle := []

/-! ## The class -/

namespace Core

/-- `activeByConnection.get(connectionId) ?? 0`. -/
def activeOf (c : Core) (k : String) : ℤ := (OrderedMap.get k c.activeByConnection).getD 0

def isWaiting (lim : Limits) (c : Core) (k : String) : Bool :=
  (OrderedMap.get k c.queues).any (fun q => !q.isEmpty) &&
    decide (c.activeOf k < lim.maxConnectionActive)

def mark (lim : Limits) (dispatched : Option FairTask) (c : Core) : Core :=
  { c with moments := ⟨dispatched, (OrderedMap.keys c.queues).filter (c.isWaiting lim)⟩ :: c.moments }

/-- `removeRotation`. -/
def removeRotation (c : Core) (k : String) : Core :=
  { c with queues := OrderedMap.delete k c.queues, rotation := c.rotation.remove k }

def setQueue (c : Core) (k : String) (q : List FairTask) : Core :=
  let c := { c with queues := OrderedMap.set k q c.queues }
  if q.isEmpty then c.removeRotation k else c

/-- The loop of `nextEligible`; the argument is `rotation.length - checked`. -/
def scan (lim : Limits) : Nat → Core → Option FairTask × Core
  | 0, c => (none, c)
  | n + 1, c =>
    match c.rotation.next with
    | none => (none, c)
    | some (k, rotation) =>
      if (lim.maxConnectionActive : ℤ) ≤ c.activeOf k then
        scan lim n { c with rotation := rotation }
      else
        match OrderedMap.get k c.queues with
        | some (e :: rest) => (some e, ({ c with rotation := rotation } : Core).setQueue k rest)
        | _ => scan lim n (({ c with rotation := rotation } : Core).removeRotation k)

/-- `nextEligible`. -/
def nextEligible (lim : Limits) (c : Core) : Option FairTask × Core := scan lim c.rotation.items.length c

/-- The rest of the body of the loop in `drain`. -/
def dispatch (lim : Limits) (e : FairTask) (c : Core) : Core :=
  mark lim (some e) { c with
    queued := c.queued - 1
    queuedBytes := c.queuedBytes - e.bytes
    active := c.active + 1
    activeByConnection := OrderedMap.set e.connectionId (c.activeOf e.connectionId + 1) c.activeByConnection
    executing := c.executing ++ [e] }

/-- The loop of `drain`; every round takes one from `queued`. -/
def drainLoop (lim : Limits) : Nat → Core → Core
  | 0, c => c
  | n + 1, c =>
    if c.active < lim.maxGlobalActive ∧ 0 < c.queued then
      match c.nextEligible lim with
      | (none, c') => c'
      | (some e, c') => drainLoop lim n (c'.dispatch lim e)
    else c

/-- `drain`. -/
def drain (lim : Limits) (c : Core) : Core := drainLoop lim c.queued.toNat c

/-- The new task of `run`. -/
def newTask (c : Core) (k : String) (bytes : Nat) : FairTask := ⟨c.nextId, k, bytes⟩

/-- `run` up to its call of `drain`. -/
def enqueue (lim : Limits) (k : String) (bytes : Nat) (c : Core) : Core :=
  let entry := c.newTask k bytes
  let c := match OrderedMap.get k c.queues with
    | none => { c with queues := OrderedMap.set k [entry] c.queues, rotation := c.rotation.push k }
    | some q => { c with queues := OrderedMap.set k (q ++ [entry]) c.queues }
  mark lim none { c with
    queued := c.queued + 1
    queuedBytes := c.queuedBytes + bytes
    nextId := c.nextId + 1 }

def mustWait (lim : Limits) (c : Core) (k : String) : Bool :=
  decide ((lim.maxGlobalActive : ℤ) ≤ c.active) ||
    decide ((lim.maxConnectionActive : ℤ) ≤ c.activeOf k) ||
    decide (0 < c.queued)

def isFull (lim : Limits) (c : Core) (k : String) (bytes : Nat) : Bool :=
  decide ((lim.maxGlobalQueued : ℤ) ≤ c.queued) ||
    decide (lim.maxConnectionQueued ≤ ((OrderedMap.get k c.queues).map List.length).getD 0) ||
    decide ((lim.maxQueuedBytes : ℤ) < c.queuedBytes + bytes)

def settle (e : FairTask) (c : Core) : Core :=
  { c with
    executing := c.executing.erase e
    finishing := c.finishing ++ [e]
    settled := c.settled ++ [(e.id, .executed)] }

/-- The `finally` callback up to its call of `drain`. -/
def release (lim : Limits) (e : FairTask) (c : Core) : Core :=
  let remaining := (OrderedMap.get e.connectionId c.activeByConnection).getD 1 - 1
  mark lim none { c with
    active := c.active - 1
    activeByConnection :=
      if remaining ≤ 0 then OrderedMap.delete e.connectionId c.activeByConnection
      else OrderedMap.set e.connectionId remaining c.activeByConnection
    finishing := c.finishing.erase e }

/-- `expire` for a task that is still queued. -/
def expire (lim : Limits) (e : FairTask) (q : List FairTask) (c : Core) : Core :=
  let c := { c with queued := c.queued - 1, queuedBytes := c.queuedBytes - e.bytes }
  let c := c.setQueue e.connectionId (q.erase e)
  mark lim none { c with settled := c.settled ++ [(e.id, .expired)] }

/-- `cancelQueued`. -/
def cancelQueued (lim : Limits) (c : Core) : Core :=
  mark lim none { c with
    settled := c.settled ++ (c.queues.flatMap Prod.snd).map fun e => (e.id, .cancelled)
    queues := []
    rotation := ⟨[], 0⟩
    queued := 0
    queuedBytes := 0 }

end Core

/-- `checkIdle`. -/
def checkIdle (s : State) : State :=
  if s.core.active ≠ 0 ∨ s.core.queued ≠ 0 then s
  else { s with idleWaiters := [], idle := s.idle ++ s.idleWaiters }

/-- `settle` and `finish` are a task's end and its `finally`, `expire` and `idleTimeout` timers. -/
inductive Event where
  | run (connectionId : String) (bytes : Nat)
  | settle (e : FairTask)
  | finish (e : FairTask)
  | expire (e : FairTask)
  | cancelQueued
  | stopAccepting
  | waitForIdle (waiter : Nat)
  | idleTimeout (waiter : Nat)

/-- One event. A rejected call of `run` changes nothing. -/
def step (lim : Limits) (s : State) : Event → Option State
  | .run k bytes =>
    if !s.accepting then some s
    else if s.core.mustWait lim k && s.core.isFull lim k bytes then some s
    else some { s with core := (s.core.enqueue lim k bytes).drain lim }
  | .settle e =>
    if e ∈ s.core.executing then some { s with core := s.core.settle e } else none
  | .finish e =>
    if e ∈ s.core.finishing then
      some (checkIdle { s with core := (s.core.release lim e).drain lim })
    else none
  | .expire e =>
    match OrderedMap.get e.connectionId s.core.queues with
    | none => some s
    | some q => if e ∈ q then some (checkIdle { s with core := s.core.expire lim e q }) else some s
  | .cancelQueued => some (checkIdle { s with core := s.core.cancelQueued lim })
  | .stopAccepting => some (checkIdle { s with accepting := false })
  | .waitForIdle w =>
    if s.core.active = 0 ∧ s.core.queued = 0 then some { s with idle := s.idle ++ [w] }
    else some { s with idleWaiters := s.idleWaiters ++ [w] }
  | .idleTimeout w => some { s with idleWaiters := s.idleWaiters.erase w }

/-- `run` admits the task. -/
def admits (lim : Limits) (s : State) (k : String) (bytes : Nat) : Bool :=
  s.accepting && !(s.core.mustWait lim k && s.core.isFull lim k bytes)

inductive CoreStep (lim : Limits) (s : State) : Event → Core → Prop
  | same {ev : Event} : CoreStep lim s ev s.core
  | admitted {k : String} {bytes : Nat} : admits lim s k bytes = true →
      CoreStep lim s (.run k bytes) ((s.core.enqueue lim k bytes).drain lim)
  | settled {e : FairTask} : e ∈ s.core.executing → CoreStep lim s (.settle e) (s.core.settle e)
  | finished {e : FairTask} : e ∈ s.core.finishing → CoreStep lim s (.finish e) ((s.core.release lim e).drain lim)
  | expired {e : FairTask} {q : List FairTask} :
      OrderedMap.get e.connectionId s.core.queues = some q → e ∈ q →
      CoreStep lim s (.expire e) (s.core.expire lim e q)
  | cancelled : CoreStep lim s .cancelQueued (s.core.cancelQueued lim)

theorem checkIdle_core (s : State) : (checkIdle s).core = s.core := by
  rw [checkIdle]
  split <;> rfl

variable {lim : Limits} {c c' : Core} {k : String}

theorem coreStep_of_step (h : step lim s ev = some s') : CoreStep lim s ev s'.core := by
  cases ev with
  | run k bytes =>
    simp only [step] at h
    split at h
    · cases h
      exact .same
    rename_i haccepting
    split at h
    · cases h
      exact .same
    rename_i hroom
    cases h
    refine .admitted ?_
    simp only [admits, Bool.and_eq_true, Bool.not_eq_true']
    exact ⟨by simpa using haccepting, by simpa using hroom⟩
  | settle e =>
    simp only [step] at h
    split at h
    · rename_i he
      cases h
      exact .settled he
    · cases h
  | finish e =>
    simp only [step] at h
    split at h
    · rename_i he
      cases h
      rw [checkIdle_core]
      exact .finished he
    · cases h
  | expire e =>
    simp only [step] at h
    split at h
    · cases h
      exact .same
    rename_i q hq
    split at h
    · rename_i he
      cases h
      rw [checkIdle_core]
      exact .expired hq he
    · cases h
      exact .same
  | cancelQueued =>
    cases h
    rw [checkIdle_core]
    exact .cancelled
  | stopAccepting =>
    cases h
    rw [checkIdle_core]
    exact .same
  | waitForIdle w =>
    simp only [step] at h
    split at h <;> cases h <;> exact .same
  | idleTimeout w =>
    cases h
    exact .same

/-! ## Queues and rotation -/

structure Queues (c : Core) : Prop where
  distinct : OrderedMap.Distinct c.queues
  nonempty : ∀ k q, OrderedMap.get k c.queues = some q → q ≠ []
  owner : ∀ k q, OrderedMap.get k c.queues = some q → ∀ e ∈ q, e.connectionId = k
  inRange : c.rotation.InRange
  nodup : c.rotation.items.Nodup
  mem : ∀ k, k ∈ c.rotation.items ↔ (OrderedMap.get k c.queues).isSome = true

theorem Queues.congr (h : Queues c) (hqueues : c'.queues = c.queues)
    (hrotation : c'.rotation = c.rotation) : Queues c' := by
  constructor
  · rw [hqueues]
    exact h.distinct
  · rw [hqueues]
    exact h.nonempty
  · rw [hqueues]
    exact h.owner
  · rw [hrotation]
    exact h.inRange
  · rw [hrotation]
    exact h.nodup
  · rw [hqueues, hrotation]
    exact h.mem

theorem Queues.rotate (h : Queues c) (hr : r.InRange)
    (hp : r.order.Perm c.rotation.order) : Queues { c with rotation := r } where
  distinct := h.distinct
  nonempty := h.nonempty
  owner := h.owner
  inRange := hr
  nodup := by
    rw [← Cursor.nodup_order, hp.nodup_iff, Cursor.nodup_order]
    exact h.nodup
  mem := by
    intro k
    rw [← Cursor.mem_order, hp.mem_iff, Cursor.mem_order]
    exact h.mem k

theorem setQueue_queues (c : Core) (k : String) (q : List FairTask) (k' : String) :
    OrderedMap.get k' (c.setQueue k q).queues =
      if k' = k then (if q.isEmpty then none else some q) else OrderedMap.get k' c.queues := by
  rw [Core.setQueue]
  by_cases hq : q.isEmpty = true
  · simp only [hq, if_true, Core.removeRotation, OrderedMap.get_delete, OrderedMap.get_set]
    split <;> rfl
  · simp only [if_neg hq, OrderedMap.get_set]

theorem setQueue_eq (c : Core) (k : String) (q : List FairTask) : c.setQueue k q =
      { c with queues := (c.setQueue k q).queues, rotation := (c.setQueue k q).rotation } := by
  rw [Core.setQueue]
  split <;> rfl

theorem expire_eq (lim : Limits) (e : FairTask) (q : List FairTask) (c : Core) :
    c.expire lim e q = Core.mark lim none { c with
      queues := (c.setQueue e.connectionId (q.erase e)).queues
      rotation := (c.setQueue e.connectionId (q.erase e)).rotation
      queued := c.queued - 1
      queuedBytes := c.queuedBytes - e.bytes
      settled := c.settled ++ [(e.id, .expired)] } := by
  unfold Core.expire Core.setQueue
  cases (q.erase e).isEmpty <;> rfl

theorem setQueue_order (h : Queues c) (hk : k ∈ c.rotation.items) (q : List FairTask) :
    (c.setQueue k q).rotation.order = if q.isEmpty then c.rotation.order.erase k else c.rotation.order := by
  rw [Core.setQueue]
  by_cases hq : q.isEmpty = true
  · simp only [hq, if_true, Core.removeRotation]
    exact Cursor.order_remove h.inRange h.nodup hk
  · simp only [if_neg hq]

theorem Queues.setQueue (h : Queues c) (hk : k ∈ c.rotation.items)
    (hq : ∀ e ∈ q, e.connectionId = k) : Queues (c.setQueue k q) := by
  have horder := setQueue_order h hk q
  have hget := setQueue_queues c k q
  refine ⟨?_, ?_, ?_, ?_, ?_, ?_⟩
  · rw [Core.setQueue]
    split
    · exact (h.distinct.set k q).delete k
    · exact h.distinct.set k q
  · intro k' q' hq'
    rw [hget] at hq'
    split at hq'
    · split at hq'
      · cases hq'
      · rename_i hne
        cases hq'
        simpa using hne
    · exact h.nonempty k' q' hq'
  · intro k' q' hq'
    rw [hget] at hq'
    split at hq'
    · rename_i hkk
      split at hq'
      · cases hq'
      · cases hq'
        exact hkk ▸ hq
    · exact h.owner k' q' hq'
  · rw [Core.setQueue]
    split
    · exact Cursor.inRange_remove h.inRange k
    · exact h.inRange
  · rw [← Cursor.nodup_order, horder]
    split
    · exact (Cursor.nodup_order.2 h.nodup).erase k
    · exact Cursor.nodup_order.2 h.nodup
  · intro k'
    rw [← Cursor.mem_order, horder, hget]
    -- an emptied queue leaves the map and the rotation together
    by_cases hempty : q.isEmpty = true
    · simp only [if_pos hempty]
      rw [(Cursor.nodup_order.2 h.nodup).mem_erase_iff, Cursor.mem_order, h.mem]
      by_cases hkk : k' = k <;> simp [hkk]
    simp only [if_neg hempty]
    rw [Cursor.mem_order, h.mem]
    by_cases hkk : k' = k
    · subst hkk
      simp [(h.mem k').1 hk]
    · simp [hkk]

def AtLimit (lim : Limits) (c : Core) (k : String) : Prop := (lim.maxConnectionActive : ℤ) ≤ c.activeOf k

/-- All are at their limit, or the cursor passes those in front of the first that is not. -/
inductive Scanned (lim : Limits) (c : Core) (todo done : List String) : Option FairTask × Core → Prop
  | blocked {r : Cursor String} : r.InRange → r.order = done ++ todo → (∀ k ∈ todo, AtLimit lim c k) →
      Scanned lim c todo done (none, { c with rotation := r })
  | found {r : Cursor String} {pre post : List String} {k : String} {e : FairTask}
      {rest : List FairTask} : todo = pre ++ k :: post → (∀ k' ∈ pre, AtLimit lim c k') →
      ¬ AtLimit lim c k → OrderedMap.get k c.queues = some (e :: rest) → r.InRange →
      r.order = post ++ done ++ pre ++ [k] →
      Scanned lim c todo done (some e, ({ c with rotation := r } : Core).setQueue k rest)

theorem scanned_scan (lim : Limits) (h : Queues c) (horder : c.rotation.order = todo ++ done) (hn : todo.length = n) :
    Scanned lim c todo done (c.scan lim n) := by
  induction n generalizing c todo done with
  | zero =>
    -- every connection has been passed, and the cursor is back where it started
    have hnil := List.length_eq_zero_iff.1 hn
    subst hnil
    refine .blocked h.inRange ?_ (by simp)
    simpa using horder
  | succ n ih =>
    cases todo with
    | nil => simp at hn
    | cons k todo =>
      obtain ⟨r, hnext, hr, hrest⟩ := Cursor.next_of_order h.inRange horder
      have hmem : k ∈ c.rotation.items := by
        rw [← Cursor.mem_order, horder]
        simp
      obtain ⟨q, hq⟩ := Option.isSome_iff_exists.1 ((h.mem k).1 hmem)
      simp only [Core.scan, hnext]
      by_cases hlimit : (lim.maxConnectionActive : ℤ) ≤ c.activeOf k
      · -- one more connection that is passed
        rw [if_pos hlimit]
        have hperm : r.order.Perm c.rotation.order := by
          rw [hrest, horder]
          exact (List.perm_append_singleton k (todo ++ done))
        have hscan := ih (h.rotate hr hperm) (hrest.trans (List.append_assoc _ _ _))
          (by simpa using hn)
        -- what the rest of the scan finds, with this connection in front of it
        generalize hresult : Core.scan lim n { c with rotation := r } = result at hscan
        cases hscan with
        | blocked hr' horder' hall =>
          refine .blocked hr' ?_ ?_
          · simpa using horder'
          · intro k' hk'
            rcases List.mem_cons.1 hk' with rfl | hk'
            · exact hlimit
            · exact hall k' hk'
        | @found r' pre post k' e rest hsplit hpre hk' hget hr' horder' =>
          refine .found (?_ : k :: todo = (k :: pre) ++ k' :: post) ?_ hk' hget hr' ?_
          · rw [hsplit]
            rfl
          · intro x hx
            rcases List.mem_cons.1 hx with rfl | hx
            · exact hlimit
            · exact hpre x hx
          · simpa using horder'
      · rw [if_neg hlimit]
        cases q with
        -- the branch of the source for an empty queue is never taken
        | nil => exact absurd rfl (h.nonempty k [] hq)
        | cons e rest =>
          simp only [hq]
          have hsplit : k :: todo = [] ++ k :: todo := rfl
          exact .found hsplit (by simp) hlimit hq hr (by simpa using hrest)

theorem scanned_nextEligible (lim : Limits) (h : Queues c) : Scanned lim c c.rotation.order [] (c.nextEligible lim) :=
  scanned_scan lim h (List.append_nil _).symm c.rotation.length_order

inductive Dispatch (lim : Limits) (c : Core) : FairTask → Core → Prop
  | mk {r : Cursor String} {pre post : List String} {k : String} {e : FairTask}
      {rest : List FairTask} : c.active < lim.maxGlobalActive → 0 < c.queued →
      c.rotation.order = pre ++ k :: post → (∀ k' ∈ pre, AtLimit lim c k') → ¬ AtLimit lim c k →
      OrderedMap.get k c.queues = some (e :: rest) → r.InRange → r.order = post ++ pre ++ [k] →
      Dispatch lim c e ((({ c with rotation := r } : Core).setQueue k rest).dispatch lim e)

inductive Drains (lim : Limits) : Core → Core → Prop
  | stop {c : Core} : ¬ (c.active < lim.maxGlobalActive ∧ 0 < c.queued) → Drains lim c c
  | blocked {c : Core} {r : Cursor String} : r.InRange → r.order = c.rotation.order →
      (∀ k ∈ c.rotation.order, AtLimit lim c k) → Drains lim c { c with rotation := r }
  | round {c c₁ c₂ : Core} {e : FairTask} : Dispatch lim c e c₁ → Drains lim c₁ c₂ → Drains lim c c₂

theorem queues_visited (h : Queues c) (horder : c.rotation.order = pre ++ k :: post) (hr : r.InRange)
    (hr' : r.order = post ++ pre ++ [k]) : Queues { c with rotation := r } ∧ k ∈ r.items := by
  refine ⟨h.rotate hr ?_, ?_⟩
  · rw [hr', horder, List.append_assoc]
    have hcomm : (post ++ (pre ++ [k])).Perm ((pre ++ [k]) ++ post) := List.perm_append_comm
    simpa using hcomm
  · rw [← Cursor.mem_order, hr']
    simp

theorem queues_of_dispatch (h : Queues c) (hd : Dispatch lim c e c') : Queues c' := by
  cases hd with
  | @mk r pre post k _ rest _ _ horder _ _ hget hr hr' =>
    obtain ⟨hvisited, hk⟩ := queues_visited h horder hr hr'
    have howner := h.owner k (e :: rest) hget
    have htaken : Queues (({ c with rotation := r } : Core).setQueue k rest) :=
      hvisited.setQueue hk fun e' he' => howner e' (List.mem_cons_of_mem e he')
    exact htaken.congr rfl rfl

theorem setQueue_queued (c : Core) (k : String) (q : List FairTask) : (c.setQueue k q).queued = c.queued := by
  rw [Core.setQueue]
  split <;> rfl

theorem drains_drainLoop (lim : Limits) (h : Queues c) (hn : c.queued.toNat = n) :
    Drains lim c (c.drainLoop lim n) := by
  induction n generalizing c with
  | zero =>
    -- the number of rounds is the value of `queued`, which is not positive here
    apply Drains.stop
    rintro ⟨-, hpos⟩
    omega
  | succ n ih =>
    simp only [Core.drainLoop]
    by_cases hroom : c.active < lim.maxGlobalActive ∧ 0 < c.queued
    · rw [if_pos hroom]
      have hscan := scanned_nextEligible lim h
      generalize c.nextEligible lim = result at hscan
      cases hscan with
      | blocked hr horder hall => exact .blocked hr (by simpa using horder) hall
      | @found r pre post k e rest hsplit hpre hk hget hr horder =>
        have hround : Dispatch lim c e
            ((({ c with rotation := r } : Core).setQueue k rest).dispatch lim e) :=
          .mk hroom.1 hroom.2 hsplit hpre hk hget hr (by simpa using horder)
        -- a round takes one from `queued`, so the bound still holds
        refine .round hround (ih (queues_of_dispatch h hround) ?_)
        simp only [Core.dispatch, Core.mark, setQueue_queued]
        omega
    · rw [if_neg hroom]
      exact .stop hroom

theorem drains_drain (lim : Limits) (h : Queues c) : Drains lim c (c.drain lim) := drains_drainLoop lim h rfl

/-- The induction over the rounds of `drain`. -/
theorem Drains.invariant {I : Core → Prop} (hround : ∀ c e c', I c → Dispatch lim c e c' → I c')
    (hrotate : ∀ c r, I c → r.InRange → r.order = c.rotation.order → I { c with rotation := r })
    (h : Drains lim c c') (hc : I c) : I c' := by
  induction h with
  | stop _ => exact hc
  | blocked hr horder _ => exact hrotate _ _ hc hr horder
  | round hd _ ih => exact ih (hround _ _ _ hc hd)

end RyanAI.Gateway.FairQueue
