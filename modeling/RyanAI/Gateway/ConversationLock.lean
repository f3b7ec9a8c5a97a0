import Mathlib
import RyanAI.Lib.AsyncLock
import RyanAI.Lib.Interleaving
import RyanAI.Lib.Machine

/-!
# The lock of a conversation

`_conversation_lock` of `routers/bot_gateway.py` keeps one entry for each conversation in use: an `asyncio.Lock` and the
number of callers inside. A caller waits for the lock under a timeout, then for the lock of the database, and runs its
body; its `finally` block gives back what it took, and the last caller of an entry removes it.

The machine runs any number of callers of any number of keys in one event loop. The inner `entry.lock.acquire()` has
steps of its own, since `asyncio.wait_for` runs it in a task that it cancels: a caller interrupted twice leaves before
that task has found out, its waiter still in the queue. Callers can be timed out or cancelled at every point, and the
lock of the database can fail.

`Exclusive` speaks of the locks and `Counted` of the entries; together they are kept by every step.
-/

namespace RyanAI.Gateway.ConversationLock

open Lib.AsyncLock Lib.Machine Lib.Interleaving

/-- Where the inner `entry.lock.acquire()` is; `mustCancel` comes before its first step. -/
inductive Acquire
  | unstarted (mustCancel : Bool)
  | waiting
  | acquired
  | cancelled
  deriving DecidableEq, Repr

/-- An `interrupted` `wait_for` has cancelled and will raise; `closing` leaves the database lock. -/
inductive Phase
  | waitFor
  | interrupted
  | database
  | body
  | closing
  | left
  deriving DecidableEq, Repr

/-- One call of `_conversation_lock`; `acquired` is its local variable. -/
structure Caller where
  key : String
  entry : Nat
  acquire : Acquire
  acquired : Bool
  phase : Phase
  deriving DecidableEq, Repr

def Caller.inside (c : Caller) : Bool := c.phase != .left

variable {c c' : Caller} {i : Nat} {l : Lock Nat}

@[simp]
theorem Caller.inside_eq_true : c.inside = true ↔ c.phase ≠ .left := by
  simp [Caller.inside]

theorem Caller.inside_congr (h : c.phase ≠ .left) (h' : c'.phase ≠ .left) :
    c'.inside = c.inside := by rw [inside_eq_true.2 h, inside_eq_true.2 h']

/-- `_ConversationLockEntry`. The lock knows a caller by its position. -/
structure ConversationLockEntry where
  lock : Lock Nat
  references : Int

/-- `conversationLocks` maps keys to addresses below `allocated`. -/
structure State where
  conversationLocks : String → Option Nat
  entries : Nat → ConversationLockEntry
  allocated : Nat
  callers : List Caller

namespace State

def initial : State := ⟨fun _ => none, fun _ => ⟨.free, 0⟩, 0, []⟩

def setLock (s : State) (a : Nat) (l : Lock Nat) : State :=
  { s with entries := Function.update s.entries a { s.entries a with lock := l } }

def setCaller (s : State) (i : Nat) (c : Caller) : State := { s with callers := s.callers.set i c }

end State

def entryOf (s : State) (key : String) : State × Nat :=
  match s.conversationLocks key with
  | some a => (s, a)
  | none =>
    ({ s with
        conversationLocks := Function.update s.conversationLocks key (some s.allocated)
        entries := Function.update s.entries s.allocated ⟨.free, 0⟩
        allocated := s.allocated + 1 }, s.allocated)

/-- A new caller up to its `wait_for`. -/
def enter (s : State) (key : String) : State :=
  let (s, a) := entryOf s key
  { s with
    entries := Function.update s.entries a
      { s.entries a with references := (s.entries a).references + 1 }
    callers := s.callers ++ [⟨key, a, .unstarted false, false, .waitFor⟩] }

/-- The `finally` block. A release that raised would leave the entry as it is. -/
def finallyBlock (s : State) (i : Nat) (c : Caller) : State :=
  let s := s.setCaller i { c with phase := .left }
  let entry := s.entries c.entry
  match if c.acquired then entry.lock.release else some entry.lock with
  | none => s
  | some l =>
    let s := { s with entries := Function.update s.entries c.entry ⟨l, entry.references - 1⟩ }
    if entry.references - 1 = 0 ∧ s.conversationLocks c.key = some c.entry then
      { s with conversationLocks := Function.update s.conversationLocks c.key none }
    else s

def startAcquire (s : State) (i : Nat) (c : Caller) (mustCancel : Bool) : State :=
  if mustCancel then s.setCaller i { c with acquire := .cancelled }
  else
    let (l, took) := (s.entries c.entry).lock.acquire i
    (s.setLock c.entry l).setCaller i { c with acquire := if took then .acquired else .waiting }

def resumeAcquire (s : State) (i : Nat) (c : Caller) : Option State :=
  ((s.entries c.entry).lock.resume i).map fun r =>
    (s.setLock c.entry r.1).setCaller i { c with acquire := if r.2 then .acquired else .cancelled }

/-- `wait_for` cancels the acquisition and will raise, unless it is done. -/
def interrupt (s : State) (i : Nat) (c : Caller) : State :=
  match c.acquire with
  | .acquired => s
  | .unstarted _ => s.setCaller i { c with acquire := .unstarted true, phase := .interrupted }
  | .waiting =>
    (s.setLock c.entry ((s.entries c.entry).lock.cancel i)).setCaller i
      { c with phase := .interrupted }
  | .cancelled => s.setCaller i { c with phase := .interrupted }

/-- `granted` and `raised` are the two ends of `wait_for`. -/
inductive Action
  | start
  | resume
  | timeout
  | cancel
  | granted
  | raised
  | databaseLocked
  | databaseFailed
  | bodyEnded
  | databaseUnlocked
  deriving DecidableEq, Repr

/-- One action of a caller, `none` where it is not possible. -/
def act (s : State) (i : Nat) (c : Caller) : Action → Option State
  | .start =>
    match c.acquire with
    | .unstarted mustCancel => some (startAcquire s i c mustCancel)
    | _ => none
  | .resume => if c.acquire = .waiting then resumeAcquire s i c else none
  | .timeout => if c.phase = .waitFor then some (interrupt s i c) else none
  | .cancel =>
    match c.phase with
    | .waitFor => some (interrupt s i c)
    | .interrupted => some s
    | .database => some (finallyBlock s i c)
    | .body => some (s.setCaller i { c with phase := .closing })
    | .closing => some (finallyBlock s i c)
    | .left => none
  | .granted =>
    if c.phase = .waitFor ∧ c.acquire = .acquired then
      some (s.setCaller i { c with acquired := true, phase := .database })
    else none
  | .raised => if c.phase = .interrupted then some (finallyBlock s i c) else none
  | .databaseLocked =>
    if c.phase = .database then some (s.setCaller i { c with phase := .body }) else none
  | .databaseFailed => if c.phase = .database then some (finallyBlock s i c) else none
  | .bodyEnded =>
    if c.phase = .body then some (s.setCaller i { c with phase := .closing }) else none
  | .databaseUnlocked => if c.phase = .closing then some (finallyBlock s i c) else none

inductive Event
  | enter (key : String)
  | act (i : Nat) (action : Action)
  deriving DecidableEq, Repr

def step (s : State) : Event → Option State
  | .enter key => some (enter s key)
  | .act i action => (s.callers[i]?).bind fun c => act s i c action

/-- The caller's acquisition has the lock and the caller has not given it back. -/
def Caller.Holds (c : Caller) : Prop := c.acquire = .acquired ∧ c.phase ≠ .left

/-- What the variables say in each phase; a given up acquisition never takes the lock. -/
structure Caller.Sound (l : Lock Nat) (i : Nat) (c : Caller) : Prop where
  granted : c.phase = .database ∨ c.phase = .body ∨ c.phase = .closing → c.acquired = true ∧ c.acquire = .acquired
  waiting : c.phase = .waitFor ∨ c.phase = .interrupted → c.acquired = false
  interrupted : c.phase = .interrupted → c.acquire ≠ .acquired
  unstarted : c.phase = .interrupted ∨ c.phase = .left → c.acquire ≠ .unstarted false
  queued : c.phase = .interrupted ∨ c.phase = .left → c.acquire = .waiting → l.Doomed i

structure Exclusive (s : State) : Prop where
  fair : ∀ a, (s.entries a).lock.Fair
  sound : ∀ (i : Nat) (c : Caller), s.callers[i]? = some c → c.Sound (s.entries c.entry).lock i
  locked : ∀ a, (s.entries a).lock.locked = true ↔
    ∃ (i : Nat) (c : Caller), s.callers[i]? = some c ∧ c.Holds ∧ c.entry = a
  unique : ∀ (i j : Nat) (c d : Caller), s.callers[i]? = some c → s.callers[j]? = some d →
    c.Holds → d.Holds → c.entry = d.entry → i = j

structure Counted (s : State) : Prop where
  fresh : ∀ c ∈ s.callers, c.entry < s.allocated
  key : ∀ c ∈ s.callers, ∀ d ∈ s.callers, c.entry = d.entry → c.key = d.key
  mapped : ∀ c ∈ s.callers, c.inside = true → s.conversationLocks c.key = some c.entry
  kept : ∀ key a, s.conversationLocks key = some a → a < s.allocated ∧ ∃ c ∈ s.callers, c.inside = true ∧ c.key = key
  references : ∀ a, a < s.allocated → (s.entries a).references =
    (s.callers.countP fun c => c.inside && c.entry == a : Nat)

structure Move (l : Lock Nat) (i : Nat) (c c' : Caller) (l' : Lock Nat) : Prop where
  fair : l'.Fair
  entry : c'.entry = c.entry
  sound : c'.Sound l' i
  locked : l'.locked = true ↔ c'.Holds ∨ ¬ c.Holds ∧ l.locked = true
  taken : c'.Holds → c.Holds ∨ l.locked = false
  doomed : ∀ j, j ≠ i → l.Doomed j → l'.Doomed j

variable {s : State}

theorem Exclusive.move {s' : State} {l' : Lock Nat} (h : Exclusive s) (hc : s.callers[i]? = some c)
    (hcallers : s'.callers = s.callers.set i c') (hentry : (s'.entries c.entry).lock = l')
    (hother : ∀ a, a ≠ c.entry → (s'.entries a).lock = (s.entries a).lock)
    (hm : Move (s.entries c.entry).lock i c c' l') : Exclusive s' := by
  obtain ⟨hlt, -⟩ := List.getElem?_eq_some_iff.1 hc
  have hself : s'.callers[i]? = some c' := by rw [hcallers, List.getElem?_set_self hlt]
  have hne : ∀ j, j ≠ i → s'.callers[j]? = s.callers[j]? := by
    intro j hj
    rw [hcallers, List.getElem?_set_ne (Ne.symm hj)]
  -- A caller of the entry other than this one holds the lock after the step iff it held it before.
  have hheld : ∀ j d, j ≠ i → s'.callers[j]? = some d → d.Holds → d.entry = c.entry →
      ¬ c.Holds ∧ (s.entries c.entry).lock.locked = true := by
    intro j d hj hd hholds hde
    rw [hne j hj] at hd
    refine ⟨fun hch => hj (h.unique j i d c hd hc hholds hch hde), ?_⟩
    exact (h.locked c.entry).2 ⟨j, d, hd, hholds, hde⟩
  constructor
  · intro a
    by_cases ha : a = c.entry
    · rw [ha, hentry]
      exact hm.fair
    · rw [hother a ha]
      exact h.fair a
  · intro j d hd
    by_cases hj : j = i
    · subst hj
      obtain rfl : c' = d := Option.some.inj (hself.symm.trans hd)
      rw [hm.entry, hentry]
      exact hm.sound
    rw [hne j hj] at hd
    have hsound := h.sound j d hd
    by_cases ha : d.entry = c.entry
    · rw [ha, hentry]
      rw [ha] at hsound
      exact { hsound with queued := fun hp hw => hm.doomed j hj (hsound.queued hp hw) }
    · rw [hother _ ha]
      exact hsound
  · intro a
    by_cases ha : a = c.entry
    · subst ha
      rw [hentry, hm.locked]
      constructor
      · rintro (hholds | ⟨hfree, hlocked⟩)
        · exact ⟨i, c', hself, hholds, hm.entry⟩
        · obtain ⟨j, d, hd, hholds, hde⟩ := (h.locked c.entry).1 hlocked
          have hj : j ≠ i := by
            rintro rfl
            obtain rfl : c = d := Option.some.inj (hc.symm.trans hd)
            exact hfree hholds
          exact ⟨j, d, by rw [hne j hj, hd], hholds, hde⟩
      · rintro ⟨j, d, hd, hholds, hde⟩
        by_cases hj : j = i
        · subst hj
          obtain rfl : c' = d := Option.some.inj (hself.symm.trans hd)
          exact .inl hholds
        · exact .inr (hheld j d hj hd hholds hde)
    · rw [hother a ha, h.locked a]
      constructor
      · rintro ⟨j, d, hd, hholds, hde⟩
        have hj : j ≠ i := by
          rintro rfl
          obtain rfl : c = d := Option.some.inj (hc.symm.trans hd)
          exact ha hde.symm
        exact ⟨j, d, by rw [hne j hj, hd], hholds, hde⟩
      · rintro ⟨j, d, hd, hholds, hde⟩
        have hj : j ≠ i := by
          rintro rfl
          obtain rfl : c' = d := Option.some.inj (hself.symm.trans hd)
          exact ha (hde.symm.trans hm.entry)
        exact ⟨j, d, by rw [← hne j hj, hd], hholds, hde⟩
  · -- Two holders after the step: the one that moved would have taken a lock that was held.
    have hmoved : ∀ j d, j ≠ i → s'.callers[j]? = some d → c'.Holds → d.Holds →
        c'.entry = d.entry → False := by
      intro j d hj hd hch hdh he
      obtain ⟨hfree, hlocked⟩ := hheld j d hj hd hdh (he.symm.trans hm.entry)
      rcases hm.taken hch with hch | hunlocked
      · exact hfree hch
      · simp [hlocked] at hunlocked
    intro j k d e hd he hdh heh hde
    by_cases hj : j = i
    · by_cases hk : k = i
      · rw [hj, hk]
      · subst hj
        obtain rfl : c' = d := Option.some.inj (hself.symm.trans hd)
        exact (hmoved k e hk he hdh heh hde).elim
    · by_cases hk : k = i
      · subst hk
        obtain rfl : c' = e := Option.some.inj (hself.symm.trans he)
        exact (hmoved j d hj hd heh hdh hde.symm).elim
      · rw [hne j hj] at hd
        rw [hne k hk] at he
        exact h.unique j k d e hd he hdh heh hde

theorem Counted.move {s' : State} (h : Counted s) (hc : s.callers[i]? = some c)
    (hcallers : s'.callers = s.callers.set i c')
    (hlocks : s'.conversationLocks = s.conversationLocks) (halloc : s'.allocated = s.allocated)
    (hreferences : ∀ a, (s'.entries a).references = (s.entries a).references)
    (hkey : c'.key = c.key) (hentry : c'.entry = c.entry) (hinside : c'.inside = c.inside) :
    Counted s' := by
  have hmem : c ∈ s.callers := List.mem_of_getElem? hc
  -- Each caller after the step has the key, the entry and the place of one before it.
  have hback : ∀ d ∈ s'.callers, ∃ e ∈ s.callers, d.key = e.key ∧ d.entry = e.entry ∧
      d.inside = e.inside := by
    intro d hd
    rw [hcallers] at hd
    rcases List.mem_or_eq_of_mem_set hd with hd | rfl
    · exact ⟨d, hd, rfl, rfl, rfl⟩
    · exact ⟨c, hmem, hkey, hentry, hinside⟩
  constructor
  · intro d hd
    obtain ⟨e, he, -, hde, -⟩ := hback d hd
    rw [hde, halloc]
    exact h.fresh e he
  · intro d hd e he hde
    obtain ⟨d', hd', hdk, hdd, -⟩ := hback d hd
    obtain ⟨e', he', hek, hee, -⟩ := hback e he
    rw [hdk, hek]
    exact h.key d' hd' e' he' (by rw [← hdd, ← hee, hde])
  · intro d hd hin
    obtain ⟨e, he, hk, hde, hie⟩ := hback d hd
    rw [hlocks, hk, hde]
    exact h.mapped e he (hie ▸ hin)
  · intro key a ha
    rw [hlocks] at ha
    obtain ⟨hlt, d, hd, hin, hk⟩ := h.kept key a ha
    refine ⟨halloc ▸ hlt, ?_⟩
    obtain ⟨j, hj⟩ := List.mem_iff_getElem?.1 hd
    by_cases hji : j = i
    · subst hji
      obtain rfl : c = d := Option.some.inj (hc.symm.trans hj)
      obtain ⟨hlt, -⟩ := List.getElem?_eq_some_iff.1 hc
      refine ⟨c', ?_, hinside ▸ hin, hkey.trans hk⟩
      rw [hcallers]
      exact List.mem_of_getElem? (List.getElem?_set_self hlt)
    · refine ⟨d, ?_, hin, hk⟩
      rw [hcallers]
      exact List.mem_of_getElem? ((List.getElem?_set_ne (Ne.symm hji)).trans hj)
  · intro a ha
    have hcount := countP_set_add (fun c => c.inside && c.entry == a) c' hc
    rw [hinside, hentry] at hcount
    rw [hreferences, h.references a (halloc ▸ ha), hcallers]
    omega

theorem Caller.Sound.of_waitFor (hp : c.phase = .waitFor) (ha : c.acquired = false) : c.Sound l i :=
  ⟨by simp [hp], fun _ => ha, by simp [hp], by simp [hp], by simp [hp]⟩

theorem Caller.Sound.of_granted (hp : c.phase = .database ∨ c.phase = .body ∨ c.phase = .closing)
    (ha : c.acquired = true) (hc : c.acquire = .acquired) : c.Sound l i := by
  refine ⟨fun _ => ⟨ha, hc⟩, fun hw => ?_, fun hi => ?_, fun _ => by simp [hc], by simp [hc]⟩
  · rcases hp with hp | hp | hp <;> simp [hp] at hw
  · rcases hp with hp | hp | hp <;> simp [hp] at hi

theorem Move.stay (hl : l.Fair) (hentry : c'.entry = c.entry) (hsound : c'.Sound l i)
    (hholds : c'.Holds ↔ c.Holds) (hlocked : c.Holds → l.locked = true) :
    Move l i c c' l := by
  refine ⟨hl, hentry, hsound, ?_, fun h => .inl (hholds.1 h), fun _ _ h => h⟩
  by_cases hc : c.Holds
  · simp [hholds, hc, hlocked hc]
  · simp [hholds, hc]

theorem Move.turn (ht : l.Turn i l' took) (hentry : c'.entry = c.entry) (hsound : c'.Sound l' i) (hfree : ¬ c.Holds)
    (hholds : c'.Holds ↔ took = true) : Move l i c c' l' := by
  refine ⟨ht.fair, hentry, hsound, ?_, fun h => .inr (ht.taken (hholds.1 h)).1, ht.doomed⟩
  cases took with
  | true => simp [hholds, (ht.taken rfl).2]
  | false => simp [hholds, hfree, ht.kept rfl]

def Local (s : State) (i : Nat) (c : Caller) (s' : State) : Prop :=
  ∃ c' l', Move (s.entries c.entry).lock i c c' l' ∧ c'.key = c.key ∧ c'.inside = c.inside ∧
    s' = (s.setLock c.entry l').setCaller i c'

@[simp]
theorem setLock_lock (s : State) (a : Nat) : s.setLock a (s.entries a).lock = s := by
  simp [State.setLock]

section Steps

variable {s s' : State} {i : Nat} {c : Caller}

section

variable (h : Exclusive s)

include h

section

variable (hc : s.callers[i]? = some c)

include hc

theorem Exclusive.locked_of_holds (hh : c.Holds) :
    (s.entries c.entry).lock.locked = true := (h.locked c.entry).2 ⟨i, c, hc, hh, rfl⟩

theorem local_setCaller (hkey : c'.key = c.key) (hentry : c'.entry = c.entry) (hinside : c'.inside = c.inside)
    (hsound : c'.Sound (s.entries c.entry).lock i) (hholds : c'.Holds ↔ c.Holds) :
    Local s i c (s.setCaller i c') := by
  refine ⟨c', (s.entries c.entry).lock, ?_, hkey, hinside, by simp⟩
  exact Move.stay (h.fair _) hentry hsound hholds (h.locked_of_holds hc)

theorem startAcquire_local
    (ha : c.acquire = .unstarted mustCancel) : Local s i c (startAcquire s i c mustCancel) := by
  have hsound := h.sound i c hc
  unfold startAcquire
  split
  · refine local_setCaller h hc rfl rfl rfl ?_ ?_
    · refine ⟨fun hp => ?_, hsound.waiting, by simp, by simp, by simp⟩
      have := (hsound.granted hp).2
      simp [ha] at this
    · simp [Caller.Holds, ha]
  rename_i hcancel
  have hphase : c.phase = .waitFor := by
    cases hp : c.phase with
    | waitFor => rfl
    | interrupted => exact absurd (by simp [ha, hcancel]) (hsound.unstarted (.inl hp))
    | left => exact absurd (by simp [ha, hcancel]) (hsound.unstarted (.inr hp))
    | database => simpa [ha] using (hsound.granted (.inl hp)).2
    | body => simpa [ha] using (hsound.granted (.inr (.inl hp))).2
    | closing => simpa [ha] using (hsound.granted (.inr (.inr hp))).2
  obtain ⟨l', took, hacq⟩ : ∃ l' took, (s.entries c.entry).lock.acquire i = (l', took) := ⟨_, _, rfl⟩
  rw [hacq]
  refine ⟨{ c with acquire := if took then .acquired else .waiting }, l', ?_, rfl, rfl, rfl⟩
  refine Move.turn (Lock.acquire_turn (h.fair c.entry) hacq) rfl ?_ ?_ ?_
  · exact .of_waitFor hphase (hsound.waiting (.inl hphase))
  · simp [Caller.Holds, ha]
  · cases took <;> simp [Caller.Holds, hphase]

theorem resumeAcquire_local (ha : c.acquire = .waiting) (hs : resumeAcquire s i c = some s') : Local s i c s' := by
  have hsound := h.sound i c hc
  simp only [resumeAcquire, Option.map_eq_some_iff, Prod.exists] at hs
  obtain ⟨l', took, hresume, rfl⟩ := hs
  obtain ⟨hturn, hlive⟩ := Lock.resume_turn (h.fair c.entry) hresume
  refine ⟨{ c with acquire := if took then .acquired else .cancelled }, l', ?_, rfl, rfl, rfl⟩
  have hgranted : ¬ (c.phase = .database ∨ c.phase = .body ∨ c.phase = .closing) := by
    intro hp
    simpa [ha] using (hsound.granted hp).2
  cases took with
  | true =>
    have hphase : c.phase = .waitFor := by
      cases hp : c.phase with
      | waitFor => rfl
      | interrupted => exact absurd (hsound.queued (.inl hp) ha) (hlive rfl)
      | left => exact absurd (hsound.queued (.inr hp) ha) (hlive rfl)
      | database | body | closing => exact absurd (by simp [hp]) hgranted
    refine Move.turn hturn rfl ?_ ?_ ?_
    · exact .of_waitFor hphase (hsound.waiting (.inl hphase))
    · simp [Caller.Holds, ha]
    · simp [Caller.Holds, hphase]
  | false =>
    refine Move.turn hturn rfl ?_ ?_ ?_
    · exact ⟨fun hp => absurd hp hgranted, hsound.waiting, by simp, by simp, by simp⟩
    · simp [Caller.Holds, ha]
    · simp [Caller.Holds]

theorem interrupt_local (hp : c.phase = .waitFor) : interrupt s i c = s ∨ Local s i c (interrupt s i c) := by
  have hsound := h.sound i c hc
  have hacquired : c.acquired = false := hsound.waiting (.inl hp)
  unfold interrupt
  split
  · exact .inl rfl
  · rename_i mustCancel ha
    right
    refine local_setCaller h hc rfl rfl ?_ ?_ ?_
    · exact Caller.inside_congr (by simp [hp]) (by simp)
    · exact ⟨by simp, fun _ => hacquired, by simp, by simp, by simp⟩
    · simp [Caller.Holds, ha]
  · rename_i ha
    right
    obtain ⟨hfair, hself, hother⟩ := Lock.cancel_spec (h.fair c.entry) i
    refine ⟨{ c with phase := .interrupted }, _, ⟨hfair, rfl, ?_, ?_, ?_, ?_⟩, rfl, ?_, rfl⟩
    · exact ⟨by simp, fun _ => hacquired, by simp [ha], by simp [ha], fun _ _ => hself⟩
    · simp [Caller.Holds, ha, Lock.cancel]
    · simp [Caller.Holds, ha]
    · exact fun j _ hj => hother j hj
    · exact Caller.inside_congr (by simp [hp]) (by simp)
  · rename_i ha
    right
    refine local_setCaller h hc rfl rfl ?_ ?_ ?_
    · exact Caller.inside_congr (by simp [hp]) (by simp)
    · exact ⟨by simp, fun _ => hacquired, by simp [ha], by simp [ha], by simp [ha]⟩
    · simp [Caller.Holds, ha]

/-- Nothing, a step in place, or the `finally` block. -/
theorem act_cases (ha : act s i c a = some s') :
    s' = s ∨ Local s i c s' ∨ (c.phase = .interrupted ∨ c.phase = .database ∨ c.phase = .closing) ∧
        s' = finallyBlock s i c := by
  have hsound := h.sound i c hc
  -- The caller goes from one phase with the lock to another.
  have hphase : ∀ p, (c.phase = .database ∨ c.phase = .body) → (p = .body ∨ p = .closing) →
      Local s i c (s.setCaller i { c with phase := p }) := by
    intro p hp hq
    have hgranted := hsound.granted (by tauto)
    refine local_setCaller h hc rfl rfl ?_ ?_ ?_
    · apply Caller.inside_congr
      · rcases hp with hp | hp <;> simp [hp]
      · rcases hq with rfl | rfl <;> simp
    · exact .of_granted (by dsimp only; tauto) hgranted.1 hgranted.2
    · rcases hp with hp | hp <;> rcases hq with rfl | rfl <;> simp [Caller.Holds, hp]
  cases a with
  | start =>
    simp only [act] at ha
    split at ha
    · rename_i mustCancel hstart
      cases ha
      exact .inr (.inl (startAcquire_local h hc hstart))
    · cases ha
  | resume =>
    simp only [act] at ha
    split at ha
    · rename_i hwaiting
      exact .inr (.inl (resumeAcquire_local h hc hwaiting ha))
    · cases ha
  | timeout =>
    simp only [act] at ha
    split at ha
    · rename_i hp
      cases ha
      exact (interrupt_local h hc hp).imp_right .inl
    · cases ha
  | cancel =>
    simp only [act] at ha
    split at ha
    · rename_i hp
      cases ha
      exact (interrupt_local h hc hp).imp_right .inl
    · cases ha
      exact .inl rfl
    · rename_i hp
      cases ha
      exact .inr (.inr ⟨.inr (.inl hp), rfl⟩)
    · rename_i hp
      cases ha
      exact .inr (.inl (hphase .closing (.inr hp) (.inr rfl)))
    · rename_i hp
      cases ha
      exact .inr (.inr ⟨.inr (.inr hp), rfl⟩)
    · cases ha
  | granted =>
    simp only [act] at ha
    split at ha
    · rename_i hp
      cases ha
      right
      left
      refine local_setCaller h hc rfl rfl ?_ ?_ ?_
      · exact Caller.inside_congr (by simp [hp.1]) (by simp)
      · exact .of_granted (.inl rfl) rfl hp.2
      · simp [Caller.Holds, hp.1]
    · cases ha
  | raised =>
    simp only [act] at ha
    split at ha
    · rename_i hp
      cases ha
      exact .inr (.inr ⟨.inl hp, rfl⟩)
    · cases ha
  | databaseLocked =>
    simp only [act] at ha
    split at ha
    · rename_i hp
      cases ha
      exact .inr (.inl (hphase .body (.inl hp) (.inl rfl)))
    · cases ha
  | databaseFailed =>
    simp only [act] at ha
    split at ha
    · rename_i hp
      cases ha
      exact .inr (.inr ⟨.inr (.inl hp), rfl⟩)
    · cases ha
  | bodyEnded =>
    simp only [act] at ha
    split at ha
    · rename_i hp
      cases ha
      exact .inr (.inl (hphase .closing (.inr hp) (.inr rfl)))
    · cases ha
  | databaseUnlocked =>
    simp only [act] at ha
    split at ha
    · rename_i hp
      cases ha
      exact .inr (.inr ⟨.inr (.inr hp), rfl⟩)
    · cases ha

/-- The `finally` block of a caller that may leave: the release does not raise. -/
theorem finallyBlock_spec (hp : c.phase = .interrupted ∨ c.phase = .database ∨ c.phase = .closing) :
    ∃ l', Move (s.entries c.entry).lock i c { c with phase := .left } l' ∧
      finallyBlock s i c =
        { conversationLocks :=
            if (s.entries c.entry).references - 1 = 0 ∧
                s.conversationLocks c.key = some c.entry then
              Function.update s.conversationLocks c.key none
            else s.conversationLocks
          entries := Function.update s.entries c.entry
            ⟨l', (s.entries c.entry).references - 1⟩
          allocated := s.allocated
          callers := s.callers.set i { c with phase := .left } } := by
  have hsound := h.sound i c hc
  -- The release, if there is one, is of a lock that is locked.
  have hrelease : ∃ l', (if c.acquired then (s.entries c.entry).lock.release
        else some (s.entries c.entry).lock) = some l' ∧
      Move (s.entries c.entry).lock i c { c with phase := .left } l' := by
    by_cases hi : c.phase = .interrupted
    · have hfree : ¬ c.Holds := fun hh => hsound.interrupted hi hh.1
      refine ⟨_, by simp [hsound.waiting (.inr hi)], Move.stay (h.fair _) rfl ?_ ?_ ?_⟩
      · exact ⟨by simp, by simp, by simp, fun _ => hsound.unstarted (.inl hi),
          fun _ => hsound.queued (.inl hi)⟩
      · exact iff_of_false (fun hh => hh.2 rfl) hfree
      · exact fun hh => absurd hh hfree
    · have hgranted := hsound.granted (by tauto)
      have hholds : c.Holds := ⟨hgranted.2, by rcases hp with hp | hp | hp <;> simp [hp]⟩
      obtain ⟨l', hl', hfair, hfree, hdoomed⟩ := Lock.release_spec (h.fair c.entry) (h.locked_of_holds hc hholds)
      refine ⟨l', by simp [hgranted.1, hl'], hfair, rfl, ?_, ?_, ?_, fun j _ => hdoomed j⟩
      · exact ⟨by simp, by simp, by simp, by simp [hgranted.2], by simp [hgranted.2]⟩
      · simp [Caller.Holds, hgranted.2, hfree, hholds.2]
      · simp [Caller.Holds]
  obtain ⟨l', hl', hmove⟩ := hrelease
  refine ⟨l', hmove, ?_⟩
  unfold finallyBlock
  dsimp only [State.setCaller]
  rw [hl']
  dsimp only
  by_cases hpop : (s.entries c.entry).references - 1 = 0 ∧ s.conversationLocks c.key = some c.entry
  · rw [if_pos hpop, if_pos hpop]
  · rw [if_neg hpop, if_neg hpop]

theorem Exclusive.finallyBlock (hp : c.phase = .interrupted ∨ c.phase = .database ∨ c.phase = .closing) :
    Exclusive (finallyBlock s i c) := by
  obtain ⟨l', hmove, heq⟩ := finallyBlock_spec h hc hp
  rw [heq]
  apply h.move hc rfl _ _ hmove
  · simp
  · intro a ha
    simp [ha]

end

end

theorem Counted.finallyBlock (hx : Exclusive s) (h : Counted s) (hc : s.callers[i]? = some c)
    (hp : c.phase = .interrupted ∨ c.phase = .database ∨ c.phase = .closing) :
    Counted (finallyBlock s i c) := by
  obtain ⟨l', -, heq⟩ := finallyBlock_spec hx hc hp
  rw [heq]
  have hmem : c ∈ s.callers := List.mem_of_getElem? hc
  have hin : c.inside = true := by
    rw [Caller.inside_eq_true]
    rcases hp with hp | hp | hp <;> simp [hp]
  have hmap := h.mapped c hmem hin
  -- The callers inside afterwards are those inside before, less this one.
  have hback : ∀ d ∈ s.callers.set i { c with phase := .left },
      (∃ e ∈ s.callers, d.key = e.key ∧ d.entry = e.entry) ∧ (d.inside = true → d ∈ s.callers) := by
    intro d hd
    rcases List.mem_or_eq_of_mem_set hd with hd | rfl
    · exact ⟨⟨d, hd, rfl, rfl⟩, fun _ => hd⟩
    · exact ⟨⟨c, hmem, rfl, rfl⟩, by simp⟩
  have hcount : ∀ a, ((s.callers.set i { c with phase := .left }).countP fun c =>
        c.inside && c.entry == a) + (if c.entry = a then 1 else 0) =
      s.callers.countP fun c => c.inside && c.entry == a := by
    intro a
    have := countP_set_add (fun c => c.inside && c.entry == a) { c with phase := .left } hc
    have hleft : ({ c with phase := .left } : Caller).inside = false := rfl
    simpa [hin, hleft] using this
  have hrefs := h.references c.entry (h.fresh c hmem)
  have hlast := hcount c.entry
  rw [if_pos rfl] at hlast
  constructor
  · intro d hd
    obtain ⟨⟨e, he, -, hde⟩, -⟩ := hback d hd
    rw [hde]
    exact h.fresh e he
  · intro d hd e he hde
    obtain ⟨⟨d', hd', hdk, hdd⟩, -⟩ := hback d hd
    obtain ⟨⟨e', he', hek, hee⟩, -⟩ := hback e he
    rw [hdk, hek]
    exact h.key d' hd' e' he' (by rw [← hdd, ← hee, hde])
  · intro d hd hdin
    have hd' := (hback d hd).2 hdin
    have hdmap := h.mapped d hd' hdin
    dsimp only
    split
    · rename_i hpop
      -- No caller of the entry is inside any more, so this one has another key.
      have hnone : (s.callers.set i { c with phase := .left }).countP
          (fun c' => c'.inside && c'.entry == c.entry) = 0 := by omega
      have hne : d.key ≠ c.key := by
        intro hk
        have hde : d.entry = c.entry := Option.some.inj (hdmap.symm.trans (hk ▸ hmap))
        have := List.countP_eq_zero.1 hnone d hd
        simp [hdin, hde] at this
      rw [Function.update_of_ne hne]
      exact hdmap
    · exact hdmap
  · intro key a ha
    dsimp only at ha ⊢
    -- Whoever is inside under another key stays; under this key one is left unless it was the last.
    have hother : key ≠ c.key → s.conversationLocks key = some a → a < s.allocated ∧
        ∃ d ∈ s.callers.set i { c with phase := .left }, d.inside = true ∧ d.key = key := by
      intro hkey ha
      obtain ⟨hlt, d, hd, hdin, hdk⟩ := h.kept key a ha
      obtain ⟨j, hj⟩ := List.mem_iff_getElem?.1 hd
      have hji : i ≠ j := by
        rintro rfl
        obtain rfl : c = d := Option.some.inj (hc.symm.trans hj)
        exact hkey hdk.symm
      exact ⟨hlt, d, List.mem_of_getElem? ((List.getElem?_set_ne hji).trans hj), hdin, hdk⟩
    split at ha
    · by_cases hkey : key = c.key
      · rw [hkey, Function.update_self] at ha
        cases ha
      · rw [Function.update_of_ne hkey] at ha
        exact hother hkey ha
    rename_i hpop
    by_cases hkey : key = c.key
    · have hpos : 0 < (s.callers.set i { c with phase := .left }).countP
          (fun c' => c'.inside && c'.entry == c.entry) := by
        by_contra hzero
        exact hpop ⟨by omega, hmap⟩
      obtain ⟨d, hd, hdP⟩ := List.countP_pos_iff.1 hpos
      rw [Bool.and_eq_true, beq_iff_eq] at hdP
      refine ⟨(h.kept key a ha).1, d, hd, hdP.1, ?_⟩
      rw [hkey]
      exact h.key d ((hback d hd).2 hdP.1) c hmem hdP.2
    · exact hother hkey ha
  · intro a ha
    dsimp only
    have := hcount a
    by_cases hac : a = c.entry
    · subst hac
      rw [Function.update_self, hrefs]
      dsimp only
      omega
    · rw [Function.update_of_ne hac, h.references a ha, ← this, if_neg (Ne.symm hac), add_zero]

theorem enter_spec (s : State) (key : String) :
    ∃ a e n, ((s.conversationLocks key = some a ∧ e = s.entries a ∧ n = s.allocated) ∨
        (s.conversationLocks key = none ∧ a = s.allocated ∧ e = ⟨.free, 0⟩ ∧ n = s.allocated + 1)) ∧
      enter s key =
        { conversationLocks := Function.update s.conversationLocks key (some a)
          entries := Function.update s.entries a ⟨e.lock, e.references + 1⟩
          allocated := n
          callers := s.callers ++ [⟨key, a, .unstarted false, false, .waitFor⟩] } := by
  cases hmap : s.conversationLocks key with
  | some a =>
    refine ⟨a, s.entries a, s.allocated, .inl ⟨rfl, rfl, rfl⟩, ?_⟩
    simp only [enter, entryOf, hmap]
    rw [← hmap, Function.update_eq_self]
  | none =>
    refine ⟨s.allocated, ⟨.free, 0⟩, s.allocated + 1, .inr ⟨rfl, rfl, rfl, rfl⟩, ?_⟩
    simp [enter, entryOf, hmap]

theorem Exclusive.enter (h : Exclusive s) (hn : Counted s) (key : String) : Exclusive (enter s key) := by
  obtain ⟨a, e, n, hcase, heq⟩ := enter_spec s key
  rw [heq]
  -- The locks of the entries in use are as before; a new entry has a free lock and no caller.
  have hused : ∀ c ∈ s.callers, (Function.update s.entries a ⟨e.lock, e.references + 1⟩ c.entry).lock
      = (s.entries c.entry).lock := by
    intro c hc
    by_cases hca : c.entry = a
    · rcases hcase with ⟨-, rfl, -⟩ | ⟨-, rfl, -⟩
      · rw [hca, Function.update_self]
      · exact absurd hca (hn.fresh c hc).ne
    · rw [Function.update_of_ne hca]
  have hlocks : ∀ b, (Function.update s.entries a ⟨e.lock, e.references + 1⟩ b).lock
      = (s.entries b).lock ∨
      b = s.allocated ∧ (Function.update s.entries a ⟨e.lock, e.references + 1⟩ b).lock = .free := by
    intro b
    by_cases hb : b = a
    · subst hb
      rw [Function.update_self]
      rcases hcase with ⟨-, rfl, -⟩ | ⟨-, rfl, rfl, -⟩
      · exact .inl rfl
      · exact .inr ⟨rfl, rfl⟩
    · rw [Function.update_of_ne hb]
      exact .inl rfl
  have hback : ∀ (i : Nat) (c : Caller),
      (s.callers ++ [⟨key, a, .unstarted false, false, .waitFor⟩])[i]? = some c →
        s.callers[i]? = some c ∨ c = ⟨key, a, .unstarted false, false, .waitFor⟩ := by
    intro i c hc
    rw [List.getElem?_append] at hc
    split at hc
    · exact .inl hc
    · exact .inr (List.mem_singleton.1 (List.mem_of_getElem? hc))
  have hforth : ∀ (i : Nat) (c : Caller), s.callers[i]? = some c →
      (s.callers ++ [⟨key, a, .unstarted false, false, .waitFor⟩])[i]? = some c := by
    intro i c hc
    obtain ⟨hlt, -⟩ := List.getElem?_eq_some_iff.1 hc
    rw [List.getElem?_append_left hlt, hc]
  -- The new caller holds nothing, so the holders are those of before.
  have hholder : ∀ (i : Nat) (c : Caller),
      (s.callers ++ [⟨key, a, .unstarted false, false, .waitFor⟩])[i]? = some c → c.Holds → s.callers[i]? = some c := by
    intro i c hc hholds
    rcases hback i c hc with hc | rfl
    · exact hc
    · exact absurd hholds (by simp [Caller.Holds])
  constructor
  · intro b
    rcases hlocks b with hb | ⟨-, hb⟩
    · rw [hb]
      exact h.fair b
    · rw [hb]
      exact Lock.fair_free
  · intro i c hc
    rcases hback i c hc with hc | rfl
    · rw [hused c (List.mem_of_getElem? hc)]
      exact h.sound i c hc
    · exact .of_waitFor rfl rfl
  · intro b
    have hiff : (∃ (i : Nat) (c : Caller), (s.callers ++
          [⟨key, a, .unstarted false, false, .waitFor⟩])[i]? = some c ∧ c.Holds ∧ c.entry = b) ↔
        ∃ (i : Nat) (c : Caller), s.callers[i]? = some c ∧ c.Holds ∧ c.entry = b := by
      constructor
      · rintro ⟨i, c, hc, hholds, hcb⟩
        exact ⟨i, c, hholder i c hc hholds, hholds, hcb⟩
      · rintro ⟨i, c, hc, hholds, hcb⟩
        exact ⟨i, c, hforth i c hc, hholds, hcb⟩
    rcases hlocks b with hb | ⟨rfl, hb⟩
    · rw [hb, hiff]
      exact h.locked b
    · rw [hb, hiff]
      refine iff_of_false (by simp [Lock.free]) ?_
      rintro ⟨i, c, hc, -, hcb⟩
      exact absurd hcb (hn.fresh c (List.mem_of_getElem? hc)).ne
  · intro i j c d hc hd hch hdh hcd
    exact h.unique i j c d (hholder i c hc hch) (hholder j d hd hdh) hch hdh hcd

theorem Counted.enter (h : Counted s) (key : String) : Counted (enter s key) := by
  obtain ⟨a, e, n, hcase, heq⟩ := enter_spec s key
  rw [heq]
  have hn : s.allocated ≤ n ∧ a < n := by
    rcases hcase with ⟨ha, -, rfl⟩ | ⟨-, rfl, -, rfl⟩
    · exact ⟨le_rfl, (h.kept key a ha).1⟩
    · exact ⟨by omega, by omega⟩
  -- Whoever has this entry has this key, and whoever is inside under this key has this entry.
  have hkey : ∀ c ∈ s.callers, c.entry = a → c.key = key := by
    intro c hc hca
    rcases hcase with ⟨ha, -, -⟩ | ⟨-, rfl, -⟩
    · obtain ⟨-, d, hd, hdin, hdk⟩ := h.kept key a ha
      have hda : d.entry = a := by
        have := h.mapped d hd hdin
        rw [hdk, ha] at this
        exact (Option.some.inj this).symm
      rw [← hdk]
      exact h.key c hc d hd (hca.trans hda.symm)
    · exact absurd hca (h.fresh c hc).ne
  constructor
  · intro c hc
    rcases List.mem_append.1 hc with hc | hc
    · exact (h.fresh c hc).trans_le hn.1
    · rw [List.mem_singleton.1 hc]
      exact hn.2
  · intro c hc d hd hcd
    rcases List.mem_append.1 hc with hc | hc <;> rcases List.mem_append.1 hd with hd | hd
    · exact h.key c hc d hd hcd
    · obtain rfl := List.mem_singleton.1 hd
      exact hkey c hc hcd
    · obtain rfl := List.mem_singleton.1 hc
      exact (hkey d hd hcd.symm).symm
    · rw [List.mem_singleton.1 hc, List.mem_singleton.1 hd]
  · intro c hc hcin
    dsimp only
    rcases List.mem_append.1 hc with hc | hc
    · have hmap := h.mapped c hc hcin
      by_cases hck : c.key = key
      · rcases hcase with ⟨ha, -, -⟩ | ⟨hnone, -, -, -⟩
        · rw [hck] at hmap ⊢
          rw [Function.update_self, ← ha, hmap]
        · rw [hck, hnone] at hmap
          cases hmap
      · rw [Function.update_of_ne hck]
        exact hmap
    · rw [List.mem_singleton.1 hc, Function.update_self]
  · intro k b hkb
    dsimp only at hkb ⊢
    by_cases hk : k = key
    · subst hk
      rw [Function.update_self] at hkb
      cases hkb
      exact ⟨hn.2, _, List.mem_append_right _ (List.mem_singleton_self _), rfl, rfl⟩
    · rw [Function.update_of_ne hk] at hkb
      obtain ⟨hlt, c, hc, hcin, hck⟩ := h.kept k b hkb
      exact ⟨hlt.trans_le hn.1, c, List.mem_append_left _ hc, hcin, hck⟩
  · intro b hb
    dsimp only at hb ⊢
    rw [List.countP_append, List.countP_singleton]
    by_cases hba : b = a
    · subst hba
      rw [Function.update_self]
      have he : e.references = (s.callers.countP fun c => c.inside && c.entry == b : Nat) := by
        rcases hcase with ⟨ha, rfl, -⟩ | ⟨-, rfl, rfl, -⟩
        · exact h.references b (h.kept key b ha).1
        · symm
          rw [Nat.cast_eq_zero, List.countP_eq_zero]
          intro c hc
          simp [(h.fresh c hc).ne]
      simp [he, Caller.inside]
    · have hlt : b < s.allocated := by
        rcases hcase with ⟨-, -, rfl⟩ | ⟨-, rfl, -, rfl⟩
        · exact hb
        · omega
      rw [Function.update_of_ne hba, h.references b hlt]
      simp [Ne.symm hba]

theorem step_keeps (hx : Exclusive s) (h : Counted s) (hs : step s e = some s') : Exclusive s' ∧ Counted s' := by
  cases e with
  | enter key =>
    cases hs
    exact ⟨hx.enter h key, h.enter key⟩
  | act i action =>
    simp only [step, Option.bind_eq_some_iff] at hs
    obtain ⟨c, hc, ha⟩ := hs
    rcases act_cases hx hc ha with rfl | ⟨c', l', hmove, hkey, hinside, rfl⟩ | ⟨hp, rfl⟩
    · exact ⟨hx, h⟩
    · constructor
      · apply hx.move hc rfl _ _ hmove
        · simp [State.setCaller, State.setLock]
        · intro a ha
          simp [State.setCaller, State.setLock, ha]
      · refine h.move hc ?_ ?_ ?_ (fun a => ?_) hkey hmove.entry hinside
        · rfl
        · rfl
        · rfl
        by_cases ha : a = c.entry
        · simp [State.setCaller, State.setLock, ha]
        · simp [State.setCaller, State.setLock, ha]
    · exact ⟨hx.finallyBlock hc hp, h.finallyBlock hx hc hp⟩

end Steps

theorem initial_keeps : Exclusive State.initial ∧ Counted State.initial := by
  refine ⟨⟨fun _ => Lock.fair_free, ?_, ?_, ?_⟩, ⟨?_, ?_, ?_, ?_, ?_⟩⟩ <;>
    simp [State.initial, Lock.free]

theorem run_keeps (h : AnyRun step State.initial events s) : Exclusive s ∧ Counted s := by
  apply h.invariant _ initial_keeps
  intro t e t' ht _ hstep
  exact step_keeps ht.1 ht.2 hstep

/-- One body a key; the callers of a key share one lock, and the map has its key while there is
one. -/
theorem conversationLock_exclusive {s : State} {events : List Event} (h : AnyRun step State.initial events s) :
    (∀ (i j : Nat) (c d : Caller), s.callers[i]? = some c → s.callers[j]? = some d →
      c.phase = .body → d.phase = .body → c.key = d.key → i = j) ∧
    (∀ c ∈ s.callers, ∀ d ∈ s.callers, c.inside = true → d.inside = true → c.key = d.key → c.entry = d.entry) ∧
    ∀ key, (s.conversationLocks key).isSome = true ↔ ∃ c ∈ s.callers, c.key = key ∧ c.inside = true := by
  obtain ⟨hx, hn⟩ := run_keeps h
  have hentry : ∀ c ∈ s.callers, ∀ d ∈ s.callers, c.inside = true → d.inside = true →
      c.key = d.key → c.entry = d.entry := by
    intro c hc d hd hcin hdin hk
    have hcd := hn.mapped c hc hcin
    rw [hk, hn.mapped d hd hdin] at hcd
    exact (Option.some.inj hcd).symm
  have hholds : ∀ (i : Nat) (c : Caller), s.callers[i]? = some c → c.phase = .body → c.Holds :=
    fun i c hc hp => ⟨((hx.sound i c hc).granted (.inr (.inl hp))).2, by simp [hp]⟩
  refine ⟨?_, hentry, fun key => ⟨fun hk => ?_, ?_⟩⟩
  · intro i j c d hc hd hcp hdp hk
    apply hx.unique i j c d hc hd (hholds i c hc hcp) (hholds j d hd hdp)
    apply hentry c (List.mem_of_getElem? hc) d (List.mem_of_getElem? hd) _ _ hk
    · simp [hcp]
    · simp [hdp]
  · obtain ⟨a, ha⟩ := Option.isSome_iff_exists.1 hk
    obtain ⟨-, c, hc, hcin, hck⟩ := hn.kept key a ha
    exact ⟨c, hc, hck, hcin⟩
  · rintro ⟨c, hc, rfl, hcin⟩
    simp [hn.mapped c hc hcin]

/-- The second caller times out; the third gets the lock once the cancelled waiter is gone. -/
def handover : List Event :=
  [.enter "k", .act 0 .start, .act 0 .granted, .act 0 .databaseLocked, .enter "k", .act 1 .start,
    .enter "k", .act 2 .start, .enter "q", .act 1 .timeout, .act 1 .raised, .act 0 .bodyEnded,
    .act 0 .databaseUnlocked, .act 1 .resume, .act 2 .resume, .act 2 .granted,
    .act 2 .databaseLocked]

theorem conversationLock_exclusive_handover : ∃ s, AnyRun step State.initial handover s ∧
      s.callers.map Caller.phase = [.left, .left, .body, .waitFor] ∧
      (s.conversationLocks "k").isSome = true ∧ ∃ c ∈ s.callers, c.key = "k" ∧ c.inside = true := by
  obtain ⟨s, hs, hphases⟩ : ∃ s, exec step State.initial handover = some s ∧
      s.callers.map Caller.phase = [.left, .left, .body, .waitFor] ∧
      (s.conversationLocks "k").isSome = true := ⟨_, rfl, rfl, rfl⟩
  have hrun : AnyRun step State.initial handover s := anyRun_of_exec hs
  have hkey := (conversationLock_exclusive hrun).2.2 "k"
  exact ⟨s, hrun, hphases.1, hphases.2, hkey.1 hphases.2⟩

end RyanAI.Gateway.ConversationLock
