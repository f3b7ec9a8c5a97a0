import RyanAI.Lib.Machine

/-!
# The keyed serial queue

`KeyedSerialQueue` of `queue.ts` runs the tasks of one key one after the other. Every call of `run` waits for the
promise it finds in `tails` and puts its own there, which resolves after the earlier one and the call itself. A call
that waits too long settles without having run; if it is the last of its key, it takes its promise out of `tails`, and
the next call waits for nothing.

`Chained` is the invariant behind mutual exclusion and order: every call that has not settled is ahead of the promise
that later calls wait for. It is kept as long as no call times out while it is the last of its key and an earlier call
has not settled (`KeepsChain`).
-/

namespace RyanAI.Gateway.SerialQueue

open RyanAI.Lib.Machine

/-! ## The queue -/

/-- The constructor's arguments. A `maxWaitMs` of zero disables the timeout. -/
structure Config where
  maxDepthPerKey : Nat
  maxWaitMs : Nat

inductive Status where
  | waiting
  | running
  | settled
  deriving DecidableEq

/-- A call of `run`, named by its position, waiting for `previous`; `resolved` is its own
promise. -/
structure Call where
  key : String
  previous : Option Nat
  status : Status
  resolved : Bool

structure State where
  tails : String → Option Nat
  depths : String → Option Nat
  calls : List Call
  started : List Nat

def init : State := ⟨fun _ => none, fun _ => none, [], []⟩

/-- `resolve` is the promise of a call, `finish` the end of its task. -/
inductive Event where
  | arrive (key : String)
  | start (i : Nat)
  | finish (i : Nat)
  | timeout (i : Nat)
  | resolve (i : Nat)

/-- `map.set(key, value)`, or `map.delete(key)` for `none`. -/
def set (map : String → Option Nat) (key : String) (value : Option Nat) : String → Option Nat :=
  fun k => if k = key then value else map k

def turnHasCome (s : State) (c : Call) : Bool :=
  match c.previous with
  | none => true
  | some p => (s.calls[p]?).any (·.resolved)

/-- `run` up to its first `await`. -/
def enqueue (s : State) (key : String) : State where
  tails := set s.tails key (some s.calls.length)
  depths := set s.depths key (some ((s.depths key).getD 0 + 1))
  calls := s.calls ++ [⟨key, s.tails key, .waiting, false⟩]
  started := s.started

/-- The `finally` block of `run`. -/
def settle (s : State) (i : Nat) (c : Call) : State where
  tails := if s.tails c.key = some i then set s.tails c.key none else s.tails
  depths :=
    -- `(depth || 1) - 1`, and an entry that reaches zero is deleted
    let depth := match s.depths c.key with
      | some d => if d = 0 then 1 else d
      | none => 1
    set s.depths c.key (if depth - 1 = 0 then none else some (depth - 1))
  calls := s.calls.set i { c with status := .settled }
  started := s.started

def step (cfg : Config) (s : State) : Event → Option State
  | .arrive key =>
    if cfg.maxDepthPerKey ≤ (s.depths key).getD 0 then some s else some (enqueue s key)
  | .start i =>
    match s.calls[i]? with
    | none => none
    | some c =>
      if c.status = .waiting ∧ turnHasCome s c then
        some { s with
          calls := s.calls.set i { c with status := .running }
          started := s.started ++ [i] }
      else none
  | .finish i =>
    match s.calls[i]? with
    | none => none
    | some c => if c.status = .running then some (settle s i c) else none
  | .timeout i =>
    match s.calls[i]? with
    | none => none
    | some c => if c.status = .waiting ∧ 0 < cfg.maxWaitMs then some (settle s i c) else none
  | .resolve i =>
    match s.calls[i]? with
    | none => none
    | some c =>
      if c.status = .settled ∧ turnHasCome s c then
        some { s with calls := s.calls.set i { c with resolved := true } }
      else none

def unsettled (s : State) (key : String) : Nat := s.calls.countP fun c => c.key = key ∧ c.status ≠ .settled

def Exclusive (s : State) : Prop :=
  ∀ (i j : Nat) (c d : Call), s.calls[i]? = some c → s.calls[j]? = some d → c.key = d.key →
    c.status = .running → d.status = .running → i = j

def keyOf (s : State) (i : Nat) : Option String := (s.calls[i]?).map (·.key)

def InOrder (s : State) : Prop := s.started.Pairwise fun i j => keyOf s i = keyOf s j → i < j

/-- The calls of a key before position `n` have settled. -/
def SettledBelow (s : State) (key : String) (n : Nat) : Prop :=
  ∀ (j : Nat) (d : Call), j < n → s.calls[j]? = some d → d.key = key → d.status = .settled

def KeepsChain (s : State) : Event → Prop
  | .timeout i =>
    ∀ c : Call, s.calls[i]? = some c → s.tails c.key = some i → SettledBelow s c.key i
  | _ => True

/-- The ways in which `step` can succeed. -/
inductive Trans (s : State) : Event → State → Prop
  | rejected (key : String) : Trans s (.arrive key) s
  | admitted (key : String) : Trans s (.arrive key) (enqueue s key)
  | started {i : Nat} {c : Call} : s.calls[i]? = some c → c.status = .waiting →
      turnHasCome s c = true →
      Trans s (.start i) { s with
        calls := s.calls.set i { c with status := .running }
        started := s.started ++ [i] }
  | finished {i : Nat} {c : Call} : s.calls[i]? = some c → c.status = .running → Trans s (.finish i) (settle s i c)
  | timedOut {i : Nat} {c : Call} : s.calls[i]? = some c → c.status = .waiting → Trans s (.timeout i) (settle s i c)
  | resolved {i : Nat} {c : Call} : s.calls[i]? = some c → c.status = .settled →
      turnHasCome s c = true →
      Trans s (.resolve i) { s with calls := s.calls.set i { c with resolved := true } }

variable {s s' : State} {e : Event} {i : Nat} {c c' : Call} {key : String}

theorem trans_of_step (h : step cfg s e = some s') : Trans s e s' := by
  cases e with
  | arrive key =>
    simp only [step] at h
    split at h
    · cases h
      exact .rejected key
    · cases h
      exact .admitted key
  | start i =>
    simp only [step] at h
    split at h
    · cases h
    rename_i c hc
    split at h
    · rename_i hw
      cases h
      exact .started hc hw.1 hw.2
    · cases h
  | finish i =>
    simp only [step] at h
    split at h
    · cases h
    rename_i c hc
    split at h
    · rename_i hrun
      cases h
      exact .finished hc hrun
    · cases h
  | timeout i =>
    simp only [step] at h
    split at h
    · cases h
    rename_i c hc
    split at h
    · rename_i hw
      cases h
      exact .timedOut hc hw.1
    · cases h
  | resolve i =>
    simp only [step] at h
    split at h
    · cases h
    rename_i c hc
    split at h
    · rename_i hd
      cases h
      exact .resolved hc hd.1 hd.2
    · cases h

theorem getElem?_set_of_some {calls : List Call} (h : calls[i]? = some c) (c' : Call) (j : Nat) :
    (calls.set i c')[j]? = if j = i then some c' else calls[j]? := by
  have hlt := (List.getElem?_eq_some_iff.1 h).1
  by_cases hj : j = i
  · subst hj
    rw [if_pos rfl, List.getElem?_set_self hlt]
  · rw [if_neg hj, List.getElem?_set_ne (Ne.symm hj)]

/-- The calls of `s` are still there in `s'`. -/
def Grows (s s' : State) : Prop :=
  ∀ (j : Nat) (c : Call), s.calls[j]? = some c → ∃ c' : Call, s'.calls[j]? = some c' ∧ c'.key = c.key ∧
    c'.previous = c.previous ∧ (c.status = .settled → c'.status = .settled) ∧
    (c'.status = .waiting → c.status = .waiting)

theorem grows_of_set (hc : s.calls[i]? = some c) (hcalls : s'.calls = s.calls.set i c')
    (hkey : c'.key = c.key) (hprev : c'.previous = c.previous)
    (hsettled : c.status = .settled → c'.status = .settled)
    (hwaiting : c'.status = .waiting → c.status = .waiting) : Grows s s' := by
  intro j d hd
  rw [hcalls, getElem?_set_of_some hc]
  by_cases hj : j = i
  · subst hj
    rw [hc] at hd
    cases hd
    exact ⟨c', if_pos rfl, hkey, hprev, hsettled, hwaiting⟩
  · rw [if_neg hj]
    exact ⟨d, hd, rfl, rfl, id, id⟩

theorem grows_of_trans (h : Trans s e s') : Grows s s' := by
  cases h with
  | rejected key =>
    intro j c hc
    exact ⟨c, hc, rfl, rfl, id, id⟩
  | admitted key =>
    intro j c hc
    have hlt := (List.getElem?_eq_some_iff.1 hc).1
    exact ⟨c, by rw [enqueue, List.getElem?_append_left hlt, hc], rfl, rfl, id, id⟩
  | started hc hw _ => exact grows_of_set hc rfl rfl rfl (by simp [hw]) (by simp)
  | finished hc _ => exact grows_of_set hc rfl rfl rfl (fun _ => rfl) (by simp)
  | timedOut hc _ => exact grows_of_set hc rfl rfl rfl (fun _ => rfl) (by simp)
  | resolved hc _ _ => exact grows_of_set hc rfl rfl rfl id id

/-- A call of `s'` at a position that `s` has is the call of `s` there. -/
theorem Grows.back (hg : Grows s s') (hlt : j < s.calls.length) (hc' : s'.calls[j]? = some c') :
    ∃ c, s.calls[j]? = some c ∧ c'.key = c.key ∧ c'.previous = c.previous ∧
      (c.status = .settled → c'.status = .settled) ∧ (c'.status = .waiting → c.status = .waiting) := by
  obtain ⟨c'', hc'', hrest⟩ := hg j s.calls[j] (List.getElem?_eq_getElem hlt)
  rw [hc'] at hc''
  cases hc''
  exact ⟨s.calls[j], List.getElem?_eq_getElem hlt, hrest⟩

theorem Grows.settledBelow (hg : Grows s s') (hn : n ≤ s.calls.length)
    (h : SettledBelow s key n) : SettledBelow s' key n := by
  intro j d' hj hd' hkey
  obtain ⟨d, hd, hkey', -, hsettled, -⟩ := hg.back (by omega) hd'
  exact hsettled (h j d hj hd (hkey'.symm.trans hkey))

theorem Grows.keyOf (hg : Grows s s') (hi : i < s.calls.length) : keyOf s' i = SerialQueue.keyOf s i := by
  obtain ⟨c', hc', hkey, -⟩ := hg i s.calls[i] (List.getElem?_eq_getElem hi)
  simp [SerialQueue.keyOf, hc', List.getElem?_eq_getElem hi, hkey]

/-- `tails` has the last call of a key; without one all have settled. -/
structure Tails (s : State) : Prop where
  none : ∀ key, s.tails key = none → SettledBelow s key s.calls.length
  some : ∀ key p, s.tails key = some p → (∃ c, s.calls[p]? = some c ∧ c.key = key) ∧
    ∀ (j : Nat) (d : Call), s.calls[j]? = some d → d.key = key → j ≤ p

structure LinkedAt (s : State) (i : Nat) (c : Call) : Prop where
  none : c.previous = none → SettledBelow s c.key i
  some : ∀ p, c.previous = some p → (∃ d : Call, s.calls[p]? = some d ∧ d.key = c.key) ∧
    ∀ (j : Nat) (d : Call), j < i → s.calls[j]? = some d → d.key = c.key → j ≤ p

def Linked (s : State) : Prop := ∀ (i : Nat) (c : Call), s.calls[i]? = some c → LinkedAt s i c

def ResolvedLast (s : State) : Prop :=
  ∀ (p : Nat) (c : Call), s.calls[p]? = some c → c.resolved = true → SettledBelow s c.key (p + 1)

structure Starts (s : State) : Prop where
  running : ∀ (i : Nat) (c : Call), s.calls[i]? = some c → c.status = .running → i ∈ s.started
  begun : ∀ i ∈ s.started, ∃ c : Call, s.calls[i]? = some c ∧ c.status ≠ .waiting ∧ SettledBelow s c.key i
  order : InOrder s

structure Chained (s : State) : Prop where
  tails : Tails s
  linked : Linked s
  resolved : ResolvedLast s
  starts : Starts s

theorem chained_init : Chained init := by
  refine ⟨⟨?_, ?_⟩, ?_, ?_, ⟨?_, ?_, ?_⟩⟩
  · intro key _ j d hj
    simp [init] at hj
  · intro key p h
    cases h
  · intro i c hc
    simp [init] at hc
  · intro p c hc
    simp [init] at hc
  · intro i c hc
    simp [init] at hc
  · intro i hi
    simp [init] at hi
  · exact List.Pairwise.nil

theorem settledBelow_of_turnHasCome (hlinked : Linked s) (hresolved : ResolvedLast s)
    (hc : s.calls[i]? = some c) (hturn : turnHasCome s c = true) :
    SettledBelow s c.key i := by
  obtain ⟨hnone, hsome⟩ := hlinked i c hc
  cases hprev : c.previous with
  | none => exact hnone hprev
  | some p =>
    obtain ⟨⟨d, hd, hkey⟩, hlast⟩ := hsome p hprev
    have hd' : d.resolved = true := by simpa [turnHasCome, hprev, hd] using hturn
    -- the last call before this one has resolved, and with it all calls up to it have settled
    intro j e hj he hek
    have hjp := hlast j e hj he hek
    exact hresolved p d hd hd' j e (by omega) he (hek.trans hkey.symm)

/-! ### Steps that admit no call -/

section Keep

variable {s s' : State}

theorem last_keep (hg : Grows s s') (hlen : s'.calls.length = s.calls.length)
    (h : (∃ c, s.calls[p]? = some c ∧ c.key = key) ∧
      ∀ (j : Nat) (d : Call), s.calls[j]? = some d → d.key = key → j ≤ p) :
    (∃ c, s'.calls[p]? = some c ∧ c.key = key) ∧
      ∀ (j : Nat) (d : Call), s'.calls[j]? = some d → d.key = key → j ≤ p := by
  obtain ⟨⟨e, he, hek⟩, hmax⟩ := h
  obtain ⟨e', he', hek', -⟩ := hg p e he
  refine ⟨⟨e', he', hek'.trans hek⟩, fun j d hd hkey => ?_⟩
  have hlt : j < s.calls.length := hlen ▸ (List.getElem?_eq_some_iff.1 hd).1
  obtain ⟨d₀, hd₀, hdk, -⟩ := hg.back hlt hd
  exact hmax j d₀ hd₀ (hdk.symm.trans hkey)

theorem Tails.keep (h : Tails s) (hg : Grows s s') (hlen : s'.calls.length = s.calls.length)
    (htails : s'.tails = s.tails) : Tails s' := by
  constructor
  · intro key hnone
    rw [hlen]
    exact hg.settledBelow le_rfl (h.none key (htails ▸ hnone))
  · intro key p hp
    exact last_keep hg hlen (h.some key p (htails ▸ hp))

theorem linkedAt_keep (h : Linked s) (hg : Grows s s') (hlt : i < s.calls.length)
    (hc' : s'.calls[i]? = some c') : LinkedAt s' i c' := by
  obtain ⟨c, hc, hkey, hprev, -⟩ := hg.back hlt hc'
  obtain ⟨hnone, hsome⟩ := h i c hc
  constructor
  · intro hp
    rw [hkey]
    exact hg.settledBelow hlt.le (hnone (hprev.symm.trans hp))
  intro p hp
  obtain ⟨⟨d, hd, hdk⟩, hlast⟩ := hsome p (hprev.symm.trans hp)
  obtain ⟨d', hd', hdk', -⟩ := hg p d hd
  refine ⟨⟨d', hd', hdk'.trans (hdk.trans hkey.symm)⟩, fun j e' hj he' hek => ?_⟩
  obtain ⟨e, he, hek', -⟩ := hg.back (by omega) he'
  exact hlast j e hj he (hek'.symm.trans (hek.trans hkey))

theorem Linked.keep (h : Linked s) (hg : Grows s s') (hlen : s'.calls.length = s.calls.length) : Linked s' := by
  intro i c' hc'
  exact linkedAt_keep h hg (hlen ▸ (List.getElem?_eq_some_iff.1 hc').1) hc'

theorem ResolvedLast.keep (h : ResolvedLast s) (hg : Grows s s')
    (hnew : ∀ (p : Nat) (c' : Call), s'.calls[p]? = some c' → c'.resolved = true →
      (∃ c, s.calls[p]? = some c ∧ c.resolved = true ∧ c'.key = c.key) ∨
        SettledBelow s' c'.key (p + 1)) : ResolvedLast s' := by
  intro p c' hc' hres
  rcases hnew p c' hc' hres with ⟨c, hc, hold, hkey⟩ | hbelow
  · have hlt := (List.getElem?_eq_some_iff.1 hc).1
    rw [hkey]
    exact hg.settledBelow hlt (h p c hc hold)
  · exact hbelow

theorem begun_keep (hg : Grows s s')
    (h : ∃ c : Call, s.calls[i]? = some c ∧ c.status ≠ .waiting ∧ SettledBelow s c.key i) :
    ∃ c : Call, s'.calls[i]? = some c ∧ c.status ≠ .waiting ∧ SettledBelow s' c.key i := by
  obtain ⟨c, hc, hw, hbelow⟩ := h
  obtain ⟨c', hc', hkey, -, -, hwaiting⟩ := hg i c hc
  have hlt := (List.getElem?_eq_some_iff.1 hc).1
  refine ⟨c', hc', fun hw' => hw (hwaiting hw'), ?_⟩
  rw [hkey]
  exact hg.settledBelow hlt.le hbelow

theorem inOrder_keep (h : Starts s) (hg : Grows s s') :
    s.started.Pairwise fun i j => keyOf s' i = keyOf s' j → i < j := by
  refine h.order.imp_of_mem fun {i j} hi hj hij hkey => hij ?_
  obtain ⟨c, hc, -⟩ := h.begun i hi
  obtain ⟨d, hd, -⟩ := h.begun j hj
  rw [← hg.keyOf (List.getElem?_eq_some_iff.1 hc).1, ← hg.keyOf (List.getElem?_eq_some_iff.1 hd).1]
  exact hkey

theorem Starts.keep (h : Starts s) (hg : Grows s s') (hstarted : s'.started = s.started)
    (hrun : ∀ (j : Nat) (c' : Call), s'.calls[j]? = some c' → c'.status = .running →
      ∃ c, s.calls[j]? = some c ∧ c.status = .running) : Starts s' := by
  refine ⟨?_, ?_, ?_⟩
  · intro i c' hc' hr
    obtain ⟨c, hc, hr'⟩ := hrun i c' hc' hr
    rw [hstarted]
    exact h.running i c hc hr'
  · intro i hi
    rw [hstarted] at hi
    exact begun_keep hg (h.begun i hi)
  · rw [InOrder, hstarted]
    exact inOrder_keep h hg

end Keep

def SettlesLast (s : State) (i : Nat) (c : Call) : Prop := s.tails c.key = some i → SettledBelow s c.key i

theorem settledBelow_succ_settle (hc : s.calls[i]? = some c) (hg : Grows s (settle s i c))
    (h : SettledBelow s c.key i) :
    SettledBelow (settle s i c) c.key (i + 1) := by
  have hlt := (List.getElem?_eq_some_iff.1 hc).1
  intro j d hj hd hkey
  by_cases hji : j = i
  · subst hji
    simp only [settle, getElem?_set_of_some hc, if_pos] at hd
    cases hd
    rfl
  · exact hg.settledBelow (by omega) h j d (by omega) hd hkey

theorem tails_settle (ht : Tails s) (hc : s.calls[i]? = some c) (hg : Grows s (settle s i c))
    (hlast : SettlesLast s i c) : Tails (settle s i c) := by
  have hlen : (settle s i c).calls.length = s.calls.length := by simp [settle]
  constructor
  · intro key hnone
    by_cases hold : s.tails key = none
    · rw [hlen]
      exact hg.settledBelow le_rfl (ht.none key hold)
    -- the entry has just been deleted, so it was the call's own
    have hown : s.tails c.key = some i ∧ key = c.key := by
      by_contra hne
      rw [not_and_or] at hne
      simp only [settle] at hnone
      split at hnone
      · rename_i htail
        rcases hne with hne | hne
        · exact hne htail
        · simp only [set, if_neg hne] at hnone
          exact hold hnone
      · exact hold hnone
    -- the call was the last of its key, so what is left is what it found before it
    obtain ⟨htail, rfl⟩ := hown
    intro j d hj hd hkey
    obtain ⟨e, he, hek, -⟩ := hg.back (by omega) hd
    have hji := (ht.some c.key i htail).2 j e he (hek.symm.trans hkey)
    exact settledBelow_succ_settle hc hg (hlast htail) j d (by omega) hd hkey
  -- an entry that is still there has not changed
  · intro key p hp
    have hold : s.tails key = some p := by
      simp only [settle] at hp
      split at hp
      · simp only [set] at hp
        split at hp
        · cases hp
        · exact hp
      · exact hp
    exact last_keep hg hlen (ht.some key p hold)

section

variable (h : Chained s) (hc : s.calls[i]? = some c)

include h hc

theorem chained_settle (hg : Grows s (settle s i c)) (hlast : SettlesLast s i c) : Chained (settle s i c) := by
  have hlen : (settle s i c).calls.length = s.calls.length := by simp [settle]
  -- apart from the call itself, which is settled, nothing has changed
  have hback : ∀ (j : Nat) (d' : Call), (settle s i c).calls[j]? = some d' →
      ∃ d, s.calls[j]? = some d ∧ d'.key = d.key ∧ d'.resolved = d.resolved ∧
        (d'.status = .running → d.status = .running) := by
    intro j d' hd'
    simp only [settle, getElem?_set_of_some hc] at hd'
    split at hd'
    · rename_i hj
      cases hd'
      subst hj
      exact ⟨c, hc, rfl, rfl, by simp⟩
    · exact ⟨d', hd', rfl, rfl, id⟩
  refine ⟨tails_settle h.tails hc hg hlast, h.linked.keep hg hlen, ?_, ?_⟩
  · apply h.resolved.keep hg
    intro p d' hd' hres
    left
    obtain ⟨d, hd, hkey, hres', -⟩ := hback p d' hd'
    exact ⟨d, hd, hres'.symm.trans hres, hkey⟩
  · apply h.starts.keep hg rfl
    intro j d' hd' hr
    obtain ⟨d, hd, -, -, hr'⟩ := hback j d' hd'
    exact ⟨d, hd, hr' hr⟩

theorem chained_start (hw : c.status = .waiting)
    (hturn : turnHasCome s c = true) (hg : Grows s s') (hs' : s' = { s with
      calls := s.calls.set i { c with status := .running }
      started := s.started ++ [i] }) : Chained s' := by
  have hbelow := settledBelow_of_turnHasCome h.linked h.resolved hc hturn
  have hlt := (List.getElem?_eq_some_iff.1 hc).1
  have hlen : s'.calls.length = s.calls.length := by simp [hs']
  have hget : ∀ j, s'.calls[j]? = if j = i then some { c with status := .running } else s.calls[j]? := by
    intro j
    rw [hs']
    exact getElem?_set_of_some hc _ j
  refine ⟨h.tails.keep hg hlen (by rw [hs']), h.linked.keep hg hlen, ?_, ?_, ?_, ?_⟩
  · apply h.resolved.keep hg
    intro p d' hd' hres
    left
    rw [hget] at hd'
    split at hd'
    · rename_i hp
      cases hd'
      subst hp
      exact ⟨c, hc, hres, rfl⟩
    · exact ⟨d', hd', hres, rfl⟩
  -- what is running now is the call itself, or was running before
  · intro j d' hd' hr
    rw [hget] at hd'
    rw [hs', List.mem_append, List.mem_singleton]
    split at hd'
    · rename_i hj
      exact Or.inr hj
    · exact Or.inl (h.starts.running j d' hd' hr)
  -- the call starts in its turn, when those before it have settled
  · intro j hj
    rw [hs', List.mem_append, List.mem_singleton] at hj
    rcases hj with hj | rfl
    · exact begun_keep hg (h.starts.begun j hj)
    · refine ⟨{ c with status := .running }, ?_, ?_, hg.settledBelow hlt.le hbelow⟩
      · rw [hget, if_pos rfl]
      · simp
  · -- a later call of the key that had started would have found this one settled
    have hlater : ∀ j ∈ s.started, keyOf s' j = keyOf s' i → j < i := by
      intro j hj hkey
      obtain ⟨d, hd, hdw, hdbelow⟩ := h.starts.begun j hj
      rw [hg.keyOf (List.getElem?_eq_some_iff.1 hd).1, hg.keyOf hlt] at hkey
      have hkey' : d.key = c.key := by simpa [keyOf, hd, hc] using hkey
      rcases lt_trichotomy j i with hji | hji | hji
      · exact hji
      · subst hji
        rw [hc] at hd
        cases hd
        exact absurd hw hdw
      · have hsettled := hdbelow i c hji hc hkey'.symm
        rw [hw] at hsettled
        cases hsettled
    rw [InOrder, hs', List.pairwise_append]
    refine ⟨hs' ▸ inOrder_keep h.starts hg, List.pairwise_singleton _ _, ?_⟩
    intro j hj k hk hkey
    rw [List.mem_singleton.1 hk] at hkey ⊢
    exact hlater j hj (hs' ▸ hkey)

theorem chained_resolve (hd : c.status = .settled) (hturn : turnHasCome s c = true) (hg : Grows s s')
    (hs' : s' = { s with calls := s.calls.set i { c with resolved := true } }) : Chained s' := by
  have hbelow := settledBelow_of_turnHasCome h.linked h.resolved hc hturn
  have hlt := (List.getElem?_eq_some_iff.1 hc).1
  have hlen : s'.calls.length = s.calls.length := by simp [hs']
  have hget : ∀ j, s'.calls[j]? = if j = i then some { c with resolved := true } else s.calls[j]? := by
    intro j
    rw [hs']
    exact getElem?_set_of_some hc _ j
  -- the call itself has settled too, so its promise may resolve
  have hthis : SettledBelow s c.key (i + 1) := by
    intro j e hj he hek
    by_cases hji : j = i
    · subst hji
      rw [hc] at he
      cases he
      exact hd
    · exact hbelow j e (by omega) he hek
  refine ⟨h.tails.keep hg hlen (by rw [hs']), h.linked.keep hg hlen, ?_, ?_⟩
  · apply h.resolved.keep hg
    intro p e' he' hres
    rw [hget] at he'
    split at he'
    · rename_i hp
      cases he'
      subst hp
      exact Or.inr (hg.settledBelow hlt hthis)
    · exact Or.inl ⟨e', he', hres, rfl⟩
  · apply h.starts.keep hg (by rw [hs'])
    intro j e' he' hr
    rw [hget] at he'
    split at he'
    · rename_i hj
      cases he'
      subst hj
      exact ⟨c, hc, hr⟩
    · exact ⟨e', he', hr⟩

end

theorem getElem?_enqueue (h : (enqueue s key).calls[j]? = some d) : (j < s.calls.length ∧ s.calls[j]? = some d) ∨
      (j = s.calls.length ∧ d = ⟨key, s.tails key, .waiting, false⟩) := by
  rcases lt_trichotomy j s.calls.length with hj | hj | hj
  · refine Or.inl ⟨hj, ?_⟩
    rwa [enqueue, List.getElem?_append_left hj] at h
  · subst hj
    simp only [enqueue, List.getElem?_concat_length, Option.some.injEq] at h
    exact Or.inr ⟨rfl, h.symm⟩
  · have hlt := (List.getElem?_eq_some_iff.1 h).1
    simp only [enqueue, List.length_append, List.length_singleton] at hlt
    omega

theorem tails_enqueue (h : Tails s) (hg : Grows s (enqueue s key)) : Tails (enqueue s key) := by
  constructor
  · intro k hk j d hj hd hdk
    have hne : k ≠ key := by
      rintro rfl
      simp [enqueue, set] at hk
    have hold : s.tails k = none := by simpa [enqueue, set, hne] using hk
    -- the new call has another key
    rcases getElem?_enqueue hd with ⟨hlt, -⟩ | ⟨-, rfl⟩
    · exact hg.settledBelow le_rfl (h.none k hold) j d hlt hd hdk
    · exact absurd hdk.symm hne
  · intro k p hp
    by_cases hk : k = key
    · subst hk
      -- the entry of its own key is the new call, which comes after all others
      have hpe : p = s.calls.length := by simpa [enqueue, set] using hp.symm
      subst hpe
      refine ⟨⟨⟨k, s.tails k, .waiting, false⟩, by simp [enqueue], rfl⟩, fun j d hd _ => ?_⟩
      rcases getElem?_enqueue hd with ⟨hlt, -⟩ | ⟨hj, -⟩ <;> omega
    · have hold : s.tails k = some p := by simpa [enqueue, set, hk] using hp
      obtain ⟨⟨c, hc, hck⟩, hmax⟩ := h.some k p hold
      obtain ⟨c', hc', hck', -⟩ := hg p c hc
      refine ⟨⟨c', hc', hck'.trans hck⟩, fun j d hd hdk => ?_⟩
      rcases getElem?_enqueue hd with ⟨-, hd'⟩ | ⟨-, rfl⟩
      · exact hmax j d hd' hdk
      · exact absurd hdk.symm hk

theorem linked_enqueue (h : Chained s) (hg : Grows s (enqueue s key)) : Linked (enqueue s key) := by
  intro i c hc
  rcases getElem?_enqueue hc with ⟨hlt, -⟩ | ⟨rfl, rfl⟩
  · exact linkedAt_keep h.linked hg hlt hc
  -- the new call takes over what `tails` says of its key
  constructor
  · intro hnone
    exact hg.settledBelow le_rfl (h.tails.none key hnone)
  intro p hp
  obtain ⟨⟨d, hd, hdk⟩, hmax⟩ := h.tails.some key p hp
  obtain ⟨d', hd', hdk', -⟩ := hg p d hd
  refine ⟨⟨d', hd', hdk'.trans hdk⟩, fun j e hj he hek => ?_⟩
  rcases getElem?_enqueue he with ⟨-, he'⟩ | ⟨hj', -⟩
  · exact hmax j e he' hek
  · omega

theorem chained_enqueue (h : Chained s) (hg : Grows s (enqueue s key)) : Chained (enqueue s key) := by
  refine ⟨tails_enqueue h.tails hg, linked_enqueue h hg, ?_, ?_⟩
  · apply h.resolved.keep hg
    intro p c' hc' hres
    left
    rcases getElem?_enqueue hc' with ⟨-, hc⟩ | ⟨-, rfl⟩
    · exact ⟨c', hc, hres, rfl⟩
    · cases hres
  · apply h.starts.keep hg rfl
    intro j c' hc' hr
    rcases getElem?_enqueue hc' with ⟨-, hc⟩ | ⟨-, rfl⟩
    · exact ⟨c', hc, hr⟩
    · cases hr

theorem chained_of_trans (h : Chained s) (hok : KeepsChain s e) (ht : Trans s e s') : Chained s' := by
  have hg := grows_of_trans ht
  cases ht with
  | rejected key => exact h
  | admitted key => exact chained_enqueue h hg
  | started hc hw hturn => exact chained_start h hc hw hturn hg rfl
  | finished hc hr =>
    -- a task that runs had its turn
    apply chained_settle h hc hg
    intro _
    obtain ⟨d, hd, -, hbelow⟩ := h.starts.begun _ (h.starts.running _ _ hc hr)
    rw [hc] at hd
    cases hd
    exact hbelow
  | timedOut hc _ => exact chained_settle h hc hg fun htail => hok _ hc htail
  | resolved hc hd hturn => exact chained_resolve h hc hd hturn hg rfl

theorem exclusive_of_chained (h : Chained s) : Exclusive s := by
  have hlt : ∀ (i j : Nat) (c d : Call), s.calls[i]? = some c → s.calls[j]? = some d → c.key = d.key →
      c.status = .running → d.status = .running → ¬ i < j := by
    intro i j c d hc hd hkey hcr hdr hij
    obtain ⟨d', hd', -, hbelow⟩ := h.starts.begun j (h.starts.running j d hd hdr)
    rw [hd] at hd'
    cases hd'
    -- the later of two running tasks has started with the earlier one settled
    have hsettled := hbelow i c hij hc hkey
    rw [hcr] at hsettled
    cases hsettled
  intro i j c d hc hd hkey hcr hdr
  have h₁ := hlt i j c d hc hd hkey hcr hdr
  have h₂ := hlt j i d c hd hc hkey.symm hdr hcr
  omega

/-! ## Depth -/

/-- `depths` counts the calls that have not settled. -/
def DepthCounts (s : State) : Prop := ∀ key, (s.depths key).getD 0 = unsettled s key

theorem unsettled_set (c' : Call) (hc : s.calls[i]? = some c) (hcalls : s'.calls = s.calls.set i c') (key : String) :
    unsettled s' key + (if c.key = key ∧ c.status ≠ .settled then 1 else 0) =
      unsettled s key + (if c'.key = key ∧ c'.status ≠ .settled then 1 else 0) := by
  obtain ⟨hlt, hget⟩ := List.getElem?_eq_some_iff.1 hc
  have hpos : (if c.key = key ∧ c.status ≠ .settled then 1 else 0) ≤ unsettled s key := by
    split
    · rename_i hu
      have hmem : c ∈ s.calls := List.mem_of_getElem? hc
      exact List.countP_pos_iff.2 ⟨c, hmem, by simpa using hu⟩
    · exact Nat.zero_le _
  simp only [unsettled, hcalls, List.countP_set hlt, hget, decide_eq_true_eq] at hpos ⊢
  omega

theorem unsettled_keep (c' : Call) (hc : s.calls[i]? = some c)
    (hcalls : s'.calls = s.calls.set i c') (hkey : c'.key = c.key)
    (hstatus : c'.status = .settled ↔ c.status = .settled) (key : String) :
    unsettled s' key = unsettled s key := by
  have hcount := unsettled_set c' hc hcalls key
  simp only [hkey, ne_eq, hstatus] at hcount
  omega

/-- The `finally` block takes one off the depth. -/
theorem depths_settle (hd : s.depths c.key = some (d + 1)) : ((settle s i c).depths c.key).getD 0 = d := by
  simp only [settle, set, if_true, hd, Nat.add_eq_zero_iff, one_ne_zero, and_false, if_false, Nat.add_sub_cancel]
  split
  · rename_i h0
    simp [h0]
  · rfl

theorem depthCounts_settle (h : DepthCounts s) (hc : s.calls[i]? = some c)
    (hu : c.status ≠ .settled) : DepthCounts (settle s i c) := by
  intro key
  have hcount : unsettled (settle s i c) key + (if c.key = key ∧ c.status ≠ .settled then 1 else 0) =
      unsettled s key := by
    simpa using unsettled_set { c with status := .settled } hc rfl key
  have hold := h key
  by_cases hkey : c.key = key
  · subst hkey
    rw [if_pos ⟨rfl, hu⟩] at hcount
    obtain ⟨d, hd⟩ : ∃ d, s.depths c.key = some (d + 1) := by
      cases hd : s.depths c.key with
      | none =>
        rw [hd, Option.getD_none] at hold
        omega
      | some d =>
        rw [hd, Option.getD_some] at hold
        exact ⟨d - 1, by congr 1; omega⟩
    rw [depths_settle hd]
    rw [hd, Option.getD_some] at hold
    omega
  · rw [if_neg (by simp [hkey])] at hcount
    have hdepth : (settle s i c).depths key = s.depths key := by
      simp [settle, set, Ne.symm hkey]
    rw [hdepth]
    omega

theorem depthCounts_enqueue (h : DepthCounts s) (key : String) : DepthCounts (enqueue s key) := by
  intro k
  have hold := h k
  have hcount : unsettled (enqueue s key) k = unsettled s k + if key = k then 1 else 0 := by
    by_cases hk : key = k <;> simp [unsettled, enqueue, List.countP_append, hk]
  rw [hcount]
  by_cases hk : k = key
  · subst hk
    simp [enqueue, set, hold]
  · simp only [enqueue, set, if_neg hk, if_neg (Ne.symm hk)]
    omega

theorem depthCounts_of_trans (h : DepthCounts s) (ht : Trans s e s') : DepthCounts s' := by
  cases ht with
  | rejected key => exact h
  | admitted key => exact depthCounts_enqueue h key
  | @started i c hc hw _ =>
    intro key
    rw [unsettled_keep { c with status := .running } hc rfl rfl (by simp [hw])]
    exact h key
  | finished hc hr => exact depthCounts_settle h hc (by simp [hr])
  | timedOut hc hw => exact depthCounts_settle h hc (by simp [hw])
  | @resolved i c hc _ _ =>
    intro key
    rw [unsettled_keep { c with resolved := true } hc rfl rfl Iff.rfl]
    exact h key

theorem depthCounts_of_run (h : AnyRun (step cfg) init es s) : DepthCounts s := by
  apply h.invariant (fun s e s' hs _ he => depthCounts_of_trans hs (trans_of_step he))
  intro key
  rfl

/-- Where the chain is kept, the queue is a first-in first-out mutex per key, and its depths count
the unsettled calls. -/
theorem serial_queue_mutex {cfg : Config} {es : List Event} {s : State} (h : Run (step cfg) KeepsChain init es s) :
    Exclusive s ∧ InOrder s ∧ ∀ key, (s.depths key).getD 0 = unsettled s key := by
  have hchained : Chained s :=
    h.invariant (fun s e s' hs hok he => chained_of_trans hs hok (trans_of_step he)) chained_init
  exact ⟨exclusive_of_chained hchained, hchained.starts.order, depthCounts_of_run h.any⟩

instance (s : State) (key : String) (n : Nat) : Decidable (SettledBelow s key n) :=
  decidable_of_iff (∀ j < n, ∀ d ∈ s.calls[j]?, d.key = key → d.status = .settled)
    ⟨fun h j d hj hd => h j hj d hd, fun h j hj d hd => h j d hj hd⟩

instance (s : State) (e : Event) : Decidable (KeepsChain s e) :=
  match e with
  | .timeout i =>
    decidable_of_iff (∀ c ∈ s.calls[i]?, s.tails c.key = some i → SettledBelow s c.key i)
      ⟨fun h c hc => h c hc, fun h c hc => h c hc⟩
  | .arrive _ | .start _ | .finish _ | .resolve _ => .isTrue trivial

theorem serial_queue_mutex_sample :
    ∃ s, Run (step ⟨100, 50⟩) KeepsChain init [.arrive "k", .start 0, .arrive "k", .arrive "k",
        .timeout 1, .finish 0, .resolve 0, .resolve 1, .start 2] s ∧
      Exclusive s ∧ InOrder s ∧ ∀ key, (s.depths key).getD 0 = unsettled s key := by
  obtain ⟨s, hs⟩ := Option.isSome_iff_exists.1 (by decide :
    (exec (fun s e => if KeepsChain s e then step ⟨100, 50⟩ s e else none) init [.arrive "k", .start 0,
      .arrive "k", .arrive "k", .timeout 1, .finish 0, .resolve 0, .resolve 1, .start 2]).isSome = true)
  have hrun := run_of_exec hs
  exact ⟨s, hrun, serial_queue_mutex hrun⟩

/-- The second times out as the last, and a third starts next to the first. -/
theorem timeout_breaks_mutex : ∃ s, AnyRun (step ⟨100, 50⟩) init
        [.arrive "k", .start 0, .arrive "k", .timeout 1, .arrive "k", .start 2] s ∧ ¬ Exclusive s := by
  obtain ⟨s, hs, hrun⟩ := (Option.any_eq_true _ _).1 (by decide :
    (exec (step ⟨100, 50⟩) init
      [.arrive "k", .start 0, .arrive "k", .timeout 1, .arrive "k", .start 2]).any (fun s =>
        (s.calls[0]?).any (fun c => c.key = "k" ∧ c.status = .running) &&
          (s.calls[2]?).any (fun c => c.key = "k" ∧ c.status = .running)) = true)
  simp only [Bool.and_eq_true, Option.any_eq_true, decide_eq_true_eq] at hrun
  obtain ⟨⟨c, hc, hck, hcr⟩, d, hd, hdk, hdr⟩ := hrun
  refine ⟨s, anyRun_of_exec hs, fun h => ?_⟩
  cases h 0 2 c d hc hd (hck.trans hdk.symm) hcr hdr

end RyanAI.Gateway.SerialQueue
