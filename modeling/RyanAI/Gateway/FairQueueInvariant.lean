import RyanAI.Gateway.FairQueue

/-!
# The representation invariant of the fair queue

The class keeps the same facts in several places: the counters, the queues, the rotation and the
active counts. `Inv` says that they agree, and every operation keeps it. Between events the queue is
also within its limits and leaves no eligible task waiting while there is room; these two may fail
inside `run`, before `drain` is called, and `drain` restores them.
-/

namespace RyanAI.Gateway.FairQueue

open RyanAI.Lib
open RyanAI.Lib.Machine

def weight (w : FairTask → ℤ) (q : List FairTask) : ℤ := (q.map w).sum

def Core.queuedWeight (w : FairTask → ℤ) (c : Core) : ℤ := OrderedMap.total (weight w) c.queues

def hasId (i : Nat) (e : FairTask) : ℤ := if e.id = i then 1 else 0

variable {c c' : Core} {k : String} {lim : Limits} {e : FairTask} {q : List FairTask} {s : State}
    {ev : Event}

theorem queuedWeight_setQueue (w : FairTask → ℤ) (hd : OrderedMap.Distinct c.queues)
    (hget : OrderedMap.get k c.queues = some q₀) (q : List FairTask) :
    (c.setQueue k q).queuedWeight w = c.queuedWeight w - weight w q₀ + weight w q := by
  have hset : OrderedMap.total (weight w) (OrderedMap.set k q c.queues) =
      c.queuedWeight w - weight w q₀ + weight w q := by
    simp [OrderedMap.total_set, OrderedMap.valueAt, hget, Core.queuedWeight]
  by_cases hq : q.isEmpty = true
  · have hnil : q = [] := by simpa using hq
    subst hnil
    have hzero : weight w [] = 0 := rfl
    simp only [Core.queuedWeight, Core.setQueue, hq, if_true, Core.removeRotation]
    rw [OrderedMap.total_delete (weight w) k (hd.set k []), hset]
    simp [OrderedMap.valueAt, OrderedMap.get_set, hzero, Core.queuedWeight]
  · simp only [Core.queuedWeight, Core.setQueue, if_neg hq]
    exact hset

structure Counts (c : Core) : Prop where
  queued : c.queued = c.queuedWeight fun _ => 1
  queuedBytes : c.queuedBytes = c.queuedWeight fun e => e.bytes
  places : ∀ i, c.queuedWeight (hasId i) + weight (hasId i) c.executing +
    (c.settled.countP fun p => p.1 = i : ℤ) = if i < c.nextId then 1 else 0

structure Actives (lim : Limits) (c : Core) : Prop where
  distinct : OrderedMap.Distinct c.activeByConnection
  positive : ∀ k v, OrderedMap.get k c.activeByConnection = some v → 0 < v
  started : ∀ k, c.activeOf k = (c.executing ++ c.finishing).countP fun e => e.connectionId = k
  active : c.active = OrderedMap.total id c.activeByConnection
  active_le : c.active ≤ lim.maxGlobalActive
  connection_le : ∀ k, c.activeOf k ≤ lim.maxConnectionActive

structure Inv (lim : Limits) (c : Core) : Prop where
  queues : Queues c
  counts : Counts c
  actives : Actives lim c

theorem Actives.congr (h : Actives lim c) (hactive : c'.active = c.active)
    (hmap : c'.activeByConnection = c.activeByConnection) (hexec : c'.executing = c.executing)
    (hfin : c'.finishing = c.finishing) : Actives lim c' := by
  have hof : ∀ k, c'.activeOf k = c.activeOf k := by
    intro k
    simp only [Core.activeOf, hmap]
  constructor
  · rw [hmap]
    exact h.distinct
  · rw [hmap]
    exact h.positive
  · intro k
    rw [hof, hexec, hfin]
    exact h.started k
  · rw [hactive, hmap]
    exact h.active
  · rw [hactive]
    exact h.active_le
  · intro k
    rw [hof]
    exact h.connection_le k

/-! ### Weights -/

theorem weight_cons (w : FairTask → ℤ) (e : FairTask) (q : List FairTask) : weight w (e :: q) = w e + weight w q := by
  simp [weight]

theorem weight_append (w : FairTask → ℤ) (q q' : List FairTask) : weight w (q ++ q') = weight w q + weight w q' := by
  simp [weight]

theorem weight_erase (w : FairTask → ℤ) (he : e ∈ q) : weight w (q.erase e) = weight w q - w e := by
  have hperm := ((List.perm_cons_erase he).map w).sum_eq
  simp only [List.map_cons, List.sum_cons] at hperm
  simp only [weight]
  omega

theorem weight_one (q : List FairTask) : weight (fun _ => 1) q = q.length := by
  simp [weight]

theorem countP_append_settled (i : Nat) (settled : List (Nat × Outcome)) (e : FairTask) (outcome : Outcome) :
    ((settled ++ [(e.id, outcome)]).countP (fun p => p.1 = i) : ℤ) =
      settled.countP (fun p => p.1 = i) + hasId i e := by
  rw [List.countP_append, Nat.cast_add]
  by_cases hi : e.id = i <;> simp [hasId, hi]

/-- The numbers of the queued tasks, as `cancelQueued` collects them. -/
theorem countP_cancelled (i : Nat) (queues : OrderedMap String (List FairTask)) :
    (((queues.flatMap Prod.snd).map fun e => (e.id, Outcome.cancelled)).countP
      (fun p => p.1 = i) : ℤ) = OrderedMap.total (weight (hasId i)) queues := by
  have hqueue : ∀ q : List FairTask,
      ((q.map fun e => (e.id, Outcome.cancelled)).countP (fun p => p.1 = i) : ℤ) =
        weight (hasId i) q := by
    intro q
    induction q with
    | nil => rfl
    | cons e q ih =>
      rw [List.map_cons, List.countP_cons, weight_cons, Nat.cast_add, ih]
      by_cases he : e.id = i <;> simp [hasId, he, add_comm]
  induction queues with
  | nil => rfl
  | cons entry rest ih =>
    simp only [OrderedMap.total, List.map_cons, List.sum_cons] at ih ⊢
    rw [List.flatMap_cons, List.map_append, List.countP_append, Nat.cast_add, hqueue, ih]

theorem Inv.rotate (h : Inv lim c) (hr : r.InRange)
    (horder : r.order = c.rotation.order) : Inv lim { c with rotation := r } :=
  ⟨h.queues.rotate hr (horder ▸ List.Perm.refl _),
    ⟨h.counts.queued, h.counts.queuedBytes, h.counts.places⟩, h.actives.congr rfl rfl rfl rfl⟩

theorem actives_dispatch (h : Actives lim c) (hroom : c.active < lim.maxGlobalActive)
    (hlimit : ¬ AtLimit lim c e.connectionId) :
    Actives lim (c.dispatch lim e) := by
  have hof : ∀ k, (c.dispatch lim e).activeOf k =
      if k = e.connectionId then c.activeOf e.connectionId + 1 else c.activeOf k := by
    intro k
    simp only [Core.activeOf, Core.dispatch, Core.mark, OrderedMap.get_set]
    split <;> rfl
  refine ⟨h.distinct.set _ _, ?_, ?_, ?_, ?_, ?_⟩
  -- the connection of the task has at least this one
  · intro k v hv
    simp only [Core.dispatch, Core.mark, OrderedMap.get_set] at hv
    split at hv
    · cases hv
      have hnonneg : 0 ≤ c.activeOf e.connectionId := by
        rw [h.started]
        exact Int.natCast_nonneg _
      omega
    · exact h.positive k v hv
  · intro k
    rw [hof]
    -- the task counts for its own connection only
    have hcount : ((c.executing ++ [e]) ++ c.finishing).countP (fun e' => e'.connectionId = k) =
        (c.executing ++ c.finishing).countP (fun e' => e'.connectionId = k) +
          if e.connectionId = k then 1 else 0 := by
      simp only [List.countP_append, List.countP_singleton, decide_eq_true_eq]
      omega
    change _ = (((c.executing ++ [e]) ++ c.finishing).countP (fun e' => e'.connectionId = k) : ℤ)
    rw [hcount, Nat.cast_add]
    by_cases hk : k = e.connectionId
    · subst hk
      rw [if_pos rfl, if_pos rfl, h.started]
      rfl
    · rw [if_neg hk, if_neg (Ne.symm hk), h.started]
      simp
  · change c.active + 1 = OrderedMap.total id
      (OrderedMap.set e.connectionId (c.activeOf e.connectionId + 1) c.activeByConnection)
    have hvalue : OrderedMap.valueAt id e.connectionId c.activeByConnection =
        c.activeOf e.connectionId := by
      simp [OrderedMap.valueAt, Core.activeOf]
    rw [OrderedMap.total_set, hvalue, h.active]
    simp only [id]
    omega
  · change c.active + 1 ≤ _
    omega
  · intro k
    rw [hof]
    split
    · rw [AtLimit] at hlimit
      omega
    · exact h.connection_le k

theorem inv_of_dispatch (h : Inv lim c) (hd : Dispatch lim c e c') : Inv lim c' := by
  have hqueues := queues_of_dispatch h.queues hd
  cases hd with
  | @mk r pre post k _ rest hroom hpos horder hpre hk hget hr hr' =>
    have howner : e.connectionId = k := h.queues.owner k _ hget e List.mem_cons_self
    have hweight : ∀ w, (({ c with rotation := r } : Core).setQueue k rest).queuedWeight w =
        c.queuedWeight w - w e := by
      intro w
      have hset := queuedWeight_setQueue w (c := { c with rotation := r }) h.queues.distinct hget rest
      rw [hset, weight_cons]
      simp only [Core.queuedWeight]
      omega
    -- taking the entry touches the queues and the rotation, and nothing else
    rw [setQueue_eq] at hqueues ⊢
    refine ⟨hqueues, ⟨?_, ?_, ?_⟩, ?_⟩
    · exact (congrArg (· - 1) h.counts.queued).trans (hweight fun _ => 1).symm
    · exact (congrArg (· - (e.bytes : ℤ)) h.counts.queuedBytes).trans
        (hweight fun e => e.bytes).symm
    · intro i
      have hplaces := h.counts.places i
      have hw := hweight (hasId i)
      -- the task moves from its queue to those in execution
      change Core.queuedWeight (hasId i) _ + weight (hasId i) (c.executing ++ [e]) + _ = _
      rw [weight_append, weight_cons]
      simp only [Core.queuedWeight, weight, List.map_nil, List.sum_nil, Core.dispatch, Core.mark]
        at hw hplaces ⊢
      omega
    · refine actives_dispatch ?_ hroom ?_
      · exact h.actives.congr rfl rfl rfl rfl
      · rw [howner]
        exact hk

theorem inv_drain (h : Inv lim c) : Inv lim (c.drain lim) :=
  (drains_drain lim h.queues).invariant (fun _ _ _ hc hd => inv_of_dispatch hc hd)
    (fun _ _ hc hr horder => hc.rotate hr horder) h

theorem enqueue_queues (lim : Limits) (c : Core) (k : String) (bytes : Nat) : (c.enqueue lim k bytes).queues =
      OrderedMap.set k ((OrderedMap.get k c.queues).getD [] ++ [c.newTask k bytes]) c.queues := by
  simp only [Core.enqueue, Core.mark]
  cases OrderedMap.get k c.queues <;> rfl

theorem enqueue_rotation (lim : Limits) (c : Core) (k : String) (bytes : Nat) : (c.enqueue lim k bytes).rotation =
      if (OrderedMap.get k c.queues).isNone then c.rotation.push k else c.rotation := by
  simp only [Core.enqueue, Core.mark]
  cases OrderedMap.get k c.queues <;> rfl

theorem get_enqueue (lim : Limits) (c : Core) (k : String) (bytes : Nat) (k' : String) :
    OrderedMap.get k' (c.enqueue lim k bytes).queues =
      if k' = k then some ((OrderedMap.get k c.queues).getD [] ++ [c.newTask k bytes])
      else OrderedMap.get k' c.queues := by
  rw [enqueue_queues, OrderedMap.get_set]

theorem mem_enqueue_rotation (h : Queues c) (k : String) (bytes : Nat) (k' : String) :
    k' ∈ (c.enqueue lim k bytes).rotation.items ↔ k' = k ∨ k' ∈ c.rotation.items := by
  rw [enqueue_rotation]
  cases hget : OrderedMap.get k c.queues with
  | none =>
    change k' ∈ c.rotation.items ++ [k] ↔ _
    rw [List.mem_append, List.mem_singleton, or_comm]
  | some q =>
    have hk : k ∈ c.rotation.items := by
      rw [h.mem, hget]
      rfl
    constructor
    · exact Or.inr
    · rintro (rfl | hmem)
      · exact hk
      · exact hmem

theorem queues_enqueue (h : Queues c) (k : String) (bytes : Nat) : Queues (c.enqueue lim k bytes) := by
  constructor
  · rw [enqueue_queues]
    exact h.distinct.set k _
  · intro k' q hq
    rw [get_enqueue] at hq
    split at hq
    · cases hq
      simp
    · exact h.nonempty k' q hq
  · intro k' q hq
    rw [get_enqueue] at hq
    split at hq
    · rename_i hkk
      cases hq
      rw [hkk]
      intro e he
      rcases List.mem_append.1 he with he | he
      · -- the task was queued before
        cases hget : OrderedMap.get k c.queues with
        | none =>
          rw [hget] at he
          cases he
        | some q =>
          rw [hget] at he
          exact h.owner k q hget e he
      · rw [List.mem_singleton.1 he]
        rfl
    · exact h.owner k' q hq
  · rw [enqueue_rotation]
    split
    · exact Cursor.inRange_push h.inRange k
    · exact h.inRange
  · rw [enqueue_rotation]
    split
    · rename_i hnone
      have hk : k ∉ c.rotation.items := by
        rw [h.mem, Option.isNone_iff_eq_none.1 hnone]
        simp
      refine List.nodup_append.2 ⟨h.nodup, List.nodup_singleton k, ?_⟩
      rintro a ha b hb rfl
      rw [List.mem_singleton.1 hb] at ha
      exact hk ha
    · exact h.nodup
  · intro k'
    rw [mem_enqueue_rotation h, get_enqueue, h.mem]
    by_cases hkk : k' = k <;> simp [hkk]

theorem queuedWeight_enqueue (w : FairTask → ℤ) (lim : Limits) (c : Core) (k : String) (bytes : Nat) :
    (c.enqueue lim k bytes).queuedWeight w = c.queuedWeight w + w (c.newTask k bytes) := by
  have hvalue : OrderedMap.valueAt (weight w) k c.queues =
      weight w ((OrderedMap.get k c.queues).getD []) := by
    rw [OrderedMap.valueAt]
    cases OrderedMap.get k c.queues <;> rfl
  have hnew : weight w [c.newTask k bytes] = w (c.newTask k bytes) := by simp [weight]
  rw [Core.queuedWeight, enqueue_queues, OrderedMap.total_set, hvalue, weight_append, hnew, Core.queuedWeight]
  omega

theorem enqueue_fields (lim : Limits) (c : Core) (k : String) (bytes : Nat) :
    (c.enqueue lim k bytes).queued = c.queued + 1 ∧
      (c.enqueue lim k bytes).queuedBytes = c.queuedBytes + bytes ∧
      (c.enqueue lim k bytes).nextId = c.nextId + 1 ∧
      (c.enqueue lim k bytes).executing = c.executing ∧
      (c.enqueue lim k bytes).finishing = c.finishing ∧
      (c.enqueue lim k bytes).settled = c.settled ∧
      (c.enqueue lim k bytes).active = c.active ∧
      (c.enqueue lim k bytes).activeByConnection = c.activeByConnection := by
  rw [Core.enqueue]
  cases OrderedMap.get k c.queues <;> exact ⟨rfl, rfl, rfl, rfl, rfl, rfl, rfl, rfl⟩

theorem inv_enqueue (h : Inv lim c) (k : String) (bytes : Nat) : Inv lim (c.enqueue lim k bytes) := by
  obtain ⟨hqueued, hbytes, hnext, hexec, hfin, hsettled, hactive, hmap⟩ := enqueue_fields lim c k bytes
  refine ⟨queues_enqueue h.queues k bytes, ⟨?_, ?_, ?_⟩, h.actives.congr hactive hmap hexec hfin⟩
  · rw [hqueued, queuedWeight_enqueue, h.counts.queued]
  · rw [hbytes, queuedWeight_enqueue, h.counts.queuedBytes]
    rfl
  intro i
  have hplaces := h.counts.places i
  rw [queuedWeight_enqueue, hexec, hsettled, hnext]
  have hid : hasId i (c.newTask k bytes) = if c.nextId = i then 1 else 0 := rfl
  rw [hid]
  -- the new number is the first that was not in use
  split at hplaces <;> split <;> split <;> omega

/-! ### Settling and releasing -/

theorem inv_settle (h : Inv lim c) (he : e ∈ c.executing) : Inv lim (c.settle e) := by
  refine ⟨h.queues.congr rfl rfl, ⟨h.counts.queued, h.counts.queuedBytes, ?_⟩, ⟨h.actives.distinct,
    h.actives.positive, ?_, h.actives.active, h.actives.active_le, h.actives.connection_le⟩⟩
  · intro i
    have hplaces := h.counts.places i
    -- the task moves from those in execution to those settled
    change c.queuedWeight (hasId i) + weight (hasId i) (c.executing.erase e) +
      ((c.settled ++ [(e.id, Outcome.executed)]).countP (fun p => p.1 = i) : ℤ) = _
    rw [weight_erase _ he, countP_append_settled]
    change _ = if i < c.nextId then (1 : ℤ) else 0
    omega
  · intro k
    -- it stays one of those its connection has started
    have hperm : (c.executing.erase e ++ (c.finishing ++ [e])).Perm (c.executing ++ c.finishing) := by
      have hmove : (c.executing.erase e ++ (c.finishing ++ [e])).Perm
          (e :: (c.executing.erase e ++ c.finishing)) := by
        rw [← List.append_assoc]
        exact List.perm_append_singleton e _
      exact hmove.trans ((List.perm_cons_erase he).symm.append_right c.finishing)
    change c.activeOf k = ((c.executing.erase e ++ (c.finishing ++ [e])).countP (fun e' => e'.connectionId = k) : ℤ)
    rw [hperm.countP_eq]
    exact h.actives.started k

theorem exists_active_of_finishing (h : Actives lim c) (he : e ∈ c.finishing) :
    ∃ v, OrderedMap.get e.connectionId c.activeByConnection = some v ∧ 0 < v := by
  have hpos : 0 < (c.executing ++ c.finishing).countP fun e' => e'.connectionId = e.connectionId :=
    List.countP_pos_iff.2 ⟨e, List.mem_append_right _ he, by simp⟩
  have hstarted := h.started e.connectionId
  cases hv : OrderedMap.get e.connectionId c.activeByConnection with
  | none =>
    -- the count of the connection would be zero
    simp only [Core.activeOf, hv, Option.getD_none] at hstarted
    omega
  | some v => exact ⟨v, rfl, h.positive _ v hv⟩

theorem release_activeByConnection (lim : Limits) (hv : OrderedMap.get e.connectionId c.activeByConnection = some v) :
    (c.release lim e).activeByConnection = if v - 1 ≤ 0 then OrderedMap.delete e.connectionId c.activeByConnection
      else OrderedMap.set e.connectionId (v - 1) c.activeByConnection := by
  simp [Core.release, Core.mark, hv]

theorem activeOf_release (lim : Limits)
    (hv : OrderedMap.get e.connectionId c.activeByConnection = some v) (hpos : 0 < v) (k : String) :
    (c.release lim e).activeOf k = if k = e.connectionId then v - 1 else c.activeOf k := by
  rw [Core.activeOf, release_activeByConnection lim hv]
  split
  · rw [OrderedMap.get_delete]
    split
    · simp only [Option.getD_none]
      omega
    · rfl
  · rw [OrderedMap.get_set]
    split <;> rfl

theorem countP_release (he : e ∈ c.finishing) (k : String) :
    (c.executing ++ c.finishing).countP (fun e' => e'.connectionId = k) =
      (c.executing ++ c.finishing.erase e).countP (fun e' => e'.connectionId = k) +
        if e.connectionId = k then 1 else 0 := by
  have hperm := (List.perm_cons_erase he).countP_eq fun e' => decide (e'.connectionId = k)
  rw [List.countP_cons] at hperm
  simp only [List.countP_append, decide_eq_true_eq] at hperm ⊢
  omega

theorem actives_release (h : Actives lim c) (he : e ∈ c.finishing) : Actives lim (c.release lim e) := by
  obtain ⟨v, hv, hpos⟩ := exists_active_of_finishing h he
  have hmap := release_activeByConnection lim hv
  have hof := activeOf_release lim hv hpos
  have hofv : c.activeOf e.connectionId = v := by simp [Core.activeOf, hv]
  constructor
  · rw [hmap]
    split
    · exact h.distinct.delete _
    · exact h.distinct.set _ _
  · intro k w hw
    rw [hmap] at hw
    split at hw
    · rw [OrderedMap.get_delete] at hw
      split at hw
      · cases hw
      · exact h.positive k w hw
    · rw [OrderedMap.get_set] at hw
      split at hw
      · cases hw
        omega
      · exact h.positive k w hw
  · intro k
    have hstarted := h.started k
    have hcount := countP_release he k
    change _ = ((c.executing ++ c.finishing.erase e).countP (fun e' => e'.connectionId = k) : ℤ)
    rw [hof]
    by_cases hk : k = e.connectionId
    · subst hk
      rw [if_pos rfl] at hcount ⊢
      omega
    · rw [if_neg (Ne.symm hk)] at hcount
      rw [if_neg hk]
      omega
  · -- deleting an entry of one takes as much from the total as setting one
    change c.active - 1 = _
    have hvalue : OrderedMap.valueAt id e.connectionId c.activeByConnection = v := by
      simp [OrderedMap.valueAt, hv]
    rw [hmap]
    split
    · rw [OrderedMap.total_delete id _ h.distinct, hvalue, h.active]
      omega
    · rw [OrderedMap.total_set, hvalue, h.active]
      simp only [id]
      omega
  · change c.active - 1 ≤ _
    have hle := h.active_le
    omega
  · intro k
    have hle := h.connection_le k
    rw [hof]
    split
    · rename_i hk
      subst hk
      omega
    · exact hle

theorem inv_release (h : Inv lim c) (he : e ∈ c.finishing) : Inv lim (c.release lim e) :=
  ⟨h.queues.congr rfl rfl, ⟨h.counts.queued, h.counts.queuedBytes, h.counts.places⟩,
    actives_release h.actives he⟩

theorem inv_expire (h : Inv lim c) (hget : OrderedMap.get e.connectionId c.queues = some q) (he : e ∈ q) :
    Inv lim (c.expire lim e q) := by
  have hk : e.connectionId ∈ c.rotation.items := by
    rw [h.queues.mem, hget]
    rfl
  have hqueues : Queues (c.setQueue e.connectionId (q.erase e)) :=
    h.queues.setQueue hk fun e' he' => h.queues.owner _ q hget e' (List.mem_of_mem_erase he')
  have hweight : ∀ w, (c.setQueue e.connectionId (q.erase e)).queuedWeight w =
      c.queuedWeight w - w e := by
    intro w
    rw [queuedWeight_setQueue w h.queues.distinct hget, weight_erase w he]
    omega
  rw [expire_eq]
  refine ⟨hqueues.congr rfl rfl, ⟨?_, ?_, ?_⟩, h.actives.congr rfl rfl rfl rfl⟩
  · exact (congrArg (· - 1) h.counts.queued).trans (hweight fun _ => 1).symm
  · exact (congrArg (· - (e.bytes : ℤ)) h.counts.queuedBytes).trans (hweight fun e => e.bytes).symm
  intro i
  have hplaces := h.counts.places i
  have hw := hweight (hasId i)
  change (c.setQueue e.connectionId (q.erase e)).queuedWeight (hasId i) +
    weight (hasId i) c.executing +
    ((c.settled ++ [(e.id, Outcome.expired)]).countP (fun p => p.1 = i) : ℤ) = _
  rw [hw, countP_append_settled]
  change _ = if i < c.nextId then (1 : ℤ) else 0
  omega

theorem inv_cancelQueued (h : Inv lim c) : Inv lim (c.cancelQueued lim) := by
  refine ⟨⟨List.nodup_nil, ?_, ?_, Or.inr ⟨rfl, rfl⟩, List.nodup_nil, ?_⟩, ⟨rfl, rfl, ?_⟩,
    h.actives.congr rfl rfl rfl rfl⟩
  · intro k q hq
    cases hq
  · intro k q hq
    cases hq
  · intro k
    simp [Core.cancelQueued, Core.mark, OrderedMap.get]
  intro i
  have hplaces := h.counts.places i
  change (0 : ℤ) + weight (hasId i) c.executing +
    ((c.settled ++ (c.queues.flatMap Prod.snd).map fun e => (e.id, Outcome.cancelled)).countP
      (fun p => p.1 = i) : ℤ) = _
  rw [List.countP_append, Nat.cast_add, countP_cancelled]
  simp only [Core.queuedWeight] at hplaces
  change _ = if i < c.nextId then (1 : ℤ) else 0
  omega

/-! ## Limits of the queue -/

structure WithinLimits (lim : Limits) (c : Core) : Prop where
  queued_le : c.queued ≤ lim.maxGlobalQueued
  queuedBytes_le : c.queuedBytes ≤ lim.maxQueuedBytes
  queue_le : ∀ k q, OrderedMap.get k c.queues = some q → q.length ≤ lim.maxConnectionQueued

theorem queues_eq_nil (h : Inv lim c) (hzero : c.queued = 0) : c.queues = [] := by
  have htotal : OrderedMap.total (weight fun _ => 1) c.queues = 0 := h.counts.queued.symm.trans hzero
  refine OrderedMap.eq_nil_of_total_eq_zero ?_ htotal
  rintro ⟨k, q⟩ hmem
  have hne := h.queues.nonempty k q (OrderedMap.get_of_mem h.queues.distinct hmem)
  have hlen := List.length_pos_iff.2 hne
  change 0 < weight (fun _ => 1) q
  rw [weight_one]
  omega

theorem withinLimits_of_queued_zero (h : Inv lim c) (hzero : c.queued = 0) : WithinLimits lim c := by
  have hnil := queues_eq_nil h hzero
  refine ⟨?_, ?_, ?_⟩
  · omega
  · have hbytes := h.counts.queuedBytes
    simp only [Core.queuedWeight, hnil, OrderedMap.total, List.map_nil, List.sum_nil] at hbytes
    omega
  · intro k q hq
    rw [hnil] at hq
    cases hq

theorem queue_le_setQueue (h : ∀ k q, OrderedMap.get k c.queues = some q → q.length ≤ lim.maxConnectionQueued)
    (k : String) (hq : q.length ≤ lim.maxConnectionQueued) (k' : String) (q' : List FairTask)
    (hq' : OrderedMap.get k' (c.setQueue k q).queues = some q') :
    q'.length ≤ lim.maxConnectionQueued := by
  rw [setQueue_queues] at hq'
  split at hq'
  · split at hq'
    · cases hq'
    · cases hq'
      exact hq
  · exact h k' q' hq'

theorem withinLimits_of_dispatch (h : WithinLimits lim c) (hd : Dispatch lim c e c') : WithinLimits lim c' := by
  cases hd with
  | @mk r pre post k _ rest _ _ _ _ _ hget _ _ =>
    have hqueued := h.queued_le
    have hbytes := h.queuedBytes_le
    have hrest : rest.length ≤ lim.maxConnectionQueued := by
      have hlen := h.queue_le k _ hget
      simp only [List.length_cons] at hlen
      omega
    have hqueues := queue_le_setQueue (c := { c with rotation := r }) h.queue_le k hrest
    rw [setQueue_eq]
    refine ⟨?_, ?_, fun k' q' hq' => hqueues k' q' hq'⟩
    · change c.queued - 1 ≤ _
      omega
    · change c.queuedBytes - e.bytes ≤ _
      omega

theorem withinLimits_of_drains (h : Drains lim c c') (hc : WithinLimits lim c) : WithinLimits lim c' :=
  h.invariant (fun _ _ _ hc hd => withinLimits_of_dispatch hc hd)
    (fun _ _ hc _ _ => ⟨hc.queued_le, hc.queuedBytes_le, hc.queue_le⟩) hc

theorem queued_of_dispatch (hd : Dispatch lim c e c') : c'.queued = c.queued - 1 := by
  cases hd with
  | mk =>
    rw [setQueue_eq]
    rfl

/-- A task that need not wait is dispatched before `run` returns. -/
theorem withinLimits_enqueue_free (h : Inv lim c) (hfree : c.mustWait lim k = false) :
    WithinLimits lim ((c.enqueue lim k bytes).drain lim) := by
  simp only [Core.mustWait, Bool.or_eq_false_iff, decide_eq_false_iff_not, not_le, not_lt] at hfree
  obtain ⟨⟨hroom, hbelow⟩, hnone⟩ := hfree
  obtain ⟨hqueued, -, -, -, -, -, hactive, hmap⟩ := enqueue_fields lim c k bytes
  have hinv := inv_enqueue h k bytes
  -- a task that need not wait finds an empty queue
  have hzero : c.queued = 0 := by
    have hcount := h.counts.queued
    have hnonneg : 0 ≤ c.queuedWeight fun _ => 1 := by
      apply List.sum_nonneg
      intro x hx
      obtain ⟨entry, -, rfl⟩ := List.mem_map.1 hx
      rw [weight_one]
      exact Int.natCast_nonneg _
    omega
  have hk : k ∈ (c.enqueue lim k bytes).rotation.order := by
    rw [Cursor.mem_order, mem_enqueue_rotation h.queues]
    exact Or.inl rfl
  generalize hdrained : (c.enqueue lim k bytes).drain lim = d
  have hdrains : Drains lim (c.enqueue lim k bytes) d := hdrained ▸ drains_drain lim hinv.queues
  cases hdrains with
  -- there is room, and the task is queued
  | stop hstop => exact absurd ⟨by omega, by omega⟩ hstop
  -- its connection is below the limit, so the scan does not pass it by
  | blocked _ _ hall =>
    have hlimit := hall k hk
    simp only [AtLimit, Core.activeOf, hmap] at hlimit
    simp only [Core.activeOf] at hbelow
    omega
  | round hround hrest =>
    -- the first round takes the only task there is
    have hq := queued_of_dispatch hround
    exact withinLimits_of_drains hrest
      (withinLimits_of_queued_zero (inv_of_dispatch hinv hround) (by omega))

theorem withinLimits_enqueue (h : WithinLimits lim c) (hroom : c.isFull lim k bytes = false) :
    WithinLimits lim (c.enqueue lim k bytes) := by
  simp only [Core.isFull, Bool.or_eq_false_iff, decide_eq_false_iff_not, not_le, not_lt] at hroom
  obtain ⟨⟨hglobal, hqueue⟩, hbytes⟩ := hroom
  obtain ⟨hqueued', hbytes', -⟩ := enqueue_fields lim c k bytes
  refine ⟨?_, ?_, ?_⟩
  · rw [hqueued']
    omega
  · rw [hbytes']
    omega
  intro k' q' hq'
  rw [get_enqueue] at hq'
  split at hq'
  · cases hq'
    rw [List.length_append, List.length_singleton]
    cases hget : OrderedMap.get k c.queues with
    | none =>
      simp only [hget, Option.map_none, Option.getD_none, List.length_nil] at hqueue ⊢
      omega
    | some q =>
      simp only [hget, Option.map_some, Option.getD_some] at hqueue ⊢
      omega
  · exact h.queue_le k' q' hq'

theorem withinLimits_expire (h : WithinLimits lim c) (hget : OrderedMap.get e.connectionId c.queues = some q) :
    WithinLimits lim (c.expire lim e q) := by
  have hqueued := h.queued_le
  have hbytes := h.queuedBytes_le
  have herase : (q.erase e).length ≤ lim.maxConnectionQueued := List.length_erase_le.trans (h.queue_le _ q hget)
  have hqueues := queue_le_setQueue h.queue_le e.connectionId herase
  rw [expire_eq]
  refine ⟨?_, ?_, fun k' q' hq' => hqueues k' q' hq'⟩
  · change c.queued - 1 ≤ _
    omega
  · change c.queuedBytes - e.bytes ≤ _
    omega

theorem withinLimits_of_coreStep (hinv : Inv lim s.core) (h : WithinLimits lim s.core) (hs : CoreStep lim s ev c') :
    WithinLimits lim c' := by
  cases hs with
  | same => exact h
  | @admitted k bytes hadmits =>
    simp only [admits, Bool.and_eq_true, Bool.not_eq_true'] at hadmits
    cases hwait : s.core.mustWait lim k with
    | false => exact withinLimits_enqueue_free hinv hwait
    | true =>
      have hroom := hadmits.2
      rw [hwait, Bool.true_and] at hroom
      exact withinLimits_of_drains (drains_drain lim (queues_enqueue hinv.queues k bytes))
        (withinLimits_enqueue h hroom)
  | settled _ => exact ⟨h.queued_le, h.queuedBytes_le, h.queue_le⟩
  | @finished e he =>
    have hreleased : WithinLimits lim (s.core.release lim e) := ⟨h.queued_le, h.queuedBytes_le, h.queue_le⟩
    exact withinLimits_of_drains (drains_drain lim (inv_release hinv he).queues) hreleased
  | expired hget _ => exact withinLimits_expire h hget
  | cancelled => exact withinLimits_of_queued_zero (inv_cancelQueued hinv) rfl

def WorkConserving (lim : Limits) (c : Core) : Prop :=
  c.active < lim.maxGlobalActive → 0 < c.queued → ∀ k, (OrderedMap.get k c.queues).isSome = true → AtLimit lim c k

/-- `drain` ends in a work-conserving state, wherever it starts. -/
theorem workConserving_of_drains (h : Queues c) (hd : Drains lim c c') : WorkConserving lim c' := by
  induction hd with
  | stop hstop =>
    intro hroom hpos
    exact absurd ⟨hroom, hpos⟩ hstop
  | blocked _ _ hall =>
    intro _ _ k hk
    exact hall k (Cursor.mem_order.2 ((h.mem k).2 hk))
  | round hround _ ih => exact ih (queues_of_dispatch h hround)

theorem workConserving_expire (h : WorkConserving lim c) (hget : OrderedMap.get e.connectionId c.queues = some q) :
    WorkConserving lim (c.expire lim e q) := by
  rw [expire_eq]
  intro hroom hpos k hk
  have hpos' : 0 < c.queued := by
    change 0 < c.queued - 1 at hpos
    omega
  change (OrderedMap.get k (c.setQueue e.connectionId (q.erase e)).queues).isSome = true at hk
  apply h hroom hpos' k
  rw [setQueue_queues] at hk
  split at hk
  · rename_i hkk
    rw [hkk, hget]
    rfl
  · exact hk

theorem workConserving_of_coreStep (hinv : Inv lim s.core) (h : WorkConserving lim s.core) (hs : CoreStep lim s ev c') :
    WorkConserving lim c' := by
  cases hs with
  | same => exact h
  | @admitted k bytes _ =>
    have henqueued : Queues (s.core.enqueue lim k bytes) := queues_enqueue hinv.queues k bytes
    exact workConserving_of_drains henqueued (drains_drain lim henqueued)
  | settled _ => exact h
  | @finished e he =>
    have hreleased : Queues (s.core.release lim e) := (inv_release hinv he).queues
    exact workConserving_of_drains hreleased (drains_drain lim hreleased)
  | expired hget _ => exact workConserving_expire h hget
  | cancelled =>
    intro _ hpos
    exact absurd hpos (lt_irrefl 0)

/-! ## Runs -/

theorem inv_of_coreStep (h : Inv lim s.core) (hs : CoreStep lim s ev c') : Inv lim c' := by
  cases hs with
  | same => exact h
  | admitted _ => exact inv_drain (inv_enqueue h _ _)
  | settled he => exact inv_settle h he
  | finished he => exact inv_drain (inv_release h he)
  | expired hget he => exact inv_expire h hget he
  | cancelled => exact inv_cancelQueued h

theorem inv_init (lim : Limits) : Inv lim init.core := by
  refine ⟨⟨List.nodup_nil, ?_, ?_, Or.inr ⟨rfl, rfl⟩, List.nodup_nil, ?_⟩, ⟨rfl, rfl, ?_⟩,
    ⟨List.nodup_nil, ?_, ?_, rfl, ?_, ?_⟩⟩
  · intro k q hq
    cases hq
  · intro k q hq
    cases hq
  · intro k
    simp [init, OrderedMap.get]
  · intro i
    rfl
  · intro k v hv
    cases hv
  · intro k
    rfl
  · exact Int.natCast_nonneg _
  · intro k
    exact Int.natCast_nonneg _

structure Sound (lim : Limits) (c : Core) : Prop where
  inv : Inv lim c
  limits : WithinLimits lim c
  conserving : WorkConserving lim c

theorem sound_of_run (h : AnyRun (step lim) init es s) : Sound lim s.core := by
  apply h.invariant (I := fun s => Sound lim s.core)
  · intro s ev s' hs _ hstep
    have hcore := coreStep_of_step hstep
    exact ⟨inv_of_coreStep hs.inv hcore, withinLimits_of_coreStep hs.inv hs.limits hcore,
      workConserving_of_coreStep hs.inv hs.conserving hcore⟩
  · refine ⟨inv_init lim, withinLimits_of_queued_zero (inv_init lim) rfl, ?_⟩
    intro _ hpos
    exact absurd hpos (lt_irrefl 0)

def Core.queuedTasks (c : Core) : List FairTask := c.queues.flatMap Prod.snd

theorem queuedWeight_eq (w : FairTask → ℤ) (c : Core) : c.queuedWeight w = (c.queuedTasks.map w).sum := by
  rw [Core.queuedWeight, Core.queuedTasks]
  induction c.queues with
  | nil => rfl
  | cons entry rest ih =>
    simp only [OrderedMap.total, List.map_cons, List.sum_cons] at ih ⊢
    rw [List.flatMap_cons, List.map_append, List.sum_append, ih]
    rfl

theorem sum_hasId (i : Nat) (tasks : List FairTask) : (tasks.map (hasId i)).sum = tasks.countP fun e => e.id = i := by
  induction tasks with
  | nil => rfl
  | cons e tasks ih =>
    rw [List.map_cons, List.sum_cons, List.countP_cons, Nat.cast_add, ih]
    by_cases he : e.id = i <;> simp [hasId, he, add_comm]

/-- The representation is consistent, and each of the `nextId` tasks is in one place, settled once
at most. -/
structure Consistent (lim : Limits) (c : Core) : Prop where
  queued : c.queued = (c.queues.map fun p => (p.2.length : ℤ)).sum
  queuedBytes : c.queuedBytes = (c.queuedTasks.map fun e => (e.bytes : ℤ)).sum
  queuedBytes_le : c.queuedBytes ≤ lim.maxQueuedBytes
  active : c.active = (c.activeByConnection.map Prod.snd).sum
  active_le : c.active ≤ lim.maxGlobalActive
  connection_le : ∀ k, 0 ≤ c.activeOf k ∧ c.activeOf k ≤ lim.maxConnectionActive
  queue_le : ∀ k q, OrderedMap.get k c.queues = some q → q.length ≤ lim.maxConnectionQueued
  rotation_nodup : c.rotation.items.Nodup
  rotation_mem : ∀ k, k ∈ c.rotation.items ↔ ∃ q, OrderedMap.get k c.queues = some q ∧ q ≠ []
  index_lt : c.rotation.items ≠ [] → c.rotation.index < c.rotation.items.length
  index_zero : c.rotation.items = [] → c.rotation.index = 0
  places : ∀ i, c.queuedTasks.countP (fun e => e.id = i) + c.executing.countP (fun e => e.id = i) +
    c.settled.countP (fun p => p.1 = i) = if i < c.nextId then 1 else 0

theorem consistent_of_sound (h : Sound lim c) : Consistent lim c where
  queued := by
    have hlength : (weight fun _ => 1) = fun q => (q.length : ℤ) := funext weight_one
    rw [h.inv.counts.queued, Core.queuedWeight, hlength]
    rfl
  queuedBytes := by
    rw [h.inv.counts.queuedBytes, queuedWeight_eq]
  queuedBytes_le := h.limits.queuedBytes_le
  active := h.inv.actives.active
  active_le := h.inv.actives.active_le
  connection_le := by
    intro k
    refine ⟨?_, h.inv.actives.connection_le k⟩
    rw [h.inv.actives.started]
    exact Int.natCast_nonneg _
  queue_le := h.limits.queue_le
  rotation_nodup := h.inv.queues.nodup
  rotation_mem := by
    intro k
    rw [h.inv.queues.mem, Option.isSome_iff_exists]
    constructor
    · rintro ⟨q, hq⟩
      exact ⟨q, hq, h.inv.queues.nonempty k q hq⟩
    · rintro ⟨q, hq, -⟩
      exact ⟨q, hq⟩
  index_lt := by
    intro hne
    rcases h.inv.queues.inRange with hlt | ⟨hnil, -⟩
    · exact hlt
    · exact absurd hnil hne
  index_zero := by
    intro hnil
    rcases h.inv.queues.inRange with hlt | ⟨-, hzero⟩
    · rw [hnil] at hlt
      exact absurd hlt (Nat.not_lt_zero _)
    · exact hzero
  places := by
    intro i
    have hplaces := h.inv.counts.places i
    rw [queuedWeight_eq, sum_hasId, weight, sum_hasId] at hplaces
    split at hplaces
    · rename_i hlt
      rw [if_pos hlt]
      omega
    · rename_i hlt
      rw [if_neg hlt]
      omega

theorem exists_step_expire (h : Queues s.core) (he : e ∈ s.core.queuedTasks) :
    ∃ s', step lim s (.expire e) = some s' ∧ (e.id, Outcome.expired) ∈ s'.core.settled := by
  obtain ⟨⟨k, q⟩, hmem, heq⟩ := List.mem_flatMap.1 he
  have hget : OrderedMap.get k s.core.queues = some q := OrderedMap.get_of_mem h.distinct hmem
  have howner : e.connectionId = k := h.owner k q hget e heq
  refine ⟨checkIdle { s with core := s.core.expire lim e q }, ?_, ?_⟩
  · simp only [step, howner, hget]
    exact if_pos heq
  · rw [checkIdle_core, expire_eq]
    exact List.mem_append_right _ List.mem_cons_self

/-- Every state is consistent, and a task that is not settled can be. -/
theorem fair_queue_consistent (lim : Limits) {es : List Event} {s : State} (h : AnyRun (step lim) init es s) :
    Consistent lim s.core ∧
      (∀ e ∈ s.core.queuedTasks,
        ∃ s', step lim s (.expire e) = some s' ∧ (e.id, Outcome.expired) ∈ s'.core.settled) ∧
      ∀ e ∈ s.core.executing,
        ∃ s', step lim s (.settle e) = some s' ∧ (e.id, Outcome.executed) ∈ s'.core.settled := by
  have hsound := sound_of_run h
  refine ⟨consistent_of_sound hsound, ?_, ?_⟩
  · intro e he
    exact exists_step_expire hsound.inv.queues he
  · intro e he
    refine ⟨{ s with core := s.core.settle e }, if_pos he, ?_⟩
    exact List.mem_append_right _ List.mem_cons_self

def sampleLimits : Limits := ⟨2, 1, 3, 2, 100⟩

/-- `a` and `c` wait, `b` finishes; the waiting task of `a` expires. -/
def sampleEvents : List Event :=
  [.run "a" 1, .run "a" 2, .run "b" 3, .run "c" 4, .settle ⟨2, "b", 3⟩, .finish ⟨2, "b", 3⟩,
    .expire ⟨1, "a", 2⟩, .run "a" 5]

theorem fair_queue_consistent_sample :
    ∃ s, AnyRun (step sampleLimits) init sampleEvents s ∧ s.core.queued = 1 ∧ s.core.active = 2 ∧
      Consistent sampleLimits s.core := by
  have hexec : ∃ s, exec (step sampleLimits) init sampleEvents = some s ∧ s.core.queued = 1 ∧
      s.core.active = 2 := by
    refine ⟨_, rfl, ?_, ?_⟩ <;> decide
  obtain ⟨s, hs, hqueued, hactive⟩ := hexec
  have hrun := anyRun_of_exec hs
  exact ⟨s, hrun, hqueued, hactive, (fair_queue_consistent sampleLimits hrun).1⟩

/-- With room left after an event, whoever waits is at its limit. -/
theorem fair_queue_work_conserving (lim : Limits) {es : List Event} {s : State}
    (h : AnyRun (step lim) init es s) (hroom : s.core.active < lim.maxGlobalActive)
    (hqueued : 0 < s.core.queued) (k : String) (q : List FairTask)
    (hq : OrderedMap.get k s.core.queues = some q) :
    s.core.activeOf k = lim.maxConnectionActive := by
  have hsound := sound_of_run h
  have hlimit : AtLimit lim s.core k := by
    apply hsound.conserving hroom hqueued
    rw [hq]
    rfl
  exact le_antisymm (hsound.inv.actives.connection_le k) hlimit

theorem fair_queue_work_conserving_sample : ∃ s, AnyRun (step sampleLimits) init [.run "a" 1, .run "a" 2] s ∧
      s.core.active < sampleLimits.maxGlobalActive ∧ 0 < s.core.queued ∧ s.core.activeOf "a" = 1 := by
  have hexec : ∃ s, exec (step sampleLimits) init [.run "a" 1, .run "a" 2] = some s ∧
      s.core.active < sampleLimits.maxGlobalActive ∧ 0 < s.core.queued ∧
      OrderedMap.get "a" s.core.queues = some [⟨1, "a", 2⟩] := by
    refine ⟨_, rfl, ?_, ?_, ?_⟩ <;> decide
  obtain ⟨s, hs, hroom, hqueued, hq⟩ := hexec
  have hrun := anyRun_of_exec hs
  exact ⟨s, hrun, hroom, hqueued,
    fair_queue_work_conserving sampleLimits hrun hroom hqueued "a" _ hq⟩

end RyanAI.Gateway.FairQueue
