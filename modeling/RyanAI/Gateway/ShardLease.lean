import RyanAI.Lib.FencedLease
import RyanAI.Lib.Machine

/-!
# Shard leases

The coordinator of `coordination.ts` keeps one lease per shard in Redis, with a counter of epochs and the node that the
scheduler wants to run the shard. `acquire`, `renew` and `release` are Lua scripts, run one at a time;
`ensure_shard_targets` of `utils/bot_gateway_coordination.py` changes targets, and time passes in between. The backend's
`validate_event_fence` reads the lease and its remaining time with two commands.
-/

namespace RyanAI.Gateway.ShardLease

open RyanAI.Lib
open RyanAI.Lib.FencedLease
open RyanAI.Lib.Machine

inductive Mode where
  | single
  | redis
  deriving DecidableEq

/-! ## Redis -/

structure LeaseValue where
  nodeId : String
  leaseId : String
  epoch : ℕ
  assignmentGeneration : ℕ
  deriving DecidableEq

/-- For each shard its lease with expiry, its epoch and target, and the nodes that drain. -/
structure Redis where
  now : ℕ
  shards : String → Slot LeaseValue
  targets : String → Option String
  draining : String → Bool

/-- `GET` of the lease key of a shard. -/
def Redis.get (r : Redis) (shardId : String) : Option LeaseValue := (r.shards shardId).current r.now

/-- `PTTL` of the lease key of a shard. -/
def Redis.pttl (r : Redis) (shardId : String) : ℤ :=
  match (r.shards shardId).held with
  | some (_, deadline) => if r.now < deadline then deadline - r.now else -2
  | none => -2

def Redis.setShard (r : Redis) (shardId : String) (slot : Slot LeaseValue) : Redis :=
  { r with shards := Function.update r.shards shardId slot }

section Scripts

variable (ttl : ℕ)

/-- The script of `acquire`. -/
def acquire (r : Redis) (nodeId shardId leaseId : String) (generation : ℕ) : Option LeaseValue × Redis :=
  if r.draining nodeId then (none, r)
  else if r.targets shardId ≠ some nodeId then (none, r)
  else
    match (r.shards shardId).grant r.now ttl fun epoch => ⟨nodeId, leaseId, epoch, generation⟩ with
    | some (value, slot) => (some value, r.setShard shardId slot)
    | none => (none, r)

/-- The script of `renew`. -/
def renew (r : Redis) (nodeId shardId : String) (value : LeaseValue) : Bool × Redis :=
  if r.targets shardId ≠ some nodeId then (false, r)
  else
    match (r.shards shardId).renew r.now ttl value with
    | some slot => (true, r.setShard shardId slot)
    | none => (false, r)

end Scripts

/-- The script of `release`. -/
def release (r : Redis) (shardId : String) (value : LeaseValue) : Bool × Redis :=
  match (r.shards shardId).release r.now value with
  | some slot => (true, r.setShard shardId slot)
  | none => (false, r)

theorem acquire_cases (ttl : ℕ) (r : Redis) (nodeId shardId leaseId : String) (generation : ℕ) :
    acquire ttl r nodeId shardId leaseId generation = (none, r) ∨
      ∃ value slot,
        (r.shards shardId).grant r.now ttl (fun epoch => ⟨nodeId, leaseId, epoch, generation⟩) =
          some (value, slot) ∧
        acquire ttl r nodeId shardId leaseId generation = (some value, r.setShard shardId slot) := by
  rw [acquire]
  split
  · exact Or.inl rfl
  split
  · exact Or.inl rfl
  split
  · rename_i value slot hgrant
    exact Or.inr ⟨value, slot, hgrant, rfl⟩
  · exact Or.inl rfl

theorem renew_cases (ttl : ℕ) (r : Redis) (nodeId shardId : String) (value : LeaseValue) :
    renew ttl r nodeId shardId value = (false, r) ∨
      ∃ slot, (r.shards shardId).renew r.now ttl value = some slot ∧
        renew ttl r nodeId shardId value = (true, r.setShard shardId slot) := by
  rw [renew]
  split
  · exact Or.inl rfl
  split
  · rename_i slot hrenew
    exact Or.inr ⟨slot, hrenew, rfl⟩
  · exact Or.inl rfl

theorem release_cases (r : Redis) (shardId : String) (value : LeaseValue) : release r shardId value = (false, r) ∨
      ∃ slot, (r.shards shardId).release r.now value = some slot ∧
        release r shardId value = (true, r.setShard shardId slot) := by
  rw [release]
  split
  · rename_i slot hrelease
    exact Or.inr ⟨slot, hrelease, rfl⟩
  · exact Or.inl rfl

/-- What `GET` returned, unless `PTTL` says that it is gone. -/
def currentShardLease (value : Option LeaseValue) (pttl : ℤ) : Option LeaseValue := if pttl ≤ 0 then none else value

structure Stamp where
  shardId : Option String
  nodeId : Option String
  leaseEpoch : Option ℕ
  assignmentGeneration : Option ℕ

/-- `get` and `pttl` are what Redis answers. -/
def validateEventFence (mode : Mode) (get : String → Option LeaseValue) (pttl : String → ℤ) (stamp : Stamp)
    (expectedShardId : Option String) (expectedAssignmentGeneration : ℕ) : Bool :=
  match mode with
  | .single => true
  | .redis =>
    match stamp.shardId, stamp.nodeId, stamp.leaseEpoch, stamp.assignmentGeneration with
    | some shardId, some nodeId, some leaseEpoch, some generation =>
      if shardId = "" ∨ nodeId = "" ∨ some shardId ≠ expectedShardId ∨
          generation ≠ expectedAssignmentGeneration then false
      else
        match currentShardLease (get shardId) (pttl shardId) with
        | some lease =>
          lease.nodeId = nodeId ∧ lease.epoch = leaseEpoch ∧ lease.assignmentGeneration = generation
        | none => false
    | _, _, _, _ => false

/-! ## Runs -/

structure System where
  redis : Redis
  grants : String → List (Grant LeaseValue)

/-- A node runs a script with any lease, a target or drain changes, or time passes. -/
inductive Op where
  | acquire (nodeId shardId leaseId : String) (generation : ℕ)
  | renew (nodeId shardId : String) (value : LeaseValue)
  | release (shardId : String) (value : LeaseValue)
  | setTarget (shardId nodeId : String)
  | setDraining (nodeId : String) (draining : Bool)
  | wait (ms : ℕ)

def System.record (s : System) (redis : Redis) (shardId : String) (gs : List (Grant LeaseValue)) : System :=
  ⟨redis, Function.update s.grants shardId gs⟩

def step (ttl : ℕ) (s : System) : Op → Option System
  | .acquire nodeId shardId leaseId generation =>
    match ShardLease.acquire ttl s.redis nodeId shardId leaseId generation with
    | (some value, redis) =>
      some (s.record redis shardId (s.grants shardId ++ [⟨value, s.redis.now + ttl, false⟩]))
    | (none, redis) => some ⟨redis, s.grants⟩
  | .renew nodeId shardId value =>
    match ShardLease.renew ttl s.redis nodeId shardId value with
    | (true, redis) => some (s.record redis shardId (extend value (s.redis.now + ttl) (s.grants shardId)))
    | (false, redis) => some ⟨redis, s.grants⟩
  | .release shardId value =>
    match ShardLease.release s.redis shardId value with
    | (true, redis) => some (s.record redis shardId (giveBack value (s.grants shardId)))
    | (false, redis) => some ⟨redis, s.grants⟩
  | .setTarget shardId nodeId =>
    some { s with
      redis := { s.redis with targets := Function.update s.redis.targets shardId (some nodeId) } }
  | .setDraining nodeId draining =>
    some { s with
      redis := { s.redis with draining := Function.update s.redis.draining nodeId draining } }
  | .wait ms => some { s with redis := { s.redis with now := s.redis.now + ms } }

def Initial (s : System) : Prop := ∀ shardId, (s.redis.shards shardId).held = none ∧ s.grants shardId = []

def Consistent (s : System) : Prop :=
  ∀ shardId, Sound LeaseValue.epoch s.redis.now (s.redis.shards shardId) (s.grants shardId)

variable {s : System} {shardId : String} {ttl : ℕ}

theorem consistent_initial (h : Initial s) : Consistent s := by
  intro shardId
  obtain ⟨hheld, hgrants⟩ := h shardId
  rw [hgrants]
  apply Sound.nil
  intro v d
  rw [hheld]
  exact fun h => nomatch h

theorem consistent_record (h : Consistent s) (hs : Sound LeaseValue.epoch s.redis.now slot gs) :
    Consistent (s.record (s.redis.setShard shardId slot) shardId gs) := by
  intro other
  by_cases hne : other = shardId
  · subst hne
    simpa [System.record, Redis.setShard] using hs
  · simpa [System.record, Redis.setShard, Function.update_of_ne hne] using h other

theorem consistent_step (h : Consistent s) (hs : step ttl s op = some s') : Consistent s' := by
  cases op with
  -- a script that is refused leaves Redis and the history as they were
  | acquire nodeId shardId leaseId generation =>
    simp only [step] at hs
    rcases acquire_cases ttl s.redis nodeId shardId leaseId generation
      with heq | ⟨value, slot, hgrant, heq⟩
    · rw [heq] at hs
      cases hs
      exact h
    · rw [heq] at hs
      cases hs
      apply consistent_record h
      apply (h shardId).grant (fun n => rfl) hgrant
  | renew nodeId shardId value =>
    simp only [step] at hs
    rcases renew_cases ttl s.redis nodeId shardId value with heq | ⟨slot, hrenew, heq⟩
    · rw [heq] at hs
      cases hs
      exact h
    · rw [heq] at hs
      cases hs
      apply consistent_record h
      exact (h shardId).renew hrenew
  | release shardId value =>
    simp only [step] at hs
    rcases release_cases s.redis shardId value with heq | ⟨slot, hrelease, heq⟩
    · rw [heq] at hs
      cases hs
      exact h
    · rw [heq] at hs
      cases hs
      apply consistent_record h
      exact (h shardId).release hrelease
  -- targets and draining are no part of a slot
  | setTarget shardId nodeId =>
    cases hs
    exact h
  | setDraining nodeId draining =>
    cases hs
    exact h
  | wait ms =>
    cases hs
    intro shardId
    apply (h shardId).later
    exact Nat.le_add_right _ _

theorem consistent_of_run (hr : AnyRun (step ttl) s ops s') (h : Consistent s) : Consistent s' := by
  apply hr.invariant ?_ h
  intro s op s' hs _ hstep
  exact consistent_step hs hstep

theorem renew_of_not_current (h : r.get shardId ≠ some value) (nodeId : String) :
    renew ttl r nodeId shardId value = (false, r) := by
  have hnone : (r.shards shardId).renew r.now ttl value = none := if_neg h
  rw [renew, hnone]
  split <;> rfl

theorem release_of_not_current (h : r.get shardId ≠ some value) : release r shardId value = (false, r) := by
  have hnone : (r.shards shardId).release r.now value = none := if_neg h
  rw [release, hnone]

/-- An accepted stamp is complete and matches the lease of `GET`. -/
theorem validateEventFence_redis {get : String → Option LeaseValue} {pttl : String → ℤ}
    (h : validateEventFence .redis get pttl stamp expectedShardId expectedAssignmentGeneration = true) :
    ∃ shardId lease, stamp.shardId = some shardId ∧ expectedShardId = some shardId ∧
      get shardId = some lease ∧ stamp.nodeId = some lease.nodeId ∧ stamp.leaseEpoch = some lease.epoch ∧
      stamp.assignmentGeneration = some lease.assignmentGeneration ∧
      lease.assignmentGeneration = expectedAssignmentGeneration := by
  obtain ⟨shard, node, epoch, generation⟩ := stamp
  simp only [validateEventFence] at h
  split at h
  · rename_i shardId nodeId leaseEpoch gen
    split at h
    · cases h
    rename_i hpass
    push Not at hpass
    obtain ⟨-, -, hexpected, hgeneration⟩ := hpass
    split at h
    · rename_i lease hlease
      simp only [decide_eq_true_eq] at h
      obtain ⟨rfl, rfl, rfl⟩ := h
      rw [currentShardLease] at hlease
      split at hlease
      · cases hlease
      · exact ⟨shardId, lease, rfl, hexpected.symm, hlease, rfl, rfl, rfl, hgeneration⟩
    · cases h
  · cases h

/-- At most one live lease a shard, epochs increase, only the live lease is renewed or released, and
accepted events carry the lease that is live when read. -/
theorem shard_lease_safe {ttl : ℕ} {s₀ s s' : System} {ops ops' : List Op} (h₀ : Initial s₀)
    (hr : AnyRun (step ttl) s₀ ops s) (_hr' : AnyRun (step ttl) s ops' s') :
    (∀ shardId, ∀ g ∈ s.grants shardId, ∀ g' ∈ s.grants shardId, g.Live s.redis.now →
        g'.Live s.redis.now → g = g') ∧
      (∀ shardId, (s.grants shardId).Pairwise fun g g' => g.value.epoch < g'.value.epoch) ∧
      (∀ shardId value, (∀ g ∈ s.grants shardId, g.Live s.redis.now → g.value ≠ value) →
        (∀ nodeId, renew ttl s.redis nodeId shardId value = (false, s.redis)) ∧
          release s.redis shardId value = (false, s.redis)) ∧
      ∀ stamp expectedShardId expectedAssignmentGeneration,
        validateEventFence .redis s.redis.get s'.redis.pttl stamp expectedShardId
          expectedAssignmentGeneration = true →
        ∃ shardId, stamp.shardId = some shardId ∧ ∃ g ∈ s.grants shardId, g.Live s.redis.now ∧
          s.redis.get shardId = some g.value ∧ stamp.nodeId = some g.value.nodeId ∧
          stamp.leaseEpoch = some g.value.epoch ∧
          stamp.assignmentGeneration = some g.value.assignmentGeneration := by
  have hc := consistent_of_run hr (consistent_initial h₀)
  refine ⟨fun shardId g hg g' hg' => ?_, fun shardId => ?_, fun shardId value hdead => ?_, ?_⟩
  · exact (hc shardId).live_unique hg hg'
  · exact (hc shardId).increasing
  · have hnot : s.redis.get shardId ≠ some value := by
      intro hcur
      obtain ⟨g, hg, hlive, hv⟩ := (hc shardId).current_iff.1 hcur
      exact hdead g hg hlive hv
    exact ⟨renew_of_not_current hnot, release_of_not_current hnot⟩
  · intro stamp expectedShardId expectedAssignmentGeneration h
    obtain ⟨shardId, lease, hshard, -, hget, hnode, hepoch, hgen, -⟩ := validateEventFence_redis h
    obtain ⟨g, hg, hlive, rfl⟩ := (hc shardId).current_iff.1 hget
    exact ⟨shardId, hshard, g, hg, hlive, hget, hnode, hepoch, hgen⟩

/-- The lease expires, and another node becomes the target and acquires the shard. -/
def sampleOps : List Op :=
  [.setTarget "qq-0" "a", .acquire "a" "qq-0" "l1" 3, .wait 1000, .setTarget "qq-0" "b",
    .acquire "b" "qq-0" "l2" 3]

def sampleSystem : System where
  redis := ⟨0, fun _ => ⟨none, 0⟩, fun _ => none, fun _ => false⟩
  grants := fun _ => []

theorem shard_lease_safe_handover : ∃ s, AnyRun (step 1000) sampleSystem sampleOps s ∧
      s.grants "qq-0" = [⟨⟨"a", "l1", 1, 3⟩, 1000, false⟩, ⟨⟨"b", "l2", 2, 3⟩, 2000, false⟩] ∧
      renew 1000 s.redis "a" "qq-0" ⟨"a", "l1", 1, 3⟩ = (false, s.redis) ∧
      (s.grants "qq-0").Pairwise fun g g' => g.value.epoch < g'.value.epoch := by
  have hexec : exec (step 1000) sampleSystem sampleOps = some _ := rfl
  have hrun := anyRun_of_exec hexec
  have hsafe := shard_lease_safe (fun _ => ⟨rfl, rfl⟩) hrun (.nil _)
  refine ⟨_, hrun, rfl, (hsafe.2.2.1 "qq-0" ⟨"a", "l1", 1, 3⟩ ?_).1 "a", hsafe.2.1 "qq-0"⟩
  intro g hg hlive
  have hmem : g ∈ [⟨⟨"a", "l1", 1, 3⟩, 1000, false⟩, ⟨⟨"b", "l2", 2, 3⟩, 2000, false⟩] := hg
  simp only [List.mem_cons, List.not_mem_nil, or_false] at hmem
  rcases hmem with rfl | rfl
  · exact absurd hlive.2 (by decide)
  · decide

end RyanAI.Gateway.ShardLease
