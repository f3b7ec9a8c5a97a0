import RyanAI.Gateway.ShardLease
import RyanAI.Gateway.Event

/-!
# The fence of a shard

`runShardSync` of `adapters/openclaw.ts` runs all accounts of a shard under one lease, whose assignment generation is
the largest one of the candidates; the events are stamped with it. The control server and the backend
(`validate_event_fence`) compare the generation of the stamp with the one of the account, which the node's runtime, its
connection store and the backend's row share here. `fence_complete_iff` says when the events of all members pass.
-/

namespace RyanAI.Gateway.ShardFence

open RyanAI.Lib
open RyanAI.Gateway.ShardLease

/-! ## Accounts -/

/-- A connection; `credentials` are at hand in the runtime. -/
structure Account where
  id : String
  channel : Channel
  enabled : Bool
  shardId : Option String
  accountKey : String
  assignmentGeneration : Option ℕ
  credentials : Bool
  credentialsConfigured : Bool

/-- `assignmentGeneration ?? 0`. -/
def Account.generation (a : Account) : ℕ := a.assignmentGeneration.getD 0

structure Fleet where
  accounts : List Account
  keyed : ∀ a ∈ accounts, a.id ≠ "" ∧ a.accountKey ≠ ""
  distinct : ∀ a ∈ accounts, ∀ b ∈ accounts, a.channel = b.channel → a.accountKey = b.accountKey → a = b

/-- The candidates of `runShardSync`. -/
def Fleet.candidates (f : Fleet) (shardId : String) (channel : Channel) : List Account :=
  f.accounts.filter fun a =>
    a.shardId = some shardId ∧ a.channel = channel ∧ a.enabled ∧ (a.credentials ∨ a.credentialsConfigured)

/-- `eligibleShardMembers`. -/
def Fleet.eligibleShardMembers (f : Fleet) (shardId : String) : List Account :=
  f.accounts.filter fun a => a.id ≠ "" ∧ a.shardId = some shardId ∧ a.enabled ∧ a.credentials

/-- `Math.max(0, ...generations)`. -/
def maxGeneration (candidates : List Account) : ℕ := candidates.foldl (fun acc a => max acc a.generation) 0

def leaseFor (ttl : ℕ) (r : Redis) (nodeId shardId leaseId : String) (held : Option LeaseValue)
    (generation : ℕ) : Option LeaseValue × Redis :=
  match held with
  | some lease =>
    if lease.assignmentGeneration = generation then (some lease, r)
    else acquire ttl (release r shardId lease).2 nodeId shardId leaseId generation
  | none => acquire ttl r nodeId shardId leaseId generation

structure BridgeRequest where
  shardId : String
  nodeId : String
  epoch : ℕ
  generation : ℕ
  channel : Channel
  accountKey : String
  stamp : Stamp

def bridgeRequest (shardId : String) (lease : LeaseValue) (a : Account) : BridgeRequest where
  shardId := shardId
  nodeId := lease.nodeId
  epoch := lease.epoch
  generation := lease.assignmentGeneration
  channel := a.channel
  accountKey := a.accountKey
  stamp := ⟨some shardId, some lease.nodeId, some lease.epoch, some lease.assignmentGeneration⟩

inductive BridgeAnswer where
  | rejected (status : ℕ) (code : String)
  | ignored
  | handled (connection : Account)

def Account.isFor (channel : Channel) (accountKey : String) (shardId : Option String) (a : Account) : Bool :=
  a.channel = channel ∧ a.accountKey = accountKey ∧ a.shardId = shardId

/-- The lease is current, the stamp complete and of its shard and generation. -/
def bridgeFence (f : Fleet) (current : String → Option LeaseValue) (req : BridgeRequest) : BridgeAnswer :=
  if req.nodeId = "" then .rejected 409 "stale_fence"
  else
    match current req.shardId with
    | none => .rejected 409 "stale_fence"
    | some lease =>
      if lease.nodeId ≠ req.nodeId ∨ lease.epoch ≠ req.epoch ∨
          lease.assignmentGeneration ≠ req.generation then .rejected 409 "stale_fence"
      else if req.stamp.shardId ≠ some req.shardId ∨ req.accountKey = "" then
        .rejected 400 "shard_event_mismatch"
      else if req.stamp.nodeId = none ∨ req.stamp.nodeId = some "" ∨ req.stamp.leaseEpoch = none ∨
          req.stamp.assignmentGeneration = none then .rejected 409 "stale_fence"
      else
        match f.accounts.find? (Account.isFor req.channel req.accountKey req.stamp.shardId) with
        | none => .ignored
        | some connection =>
          if some connection.generation ≠ req.stamp.assignmentGeneration then
            .rejected 409 "stale_fence"
          else if connection.enabled then .handled connection
          else .ignored

def Passes (f : Fleet) (control backend : Redis) (req : BridgeRequest) (a : Account) : Prop :=
  bridgeFence f control.get req = .handled a ∧
    validateEventFence .redis backend.get backend.pttl req.stamp a.shardId a.generation = true

/-! ## When events pass -/

variable {shardId : String} {lease : LeaseValue} {r : Redis} {a : Account}

theorem acquire_value (h : acquire ttl r nodeId shardId leaseId generation = (some lease, r')) :
    lease.assignmentGeneration = generation := by
  rcases acquire_cases ttl r nodeId shardId leaseId generation with heq | ⟨value, slot, hgrant, heq⟩
  · rw [heq] at h
    cases h
  rw [heq] at h
  cases h
  -- the value of the grant is made from the generation that was asked for
  rw [FencedLease.Slot.grant] at hgrant
  split at hgrant
  · cases hgrant
  · cases hgrant
    rfl

theorem leaseFor_value (h : leaseFor ttl r nodeId shardId leaseId held generation = (some lease, r')) :
    lease.assignmentGeneration = generation := by
  cases held with
  | none => exact acquire_value h
  | some old =>
    simp only [leaseFor] at h
    split at h
    · rename_i hgen
      cases h
      exact hgen
    · exact acquire_value h

theorem eq_maxGeneration_iff (candidates : List Account) (n : ℕ) : n = maxGeneration candidates ↔
      (∀ c ∈ candidates, c.generation ≤ n) ∧ (n = 0 ∨ ∃ c ∈ candidates, n ≤ c.generation) := by
  have hfold : ∀ (cs : List Account) (acc : ℕ),
      n = cs.foldl (fun acc a => max acc a.generation) acc ↔
        acc ≤ n ∧ (∀ c ∈ cs, c.generation ≤ n) ∧ (n = acc ∨ ∃ c ∈ cs, n ≤ c.generation) := by
    intro cs
    induction cs with
    | nil =>
      intro acc
      simp only [List.foldl_nil, List.not_mem_nil, false_imp_iff, implies_true, true_and, false_and,
        exists_false, or_false]
      omega
    | cons c cs ih =>
      intro acc
      rw [List.foldl_cons, ih]
      simp only [List.mem_cons, forall_eq_or_imp, exists_eq_or_imp]
      constructor
      · rintro ⟨hle, hall, hmax⟩
        refine ⟨by omega, ⟨by omega, hall⟩, ?_⟩
        rcases hmax with heq | hex
        · rcases Nat.le_total acc c.generation with hac | hca
          · exact Or.inr (Or.inl (by omega))
          · exact Or.inl (by omega)
        · exact Or.inr (Or.inr hex)
      · rintro ⟨hle, ⟨hc, hall⟩, hmax⟩
        refine ⟨by omega, hall, ?_⟩
        rcases hmax with heq | hle' | hex
        · exact Or.inl (by omega)
        · exact Or.inl (by omega)
        · exact Or.inr hex
  rw [maxGeneration, hfold]
  simp

theorem pttl_pos (h : r.get shardId = some lease) : 0 < r.pttl shardId := by
  obtain ⟨deadline, hheld, hlt⟩ := FencedLease.Slot.current_eq_some.1 h
  rw [Redis.pttl, hheld]
  simp only [if_pos hlt]
  omega

theorem find_account (f : Fleet) (ha : a ∈ f.accounts) :
    f.accounts.find? (Account.isFor a.channel a.accountKey a.shardId) = some a := by
  cases hfind : f.accounts.find? (Account.isFor a.channel a.accountKey a.shardId) with
  | none =>
    have hnot := List.find?_eq_none.1 hfind a ha
    simp [Account.isFor] at hnot
  | some b =>
    have hmem := List.mem_of_find?_eq_some hfind
    have hb := List.find?_some hfind
    simp only [Account.isFor, decide_eq_true_eq] at hb
    rw [f.distinct b hmem a ha hb.1 hb.2.1]

theorem mem_members {f : Fleet} : a ∈ f.eligibleShardMembers shardId ↔
      a ∈ f.accounts ∧ a.id ≠ "" ∧ a.shardId = some shardId ∧ a.enabled = true ∧ a.credentials = true := by
  simp [Fleet.eligibleShardMembers, List.mem_filter]

theorem passes_iff {control backend : Redis} (hshard : shardId ≠ "") (hnode : lease.nodeId ≠ "")
    (hcontrol : control.get shardId = some lease) (hbackend : backend.get shardId = some lease)
    (ha : a ∈ f.eligibleShardMembers shardId) :
    Passes f control backend (bridgeRequest shardId lease a) a ↔ a.generation = lease.assignmentGeneration := by
  obtain ⟨hmem, -, hs, henabled, -⟩ := mem_members.1 ha
  have hkey := (f.keyed a hmem).2
  have hfind := find_account f hmem
  rw [hs] at hfind
  have hpttl : ¬ backend.pttl shardId ≤ 0 := not_le.2 (pttl_pos hbackend)
  constructor
  · rintro ⟨-, hvalid⟩
    obtain ⟨-, lease', -, -, -, -, -, hgen, hexpected⟩ := validateEventFence_redis hvalid
    simp only [bridgeRequest, Option.some.injEq] at hgen
    rw [hgen, hexpected]
  · intro hgen
    constructor
    · simp [bridgeFence, bridgeRequest, hnode, hcontrol, hkey, hfind, hgen, henabled]
    · simp [validateEventFence, bridgeRequest, hshard, hnode, hs, hgen, currentShardLease, hbackend, hpttl]

def Uniform (f : Fleet) (shardId : String) (channel : Channel) : Prop :=
  ∀ a ∈ f.eligibleShardMembers shardId,
    (∀ c ∈ f.candidates shardId channel, c.generation ≤ a.generation) ∧
      (a.generation = 0 ∨ ∃ c ∈ f.candidates shardId channel, a.generation ≤ c.generation)

/-- All members pass both checks exactly when every member has the largest generation of the
candidates. -/
theorem fence_complete_iff (f : Fleet) (ttl : ℕ) {r r' control backend : Redis}
    {nodeId shardId leaseId : String} {channel : Channel} {held : Option LeaseValue} {lease : LeaseValue}
    (hlease : leaseFor ttl r nodeId shardId leaseId held (maxGeneration (f.candidates shardId channel)) =
      (some lease, r'))
    (hshard : shardId ≠ "") (hnode : lease.nodeId ≠ "") (hcontrol : control.get shardId = some lease)
    (hbackend : backend.get shardId = some lease) :
    (∀ a ∈ f.eligibleShardMembers shardId,
      Passes f control backend (bridgeRequest shardId lease a) a) ↔ Uniform f shardId channel := by
  have hgen := leaseFor_value hlease
  have hone : ∀ a ∈ f.eligibleShardMembers shardId,
      (Passes f control backend (bridgeRequest shardId lease a) a ↔
        (∀ c ∈ f.candidates shardId channel, c.generation ≤ a.generation) ∧
          (a.generation = 0 ∨ ∃ c ∈ f.candidates shardId channel, a.generation ≤ c.generation)) := by
    intro a ha
    rw [passes_iff hshard hnode hcontrol hbackend ha, hgen, eq_maxGeneration_iff]
  constructor
  · intro h a ha
    exact (hone a ha).1 (h a ha)
  · intro h a ha
    exact (hone a ha).2 (h a ha)

def sampleAccount (id : String) (generation : ℕ) : Account :=
  ⟨id, .qq, true, some "qq-0", id, some generation, true, true⟩

def sampleFleet (generation : ℕ) : Fleet where
  accounts := [sampleAccount "first" 1, sampleAccount "second" generation]
  keyed := by
    intro a ha
    simp only [List.mem_cons, List.not_mem_nil, or_false] at ha
    rcases ha with rfl | rfl <;> simp [sampleAccount]
  distinct := by
    intro a ha b hb _ hkey
    simp only [List.mem_cons, List.not_mem_nil, or_false] at ha hb
    rcases ha with rfl | rfl <;> rcases hb with rfl | rfl
    · rfl
    · simp [sampleAccount] at hkey
    · simp [sampleAccount] at hkey
    · rfl

def sampleRedis : Redis := ⟨0, fun _ => ⟨none, 0⟩, fun _ => some "node-a", fun _ => false⟩

def sampleLease (generation : ℕ) : LeaseValue := ⟨"node-a", "lease", 1, generation⟩

def sampleLeased (generation : ℕ) : Redis := sampleRedis.setShard "qq-0" ⟨some (sampleLease generation, 1000), 1⟩

/-- The lease has generation 2, and the first account is refused. -/
theorem mixed_generations_refused : leaseFor 1000 sampleRedis "node-a" "qq-0" "lease" none
        (maxGeneration ((sampleFleet 2).candidates "qq-0" .qq)) = (some (sampleLease 2), sampleLeased 2) ∧
      (sampleLeased 2).get "qq-0" = some (sampleLease 2) ∧
      sampleAccount "first" 1 ∈ (sampleFleet 2).eligibleShardMembers "qq-0" ∧
      bridgeFence (sampleFleet 2) (sampleLeased 2).get
        (bridgeRequest "qq-0" (sampleLease 2) (sampleAccount "first" 1)) = .rejected 409 "stale_fence" ∧
      ¬ Passes (sampleFleet 2) (sampleLeased 2) (sampleLeased 2)
        (bridgeRequest "qq-0" (sampleLease 2) (sampleAccount "first" 1)) (sampleAccount "first" 1) := by
  refine ⟨rfl, rfl, ?_, rfl, ?_⟩
  · simp [mem_members, sampleFleet, sampleAccount]
  · rintro ⟨hhandled, -⟩
    cases hhandled

theorem fence_complete_iff_uniform : Uniform (sampleFleet 1) "qq-0" .qq ∧
      ∀ a ∈ (sampleFleet 1).eligibleShardMembers "qq-0",
        Passes (sampleFleet 1) (sampleLeased 1) (sampleLeased 1) (bridgeRequest "qq-0" (sampleLease 1) a)
          a := by
  have huniform : Uniform (sampleFleet 1) "qq-0" .qq := by
    intro a ha
    simp only [mem_members, sampleFleet, List.mem_cons, List.not_mem_nil, or_false] at ha
    have hgen : a.generation = 1 := by
      rcases ha.1 with rfl | rfl <;> rfl
    have hfirst : sampleAccount "first" 1 ∈ (sampleFleet 1).candidates "qq-0" .qq := by
      simp [Fleet.candidates, sampleFleet, sampleAccount]
    refine ⟨fun c hc => ?_, Or.inr ⟨_, hfirst, hgen.le⟩⟩
    simp only [Fleet.candidates, sampleFleet, List.mem_filter, List.mem_cons, List.not_mem_nil, or_false] at hc
    rw [hgen]
    rcases hc.1 with rfl | rfl <;> decide
  have hlease : leaseFor 1000 sampleRedis "node-a" "qq-0" "lease" none
      (maxGeneration ((sampleFleet 1).candidates "qq-0" .qq)) = (some (sampleLease 1), sampleLeased 1) := rfl
  have hget : (sampleLeased 1).get "qq-0" = some (sampleLease 1) := rfl
  have hiff := fence_complete_iff (sampleFleet 1) 1000 hlease (by decide) (by decide) hget hget
  exact ⟨huniform, hiff.2 huniform⟩

end RyanAI.Gateway.ShardFence
