import RyanAI.Gateway.Hmac
import RyanAI.Gateway.ShardLease
import RyanAI.Lib.OrderedMap

/-!
# Replayed control requests

`authenticate` of `control-server.ts` verifies the signature of a request and then claims its nonce in a cache, which
remembers it for twice the allowed skew. The two read the clock one after the other. No signed request is accepted twice
if every request is stamped less than the allowed skew ahead of the clock and both checks fall into one second
(`accepted_once`). A request stamped that skew ahead is accepted too, and outlives its nonce (`boundary_replayed`).
-/

namespace RyanAI.Gateway.NonceReplay

open RyanAI.Lib
open RyanAI.Lib.Machine
open RyanAI.Lib.NumericText
open RyanAI.Gateway.Hmac
open RyanAI.Gateway.ShardLease

/-- `NonceReplayCache`: the time in milliseconds at which a nonce expires. -/
abbrev NonceReplayCache := KeyedTable String ℕ

/-- `claim`. -/
def claim (ttlMs : ℕ) (nonce : String) (now : ℕ) (cache : NonceReplayCache) : Bool × NonceReplayCache :=
  let entries := cache.filter fun _ expiresAt => now < expiresAt
  match entries.get nonce with
  | some existing =>
    if existing ≠ 0 ∧ existing > now then (false, entries) else (true, entries.set nonce (now + ttlMs))
  | none => (true, entries.set nonce (now + ttlMs))

/-! ## The control server -/

/-- A request as `authenticate` sees it; `current` is the coordinator's answer. -/
structure ControlRequest where
  method : String
  pathWithQuery : String
  body : List UInt8
  headers : Headers
  shardId : Option String
  nodeId : Option String
  leaseEpoch : Option String
  assignmentGeneration : Option String
  current : Option LeaseValue

structure ControlConfig where
  hmacSecret : String
  bridgeHmacSecret : String
  bridgePath : String
  signatureMaxSkewSeconds : ℕ
  mode : Mode

/-- Why `authenticate` refuses a request. -/
inductive Refusal where
  | invalidShardId
  | staleFence
  | signature (reason : Rejection)
  | replayedNonce
deriving DecidableEq

/-- The `HttpError` of a refusal. -/
def Refusal.http : Refusal → ℕ × String
  | .invalidShardId => (401, "invalid_shard_id")
  | .staleFence => (409, "stale_fence")
  | .signature reason => (401, reason.reason)
  | .replayedNonce => (409, "replayed_nonce")

/-- `header?.trim()`, missing where it is empty. -/
def trimmed (header : Option String) : Option String :=
  present (header.map fun s => String.ofList (strip jsSpace s.toList))

/-- `[A-Za-z0-9._:@-]`. -/
def shardIdChar (c : Char) : Bool := nonceChar c ∨ c = '@'

/-- `/^[A-Za-z0-9][A-Za-z0-9._:@-]{0,127}$/`. -/
def shardIdOk (shardId : String) : Bool :=
  match shardId.toList with
  | [] => false
  | c :: cs => nonceChar c ∧ c ∉ ['.', '_', ':', '-'] ∧ cs.all shardIdChar ∧ cs.length ≤ 127

section Authenticate

variable (sha256 : List UInt8 → String) (hmac : String → String → String)

def deriveShardBridgeSecret (hmacSecret shardId : String) : String :=
  hmac hmacSecret ("ryanai-openclaw-bridge-v1:" ++ shardId)

def deriveLeaseBridgeSecret (hmacSecret shardId nodeId : String) (epoch : ℤ) : String :=
  hmac hmacSecret ("ryanai-openclaw-bridge-v2:" ++ shardId ++ ":" ++ nodeId ++ ":" ++ toString epoch)

def leaseSecret (cfg : ControlConfig) (request : ControlRequest) (shardId : String) : Except Refusal String :=
  match trimmed request.nodeId, request.leaseEpoch.bind readTimestamp,
      request.assignmentGeneration.bind readTimestamp, request.current with
  -- the three headers have to name the lease that the coordinator knows now
  | some nodeId, some epoch, some generation, some lease =>
    if lease.nodeId = nodeId ∧ (lease.epoch : ℤ) = epoch ∧ (lease.assignmentGeneration : ℤ) = generation then
      .ok (deriveLeaseBridgeSecret hmac cfg.hmacSecret shardId nodeId epoch)
    else .error .staleFence
  | _, _, _, _ => .error .staleFence

def selectSecret (cfg : ControlConfig) (request : ControlRequest) : Except Refusal String :=
  if request.pathWithQuery.toList.takeWhile (· ≠ '?') = cfg.bridgePath.toList then
    match trimmed request.shardId with
    | none => .ok cfg.bridgeHmacSecret
    | some shardId =>
      if shardIdOk shardId then
        match cfg.mode with
        | .redis => leaseSecret hmac cfg request shardId
        | .single => .ok (deriveShardBridgeSecret hmac cfg.hmacSecret shardId)
      else .error .invalidShardId
  else .ok cfg.hmacSecret

/-- `verifyRequest` reads the clock at `verifyAt`, `claim` at `claimAt`. -/
def authenticate (cfg : ControlConfig) (verifyAt claimAt : ℕ) (request : ControlRequest)
    (nonces : NonceReplayCache) : Except Refusal Unit × NonceReplayCache :=
  match selectSecret hmac cfg request with
  | .error refusal => (.error refusal, nonces)
  | .ok secret =>
    match verifyRequest sha256 hmac none verifyAt
        { secret
          method := request.method
          pathWithQuery := request.pathWithQuery
          body := request.body
          headers := request.headers
          maxSkewSeconds := cfg.signatureMaxSkewSeconds } with
    | .error reason => (.error (.signature reason), nonces)
    | .ok nonce =>
      -- the nonce is claimed only when the signature holds, so a forged request uses none up
      match claim (cfg.signatureMaxSkewSeconds * 2000) nonce claimAt nonces with
      | (false, nonces) => (.error .replayedNonce, nonces)
      | (true, nonces) => (.ok (), nonces)

end Authenticate

/-! ## Runs of the server -/

structure Accepted where
  timestamp : Option String
  nonce : Option String
  signature : Option String
  verifyAt : ℕ
  claimAt : ℕ

/-- The `(timestamp, nonce, signature)` of an accepted request. -/
def Accepted.triple (a : Accepted) : Option String × Option String × Option String :=
  (a.timestamp, a.nonce, a.signature)

structure Server where
  clock : ℕ
  nonces : NonceReplayCache
  accepted : List Accepted

def Server.initial : Server := ⟨0, KeyedTable.empty, []⟩

/-- A request reaches the two checks of `authenticate`. -/
structure Presented where
  request : ControlRequest
  verifyAt : ℕ
  claimAt : ℕ

def Presented.record (e : Presented) : Accepted where
  timestamp := e.request.headers.timestamp
  nonce := e.request.headers.nonce
  signature := e.request.headers.signature
  verifyAt := e.verifyAt
  claimAt := e.claimAt

section Runs

variable (sha256 : List UInt8 → String) (hmac : String → String → String) (cfg : ControlConfig)

def step (s : Server) (e : Presented) : Option Server :=
  if s.clock ≤ e.verifyAt ∧ e.verifyAt ≤ e.claimAt then
    match authenticate sha256 hmac cfg e.verifyAt e.claimAt e.request s.nonces with
    | (.ok (), nonces) => some ⟨e.claimAt, nonces, e.record :: s.accepted⟩
    | (.error _, nonces) => some ⟨e.claimAt, nonces, s.accepted⟩
  else none

end Runs

def stampedAt (timestamp : Option String) : Option ℤ := timestamp.bind readTimestamp

def Timely (cfg : ControlConfig) (e : Presented) : Prop :=
  (∀ t ∈ stampedAt e.request.headers.timestamp, t < (e.verifyAt / 1000 + cfg.signatureMaxSkewSeconds : ℕ)) ∧
    e.claimAt / 1000 = e.verifyAt / 1000

/-! ## Nonces stay remembered -/

variable {clock now : ℕ} {nonces : NonceReplayCache} {a : Accepted} {nonce : String} {s : Server}

section Invariant

variable {sha256 : List UInt8 → String} {hmac : String → String → String} {cfg : ControlConfig}

def Remembers (cfg : ControlConfig) (nonces : NonceReplayCache) (clock : ℕ) (a : Accepted) : Prop :=
  clock < a.claimAt + cfg.signatureMaxSkewSeconds * 2000 →
    ∃ nonce expiresAt, a.nonce = some nonce ∧ nonces.get nonce = some expiresAt ∧
      a.claimAt + cfg.signatureMaxSkewSeconds * 2000 ≤ expiresAt

theorem claim_spec (ttlMs : ℕ) (nonce : String) (now : ℕ) (cache : NonceReplayCache) :
    ((∃ existing, cache.get nonce = some existing ∧ now < existing) ∧
      claim ttlMs nonce now cache = (false, cache.filter fun _ expiresAt => now < expiresAt)) ∨
    ((∀ existing, cache.get nonce = some existing → existing ≤ now) ∧
      claim ttlMs nonce now cache =
        (true, (cache.filter fun _ expiresAt => now < expiresAt).set nonce (now + ttlMs))) := by
  cases hget : cache.get nonce with
  | none =>
    right
    refine ⟨by simp, ?_⟩
    simp [claim, hget]
  | some existing =>
    by_cases hlive : now < existing
    · left
      refine ⟨⟨existing, rfl, hlive⟩, ?_⟩
      have hpos : existing ≠ 0 := by omega
      simp [claim, hget, Option.filter, hlive, hpos]
    · right
      refine ⟨?_, ?_⟩
      · rintro e ⟨⟩
        omega
      · simp [claim, hget, Option.filter, hlive]

theorem Remembers.filter (h : Remembers cfg nonces clock a) (hclock : clock ≤ now) :
    Remembers cfg (nonces.filter fun _ expiresAt => now < expiresAt) now a := by
  intro hlive
  obtain ⟨nonce, expiresAt, ha, hget, hle⟩ := h (by omega)
  refine ⟨nonce, expiresAt, ha, ?_, hle⟩
  have hkept : now < expiresAt := by omega
  simp [hget, hkept]

theorem Remembers.later (h : Remembers cfg nonces clock a) (hclock : clock ≤ now) : Remembers cfg nonces now a := by
  intro hlive
  exact h (by omega)

/-- `verifyRequest` accepts only requests with all headers, in its window. -/
theorem verifyRequest_ok {now : Option ℤ} {clock : ℤ} {input : VerifyRequestInput}
    (h : verifyRequest sha256 hmac now clock input = .ok nonce) :
    input.headers.nonce = some nonce ∧ ∃ t, stampedAt input.headers.timestamp = some t ∧
      |now.getD clock / 1000 - t| ≤ input.maxSkewSeconds := by
  have hpresent : ∀ {header : Option String} {s : String}, present header = some s → header = some s := by
    intro header s hs
    exact (Option.filter_eq_some_iff.mp hs).1
  unfold verifyRequest at h
  split at h
  next timestamp nonce' contentSha256 signature hts hn _ _ =>
    split_ifs at h
    split at h
    · cases h
    next t ht =>
      simp only at h
      split_ifs at h with hskew
      cases h
      refine ⟨hpresent hn, t, ?_, not_lt.mp hskew⟩
      simp [stampedAt, hpresent hts, ht]
  next => cases h

theorem authenticate_cases (verifyAt claimAt : ℕ) (request : ControlRequest) (nonces : NonceReplayCache) :
    (∃ refusal, authenticate sha256 hmac cfg verifyAt claimAt request nonces = (.error refusal, nonces)) ∨
    ∃ nonce t, request.headers.nonce = some nonce ∧ stampedAt request.headers.timestamp = some t ∧
      |(verifyAt : ℤ) / 1000 - t| ≤ cfg.signatureMaxSkewSeconds ∧
      authenticate sha256 hmac cfg verifyAt claimAt request nonces =
        (if (claim (cfg.signatureMaxSkewSeconds * 2000) nonce claimAt nonces).1 then .ok ()
          else .error .replayedNonce, (claim (cfg.signatureMaxSkewSeconds * 2000) nonce claimAt nonces).2) := by
  unfold authenticate
  split
  · exact .inl ⟨_, rfl⟩
  split
  · exact .inl ⟨_, rfl⟩
  next nonce hverify =>
    obtain ⟨hnonce, t, ht, hskew⟩ := verifyRequest_ok hverify
    refine .inr ⟨nonce, t, hnonce, ht, hskew, ?_⟩
    split
    next nonces' hclaim => simp [hclaim]
    next nonces' hclaim => simp [hclaim]

theorem step_cases (h : step sha256 hmac cfg s e = some s') :
    s.clock ≤ e.verifyAt ∧ e.verifyAt ≤ e.claimAt ∧ s'.clock = e.claimAt ∧
      ((s'.nonces = s.nonces ∧ s'.accepted = s.accepted) ∨
       (s'.nonces = s.nonces.filter (fun _ expiresAt => e.claimAt < expiresAt) ∧ s'.accepted = s.accepted) ∨
       ∃ nonce t, e.request.headers.nonce = some nonce ∧ stampedAt e.request.headers.timestamp = some t ∧
         |(e.verifyAt : ℤ) / 1000 - t| ≤ cfg.signatureMaxSkewSeconds ∧
         (∀ existing, s.nonces.get nonce = some existing → existing ≤ e.claimAt) ∧
         s'.nonces = (s.nonces.filter fun _ expiresAt => e.claimAt < expiresAt).set nonce
           (e.claimAt + cfg.signatureMaxSkewSeconds * 2000) ∧
         s'.accepted = e.record :: s.accepted) := by
  unfold step at h
  split_ifs at h with hclock
  refine ⟨hclock.1, hclock.2, ?_⟩
  rcases @authenticate_cases sha256 hmac cfg e.verifyAt e.claimAt e.request s.nonces with
    ⟨refusal, hauth⟩ | ⟨nonce, t, hnonce, ht, hskew, hauth⟩
  · rw [hauth] at h
    cases h
    exact ⟨rfl, .inl ⟨rfl, rfl⟩⟩
  -- the request was verified; now the cache decides
  rcases claim_spec (cfg.signatureMaxSkewSeconds * 2000) nonce e.claimAt s.nonces with
    ⟨-, hclaim⟩ | ⟨hexpired, hclaim⟩
  · rw [hauth, hclaim] at h
    cases h
    exact ⟨rfl, .inr (.inl ⟨rfl, rfl⟩)⟩
  · rw [hauth, hclaim] at h
    cases h
    exact ⟨rfl, .inr (.inr ⟨nonce, t, hnonce, ht, hskew, hexpired, rfl, rfl⟩)⟩

/-- Accepted requests are remembered until their timestamp has left the window. -/
structure Guarded (cfg : ControlConfig) (s : Server) : Prop where
  remembered : ∀ a ∈ s.accepted, Remembers cfg s.nonces s.clock a
  stamped : ∀ a ∈ s.accepted, ∀ t ∈ stampedAt a.timestamp,
    t < (a.claimAt / 1000 + cfg.signatureMaxSkewSeconds : ℕ)
  once : (s.accepted.map Accepted.triple).Nodup

theorem guarded_initial : Guarded cfg Server.initial := by
  constructor <;> simp [Server.initial]

theorem Remembers.set (h : Remembers cfg nonces clock a) (hclock : clock ≤ now)
    (hexpired : ∀ existing, nonces.get nonce = some existing → existing ≤ now) (expiresAt : ℕ) :
    Remembers cfg ((nonces.filter fun _ expiresAt => now < expiresAt).set nonce expiresAt) now a := by
  intro hlive
  obtain ⟨nonce', existing, ha, hget, hle⟩ := h (by omega)
  have hne : nonce' ≠ nonce := by
    rintro rfl
    have := hexpired existing hget
    omega
  have hkept : now < existing := by omega
  refine ⟨nonce', existing, ha, ?_, hle⟩
  simp [hget, hne, Option.filter, hkept]

theorem Guarded.fresh (h : Guarded cfg s) (hclock : s.clock ≤ e.verifyAt)
    (hle : e.verifyAt ≤ e.claimAt) (htimely : Timely cfg e) (hnonce : e.request.headers.nonce = some nonce)
    (ht : stampedAt e.request.headers.timestamp = some t)
    (hskew : |(e.verifyAt : ℤ) / 1000 - t| ≤ cfg.signatureMaxSkewSeconds)
    (hexpired : ∀ existing, s.nonces.get nonce = some existing → existing ≤ e.claimAt) :
    e.record.triple ∉ s.accepted.map Accepted.triple := by
  intro hmem
  obtain ⟨a, ha, htriple⟩ := List.mem_map.mp hmem
  simp only [Accepted.triple, Presented.record, Prod.mk.injEq] at htriple
  obtain ⟨hats, hanonce, -⟩ := htriple
  have hstamp := h.stamped a ha t (by rw [hats]; exact ht)
  -- the entry of the first acceptance has expired
  have hgone : a.claimAt + cfg.signatureMaxSkewSeconds * 2000 ≤ e.claimAt := by
    by_contra hlive
    obtain ⟨nonce', existing, hn', hget, hle'⟩ := h.remembered a ha (by omega)
    have hsame : nonce' = nonce := by
      apply Option.some.inj
      rw [← hn', hanonce, hnonce]
    have := hexpired existing (hsame ▸ hget)
    omega
  -- by then the clock is a whole window past the timestamp, and the second check would refuse it
  have hsecond := htimely.2
  have hupper := (abs_le.mp hskew).2
  omega

theorem guarded_step (s : Server) (e : Presented) (s' : Server) (h : Guarded cfg s) (htimely : Timely cfg e)
    (hstep : step sha256 hmac cfg s e = some s') : Guarded cfg s' := by
  obtain ⟨hclock, hle, hclock', hcases⟩ := step_cases hstep
  rcases hcases with ⟨hn, ha⟩ | ⟨hn, ha⟩ | ⟨nonce, t, hnonce, ht, hskew, hexpired, hn, ha⟩
  · refine ⟨?_, ha ▸ h.stamped, ha ▸ h.once⟩
    intro a hmem
    rw [hn, hclock']
    exact (h.remembered a (ha ▸ hmem)).later (by omega)
  · refine ⟨?_, ha ▸ h.stamped, ha ▸ h.once⟩
    intro a hmem
    rw [hn, hclock']
    exact (h.remembered a (ha ▸ hmem)).filter (by omega)
  -- the request is accepted, and its nonce gets a new entry
  constructor
  · intro a hmem
    rw [hn, hclock']
    rw [ha] at hmem
    rcases List.mem_cons.mp hmem with rfl | hmem
    · intro _
      exact ⟨nonce, e.claimAt + cfg.signatureMaxSkewSeconds * 2000, hnonce, by simp, le_rfl⟩
    · exact (h.remembered a hmem).set (by omega) hexpired _
  · intro a hmem t ht
    rw [ha] at hmem
    rcases List.mem_cons.mp hmem with rfl | hmem
    · have hstamp := htimely.1 t ht
      have hsecond := htimely.2
      simp only [Presented.record]
      omega
    · exact h.stamped a hmem t ht
  · rw [ha, List.map_cons, List.nodup_cons]
    exact ⟨h.fresh hclock hle htimely hnonce ht hskew hexpired, h.once⟩

/-- Timely requests are not accepted twice. -/
theorem accepted_once {es : List Presented} {s : Server}
    (h : Run (step sha256 hmac cfg) (fun _ e => Timely cfg e) Server.initial es s) :
    (s.accepted.map Accepted.triple).Nodup :=
  (h.invariant guarded_step guarded_initial).once

end Invariant

/-! ## A request on the boundary -/

def drainConfig : ControlConfig := ⟨"secret", "bridge", "/v1/bridge", 300, .single⟩

/-- Stamped `1700000000` and signed by the backend. -/
def drainRequest : ControlRequest where
  method := "POST"
  pathWithQuery := "/v1/operations/drain"
  body := []
  headers :=
    (signedHeaders (fun _ => emptySha256) (fun _ _ => drainHmac) "secret" "POST" "/v1/operations/drain" []
      "1700000000" "nonce-0123456789").sent
  shardId := none
  nodeId := none
  leaseEpoch := none
  assignmentGeneration := none
  current := none

def drainAt (clock : ℕ) : Presented := ⟨drainRequest, clock, clock⟩

abbrev drainStep : Server → Presented → Option Server := step (fun _ => emptySha256) (fun _ _ => drainHmac) drainConfig

theorem drain_authenticate (hskew : |(clock : ℤ) / 1000 - 1700000000| ≤ 300) (nonces : NonceReplayCache) :
    authenticate (fun _ => emptySha256) (fun _ _ => drainHmac) drainConfig clock clock drainRequest nonces =
      match claim 600000 "nonce-0123456789" clock nonces with
      | (false, nonces) => (.error .replayedNonce, nonces)
      | (true, nonces) => (.ok (), nonces) := by
  have hsecret : selectSecret (fun _ _ => drainHmac) drainConfig drainRequest = .ok "secret" := by decide
  have hverify : verifyRequest (fun _ => emptySha256) (fun _ _ => drainHmac) none clock
      ⟨"secret", drainRequest.method, drainRequest.pathWithQuery, drainRequest.body, drainRequest.headers,
        drainConfig.signatureMaxSkewSeconds⟩ = .ok "nonce-0123456789" :=
    verifyRequest_signed (fun _ => hexDigest_emptySha256) (fun _ _ => hexDigest_drainHmac) (by decide)
      (by decide) readTimestamp_drain hskew
  simp only [authenticate, hsecret, hverify]
  rfl

theorem drain_step (hclock : s.clock ≤ clock) (hskew : |(clock : ℤ) / 1000 - 1700000000| ≤ 300) :
    drainStep s (drainAt clock) =
      some (match claim 600000 "nonce-0123456789" clock s.nonces with
        | (false, nonces) => ⟨clock, nonces, s.accepted⟩
        | (true, nonces) => ⟨clock, nonces, (drainAt clock).record :: s.accepted⟩) := by
  simp only [step, drainAt, drain_authenticate hskew, hclock, le_refl, and_self, if_true]
  rcases claim 600000 "nonce-0123456789" clock s.nonces with ⟨accepted, nonces⟩
  cases accepted <;> rfl

theorem drain_timely (h : 1699999701000 ≤ clock) : Timely drainConfig (drainAt clock) := by
  constructor
  · intro t ht
    have htime : t = 1700000000 := by
      apply Option.some.inj
      rw [← Option.mem_def.mp ht]
      exact readTimestamp_drain
    rw [htime]
    simp only [drainAt, drainConfig]
    omega
  · rfl

theorem accepted_once_drain : ∃ s, Run drainStep (fun _ e => Timely drainConfig e) Server.initial
        [drainAt 1700000030000, drainAt 1700000035000] s ∧
      s.accepted.length = 1 ∧ (s.accepted.map Accepted.triple).Nodup := by
  have hrun : Run drainStep (fun _ e => Timely drainConfig e) Server.initial
      [drainAt 1700000030000, drainAt 1700000035000]
      ⟨1700000035000, KeyedTable.empty.set "nonce-0123456789" 1700000630000,
        [(drainAt 1700000030000).record]⟩ := by
    refine Run.cons (drain_timely (by norm_num)) (drain_step (Nat.zero_le _) (by norm_num)) ?_
    refine Run.cons (drain_timely (by norm_num)) (drain_step (by decide) (by norm_num)) ?_
    exact Run.nil _
  exact ⟨_, hrun, rfl, accepted_once hrun⟩

/-- Accepted five minutes early, and again ten minutes later. -/
theorem boundary_replayed : ¬ ∀ (es : List Presented) (s : Server), AnyRun drainStep Server.initial es s →
      (s.accepted.map Accepted.triple).Nodup := by
  intro h
  have hrun : AnyRun drainStep Server.initial [drainAt 1699999700000, drainAt 1700000300000]
      ⟨1700000300000, KeyedTable.empty.set "nonce-0123456789" 1700000900000,
        [(drainAt 1700000300000).record, (drainAt 1699999700000).record]⟩ := by
    apply Run.cons trivial (drain_step (Nat.zero_le _) (by norm_num))
    apply Run.cons trivial (drain_step (by decide) (by norm_num))
    exact Run.nil _
  have hnodup := h _ _ hrun
  simp [Accepted.triple, Presented.record, drainAt] at hnodup

end RyanAI.Gateway.NonceReplay
