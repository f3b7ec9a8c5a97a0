import RyanAI.Gateway.Event
import RyanAI.Lib.OrderedMap

/-!
# The state store of the gateway

`bot-gateway/src/state-worker.ts` keeps the replay records of events and the discovered groups in two
tables. Its requests are handled one at a time, each in a transaction, so a request is a function on
the tables. `reply_json` is represented by what `parseReplyJson` reads from it.

An event that was claimed and neither completed nor released is answered as still in progress until
its lease expires; once it has been completed or released, no later delivery is answered so.
-/

namespace RyanAI.Gateway

open RyanAI.Lib

/-! ## Tables -/

inductive ReplayState where
  | processing
  | completed
  deriving DecidableEq

/-- A row of `replays`. -/
structure ReplayRow where
  state : ReplayState
  expiresAt : ℤ
  reply : Option StoredReply

/-- The primary key of `groups`. -/
structure GroupKey where
  channel : Channel
  connectionId : String
  groupId : String
  deriving DecidableEq

/-- A row of `groups`. The time is kept as a number. -/
structure GroupRow where
  enabled : Bool
  name : Option String
  lastSeenAt : ℤ

structure Store where
  replays : KeyedTable String ReplayRow
  groups : KeyedTable GroupKey GroupRow

def Store.empty : Store := ⟨.empty, .empty⟩

/-- `ReplayClaim`. -/
inductive ReplayClaim where
  | new
  | processing
  | completed (reply : StoredReply)
  deriving DecidableEq

/-- `PROCESSING_LEASE_MS`. -/
def processingLeaseMs : Nat := 15 * 60 * 1000

def replayTtlMs (configured : Nat) : Nat := if configured = 0 then 24 * 60 * 60 * 1000 else configured

/-! ## Requests -/

inductive Request where
  | purgeExpired (now : ℤ)
  | claimEvent (eventId : String) (now : ℤ)
  | completeEvent (eventId : String) (reply : StoredReply) (now : ℤ)
  | releaseEvent (eventId : String)
  | upsertGroup (key : GroupKey) (group : GroupRow)
  | getGroup (key : GroupKey)

def Request.Value : Request → Type
  | .claimEvent _ _ => ReplayClaim
  | .getGroup _ => Option GroupRow
  | _ => Unit

namespace Store

def purgeExpired (now : ℤ) (st : Store) : Store :=
  { st with replays := st.replays.filter fun _ row => decide (now < row.expiresAt) }

def claimEvent (ttl : Nat) (eventId : String) (now : ℤ) (st : Store) : ReplayClaim × Store :=
  let st := st.purgeExpired now
  let fresh : ReplayRow := ⟨.processing, now + min (replayTtlMs ttl) processingLeaseMs, none⟩
  match st.replays.get eventId with
  | some ⟨.completed, _, some reply⟩ => (.completed reply, st)
  | some ⟨.processing, _, _⟩ => (.processing, st)
  -- a completed record whose reply cannot be read is claimed again
  | _ => (.new, { st with replays := st.replays.set eventId fresh })

def completeEvent (ttl : Nat) (eventId : String) (reply : StoredReply) (now : ℤ) (st : Store) : Store :=
  match st.replays.get eventId with
  | none => st
  | some _ =>
    let row : ReplayRow := ⟨.completed, now + replayTtlMs ttl, some reply⟩
    { st with replays := st.replays.set eventId row }

def releaseEvent (eventId : String) (st : Store) : Store :=
  match st.replays.get eventId with
  | some ⟨.processing, _, _⟩ => { st with replays := st.replays.delete eventId }
  | _ => st

def upsertGroup (key : GroupKey) (group : GroupRow) (st : Store) : Store :=
  let enabled := ((st.groups.get key).map GroupRow.enabled).getD group.enabled
  { st with groups := st.groups.set key { group with enabled := enabled } }

def getGroup (key : GroupKey) (st : Store) : Option GroupRow := st.groups.get key

def handle (ttl : Nat) : (r : Request) → Store → r.Value × Store
  | .purgeExpired now, st => ((), st.purgeExpired now)
  | .claimEvent eventId now, st => st.claimEvent ttl eventId now
  | .completeEvent eventId reply now, st => ((), st.completeEvent ttl eventId reply now)
  | .releaseEvent eventId, st => ((), st.releaseEvent eventId)
  | .upsertGroup key group, st => ((), st.upsertGroup key group)
  | .getGroup key, st => (st.getGroup key, st)

def after (ttl : Nat) (rs : List Request) (st : Store) : Store := rs.foldl (fun st r => (st.handle ttl r).2) st

end Store

variable {key : String} {st : Store} {r : Request} {rs : List Request}

namespace Store

def freshRow (ttl : Nat) (now : ℤ) : ReplayRow := ⟨.processing, now + min (replayTtlMs ttl) processingLeaseMs, none⟩

theorem claimEvent_cases (ttl : Nat) (key : String) (now : ℤ) (st : Store) :
    (∃ expiresAt reply, (st.purgeExpired now).replays.get key = some ⟨.completed, expiresAt, some reply⟩ ∧
        st.claimEvent ttl key now = (.completed reply, st.purgeExpired now)) ∨
      (∃ expiresAt reply, (st.purgeExpired now).replays.get key = some ⟨.processing, expiresAt, reply⟩ ∧
        st.claimEvent ttl key now = (.processing, st.purgeExpired now)) ∨
      (((st.purgeExpired now).replays.get key = none ∨
          ∃ expiresAt, (st.purgeExpired now).replays.get key = some ⟨.completed, expiresAt, none⟩) ∧
        st.claimEvent ttl key now =
          (.new, { st.purgeExpired now with
            replays := (st.purgeExpired now).replays.set key (freshRow ttl now) })) := by
  simp only [claimEvent]
  cases hget : (st.purgeExpired now).replays.get key with
  | none => exact Or.inr (Or.inr ⟨Or.inl rfl, rfl⟩)
  | some row =>
    obtain ⟨state, expiresAt, reply⟩ := row
    cases state with
    | processing => exact Or.inr (Or.inl ⟨expiresAt, reply, rfl, rfl⟩)
    | completed =>
      cases reply with
      | none => exact Or.inr (Or.inr ⟨Or.inr ⟨expiresAt, rfl⟩, rfl⟩)
      | some reply => exact Or.inl ⟨expiresAt, reply, rfl, rfl⟩

theorem claimEvent_get_of_ne (ttl : Nat) (hne : other ≠ key) (now : ℤ) (st : Store) :
    (st.claimEvent ttl key now).2.replays.get other = (st.purgeExpired now).replays.get other := by
  obtain ⟨_, _, -, heq⟩ | ⟨_, _, -, heq⟩ | ⟨-, heq⟩ := claimEvent_cases ttl key now st
  · rw [heq]
  · rw [heq]
  · rw [heq]
    simp only [KeyedTable.get_set, if_neg hne]

end Store

/-! ## Redelivery -/

def Request.claims (key : String) : Request → Bool
  | .claimEvent eventId _ => eventId = key
  | _ => false

def Request.ends (key : String) : Request → Bool
  | .completeEvent eventId _ _ => eventId = key
  | .releaseEvent eventId => eventId = key
  | _ => false

def Request.aboutGroup : Request → Bool
  | .upsertGroup _ _ => true
  | .getGroup _ => true
  | _ => false

namespace Store

def Settled (key : String) (st : Store) : Prop := ∀ row, st.replays.get key = some row → row.state = .completed

theorem claimEvent_of_settled (ttl : Nat) (now : ℤ) (h : st.Settled key) :
    (st.claimEvent ttl key now).1 ≠ .processing := by
  simp only [claimEvent, purgeExpired, KeyedTable.get_filter]
  cases hget : st.replays.get key with
  | none => simp
  | some row =>
    have hstate := h row hget
    obtain ⟨state, expiresAt, reply⟩ := row
    subst hstate
    cases reply with
    | none => cases hlive : decide (now < expiresAt) <;> simp [Option.filter, hlive]
    | some reply => cases hlive : decide (now < expiresAt) <;> simp [Option.filter, hlive]

theorem Settled.purgeExpired (h : st.Settled key) (now : ℤ) : (st.purgeExpired now).Settled key := by
  intro row hrow
  simp only [Store.purgeExpired, KeyedTable.get_filter] at hrow
  exact h row (Option.filter_eq_some_iff.1 hrow).1

theorem Settled.set (h : st.Settled key) (hrow : key = eventId → row.state = .completed) :
    Settled key { st with replays := st.replays.set eventId row } := by
  intro row' hrow'
  simp only [KeyedTable.get_set] at hrow'
  split at hrow'
  · rename_i hkey
    cases hrow'
    exact hrow hkey
  · exact h row' hrow'

theorem Settled.handle (h : st.Settled key) (hr : r.claims key = false) : (st.handle ttl r).2.Settled key := by
  cases r with
  | purgeExpired now => exact h.purgeExpired now
  | claimEvent eventId now =>
    -- a claim of another event writes another row
    have hne : key ≠ eventId := by
      rintro rfl
      simp [Request.claims] at hr
    have hpurged := h.purgeExpired now
    simp only [Store.handle, Store.claimEvent]
    split
    · exact hpurged
    · exact hpurged
    · exact hpurged.set fun hkey => absurd hkey hne
  | completeEvent eventId reply now =>
    simp only [Store.handle, Store.completeEvent]
    split
    · exact h
    · exact h.set fun _ => rfl
  | releaseEvent eventId =>
    simp only [Store.handle, Store.releaseEvent]
    split
    · intro row hrow
      simp only [KeyedTable.get_delete] at hrow
      split at hrow
      · cases hrow
      · exact h row hrow
    · exact h
  | upsertGroup key' group => exact h
  | getGroup key' => exact h

theorem settled_of_ends (ttl : Nat) (st : Store) (hr : r.ends key = true) : (st.handle ttl r).2.Settled key := by
  cases r with
  | completeEvent eventId reply now =>
    have hkey : eventId = key := of_decide_eq_true hr
    subst hkey
    simp only [Store.handle, Store.completeEvent]
    split
    -- there is no row, and completing does not make one
    · rename_i hnone
      intro row hrow
      rw [hnone] at hrow
      cases hrow
    · intro row hrow
      simp only [KeyedTable.get_set, if_true] at hrow
      cases hrow
      rfl
  | releaseEvent eventId =>
    have hkey : eventId = key := of_decide_eq_true hr
    subst hkey
    simp only [Store.handle, Store.releaseEvent]
    split
    · intro row hrow
      simp [KeyedTable.get_delete] at hrow
    -- a row in progress would have been deleted
    rename_i hnot
    intro row hrow
    obtain ⟨state, expiresAt, reply⟩ := row
    cases state with
    | completed => rfl
    | processing => exact absurd hrow (hnot expiresAt reply)
  | purgeExpired now => cases hr
  | claimEvent eventId now => cases hr
  | upsertGroup key' group => cases hr
  | getGroup key' => cases hr

theorem settled_after (h : st.Settled key) (hrs : ∀ r ∈ rs, r.claims key = false) : (st.after ttl rs).Settled key := by
  induction rs generalizing st with
  | nil => exact h
  | cons r rs ih =>
    exact ih (h.handle (hrs r List.mem_cons_self)) fun r' hr' => hrs r' (List.mem_cons_of_mem r hr')

theorem claimEvent_of_ended (ttl : Nat) (now : ℤ) (st : Store)
    (hr : r.ends key = true) (hlater : ∀ r' ∈ later, r'.claims key = false) :
    ((st.after ttl (before ++ r :: later)).claimEvent ttl key now).1 ≠ .processing := by
  apply claimEvent_of_settled
  rw [after, List.foldl_append, List.foldl_cons]
  exact settled_after (settled_of_ends ttl _ hr) hlater

theorem replayTtlMs_pos (ttl : Nat) : 0 < replayTtlMs ttl := by
  rw [replayTtlMs]
  split <;> omega

theorem after_aboutGroup (ttl : Nat) (hrs : ∀ r ∈ rs, r.aboutGroup = true) (st : Store) :
    (st.after ttl rs).replays = st.replays := by
  induction rs generalizing st with
  | nil => rfl
  | cons r rs ih =>
    have hstep : (st.handle ttl r).2.replays = st.replays := by
      cases r with
      | upsertGroup key group => rfl
      | getGroup key => rfl
      | purgeExpired now => cases hrs _ List.mem_cons_self
      | claimEvent eventId now => cases hrs _ List.mem_cons_self
      | completeEvent eventId reply now => cases hrs _ List.mem_cons_self
      | releaseEvent eventId => cases hrs _ List.mem_cons_self
    exact (ih (fun r' hr' => hrs r' (List.mem_cons_of_mem r hr')) _).trans hstep

theorem claimEvent_of_claimed (ttl : Nat) (key : String) (now : ℤ) (hrs : ∀ r ∈ rs, r.aboutGroup = true) :
    ((Store.empty.after ttl (.claimEvent key now :: rs)).claimEvent ttl key now).1 = .processing := by
  have hreplays : (Store.empty.after ttl (.claimEvent key now :: rs)).replays =
      (Store.empty.claimEvent ttl key now).2.replays := after_aboutGroup ttl hrs _
  -- the lease has not run out when it is taken
  have hlease : now < now + min (replayTtlMs ttl) processingLeaseMs := by
    have hpos := replayTtlMs_pos ttl
    have hlease' : 0 < processingLeaseMs := by decide
    omega
  have hget : (Store.empty.claimEvent ttl key now).2.replays.get key =
      some ⟨.processing, now + min (replayTtlMs ttl) processingLeaseMs, none⟩ := by
    simp [Store.claimEvent, Store.purgeExpired, Store.empty]
  simp only [Store.claimEvent, Store.purgeExpired, hreplays, KeyedTable.get_filter] at hget ⊢
  rw [hget, Option.filter_some_pos (by simpa using hlease)]

end Store

end RyanAI.Gateway
