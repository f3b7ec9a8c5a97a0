import RyanAI.Gateway.DeliveryProtocol
import RyanAI.Lib.Machine
import RyanAI.Lib.Monitor

/-!
# Deliveries of one event

The gateway handles many deliveries at once. `handle` of `gateway.ts` keeps the handling of an event in
`inFlightEvents` until its promise settles, and a delivery that arrives meanwhile gets the same promise. A step delivers
an event, answers the question that a handling has asked, settles a promise, purges the store, or restarts the process.

The history of one event records what its claims are answered, the calls of the transport, its completion, its release,
the expiry of its record, and its replies. Between two new claims the transport is called at most once; a completed
event is not sent or claimed anew until its record expires, and its stored reply is returned; a claim is new again only
after a release or an expiry.
-/

namespace RyanAI.Gateway

open RyanAI.Lib
open RyanAI.Lib.Program

/-- `answered`: the answer to a claim has reached the gateway. -/
inductive Happening where
  | claimed (claim : ReplayClaim) (answered : Bool)
  | sent
  | completed (reply : StoredReply)
  | released
  | expired
  | replied (result : Except Thrown GatewayReply)

namespace Store

def lapse (watched : String) (now : ℤ) (st : Store) : List Happening :=
  match st.replays.get watched with
  | some row => if now < row.expiresAt then [] else [.expired]
  | none => []

def happenings (ttl : Nat) (watched : String) (answered : Bool) (st : Store) : Request → List Happening
  | .purgeExpired now => st.lapse watched now
  | .claimEvent eventId now =>
    st.lapse watched now ++ if eventId = watched then [.claimed (st.claimEvent ttl eventId now).1 answered] else []
  | .completeEvent eventId reply _ =>
    if eventId = watched ∧ (st.replays.get watched).isSome then [.completed reply] else []
  | .releaseEvent eventId =>
    match st.replays.get watched with
    | some ⟨.processing, _, _⟩ => if eventId = watched then [.released] else []
    | _ => []
  | .upsertGroup _ _ => []
  | .getGroup _ => []

end Store

def Handler.shows (watched key : String) : Handler GatewayReply → List Happening
  | .done result => if key = watched then [.replied result] else []
  | .ask (.send event) _ => if eventKey event = watched then [.sent] else []
  | .ask _ _ => []

/-! ## The system -/

/-- An input, and what validation makes of it. -/
structure Delivery where
  input : GatewayInboundEvent
  validated : Except Thrown GatewayInboundEvent
  same_key : ∀ event, validated = .ok event → eventKey event = eventKey input

/-- The time, the queues' decisions, the transport, and whether a failed request was applied. -/
structure Outside where
  now : ℤ
  admitted : Except AdmissionCode Unit
  turn : Except SerialError Unit
  sent : Except SendError RyanAiResult
  failure : Option Bool

def Outside.respond (o : Outside) (ttl : Nat) (st : Store) : (e : Effect) → e.Answer × Store
  | .now => (o.now, st)
  | .store r =>
    match o.failure with
    | none => (.ok (st.handle ttl r).1, (st.handle ttl r).2)
    | some applied => (.failed applied, if applied then (st.handle ttl r).2 else st)
  | .fairQueue _ _ => (o.admitted, st)
  | .serialQueue _ => (o.turn, st)
  | .send _ => (o.sent, st)
  | .fence _ => ((), st)

def Outside.happenings (o : Outside) (ttl : Nat) (watched : String) (st : Store) : Effect → List Happening
  | .store r => if o.failure = some false then [] else st.happenings ttl watched o.failure.isNone r
  | _ => []

/-- The store, `inFlightEvents`, and the history of the watched event. -/
structure System where
  store : Store
  inFlight : KeyedTable String (Handler GatewayReply)
  history : List Happening

inductive Move where
  | deliver (d : Delivery)
  | answer (key : String) (o : Outside)
  | settle (key : String)
  | purge (now : ℤ)
  | restart

namespace System

def start (st : Store) : System := ⟨st, .empty, []⟩

def goOn (watched key : String) (p : Handler GatewayReply) (s : System) : System :=
  { s with
    inFlight := s.inFlight.set key p
    history := s.history ++ Handler.shows watched key p }

def step (cfg : Config) (ttl : Nat) (watched : String) (s : System) : Move → Option System
  | .deliver d =>
    let key := eventKey d.input
    match s.inFlight.get key with
    -- the delivery gets the promise that is already there
    | some _ => some s
    | none => some (s.goOn watched key (handleSafely cfg (fun _ => d.validated) d.input))
  | .answer key o =>
    match s.inFlight.get key with
    | some (.ask e next) =>
      let (answer, st) := o.respond ttl s.store e
      let history := s.history ++ o.happenings ttl watched s.store e
      some (goOn watched key (next answer) { s with store := st, history := history })
    | _ => none
  | .settle key =>
    match s.inFlight.get key with
    | some (.done _) => some { s with inFlight := s.inFlight.delete key }
    | _ => none
  | .purge now =>
    some { s with
      store := s.store.purgeExpired now
      history := s.history ++ s.store.lapse watched now }
  -- the promises are lost, the store is kept
  | .restart => some { s with inFlight := .empty }

end System

/-! ## Watching a history -/

/-- What is known of the record of the event. -/
inductive Known where
  | unknown
  | free
  | leased
  | stored (reply : StoredReply)

/-- The state of the monitor: the record, whether sending is over, and the reply due next. -/
structure Watch where
  row : Known
  spent : Bool
  due : Option StoredReply

namespace Watch

def start : Watch := ⟨.unknown, true, none⟩

def Unstored (w : Watch) : Prop := ∀ reply, w.row ≠ .stored reply

/-- The watch after a happening. -/
def next (w : Watch) : Happening → Watch
  | .claimed .new _ => ⟨.leased, false, none⟩
  | .claimed .processing _ => { w with row := .leased }
  | .claimed (.completed reply) answered =>
    { w with row := .stored reply, due := if answered then some reply else none }
  | .sent => { w with spent := true }
  | .completed reply => { w with row := .stored reply }
  | .released => { w with row := .free }
  | .expired => { w with row := .free }
  | .replied _ => { w with due := none }

/-- What may happen next. -/
def Allowed (key : String) (w : Watch) : Happening → Prop
  | .claimed .new _ => w.due = none ∧ (w.row = .unknown ∨ w.row = .free)
  | .claimed .processing _ => w.due = none ∧ (w.row = .unknown ∨ w.row = .leased)
  | .claimed (.completed reply) _ => w.due = none ∧ (w.row = .unknown ∨ w.row = .stored reply)
  | .sent => w.due = none ∧ w.spent = false ∧ w.Unstored
  | .completed _ => w.due = none ∧ w.Unstored
  | .released => w.due = none ∧ w.Unstored
  | .expired => w.due = none
  | .replied result => ∀ reply, w.due = some reply → IsReplay key reply result

end Watch

def eventMonitor (key : String) : Monitor Watch Happening := ⟨Watch.next, Watch.Allowed key⟩

def Happening.isSent : Happening → Bool
  | .sent => true
  | _ => false

def Happening.Stores (reply : StoredReply) : Happening → Prop
  | .completed reply' => reply' = reply
  | .claimed (.completed reply') _ => reply' = reply
  | _ => False

/-- One call of the transport a claim, and none after completion until the record expires. -/
structure OncePerClaim (key : String) (history : List Happening) : Prop where
  /-- Without a new claim in between, the transport is called at most once. -/
  sent_once : ∀ before part after, history = before ++ part ++ after →
    (∀ answered, .claimed .new answered ∉ part) → part.countP Happening.isSent ≤ 1
  /-- A completed event is not sent until its record expires, and its claims are answered with the
  stored reply. -/
  not_sent_again : ∀ before x after reply, history = before ++ x :: after → x.Stores reply →
    .expired ∉ after → .sent ∉ after ∧ ∀ claim answered, .claimed claim answered ∈ after → claim = .completed reply
  /-- A claim that is answered with a stored reply returns it at once, as it was stored. -/
  reply_unchanged : ∀ before after reply,
    history = before ++ .claimed (.completed reply) true :: after →
      ∃ result rest, after = .replied result :: rest ∧ IsReplay key reply result
  /-- Between two new claims the event was released, or its record has expired. -/
  new_after_end : ∀ before part after answered answered',
    history = before ++ .claimed .new answered :: part ++ .claimed .new answered' :: after →
      .released ∈ part ∨ .expired ∈ part

variable {reply : StoredReply} {x : Happening}

section Monitoring

variable {key : String} {w : Watch}

theorem countP_isSent_le (h : (eventMonitor key).Accepts w part) (hpart : ∀ answered, .claimed .new answered ∉ part) :
    part.countP Happening.isSent ≤ if w.spent then 0 else 1 := by
  induction part generalizing w with
  | nil => simp
  | cons x part ih =>
    obtain ⟨hallowed, hrest⟩ := h
    have hpart' : ∀ answered, .claimed .new answered ∉ part := by
      intro answered hmem
      exact hpart answered (List.mem_cons_of_mem x hmem)
    have hle := ih hrest hpart'
    cases x with
    | sent =>
      -- this is the one call, and it leaves none
      have hspent : w.spent = false := hallowed.2.1
      have hnext : part.countP Happening.isSent ≤ 0 := hle
      have hcount : (Happening.sent :: part).countP Happening.isSent =
          part.countP Happening.isSent + 1 := List.countP_cons_of_pos rfl
      rw [hspent, hcount]
      exact Nat.add_le_add_right hnext 1
    | claimed claim answered =>
      cases claim with
      | new => exact absurd List.mem_cons_self (hpart answered)
      | processing => exact hle
      | completed reply => exact hle
    | completed reply => exact hle
    | released => exact hle
    | expired => exact hle
    | replied result => exact hle

theorem stored_next (hw : w.row = .stored reply) (hallowed : w.Allowed key x) (hx : x ≠ .expired) :
    (w.next x).row = .stored reply := by
  cases x with
  | claimed claim answered =>
    cases claim with
    | new => simp [Watch.Allowed, hw] at hallowed
    | processing => simp [Watch.Allowed, hw] at hallowed
    | completed reply' =>
      have heq : reply = reply' := by simpa [Watch.Allowed, hw] using hallowed.2
      rw [heq]
      rfl
  | sent => exact hw
  | completed reply' => exact absurd hw (hallowed.2 reply)
  | released => exact absurd hw (hallowed.2 reply)
  | expired => exact absurd rfl hx
  | replied result => exact hw

def Watch.Taken (w : Watch) : Prop := w.row ≠ .unknown ∧ w.row ≠ .free

theorem taken_next (hw : w.Taken) (hx : x ≠ .released ∧ x ≠ .expired) : (w.next x).Taken := by
  cases x with
  | claimed claim answered =>
    cases claim <;> exact ⟨by simp [Watch.next], by simp [Watch.next]⟩
  | sent => exact hw
  | completed reply => exact ⟨by simp [Watch.next], by simp [Watch.next]⟩
  | released => exact absurd rfl hx.1
  | expired => exact absurd rfl hx.2
  | replied result => exact hw

theorem not_sent_of_stored (h : (eventMonitor key).Accepts w after)
    (hw : w.row = .stored reply) (hafter : .expired ∉ after) :
    .sent ∉ after ∧ ∀ claim answered, .claimed claim answered ∈ after → claim = .completed reply := by
  -- the monitor keeps the stored reply as long as the record lives
  have hmem : ∀ x ∈ after, ∃ t : Watch, t.row = .stored reply ∧ t.Allowed key x := by
    intro x hx
    apply h.allowed_of_mem (I := fun w => w.row = .stored reply) (Q := fun x => x ≠ .expired) _ _ hw hx
    · intro t y ht hallowed hy
      exact stored_next ht hallowed hy
    · intro y hy heq
      exact hafter (heq ▸ hy)
  refine ⟨?_, ?_⟩
  · intro hsent
    obtain ⟨t, ht, hallowed⟩ := hmem _ hsent
    exact hallowed.2.2 reply ht
  intro claim answered hclaim
  obtain ⟨t, ht, hallowed⟩ := hmem _ hclaim
  cases claim with
  | new => simp [Watch.Allowed, ht] at hallowed
  | processing => simp [Watch.Allowed, ht] at hallowed
  | completed reply' =>
    have heq : reply = reply' := by simpa [Watch.Allowed, ht] using hallowed.2
    rw [heq]

theorem stored_of_stores (hx : x.Stores reply) : (w.next x).row = .stored reply := by
  cases x with
  | completed reply' =>
    cases hx
    rfl
  | claimed claim answered =>
    cases claim with
    | completed reply' =>
      cases hx
      rfl
    | new => cases hx
    | processing => cases hx
  | sent => cases hx
  | released => cases hx
  | expired => cases hx
  | replied result => cases hx

theorem replied_of_due (h : (eventMonitor key).Accepts w after)
    (hw : w.due = some reply) (hend : ((eventMonitor key).final w after).due = none) :
    ∃ result rest, after = .replied result :: rest ∧ IsReplay key reply result := by
  cases after with
  | nil => cases hw.symm.trans hend
  | cons x rest =>
    have hallowed : w.Allowed key x := h.1
    cases x with
    | replied result => exact ⟨result, rest, rfl, hallowed reply hw⟩
    | claimed claim answered => cases claim <;> cases hw.symm.trans hallowed.1
    | sent => cases hw.symm.trans hallowed.1
    | completed reply' => cases hw.symm.trans hallowed.1
    | released => cases hw.symm.trans hallowed.1
    | expired => cases hw.symm.trans hallowed

theorem taken_final (h : (eventMonitor key).Accepts w part) (hw : w.Taken)
    (hreleased : .released ∉ part) (hexpired : .expired ∉ part) : ((eventMonitor key).final w part).Taken := by
  apply h.keeps (I := Watch.Taken) (Q := fun x => x ≠ .released ∧ x ≠ .expired) _ _ hw
  · intro t x ht _ hx
    exact taken_next ht hx
  intro x hx
  refine ⟨?_, ?_⟩
  · rintro rfl
    exact hreleased hx
  · rintro rfl
    exact hexpired hx

theorem oncePerClaim_of_accepts (h : (eventMonitor key).Accepts .start history)
    (hdue : ((eventMonitor key).final .start history).due = none) : OncePerClaim key history where
  sent_once := by
    rintro before part after rfl hpart
    have hacc := (Monitor.accepts_append.1 (Monitor.accepts_append.1 h).1).2
    have hle := countP_isSent_le hacc hpart
    split at hle <;> omega
  not_sent_again := by
    rintro before x after reply rfl hx hafter
    obtain ⟨-, -, hacc⟩ := Monitor.accepts_append.1 h
    exact not_sent_of_stored hacc (stored_of_stores hx) hafter
  reply_unchanged := by
    rintro before after reply rfl
    obtain ⟨-, -, hacc⟩ := Monitor.accepts_append.1 h
    rw [Monitor.final_append] at hdue
    exact replied_of_due hacc rfl hdue
  new_after_end := by
    rintro before part after answered answered' rfl
    by_contra hnot
    push Not at hnot
    obtain ⟨hacc, hnew, -⟩ := Monitor.accepts_append.1 h
    obtain ⟨-, -, hpart⟩ := Monitor.accepts_append.1 hacc
    -- the first claim leaves a record, which is still there at the second
    have hleased : (((eventMonitor key).final .start before).next (.claimed .new answered)).Taken :=
      ⟨by simp [Watch.next], by simp [Watch.next]⟩
    have htaken := taken_final hpart hleased hnot.1 hnot.2
    rw [Monitor.final_append, Monitor.final_cons] at hnew
    rcases hnew.2 with hunknown | hfree
    · exact htaken.1 hunknown
    · exact htaken.2 hfree

end Monitoring

end RyanAI.Gateway
