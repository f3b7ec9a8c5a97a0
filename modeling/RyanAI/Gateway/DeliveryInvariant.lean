import RyanAI.Gateway.Delivery

/-!
# The history of every event is lawful

In every run of the system the monitor of an event accepts its history, and what it knows of the record
of the event agrees with the store. Each handling in flight follows the protocol of its event; the
handling of the watched event is at a phase that fits what the monitor has seen. A request of another
handling can only let the record of the watched event expire.
-/

namespace RyanAI.Gateway

open RyanAI.Lib
open RyanAI.Lib.Program

/-! ## The monitor and the store -/

def Known.Agrees : Known → Option ReplayRow → Prop
  | .unknown, _ => True
  | .free, row => row = none
  | .leased, row => ∃ expiresAt reply, row = some ⟨.processing, expiresAt, reply⟩
  | .stored reply, row => ∃ expiresAt, row = some ⟨.completed, expiresAt, some reply⟩

structure Tracks (watched : String) (w : Watch) (xs : List Happening) (st : Store) : Prop where
  accepts : (eventMonitor watched).Accepts w xs
  agrees : ((eventMonitor watched).final w xs).row.Agrees (st.replays.get watched)

def Watch.Eased (w w' : Watch) : Prop := w' = w ∨ w' = { w with row := .free }

def Request.names (key : String) (r : Request) : Bool := r.claims key || r.ends key

variable {w' : Watch} {r : Request} {known : Known} {e : Effect}

section Tracking

variable {watched : String} {w : Watch} {st : Store}

theorem tracks_nil (hw : w.row.Agrees (st.replays.get watched)) : Tracks watched w [] st := ⟨trivial, hw⟩

theorem Watch.Eased.unstored (h : w.Eased w') (hw : w.Unstored) : w'.Unstored := by
  rcases h with rfl | rfl
  · exact hw
  · intro reply heq
    cases heq

theorem Watch.Eased.spent (h : w.Eased w') : w'.spent = w.spent := by
  rcases h with rfl | rfl <;> rfl

theorem Watch.Eased.due (h : w.Eased w') : w'.due = w.due := by
  rcases h with rfl | rfl <;> rfl

theorem Known.Agrees.of_completed (h : known.Agrees (some ⟨.completed, expiresAt, some reply⟩)) :
    known = .unknown ∨ known = .stored reply := by
  cases known with
  | unknown => exact Or.inl rfl
  | free => cases h
  | leased =>
    obtain ⟨_, _, heq⟩ := h
    cases heq
  | stored reply' =>
    obtain ⟨_, heq⟩ := h
    cases heq
    exact Or.inr rfl

theorem Known.Agrees.of_processing (h : known.Agrees (some ⟨.processing, expiresAt, reply⟩)) :
    known = .unknown ∨ known = .leased := by
  cases known with
  | unknown => exact Or.inl rfl
  | free => cases h
  | leased => exact Or.inr rfl
  | stored reply' =>
    obtain ⟨_, heq⟩ := h
    cases heq

theorem Known.Agrees.of_claimable (h : known.Agrees row)
    (hrow : row = none ∨ ∃ expiresAt, row = some ⟨.completed, expiresAt, none⟩) :
    known = .unknown ∨ known = .free := by
  cases known with
  | unknown => exact Or.inl rfl
  | free => exact Or.inr rfl
  | leased =>
    obtain ⟨_, _, rfl⟩ := h
    obtain heq | ⟨_, heq⟩ := hrow
    · cases heq
    · cases heq
  | stored reply =>
    obtain ⟨_, rfl⟩ := h
    obtain heq | ⟨_, heq⟩ := hrow
    · cases heq
    · cases heq

section

variable (hdue : w.due = none) (hw : w.row.Agrees (st.replays.get watched))

include hdue hw

theorem lapse_tracks (now : ℤ) :
    Tracks watched w (st.lapse watched now) (st.purgeExpired now) ∧
      w.Eased ((eventMonitor watched).final w (st.lapse watched now)) := by
  have hpurged : (st.purgeExpired now).replays.get watched =
      (st.replays.get watched).filter fun row => decide (now < row.expiresAt) :=
    KeyedTable.get_filter _ _ _
  rw [Store.lapse]
  cases hget : st.replays.get watched with
  | none =>
    rw [hget] at hw hpurged
    exact ⟨⟨trivial, by rwa [hpurged]⟩, Or.inl rfl⟩
  | some row =>
    rw [hget] at hw hpurged
    by_cases hlive : now < row.expiresAt
    · rw [Option.filter_some_pos (by simpa using hlive)] at hpurged
      simp only [if_pos hlive]
      exact ⟨⟨trivial, by rwa [hpurged]⟩, Or.inl rfl⟩
    · rw [Option.filter_some_neg (by simpa using hlive)] at hpurged
      simp only [if_neg hlive]
      exact ⟨⟨⟨hdue, trivial⟩, hpurged⟩, Or.inr rfl⟩

theorem happenings_of_other (ttl : Nat) (answered : Bool) (hr : r.names watched = false) :
    Tracks watched w (st.happenings ttl watched answered r) (st.handle ttl r).2 ∧
      w.Eased ((eventMonitor watched).final w (st.happenings ttl watched answered r)) := by
  cases r with
  | purgeExpired now => exact lapse_tracks hdue hw now
  | claimEvent eventId now =>
    have hne : eventId ≠ watched := by simpa [Request.names, Request.claims, Request.ends] using hr
    obtain ⟨⟨haccepts, hagrees⟩, heased⟩ := lapse_tracks hdue hw now
    simp only [Store.happenings, if_neg hne, List.append_nil]
    refine ⟨⟨haccepts, ?_⟩, heased⟩
    rw [Store.handle, Store.claimEvent_get_of_ne ttl hne.symm]
    exact hagrees
  | completeEvent eventId reply now =>
    have hne : eventId ≠ watched := by simpa [Request.names, Request.claims, Request.ends] using hr
    simp only [Store.happenings, hne, false_and, if_false]
    refine ⟨⟨trivial, ?_⟩, Or.inl rfl⟩
    simp only [Store.handle, Store.completeEvent]
    split
    · exact hw
    · simp only [KeyedTable.get_set, if_neg hne.symm]
      exact hw
  | releaseEvent eventId =>
    have hne : eventId ≠ watched := by simpa [Request.names, Request.claims, Request.ends] using hr
    have hnone : st.happenings ttl watched answered (.releaseEvent eventId) = [] := by
      simp only [Store.happenings, if_neg hne]
      split <;> rfl
    rw [hnone]
    refine ⟨⟨trivial, ?_⟩, Or.inl rfl⟩
    simp only [Store.handle, Store.releaseEvent]
    split
    · simp only [KeyedTable.get_delete, if_neg hne.symm]
      exact hw
    · exact hw
  | upsertGroup key group => exact ⟨tracks_nil hw, Or.inl rfl⟩
  | getGroup key => exact ⟨tracks_nil hw, Or.inl rfl⟩

theorem claim_tracks (ttl : Nat) (answered : Bool) (now : ℤ) :
    Tracks watched w (st.happenings ttl watched answered (.claimEvent watched now))
        (st.claimEvent ttl watched now).2 ∧
      ∃ w', w.Eased w' ∧
        (eventMonitor watched).final w (st.happenings ttl watched answered (.claimEvent watched now)) =
          w'.next (.claimed (st.claimEvent ttl watched now).1 answered) := by
  obtain ⟨⟨haccepts, hagrees⟩, heased⟩ := lapse_tracks hdue hw now
  have hsplit : st.happenings ttl watched answered (.claimEvent watched now) =
      st.lapse watched now ++ [.claimed (st.claimEvent ttl watched now).1 answered] := by
    rw [Store.happenings, if_pos rfl]
  have hfinal : (eventMonitor watched).final w
      (st.happenings ttl watched answered (.claimEvent watched now)) =
        ((eventMonitor watched).final w (st.lapse watched now)).next
          (.claimed (st.claimEvent ttl watched now).1 answered) := by
    rw [hsplit, Monitor.final_append]
    rfl
  have hdue' := heased.due.trans hdue
  refine ⟨⟨?_, ?_⟩, _, heased, hfinal⟩
  · rw [hsplit, Monitor.accepts_append]
    refine ⟨haccepts, ?_, trivial⟩
    obtain ⟨_, _, hrow, heq⟩ | ⟨_, _, hrow, heq⟩ | ⟨hrow, heq⟩ := Store.claimEvent_cases ttl watched now st
    · rw [hrow] at hagrees
      rw [heq]
      exact ⟨hdue', hagrees.of_completed⟩
    · rw [hrow] at hagrees
      rw [heq]
      exact ⟨hdue', hagrees.of_processing⟩
    · rw [heq]
      exact ⟨hdue', hagrees.of_claimable hrow⟩
  · rw [hfinal]
    obtain ⟨expiresAt, _, hrow, heq⟩ | ⟨expiresAt, reply, hrow, heq⟩ | ⟨-, heq⟩ :=
      Store.claimEvent_cases ttl watched now st
    · rw [heq]
      exact ⟨expiresAt, hrow⟩
    · rw [heq]
      exact ⟨expiresAt, reply, hrow⟩
    · rw [heq]
      refine ⟨(Store.freshRow ttl now).expiresAt, none, ?_⟩
      simp only [KeyedTable.get_set, if_true]
      rfl

theorem complete_tracks (ttl : Nat) (answered : Bool) (reply : StoredReply) (now : ℤ) (hopen : w.Unstored) :
    Tracks watched w (st.happenings ttl watched answered (.completeEvent watched reply now))
        (st.completeEvent ttl watched reply now) ∧
      ((eventMonitor watched).final w
        (st.happenings ttl watched answered (.completeEvent watched reply now))).due = none := by
  cases hget : st.replays.get watched with
  | none =>
    -- there is no record to complete
    have hnone : st.happenings ttl watched answered (.completeEvent watched reply now) = [] := by
      simp [Store.happenings, hget]
    have hsame : st.completeEvent ttl watched reply now = st := by
      simp only [Store.completeEvent, hget]
    rw [hnone, hsame]
    exact ⟨tracks_nil hw, hdue⟩
  | some row =>
    have hone : st.happenings ttl watched answered (.completeEvent watched reply now) =
        [.completed reply] := by
      simp [Store.happenings, hget]
    rw [hone]
    refine ⟨⟨⟨⟨hdue, hopen⟩, trivial⟩, ?_⟩, hdue⟩
    refine ⟨now + replayTtlMs ttl, ?_⟩
    simp [Store.completeEvent, hget]

theorem release_tracks (ttl : Nat) (answered : Bool) (hopen : w.Unstored) :
    Tracks watched w (st.happenings ttl watched answered (.releaseEvent watched))
        (st.releaseEvent watched) ∧
      ((eventMonitor watched).final w
        (st.happenings ttl watched answered (.releaseEvent watched))).due = none := by
  by_cases hrow : ∃ expiresAt reply, st.replays.get watched = some ⟨.processing, expiresAt, reply⟩
  · obtain ⟨expiresAt, reply, hget⟩ := hrow
    simp only [Store.happenings, Store.releaseEvent, hget, if_true]
    refine ⟨⟨⟨⟨hdue, hopen⟩, trivial⟩, ?_⟩, hdue⟩
    show (st.replays.delete watched).get watched = none
    simp
  -- there is nothing to release
  have hnone : st.happenings ttl watched answered (.releaseEvent watched) = [] := by
    simp only [Store.happenings]
    split
    · rename_i expiresAt reply hget
      exact absurd ⟨expiresAt, reply, hget⟩ hrow
    · rfl
  have hsame : st.releaseEvent watched = st := by
    simp only [Store.releaseEvent]
    split
    · rename_i expiresAt reply hget
      exact absurd ⟨expiresAt, reply, hget⟩ hrow
    · rfl
  rw [hnone, hsame]
  exact ⟨tracks_nil hw, hdue⟩

end

end Tracking

/-! ## Handlings and the monitor -/

def Handler.sending : Handler GatewayReply → Bool
  | .ask (.send _) _ => true
  | _ => false

/-- Between its claim and its end a handling's event is not completed, nor sent but by the
transport. -/
def Fits (p : Handler GatewayReply) (w : Watch) : Phase → Prop
  | .claimed => w.Unstored ∧ (p.sending = false → w.spent = false)
  | .sent => w.Unstored
  | _ => True

def Ready (w : Watch) : Phase → Prop
  | .claimed => w.due = none ∧ w.Unstored ∧ w.spent = false
  | .sent => w.due = none ∧ w.Unstored
  | .replay reply => w.due = some reply
  | _ => w.due = none

section Handlings

variable {watched key : String} {w w' : Watch} {st : Store} {phase : Phase} {p : Handler GatewayReply}

theorem Fits.eased (h : Fits p w phase) (heased : w.Eased w') : Fits p w' phase := by
  cases phase with
  | claimed =>
    refine ⟨heased.unstored h.1, ?_⟩
    intro hp
    rw [heased.spent]
    exact h.2 hp
  | sent => exact heased.unstored h
  | fresh => trivial
  | replay reply => trivial
  | closed => trivial

theorem Ready.due_of_ask (hready : Ready w phase) (hmay : mayAsk key phase e) : w.due = none := by
  cases phase with
  | fresh => exact hready
  | claimed => exact hready.1
  | sent => exact hready.1
  | replay reply => cases hmay
  | closed => exact hready

theorem Ready.of_done (hready : Ready w phase) (hends : endsWell watched phase result) (hdue : w.due = some reply) :
    IsReplay watched reply result := by
  cases phase with
  | replay reply' =>
    have heq : some reply' = some reply := hready.symm.trans hdue
    cases heq
    exact hends reply rfl
  | fresh => cases hready.symm.trans hdue
  | claimed => cases hready.1.symm.trans hdue
  | sent => cases hready.1.symm.trans hdue
  | closed => cases hready.symm.trans hdue

theorem Ready.fits (hready : Ready w phase) (p : Handler GatewayReply) : Fits p w phase := by
  cases phase with
  | claimed => exact ⟨hready.2.1, fun _ => hready.2.2⟩
  | sent => exact hready.2
  | fresh => trivial
  | replay reply => trivial
  | closed => trivial

theorem shows_own (hp : p.Follows (eventProtocol watched) (endsWell watched) phase) (hready : Ready w phase) :
    (eventMonitor watched).Accepts w (Handler.shows watched watched p) ∧
      ∃ w', (eventMonitor watched).final w (Handler.shows watched watched p) = w' ∧
        w'.due = none ∧ w'.row = w.row ∧ Fits p w' phase := by
  cases p with
  | done result =>
    simp only [Handler.shows, if_true]
    refine ⟨⟨?_, trivial⟩, _, rfl, rfl, rfl, ?_⟩
    · intro reply hdue
      exact hready.of_done hp hdue
    have hfits := hready.fits (.done result)
    cases phase with
    | claimed => exact hfits
    | sent => exact hfits
    | fresh => trivial
    | replay reply => trivial
    | closed => trivial
  | ask e next =>
    have hdue := hready.due_of_ask hp.1
    have hfits := hready.fits (.ask e next)
    cases e with
    | send event =>
      obtain ⟨rfl, hkey⟩ := claimed_of_send hp.1
      simp only [Handler.shows, if_pos hkey]
      refine ⟨⟨⟨hdue, hready.2.2, hready.2.1⟩, trivial⟩, _, rfl, hdue, rfl, hready.2.1, ?_⟩
      -- from here on the handling is the one that asks the transport
      intro hsending
      cases hsending
    | now => exact ⟨trivial, w, rfl, hdue, rfl, hfits⟩
    | store r => exact ⟨trivial, w, rfl, hdue, rfl, hfits⟩
    | fairQueue connectionId bytes => exact ⟨trivial, w, rfl, hdue, rfl, hfits⟩
    | serialQueue key => exact ⟨trivial, w, rfl, hdue, rfl, hfits⟩
    | fence shardId => exact ⟨trivial, w, rfl, hdue, rfl, hfits⟩

theorem shows_other {post : Phase → Except Thrown GatewayReply → Prop} (hne : key ≠ watched)
    (hp : p.Follows (eventProtocol key) post phase) : Handler.shows watched key p = [] := by
  cases p with
  | done result => exact if_neg hne
  | ask e next =>
    cases e with
    | send event =>
      obtain ⟨-, hkey⟩ := claimed_of_send hp.1
      exact if_neg (hkey ▸ hne)
    | now => rfl
    | store r => rfl
    | fairQueue connectionId bytes => rfl
    | serialQueue key => rfl
    | fence shardId => rfl

theorem names_of_mayAsk (hne : key ≠ watched) (hmay : mayAsk key phase (.store r)) : r.names watched = false := by
  cases r with
  | claimEvent eventId now =>
    obtain ⟨-, rfl⟩ := fresh_of_claim hmay
    simp [Request.names, Request.claims, Request.ends, hne]
  | completeEvent eventId reply now =>
    obtain ⟨-, rfl⟩ := open_of_complete hmay
    simp [Request.names, Request.claims, Request.ends, hne]
  | releaseEvent eventId =>
    obtain ⟨-, rfl⟩ := sent_of_release hmay
    simp [Request.names, Request.claims, Request.ends, hne]
  | upsertGroup group row => rfl
  | getGroup group => rfl
  | purgeExpired now => rfl

theorem respond_other (o : Outside) (ttl : Nat) (hne : key ≠ watched) (hmay : mayAsk key phase e)
    (hdue : w.due = none) (hw : w.row.Agrees (st.replays.get watched)) :
    Tracks watched w (o.happenings ttl watched st e) (o.respond ttl st e).2 ∧
      w.Eased ((eventMonitor watched).final w (o.happenings ttl watched st e)) := by
  cases e with
  | store r =>
    have hother := happenings_of_other hdue hw ttl o.failure.isNone (names_of_mayAsk hne hmay)
    simp only [Outside.happenings, Outside.respond]
    cases hfailure : o.failure with
    | none =>
      rw [hfailure] at hother
      exact hother
    | some reached =>
      cases reached with
      | true =>
        rw [hfailure] at hother
        exact hother
      | false => exact ⟨tracks_nil hw, Or.inl rfl⟩
  | now => exact ⟨tracks_nil hw, Or.inl rfl⟩
  | fairQueue connectionId bytes => exact ⟨tracks_nil hw, Or.inl rfl⟩
  | serialQueue key => exact ⟨tracks_nil hw, Or.inl rfl⟩
  | send event => exact ⟨tracks_nil hw, Or.inl rfl⟩
  | fence shardId => exact ⟨tracks_nil hw, Or.inl rfl⟩

theorem Fits.ready (hfits : Fits p w phase) (hdue : w.due = none) (hp : p.sending = false)
    (hmay : mayAsk key phase e) : Ready w phase := by
  cases phase with
  | fresh => exact hdue
  | claimed => exact ⟨hdue, hfits.1, hfits.2 hp⟩
  | sent => exact ⟨hdue, hfits⟩
  | replay reply => cases hmay
  | closed => exact hdue

section

variable (o : Outside) (ttl : Nat) (hdue : w.due = none) (hw : w.row.Agrees (st.replays.get watched))

include hdue hw

theorem respond_claim (now : ℤ) :
    Tracks watched w (o.happenings ttl watched st (.store (.claimEvent watched now)))
        (o.respond ttl st (.store (.claimEvent watched now))).2 ∧
      Ready ((eventMonitor watched).final w
          (o.happenings ttl watched st (.store (.claimEvent watched now))))
        (phaseAfter .fresh (.store (.claimEvent watched now))
          (o.respond ttl st (.store (.claimEvent watched now))).1) := by
  simp only [Outside.happenings, Outside.respond]
  cases o.failure with
  | none =>
    obtain ⟨htracks, w', heased, hfinal⟩ := claim_tracks hdue hw ttl true now
    refine ⟨htracks, ?_⟩
    show Ready ((eventMonitor watched).final w
        (st.happenings ttl watched true (.claimEvent watched now)))
      (phaseAfter .fresh (.store (.claimEvent watched now))
        (.ok (st.claimEvent ttl watched now).1))
    rw [hfinal]
    cases (st.claimEvent ttl watched now).1 with
    | new =>
      refine ⟨rfl, ?_, rfl⟩
      intro reply heq
      cases heq
    | processing => exact heased.due.trans hdue
    | completed reply => rfl
  | some reached =>
    cases reached with
    -- the claim was made, and the gateway does not know its answer
    | true =>
      obtain ⟨htracks, w', heased, hfinal⟩ := claim_tracks hdue hw ttl false now
      refine ⟨htracks, ?_⟩
      show ((eventMonitor watched).final w
        (st.happenings ttl watched false (.claimEvent watched now))).due = none
      rw [hfinal]
      cases (st.claimEvent ttl watched now).1 with
      | new => rfl
      | processing => exact heased.due.trans hdue
      | completed reply => rfl
    | false => exact ⟨tracks_nil hw, hdue⟩

theorem respond_close (hr : ∀ answered, Tracks watched w (st.happenings ttl watched answered r) (st.handle ttl r).2 ∧
      ((eventMonitor watched).final w (st.happenings ttl watched answered r)).due = none) :
    Tracks watched w (o.happenings ttl watched st (.store r)) (o.respond ttl st (.store r)).2 ∧
      ((eventMonitor watched).final w (o.happenings ttl watched st (.store r))).due = none := by
  simp only [Outside.happenings, Outside.respond]
  cases o.failure with
  | none => exact hr true
  | some reached =>
    cases reached with
    | true => exact hr false
    | false => exact ⟨tracks_nil hw, hdue⟩

theorem respond_group {next : StoreAnswer r.Value → Handler GatewayReply} (hr : r.aboutGroup = true)
    (hfits : Fits (.ask (.store r) next) w phase) (hmay : mayAsk watched phase (.store r)) :
    Tracks watched w (o.happenings ttl watched st (.store r)) (o.respond ttl st (.store r)).2 ∧
      Ready ((eventMonitor watched).final w (o.happenings ttl watched st (.store r)))
        (phaseAfter phase (.store r) (o.respond ttl st (.store r)).1) := by
  have hready : Ready w phase := hfits.ready hdue rfl hmay
  simp only [Outside.happenings, Outside.respond]
  cases r with
  | upsertGroup key group =>
    cases o.failure with
    | none => exact ⟨tracks_nil hw, hready⟩
    | some reached => cases reached <;> exact ⟨tracks_nil hw, hready⟩
  | getGroup key =>
    cases o.failure with
    | none => exact ⟨tracks_nil hw, hready⟩
    | some reached => cases reached <;> exact ⟨tracks_nil hw, hready⟩
  | _ => cases hr

variable {next : e.Answer → Handler GatewayReply}

theorem respond_own (hmay : mayAsk watched phase e) (hfits : Fits (.ask e next) w phase) :
    Tracks watched w (o.happenings ttl watched st e) (o.respond ttl st e).2 ∧
      Ready ((eventMonitor watched).final w (o.happenings ttl watched st e))
        (phaseAfter phase e (o.respond ttl st e).1) := by
  cases e with
  | now => exact ⟨tracks_nil hw, hfits.ready hdue rfl hmay⟩
  | fairQueue connectionId bytes => exact ⟨tracks_nil hw, hfits.ready hdue rfl hmay⟩
  | serialQueue key => exact ⟨tracks_nil hw, hfits.ready hdue rfl hmay⟩
  | fence shardId => exact ⟨tracks_nil hw, hfits.ready hdue rfl hmay⟩
  | send event =>
    obtain ⟨rfl, -⟩ := claimed_of_send hmay
    exact ⟨tracks_nil hw, hdue, hfits.1⟩
  | store r =>
    cases r with
    | claimEvent eventId now =>
      obtain ⟨rfl, rfl⟩ := fresh_of_claim hmay
      exact respond_claim o ttl hdue hw now
    | completeEvent eventId reply now =>
      obtain ⟨hphase, rfl⟩ := open_of_complete hmay
      apply respond_close o ttl hdue hw
      intro answered
      apply complete_tracks hdue hw ttl answered reply now
      -- the event is not completed, whether it has been sent or not
      rcases hphase with rfl | rfl
      · exact hfits.1
      · exact hfits
    | releaseEvent eventId =>
      obtain ⟨rfl, rfl⟩ := sent_of_release hmay
      apply respond_close o ttl hdue hw
      intro answered
      exact release_tracks hdue hw ttl answered hfits
    | upsertGroup group row => exact respond_group o ttl hdue hw rfl hfits hmay
    | getGroup group => exact respond_group o ttl hdue hw rfl hfits hmay
    | purgeExpired now => exact absurd hmay not_mayAsk_purge

end

end Handlings

/-! ## The invariant -/

def System.watch (watched : String) (s : System) : Watch := (eventMonitor watched).final .start s.history

def InFlight (watched : String) (w : Watch) (key : String) (p : Handler GatewayReply) : Prop :=
  ∃ phase, p.Follows (eventProtocol key) (endsWell key) phase ∧ (key = watched → Fits p w phase)

structure Between (watched key : String) (phase : Phase) (s : System) : Prop where
  accepts : (eventMonitor watched).Accepts .start s.history
  agrees : (s.watch watched).row.Agrees (s.store.replays.get watched)
  others : ∀ k p, k ≠ key → s.inFlight.get k = some p → InFlight watched (s.watch watched) k p
  own : key = watched → Ready (s.watch watched) phase
  due : key ≠ watched → (s.watch watched).due = none

structure Invariant (watched : String) (s : System) : Prop where
  accepts : (eventMonitor watched).Accepts .start s.history
  agrees : (s.watch watched).row.Agrees (s.store.replays.get watched)
  due : (s.watch watched).due = none
  inFlight : ∀ k p, s.inFlight.get k = some p → InFlight watched (s.watch watched) k p

section Runs

variable {watched key : String} {s s' : System} {phase : Phase}

theorem System.watch_append (s : System) (xs : List Happening) (st : Store)
    (inFlight : KeyedTable String (Handler GatewayReply)) :
    System.watch watched ⟨st, inFlight, s.history ++ xs⟩ = (eventMonitor watched).final (s.watch watched) xs :=
  Monitor.final_append _ _

theorem InFlight.eased (h : InFlight watched w key p) (heased : w.Eased w') : InFlight watched w' key p := by
  obtain ⟨phase, hfollows, hfits⟩ := h
  exact ⟨phase, hfollows, fun hkey => (hfits hkey).eased heased⟩

theorem invariant_start (watched : String) (st : Store) : Invariant watched (.start st) where
  accepts := trivial
  agrees := trivial
  due := rfl
  inFlight := by
    intro k p h
    cases h

theorem Between.goOn (h : Between watched key phase s) (hp : p.Follows (eventProtocol key) (endsWell key) phase) :
    Invariant watched (s.goOn watched key p) := by
  have hwatch : (s.goOn watched key p).watch watched =
      (eventMonitor watched).final (s.watch watched) (Handler.shows watched key p) :=
    System.watch_append s _ _ _
  by_cases hkey : key = watched
  · subst hkey
    obtain ⟨haccepts, w', hfinal, hdue, hrow, hfits⟩ := shows_own hp (h.own rfl)
    rw [hfinal] at hwatch
    refine ⟨Monitor.accepts_append.2 ⟨h.accepts, haccepts⟩, ?_, ?_, ?_⟩
    · rw [hwatch, hrow]
      exact h.agrees
    · rw [hwatch]
      exact hdue
    intro k q hq
    simp only [System.goOn, KeyedTable.get_set] at hq
    split at hq
    · rename_i hk
      cases hq
      subst hk
      exact ⟨phase, hp, fun _ => hwatch ▸ hfits⟩
    -- the handling of another event fits whatever is seen of this one
    · rename_i hk
      obtain ⟨phase', hfollows, -⟩ := h.others k q hk hq
      exact ⟨phase', hfollows, fun hcontra => absurd hcontra hk⟩
  · rw [shows_other hkey hp, Monitor.final_nil] at hwatch
    refine ⟨?_, ?_, ?_, ?_⟩
    · simp only [System.goOn, shows_other hkey hp, List.append_nil]
      exact h.accepts
    · rw [hwatch]
      exact h.agrees
    · rw [hwatch]
      exact h.due hkey
    intro k q hq
    simp only [System.goOn, KeyedTable.get_set] at hq
    rw [hwatch]
    split at hq
    · rename_i hk
      cases hq
      subst hk
      exact ⟨phase, hp, fun hcontra => absurd hcontra hkey⟩
    · rename_i hk
      exact h.others k q hk hq

theorem Invariant.between (h : Invariant watched s) (key : String) : Between watched key .fresh s where
  accepts := h.accepts
  agrees := h.agrees
  others := fun k p _ hp => h.inFlight k p hp
  own := fun _ => h.due
  due := fun _ => h.due

theorem Invariant.answer (h : Invariant watched s)
    (hfollows : Follows (eventProtocol key) (endsWell key) phase (.ask e next))
    (hfits : key = watched → Fits (.ask e next) (s.watch watched) phase) (o : Outside) (ttl : Nat) :
    Between watched key (phaseAfter phase e (o.respond ttl s.store e).1)
      { s with
        store := (o.respond ttl s.store e).2
        history := s.history ++ o.happenings ttl watched s.store e } := by
  have hwatch := @System.watch_append watched s (o.happenings ttl watched s.store e)
    (o.respond ttl s.store e).2 s.inFlight
  by_cases hkey : key = watched
  · subst hkey
    obtain ⟨htracks, hready⟩ := respond_own o ttl h.due h.agrees hfollows.1 (hfits rfl)
    refine ⟨Monitor.accepts_append.2 ⟨h.accepts, htracks.accepts⟩, ?_, ?_, ?_, ?_⟩
    · rw [hwatch]
      exact htracks.agrees
    · intro k p hk hp
      obtain ⟨phase', hfollows', -⟩ := h.inFlight k p hp
      exact ⟨phase', hfollows', fun hcontra => absurd hcontra hk⟩
    · intro _
      rw [hwatch]
      exact hready
    · intro hcontra
      exact absurd rfl hcontra
  · obtain ⟨htracks, heased⟩ := respond_other o ttl hkey hfollows.1 h.due h.agrees
    refine ⟨Monitor.accepts_append.2 ⟨h.accepts, htracks.accepts⟩, ?_, ?_, ?_, ?_⟩
    · rw [hwatch]
      exact htracks.agrees
    · intro k p _ hp
      rw [hwatch]
      exact (h.inFlight k p hp).eased heased
    · intro hcontra
      exact absurd hcontra hkey
    · intro _
      rw [hwatch]
      exact heased.due.trans h.due

theorem step_invariant (cfg : Config) (ttl : Nat) (h : Invariant watched s)
    (hstep : s.step cfg ttl watched m = some s') : Invariant watched s' := by
  cases m with
  | deliver d =>
    simp only [System.step] at hstep
    split at hstep
    · cases hstep
      exact h
    cases hstep
    apply (h.between (eventKey d.input)).goOn
    apply handleSafely_follows
    intro event hevent
    exact d.same_key event hevent
  | answer k o =>
    simp only [System.step] at hstep
    split at hstep
    -- the answered handling follows the protocol from its next phase on
    · rename_i e next hget
      cases hstep
      obtain ⟨phase, hfollows, hfits⟩ := h.inFlight k _ hget
      exact (h.answer hfollows hfits o ttl).goOn (hfollows.2 _)
    · cases hstep
  | settle k =>
    simp only [System.step] at hstep
    split at hstep
    · cases hstep
      refine ⟨h.accepts, h.agrees, h.due, ?_⟩
      intro k' p hp
      simp only [KeyedTable.get_delete] at hp
      split at hp
      · cases hp
      · exact h.inFlight k' p hp
    · cases hstep
  -- a purge only lets the record of the event expire
  | purge now =>
    cases hstep
    have hwatch := @System.watch_append watched s (s.store.lapse watched now)
      (s.store.purgeExpired now) s.inFlight
    obtain ⟨htracks, heased⟩ := lapse_tracks h.due h.agrees now
    refine ⟨Monitor.accepts_append.2 ⟨h.accepts, htracks.accepts⟩, ?_, ?_, ?_⟩
    · rw [hwatch]
      exact htracks.agrees
    · rw [hwatch]
      exact heased.due.trans h.due
    · intro k p hp
      rw [hwatch]
      exact (h.inFlight k p hp).eased heased
  | restart =>
    cases hstep
    refine ⟨h.accepts, h.agrees, h.due, ?_⟩
    intro k p hp
    cases hp

/-- In every run, one call of the transport a claim, and a completed event returns its reply until
it expires or is released. -/
theorem reply_once_per_claim (cfg : Config) (ttl : Nat) (watched : String) (st : Store) {moves : List Move}
    (h : Machine.AnyRun (System.step cfg ttl watched) (.start st) moves s) :
    OncePerClaim watched s.history := by
  have hinv : Invariant watched s := by
    apply h.invariant _ (invariant_start watched st)
    intro t m t' ht _ hstep
    exact step_invariant cfg ttl ht hstep
  exact oncePerClaim_of_accepts hinv.accepts hinv.due

def sampleDelivery : Delivery where
  input := sampleEvent
  validated := .ok sampleEvent
  same_key := by
    intro event h
    cases h
    rfl

def sampleOutside : Outside := ⟨0, .ok (), .ok (), .ok ⟨some "hi", none⟩, none⟩

def sampleMoves : List Move :=
  let key := eventKey sampleEvent
  let answers := fun n => List.replicate n (Move.answer key sampleOutside)
  [.deliver sampleDelivery] ++ answers 2 ++ [.deliver sampleDelivery] ++ answers 5 ++
    [.settle key, .deliver sampleDelivery] ++ answers 2

theorem reply_once_per_claim_sample :
    ∃ s, Machine.AnyRun (System.step sampleConfig 0 (eventKey sampleEvent)) (.start .empty)
        sampleMoves s ∧
      s.history =
        [.claimed .new true, .sent, .completed ⟨["hi"], false, .ryanai⟩,
          .replied (.ok ⟨"e1", ["hi"], false, false, .ryanai⟩),
          .claimed (.completed ⟨["hi"], false, .ryanai⟩) true,
          .replied (.ok ⟨"e1", ["hi"], false, true, .replay⟩)] ∧
      OncePerClaim (eventKey sampleEvent) s.history := by
  have hexec : (Machine.exec (System.step sampleConfig 0 (eventKey sampleEvent)) (.start .empty)
      sampleMoves).map System.history = some
        [.claimed .new true, .sent, .completed ⟨["hi"], false, .ryanai⟩,
          .replied (.ok ⟨"e1", ["hi"], false, false, .ryanai⟩),
          .claimed (.completed ⟨["hi"], false, .ryanai⟩) true,
          .replied (.ok ⟨"e1", ["hi"], false, true, .replay⟩)] := rfl
  obtain ⟨s, hs, hhistory⟩ := Option.map_eq_some_iff.1 hexec
  have hrun := Machine.anyRun_of_exec hs
  exact ⟨s, hrun, hhistory, reply_once_per_claim sampleConfig 0 (eventKey sampleEvent) .empty hrun⟩

end Runs

end RyanAI.Gateway
