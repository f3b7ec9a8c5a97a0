import Mathlib
import RyanAI.Lib.Interleaving
import RyanAI.Lib.Vouchers
import RyanAI.Mfa.AccountInvariant
import RyanAI.Mfa.Protocol

/-!
# Requests that race for one account

Any number of operations on the row of one user, interleaved at their questions. A save takes effect only on the row
that its operation has read: same revision, session stamp and password, and active. Revisions, tokens and secrets are
drawn fresh. The database may fail, also after a save has taken effect; the clock may show anything.

The saves that take effect are saves of the account one after the other (`Sound.account`), so that the bounds of
`Account.Bounded` hold of them. A code is compared on a row that counts it, and each row gives way to one comparison.
-/

namespace RyanAI.Mfa

open RyanAI.Lib
open RyanAI.Lib.FreshNames (Names)
open RyanAI.Lib.Interleaving (Conf Reaches)

-- the revision of a row may be absent
local instance revisionLawful : LawfulBEq (Option String) := inferInstance

/-! ## The system -/

structure Save where
  process : ℕ
  revision : Option String
  why : Purpose

abbrev Evaluation := Option String × Option String × Option ℤ

structure System where
  row : Auth
  /-- All the rows there have been, the current one first. -/
  history : List Auth
  names : Names Name
  saves : List Save
  evaluations : List Evaluation

namespace System

def start (row : Auth) : System := ⟨row, [row], ⟨[], []⟩, [], []⟩

def log (s : System) : List Purpose := s.saves.map Save.why

def authentications (s : System) (hash : String) : ℕ := (s.log.filterMap Purpose.recovery).count hash

def acceptedSteps (s : System) (secret : String) : List ℤ := s.log.filterMap (Purpose.stepOf secret)

def successes (s : System) (challenge : String) : ℕ := (s.log.filterMap Purpose.success).count challenge

def redemptions (s : System) (ticket : String) : ℕ := (s.log.filterMap Purpose.ticket).count ticket

def evaluatedFor (s : System) (challenge : String) : ℕ := s.evaluations.countP fun e => e.2.1 = some challenge

def evaluatedIn (s : System) (window : ℤ) : ℕ := s.evaluations.countP fun e => e.2.2 = some window

end System

structure Choice where
  /-- The database fails. -/
  fails : Bool
  /-- A save has taken effect all the same. -/
  applied : Bool
  time : ℤ
  /-- What is drawn, and what is drawn with it. -/
  text : String
  second : String
  role : Option String
  enabled : Bool

/-- The condition of `update_mfa_by_id`. -/
def Auth.unchanged (row auth : Auth) : Bool :=
  row.id = auth.id ∧ row.active ∧ row.password = auth.password ∧ row.sessionStamp = auth.sessionStamp ∧
    row.revision = auth.revision

/-- The row that the update of `update_mfa_by_id` leaves. -/
def System.update (s : System) (i : ℕ) (auth : Auth) (mfa : MfaData) (revoke : Bool) (why : Purpose)
    (revision stamp : String) : System :=
  let row := { s.row with
    mfa := some (revision, mfa)
    sessionStamp := if revoke then some stamp else auth.sessionStamp }
  { s with
    row := row
    history := row :: s.history
    names := s.names.place why.names
    saves := ⟨i, some revision, why⟩ :: s.saves }

/-- `Auths.get_auth_by_id`. -/
def System.read (s : System) (k : Choice) (userId : String) : Except Unit (Option Auth) :=
  if k.fails then .error ()
  else if s.row.id = userId then .ok (some s.row)
  else .ok none

/-- `Auths.update_mfa_by_id` and the commit. -/
def System.save (s : System) (i : ℕ) (k : Choice) (auth : Auth) (mfa : MfaData) (revoke : Bool) (why : Purpose) :
    System × Except Unit (Option (String × String)) :=
  if s.row.unchanged auth then
    if k.fails then
      if k.applied then (s.update i auth mfa revoke why k.text k.second, .error ()) else (s, .error ())
    else (s.update i auth mfa revoke why k.text k.second, .ok (some (k.text, k.second)))
  else if k.fails then (s, .error ())
  else (s, .ok none)

/-- The answer to a question of the process `i`. What is drawn has to be fresh. -/
def answer (setup : Setup) (i : ℕ) (s : System) (k : Choice) : (e : Effect) → Option (System × e.Answer)
  | .getAuth userId => some (s, s.read k userId)
  | .save auth mfa revoke why =>
    if some k.text ∈ s.history.map Auth.revision then none else some (s.save i k auth mfa revoke why)
  | .now => some (s, k.time)
  | .newToken pre =>
    let token := pre ++ k.text
    if .digest (setup.tokenHash token) ∈ s.names.drawn.map Prod.snd then none
    else some ({ s with names := s.names.draw i (.digest (setup.tokenHash token)) }, token)
  | .newSecret =>
    if .secret k.text ∈ s.names.drawn.map Prod.snd then none
    else some ({ s with names := s.names.draw i (.secret k.text) }, (k.text, k.second))
  | .getUserRole _ => some (s, k.role)
  | .getMfaConfig => some (s, k.enabled)
  | .evaluate auth challenge =>
    some ({ s with evaluations := (auth.revision, challenge, auth.data.limit.map MfaLimit.expiresAt) ::
      s.evaluations }, ())

def next (setup : Setup) (i : ℕ) (s : System) (p : Operation Unit) (k : Choice) : Option (System × Operation Unit) :=
  match p with
  | .done _ => none
  | .ask e rest => (answer setup i s k e).map fun r => (r.1, rest r.2)

def requests (setup : Setup) (row : Auth) (calls : List Call) : Conf System (Operation Unit) :=
  ⟨.start row, calls.map (Call.program setup row.id)⟩

variable {setup : Setup} {row : Auth} {s : System} {k : Choice} {calls : List Call}

namespace System

def issued (s : System) : List (ℕ × Evaluation) :=
  s.saves.map fun save => (save.process, save.revision, save.why.tried, save.why.window)

def account (s : System) : Account := ⟨s.row.data, s.names.placed, s.log⟩

/-- Rows differ in revision, names are drawn once, and the saves follow each other. -/
structure Sound (setup : Setup) (s : System) : Prop where
  current : s.row ∈ s.history
  revisions : (s.history.map Auth.revision).Nodup
  names : s.names.Consistent
  known : ∀ save ∈ s.saves, save.revision ∈ s.history.map Auth.revision
  vouchers : Vouchers.Sound s.issued s.evaluations
  windows : ∀ e ∈ s.evaluations, e.2.2.isSome = true
  account : Account.Reaches setup .empty s.account

/-- Process `i` has seen a row of the history, and holds its names and the voucher of its
attempt. -/
structure Knows (s : System) (i : ℕ) (phase : Phase) : Prop where
  snapshot : ∀ auth, phase.snapshot = some auth → auth ∈ s.history
  attempted : ∀ auth challenge, phase.snapshot = some auth → phase.attempted = some challenge →
    (auth.data.limit.map MfaLimit.expiresAt).isSome = true ∧ Vouchers.Unused s.issued s.evaluations i
      (auth.revision, challenge, auth.data.limit.map MfaLimit.expiresAt)
  held : s.names.Held i phase.held
  saved : ∀ why, phase.saved = some why → ∃ save ∈ s.saves, save.process = i ∧ save.why = why

theorem sound_start (hrow : row.mfa = none) : (start row).Sound setup where
  current := List.mem_singleton.2 rfl
  revisions := List.nodup_singleton _
  names := Names.consistent_nil
  known _ h := absurd h List.not_mem_nil
  vouchers := Vouchers.sound_nil
  windows _ h := absurd h List.not_mem_nil
  account := by
    have hempty : (start row).account = .empty := by
      rw [account, start, Auth.data, hrow]
      rfl
    rw [hempty]

theorem knows_start (i : ℕ) : s.Knows i .start where
  snapshot _ h := absurd h.symm (Option.some_ne_none _)
  attempted _ _ h := absurd h.symm (Option.some_ne_none _)
  held := Names.held_nil
  saved _ h := absurd h.symm (Option.some_ne_none _)

end System

section Steps

variable {setup : Setup} {s : System} {i j : ℕ} {phase phase' : Phase} {auth : Auth} {mfa : MfaData} {revoke : Bool}
  {why : Purpose} {revision stamp : String}

theorem Auth.unchanged_iff : row.unchanged auth = true ↔
    row.id = auth.id ∧ row.active = true ∧ row.password = auth.password ∧ row.sessionStamp = auth.sessionStamp ∧
      row.revision = auth.revision := by
  rw [Auth.unchanged, decide_eq_true_eq]

namespace System

theorem Sound.row_eq (hs : s.Sound setup) (hk : s.Knows i phase) (hsnapshot : phase.snapshot = some auth)
    (hunchanged : s.row.unchanged auth = true) : s.row = auth :=
  List.inj_on_of_nodup_map hs.revisions hs.current (hk.snapshot auth hsnapshot)
    (Auth.unchanged_iff.1 hunchanged).2.2.2.2

theorem Sound.not_issued (hs : s.Sound setup) (hfresh : some revision ∉ s.history.map Auth.revision) :
    some revision ∉ s.issued.map fun v => v.2.1 := by
  intro hmem
  obtain ⟨v, hv, hrevision⟩ := List.mem_map.1 hmem
  obtain ⟨save, hsave, rfl⟩ := List.mem_map.1 hv
  exact hfresh (hrevision ▸ hs.known save hsave)

theorem Sound.update (hs : s.Sound setup) (hheld : s.names.Held i phase.held)
    (hallowed : Allowed setup s.row.data why mfa) (hnames : why.names.Sublist phase.held)
    (hfresh : some revision ∉ s.history.map Auth.revision) :
    (s.update i auth mfa revoke why revision stamp).Sound setup where
  current := List.mem_cons_self
  revisions := List.nodup_cons.2 ⟨hfresh, hs.revisions⟩
  names := hs.names.place (hheld.sublist hnames)
  known := by
    intro save hsave
    rcases List.mem_cons.1 hsave with rfl | hsave
    · exact List.mem_cons_self
    · exact List.mem_cons_of_mem _ (hs.known save hsave)
  vouchers := Vouchers.Sound.issue (v := (some revision, why.tried, why.window)) hs.vouchers (hs.not_issued hfresh)
  windows := hs.windows
  account := by
    have hput := hheld.sublist hnames
    have hstep : Account.Step setup s.account ⟨mfa, why.names ++ s.names.placed, why :: s.log⟩ :=
      .save hallowed hput.nodup hput.unplaced
    exact hs.account.tail hstep

theorem Knows.update (hk : s.Knows j phase) (hheld : (s.names.place why.names).Held j phase.held) :
    (s.update i auth mfa revoke why revision stamp).Knows j phase where
  snapshot auth h := List.mem_cons_of_mem _ (hk.snapshot auth h)
  attempted auth challenge h h' := (hk.attempted auth challenge h h').imp_right fun hunused => hunused.issue
  held := hheld
  saved why h := by
    obtain ⟨save, hsave, hsaved⟩ := hk.saved why h
    exact ⟨save, List.mem_cons_of_mem _ hsave, hsaved⟩

theorem kind_of_attempted (hallowed : Allowed setup before why mfa) (hattempted : why.attempted = some challenge) :
    (mfa.limit.map MfaLimit.expiresAt).isSome = true ∧
      (challenge, mfa.limit.map MfaLimit.expiresAt) = (why.tried, why.window) := by
  cases why with
  | attempt challenge' w =>
    cases hattempted
    rw [(hallowed.window.1 w rfl).expiresAt]
    exact ⟨rfl, rfl⟩
  | _ => cases hattempted

theorem Sound.knows_saved (hs : s.Sound setup) (hallowed : Allowed setup auth.data why mfa) (hrow : s.row = auth)
    (hfresh : some revision ∉ s.history.map Auth.revision) :
    (s.update i auth mfa revoke why revision stamp).Knows i (.save (auth.saved mfa revoke revision stamp) why) where
  snapshot := by
    rintro _ ⟨⟩
    rw [← hrow]
    exact List.mem_cons_self
  attempted := by
    rintro _ challenge ⟨⟩ hattempted
    obtain ⟨hwindow, hkind⟩ := kind_of_attempted hallowed hattempted
    refine ⟨hwindow, ?_⟩
    show Vouchers.Unused _ _ i (some revision, (challenge, mfa.limit.map MfaLimit.expiresAt))
    rw [hkind]
    exact Vouchers.Sound.unused_new (v := (some revision, why.tried, why.window)) hs.vouchers (hs.not_issued hfresh)
  held := Names.held_nil
  saved := by
    rintro _ ⟨⟩
    exact ⟨_, List.mem_cons_self, rfl, rfl⟩

theorem Knows.release (hk : s.Knows i phase) : s.Knows i { phase with held := [] } :=
  ⟨hk.snapshot, hk.attempted, Names.held_nil, hk.saved⟩

/-! ### Drawing and comparing -/

theorem Sound.draw (hs : s.Sound setup) (hx : x ∉ s.names.drawn.map Prod.snd) :
    ({ s with names := s.names.draw i x } : System).Sound setup :=
  ⟨hs.current, hs.revisions, hs.names.draw hx, hs.known, hs.vouchers, hs.windows, hs.account⟩

theorem Knows.draw (hk : s.Knows j phase) (x : Name) : ({ s with names := s.names.draw i x } : System).Knows j phase :=
  ⟨hk.snapshot, hk.attempted, hk.held.draw, hk.saved⟩

theorem Knows.draw_self (hk : s.Knows i phase) (hs : s.Sound setup) (hx : x ∉ s.names.drawn.map Prod.snd) :
    ({ s with names := s.names.draw i x } : System).Knows i (phase.hold [x]) :=
  ⟨hk.snapshot, hk.attempted, hk.held.draw_self hs.names hx, hk.saved⟩

theorem Sound.evaluate (hs : s.Sound setup) (hwindow : v.2.2.isSome = true)
    (hv : Vouchers.Unused s.issued s.evaluations i v) :
    ({ s with evaluations := v :: s.evaluations } : System).Sound setup :=
  ⟨hs.current, hs.revisions, hs.names, hs.known, hs.vouchers.use hv, List.forall_mem_cons.2 ⟨hwindow, hs.windows⟩,
    hs.account⟩

theorem Knows.evaluate_self (hk : s.Knows i phase) (v : Evaluation) :
    ({ s with evaluations := v :: s.evaluations } : System).Knows i { phase with attempted := none } :=
  ⟨hk.snapshot, fun _ _ _ h => absurd h.symm (Option.some_ne_none _), hk.held, hk.saved⟩

theorem Knows.evaluate (hk : s.Knows j phase) (hs : s.Sound setup)
    (hv : Vouchers.Unused s.issued s.evaluations i v) (hij : i ≠ j) :
    ({ s with evaluations := v :: s.evaluations } : System).Knows j phase :=
  ⟨hk.snapshot, fun auth challenge h h' => (hk.attempted auth challenge h h').imp_right
    fun hunused => hunused.use hs.vouchers hv (Ne.symm hij), hk.held, hk.saved⟩

theorem Knows.read (hk : s.Knows i phase) (hs : s.Sound setup) (k : Choice) (userId : String) :
    s.Knows i (phaseAfter setup phase (.getAuth userId) (s.read k userId)) := by
  rw [System.read]
  split
  · exact hk
  split
  · refine ⟨?_, fun _ _ _ h => absurd h.symm (Option.some_ne_none _), hk.held, hk.saved⟩
    rintro _ ⟨⟩
    exact hs.current
  · exact hk

theorem Sound.save (hs : s.Sound setup) (hk : s.Knows i phase) (hmay : mayAsk setup phase (.save auth mfa revoke why))
    (hfresh : some k.text ∉ s.history.map Auth.revision) :
    (s.save i k auth mfa revoke why).1.Sound setup ∧
      (s.save i k auth mfa revoke why).1.Knows i
        (phaseAfter setup phase (.save auth mfa revoke why) (s.save i k auth mfa revoke why).2) ∧
      ∀ j phase', i ≠ j → s.Knows j phase' → (s.save i k auth mfa revoke why).1.Knows j phase' := by
  obtain ⟨hsnapshot, hallowed, hnames⟩ := hmay
  rw [System.save]
  split
  · rename_i hunchanged
    have hrow := hs.row_eq hk hsnapshot hunchanged
    have hsound : (s.update i auth mfa revoke why k.text k.second).Sound setup :=
      hs.update hk.held (hrow.symm ▸ hallowed) hnames hfresh
    have hother : ∀ j phase', i ≠ j → s.Knows j phase' →
        (s.update i auth mfa revoke why k.text k.second).Knows j phase' :=
      fun j phase' hij hj => hj.update (hj.held.place hs.names (hk.held.sublist hnames) hij)
    split
    -- the process is told of a failure, whether or not the save has taken effect
    · split
      · exact ⟨hsound, hk.release.update Names.held_nil, hother⟩
      · exact ⟨hs, hk.release, fun j phase' _ hj => hj⟩
    · exact ⟨hsound, hs.knows_saved hallowed hrow hfresh, hother⟩
  · split <;> exact ⟨hs, hk.release, fun j phase' _ hj => hj⟩

end System

theorem answer_sound (hs : s.Sound setup) (hk : s.Knows i phase)
    (hmay : mayAsk setup phase e) (h : answer setup i s k e = some (s', r)) :
    s'.Sound setup ∧ s'.Knows i (phaseAfter setup phase e r) ∧
      ∀ j phase', i ≠ j → s.Knows j phase' → s'.Knows j phase' := by
  cases e with
  | getAuth userId =>
    cases h
    exact ⟨hs, hk.read hs k userId, fun j phase' _ hj => hj⟩
  | save auth mfa revoke why =>
    rw [answer] at h
    split at h
    · cases h
    · rename_i hfresh
      have hsaved := hs.save hk hmay hfresh
      rwa [Option.some.inj h] at hsaved
  | newToken pre =>
    rw [answer] at h
    split at h
    · cases h
    · rename_i hx
      cases h
      exact ⟨hs.draw hx, hk.draw_self hs hx, fun j phase' _ hj => hj.draw _⟩
  | newSecret =>
    rw [answer] at h
    split at h
    · cases h
    · rename_i hx
      cases h
      exact ⟨hs.draw hx, hk.draw_self hs hx, fun j phase' _ hj => hj.draw _⟩
  | evaluate auth challenge =>
    cases h
    obtain ⟨hwindow, hv⟩ := hk.attempted auth challenge hmay.1 hmay.2
    exact ⟨hs.evaluate hwindow hv, hk.evaluate_self _, fun j phase' hij hj => hj.evaluate hs hv hij⟩
  | now =>
    cases h
    exact ⟨hs, hk, fun j phase' _ hj => hj⟩
  | getUserRole userId =>
    cases h
    exact ⟨hs, hk, fun j phase' _ hj => hj⟩
  | getMfaConfig =>
    cases h
    exact ⟨hs, hk, fun j phase' _ hj => hj⟩

end Steps

/-! ## Runs -/

/-- The process `i` runs its call, and relies on what its phase says. -/
def OnTrack (setup : Setup) (calls : List Call) (i : ℕ) (p : Operation Unit) (s : System) : Prop :=
  ∀ call, calls[i]? = some call → ∃ phase, s.Knows i phase ∧
    p.Follows (mfaProtocol setup)
      (Program.Returns fun phase _ => call.Saved setup fun why => phase.saved = some why) phase

theorem next_sound (hlt : i < calls.length) (hs : s.Sound setup)
    (hp : OnTrack setup calls i p s) (h : next setup i s p k = some (s', p')) :
    s'.Sound setup ∧ OnTrack setup calls i p' s' ∧
      ∀ j q, i ≠ j → OnTrack setup calls j q s → OnTrack setup calls j q s' := by
  obtain ⟨phase, hk, hfollows⟩ := hp calls[i] (List.getElem?_eq_getElem hlt)
  cases p with
  | done result => cases h
  | ask e rest =>
    obtain ⟨⟨_, r⟩, hanswer, heq⟩ := Option.map_eq_some_iff.1 h
    cases heq
    obtain ⟨hs', hk', hother⟩ := answer_sound hs hk hfollows.1 hanswer
    refine ⟨hs', ?_, ?_⟩
    · intro call hcall
      cases (List.getElem?_eq_getElem hlt).symm.trans hcall
      exact ⟨_, hk', hfollows.2 r⟩
    · intro j q hij hq call hcall
      obtain ⟨phase', hknows, hqfollows⟩ := hq call hcall
      exact ⟨phase', hother j phase' hij hknows, hqfollows⟩

theorem onTrack_requests (hp : (requests setup row calls).procs[i]? = some p) :
    OnTrack setup calls i p (requests setup row calls).shared := by
  intro call hcall
  have hmap : (calls.map (Call.program setup row.id))[i]? = some p := hp
  rw [List.getElem?_map, hcall] at hmap
  cases hmap
  exact ⟨.start, System.knows_start i, follows_program setup row.id call⟩

theorem sound_of_reaches (hrow : row.mfa = none) (hr : Reaches (next setup) (requests setup row calls) c) :
    c.shared.Sound setup ∧ ∀ i p, c.procs[i]? = some p → i < calls.length ∧ OnTrack setup calls i p c.shared := by
  have hstart : Interleaving.Holds (System.Sound setup)
      (fun i p s => i < calls.length ∧ OnTrack setup calls i p s) (requests setup row calls) := by
    refine ⟨System.sound_start hrow, ?_⟩
    intro i p hp
    refine ⟨?_, onTrack_requests hp⟩
    have hlt := (List.getElem?_eq_some_iff.1 hp).1
    rwa [requests, List.length_map] at hlt
  refine Interleaving.invariant_of_frame ?_ ?_ hr hstart
  · rintro i k s p s' p' - hs ⟨hlt, hp⟩ hnext
    obtain ⟨hs', hp', -⟩ := next_sound hlt hs hp hnext
    exact ⟨hs', hlt, hp'⟩
  · rintro i j k s p s' p' q hij - hs ⟨hlt, hp⟩ ⟨hlt', hq⟩ hnext
    obtain ⟨-, -, hother⟩ := next_sound hlt hs hp hnext
    exact ⟨hlt', hother j q hij hq⟩

namespace System

theorem Sound.evaluatedFor_le (hs : s.Sound setup) (challenge : String) :
    s.evaluatedFor challenge ≤ (s.log.filterMap Purpose.tried).count challenge := by
  have hle := hs.vouchers.countP_le fun kind => decide (kind.1 = some challenge)
  rw [issued, List.countP_map] at hle
  rw [log, List.filterMap_map, List.count, List.countP_filterMap]
  refine hle.trans (le_of_eq (List.countP_congr ?_))
  intro save _
  cases htried : save.why.tried <;> simp [htried]

theorem Sound.evaluatedIn_le (hs : s.Sound setup) (window : ℤ) :
    s.evaluatedIn window ≤ (s.log.filterMap Purpose.window).count window := by
  have hle := hs.vouchers.countP_le fun kind => decide (kind.2 = some window)
  rw [issued, List.countP_map] at hle
  rw [log, List.filterMap_map, List.count, List.countP_filterMap]
  refine hle.trans (le_of_eq (List.countP_congr ?_))
  intro save _
  cases hwindow : save.why.window <;> simp [hwindow]

end System

/-- Recovery codes, steps, challenges and tickets are used once, five comparisons a challenge and
ten a window, and what a call returns for is saved. -/
theorem factors_single_use_and_limited (setup : Setup) {row : Auth} (hrow : row.mfa = none) (calls : List Call)
    {c : Conf System (Operation Unit)} (hr : Reaches (next setup) (requests setup row calls) c) :
    (∀ hash, c.shared.authentications hash ≤ 1) ∧
      (∀ secret, (c.shared.acceptedSteps secret).Pairwise fun later earlier => earlier < later) ∧
      (∀ challenge, c.shared.successes challenge ≤ 1 ∧ c.shared.evaluatedFor challenge ≤ 5) ∧
      (∀ ticket, c.shared.redemptions ticket ≤ 1) ∧
      (∀ e ∈ c.shared.evaluations, e.2.2.isSome = true) ∧
      (∀ window, c.shared.evaluatedIn window ≤ 10) ∧
      ∀ (i : ℕ) call, calls[i]? = some call → c.procs[i]? = some (.done (.ok ())) →
        call.Saved setup fun why => ∃ save ∈ c.shared.saves, save.process = i ∧ save.why = why := by
  obtain ⟨hs, hprocs⟩ := sound_of_reaches hrow hr
  have hbounded := Account.bounded_of_reaches hs.account
  refine ⟨hbounded.recovery, hbounded.steps, ?_, hbounded.ticket, hs.windows, ?_, ?_⟩
  · intro challenge
    exact ⟨hbounded.success challenge, (hs.evaluatedFor_le challenge).trans (hbounded.tried challenge)⟩
  · intro window
    exact (hs.evaluatedIn_le window).trans (hbounded.window window)
  · intro i call hcall hdone
    obtain ⟨phase, hknows, hsaved⟩ := (hprocs i _ hdone).2 call hcall
    have hcallSaved : call.Saved setup fun why => phase.saved = some why := hsaved
    exact hcallSaved.mono hknows.saved

def enrollmentCalls : List Call :=
  [.startLogin "password" none none, .startEnrollment "u.t", .confirmEnrollment "u.t" "602287"]

def enrollmentSetup : Setup where
  tokenHash token := (OrderedMap.get token
    [("u.t", "847f39eca2249103ce79b26a79a2150f4345f40bfb7f2a3faea69b7658cfe2c5"),
      ("0", "5feceb66ffc86f38d952786c6d696c79c2dbc239dd4e91b46729d73a27fb57e9"),
      ("1", "6b86b273ff34fce19d6b804eff5a3f5747ada4eaa22f1d49c01e52ddb7875b4b"),
      ("2", "d4735e3a265e16eee03f59718b9b5d03019c07d8b6c51f90da3a666eec13ab35"),
      ("3", "4e07408562bedb8b60ce05c1decfe3ad16b72230967de01f640b7e4729b49fce"),
      ("4", "4b227777d4dd1fc61c6f884f48641d02b4d121d3fd328cb08b5531fcacdabf8a"),
      ("5", "ef2d127de37b942baad06145e54b0c619a1f22327b2ebbcfbec78f5564afe39d"),
      ("6", "e7f6c011776e8db7cd330b54174fd76f7d0216b612387a5ffcfb81e6f0919683"),
      ("7", "7902699be42c8a8e46fbbb4501726517e86b22c56a189f7625a6da49081b2451"),
      ("8", "2c624232cdd221771294dfbb310aca000a0df6ac8b66b696d90ef06fdefb64a3"),
      ("9", "19581e27de7ced00ff1ce50b2047e7a567c76b1cbaebabe5ef03f7c3017bb5b7")]).getD token
  strip text := text
  lower text := text
  totpAt _ _ := "602287"
  encrypt _ secret := secret
  decrypt encrypted := some encrypted
  decrypt_encrypt _ _ := rfl

def newRow : Auth := ⟨"u", "p", true, none, some "s"⟩

def drawing (text : String) : Choice := ⟨false, false, 60, text, "", some "user", true⟩

def enrollmentRun : List (ℕ × Choice) :=
  ["", "", "t", "", "r1"].map (fun text => (0, drawing text)) ++
    ["", "", "", "", "JBSWY3DPEHPK3PXP", "r2"].map (fun text => (1, drawing text)) ++
    ["", "", "", "", "", "r3", "", ""].map (fun text => (2, drawing text)) ++
    (["0", "1", "2", "3", "4", "5", "6", "7", "8", "9", "r4"].map fun text => (2, drawing text))

theorem factors_single_use_and_limited_enrolled :
    ∃ c, Interleaving.runSchedule (next enrollmentSetup) (requests enrollmentSetup newRow enrollmentCalls)
        enrollmentRun = some c ∧
      c.shared.acceptedSteps "JBSWY3DPEHPK3PXP" = [2] ∧ (∀ challenge, c.shared.successes challenge ≤ 1) := by
  have hrow : newRow.mfa = none := rfl
  refine ⟨_, rfl, rfl, ?_⟩
  intro challenge
  have hr := Interleaving.reaches_of_runSchedule
    (show Interleaving.runSchedule (next enrollmentSetup) (requests enrollmentSetup newRow enrollmentCalls)
      enrollmentRun = some _ from rfl)
  exact ((factors_single_use_and_limited enrollmentSetup hrow enrollmentCalls hr).2.2.1 challenge).1

end RyanAI.Mfa
