import RyanAI.Automations.ClaimDue
import RyanAI.Automations.Recurrence
import RyanAI.Lib.Double
import RyanAI.Lib.TimeZone

/-!
# The next run of an automation

`next_run_ns` looks for the next occurrence on the clock of the user's zone and reads the wall time with `fold=0`. In
the second pass of a repeated hour, a later wall time may be read as a time of the first pass, which is over
(`SetBackOver`). This is the only way in which a run is not later than the current time (`next_run_later_iff`).
-/

namespace RyanAI.Automations.Recurrence

open RyanAI.Lib RyanAI.Lib.Ascending RyanAI.Lib.TimeZone RyanAI.Lib.Interleaving

structure Clock where
  micros : Int
  inRange : -2 ^ 63 ≤ micros * 1000 ∧ micros * 1000 < 2 ^ 63

def Clock.ns (now : Clock) : Int := now.micros * 1000

/-- `datetime.now(zi).replace(tzinfo=None)`, in microseconds. -/
def Clock.naive (now : Clock) (zone : Zone) : Int := zone.wall (now.micros / 1000000) * 1000000 + now.micros % 1000000

section

variable {D : Type} (cal : Calendar D) (zoneInfo : String → Option Zone) (server : Zone)

/-- `_resolve_tz`; `zoneInfo` is `ZoneInfo`. -/
def resolveTz (tz : Option String) : Option Zone := tz.bind fun key => if key = "" then none else zoneInfo key

def zoneOf (tz : Option String) : Zone := (resolveTz zoneInfo tz).getD server

/-- `next_run_ns`, when the evaluation does not time out. -/
def nextRunNs (s : Text D) (tz : Option String) (now : Clock) : Except RuleError (Option Int) :=
  let zone := zoneOf zoneInfo server tz
  match nextOccurrences cal s (now.naive zone) 1 with
  | .error e => .error e
  | .ok [] => .ok none
  | .ok (dt :: _) => .ok (some (Double.round (zone.time dt * 1000000000)))

/-- The moment at which `claim_due` evaluates a rule. -/
structure Evaluation where
  now : Clock
  timedOut : Bool

/-- `next_run_ns` as `claim_due` calls it. -/
def nextRunOf (parse : String → Option (Text D)) (rrule : String) (tz : Option String) (e : Evaluation) :
    Except RecurrenceError (Option Int) :=
  match parse rrule with
  | none => .error .invalid
  | some s =>
    if e.timedOut then .error .timeout
    else match nextRunNs cal zoneInfo server s tz e.now with
    | .error _ => .error .invalid
    | .ok t => .ok t

end

variable {D : Type} {cal : Calendar D} {zoneInfo : String → Option Zone} {server : Zone}

def SetBackOver (cal : Calendar D) (zone : Zone) (s : Text D) (now : Clock) : Prop :=
  ∃ rule, parseRule cal s (now.naive zone) = .ok rule ∧
    ∃ x ∈ cal.occurrences rule, now.naive zone < x * 1000000 ∧ zone.SetBack (now.micros / 1000000) x

theorem round_time_later_iff (zone : Zone) (now : Clock) (hx : now.naive zone < x * 1000000) :
    now.ns < Double.round (zone.time x * 1000000000) ↔ ¬zone.SetBack (now.micros / 1000000) x := by
  have hwall : zone.wall (now.micros / 1000000) < x := by
    rw [Clock.naive] at hx
    omega
  obtain ⟨hmin, hmax⟩ := now.inRange
  rw [Clock.ns]
  rcases zone.time_lt_or_gt hwall with ⟨hset, hlt⟩ | ⟨hset, hgt⟩
  · have hround : Double.round (zone.time x * 1000000000) ≤ now.micros * 1000 :=
      Double.round_le hmax hmin (by omega)
    exact iff_of_false (by omega) fun hnot => hnot hset
  · exact iff_of_true (Double.lt_round hmax hmin (by omega)) hset

theorem next_run_later_iff (s : Text D) (tz : Option String) (now : Clock) :
    (∀ t, nextRunNs cal zoneInfo server s tz now = .ok (some t) → now.ns < t) ↔
      ¬SetBackOver cal (zoneOf zoneInfo server tz) s now := by
  generalize hzone : zoneOf zoneInfo server tz = zone
  simp only [nextRunNs, hzone, nextOccurrences]
  cases hparse : parseRule cal s (now.naive zone) with
  | error e =>
    refine iff_of_true (fun t h => by cases h) ?_
    rintro ⟨rule, hrule, -⟩
    cases hparse.symm.trans hrule
  | ok rule =>
    have hloop := nextLoop_eq cal rule 1 (now.naive zone)
    cases hlater : later (now.naive zone) (cal.occurrences rule) with
    | nil =>
      rw [hlater] at hloop
      simp only [hloop, List.take_nil]
      refine iff_of_true (fun t h => by cases h) ?_
      rintro ⟨rule', hrule, x, hx, hlt, -⟩
      obtain rfl := Except.ok.inj (hparse.symm.trans hrule)
      have hmem : x ∈ later (now.naive zone) (cal.occurrences rule) := mem_beyond.2 ⟨hx, by omega⟩
      rw [hlater] at hmem
      cases hmem
    | cons x rest =>
      rw [hlater] at hloop
      have hx : x ∈ later (now.naive zone) (cal.occurrences rule) := hlater ▸ List.mem_cons_self
      obtain ⟨hxmem, hxlt⟩ := mem_beyond.1 hx
      simp only [hloop, List.take_succ_cons, List.take_zero, Except.ok.injEq, Option.some.injEq, forall_eq']
      rw [round_time_later_iff zone now (by omega)]
      refine not_congr ⟨fun hset => ⟨rule, hparse, x, hxmem, by omega, hset⟩, ?_⟩
      -- the first occurrence comes before any other from behind which the clock has been set back
      rintro ⟨rule', hrule, y, hy, hlt, c, hc, hct, hback, hyc⟩
      obtain rfl := Except.ok.inj (hparse.symm.trans hrule)
      have hymem : y ∈ later (now.naive zone) (cal.occurrences rule) := mem_beyond.2 ⟨hy, by omega⟩
      have hxy : x ≤ y := by
        have hsorted := (cal.ascending rule).filter fun y => decide (now.naive zone / 1000000 < y)
        rw [← beyond, ← later, hlater] at hsorted
        rw [hlater] at hymem
        rcases List.mem_cons.1 hymem with rfl | hymem
        · exact le_refl _
        · exact ((List.pairwise_cons.1 hsorted).1 y hymem).le
      exact ⟨c, hc, hct, hback, by omega⟩

/-- A `next_run_at` that is stored, or about to be, is later than `now_ns`. -/
def StoresLater : Worker → Prop
  | .evaluating now_ns _ claimed => ∀ c ∈ claimed, ∀ t ∈ c.next_run_at, now_ns < t
  | .flushing now_ns claimed flushed => ∀ c ∈ claimed ++ flushed, ∀ t ∈ c.next_run_at, now_ns < t
  | _ => True

def EvaluatedInTime (cal : Calendar D) (zoneInfo : String → Option Zone) (server : Zone)
    (parse : String → Option (Text D)) (timezone : String → Option String) (c : Conf Db Worker) (i : Nat)
    (k : Choice Evaluation) : Prop :=
  ∀ now_ns row rows claimed e, c.procs[i]? = some (.evaluating now_ns (row :: rows) claimed) → k = .proceed e →
    now_ns ≤ e.now.ns ∧ ∀ s, parse row.2.rrule = some s →
      ¬SetBackOver cal (zoneOf zoneInfo server (timezone row.2.user_id)) s e.now

section Claims

variable {parse : String → Option (Text D)} {timezone : String → Option String} {dialect : Dialect}

theorem nextRunOf_later (hnow : now_ns ≤ e.now.ns)
    (htime : ∀ s, parse rrule = some s → ¬SetBackOver cal (zoneOf zoneInfo server tz) s e.now)
    (h : nextRunOf cal zoneInfo server parse rrule tz e = .ok next_run_at) : ∀ t ∈ next_run_at, now_ns < t := by
  rintro t ht
  rw [nextRunOf] at h
  cases hparse : parse rrule with
  | none =>
    rw [hparse] at h
    cases h
  | some s =>
    simp only [hparse] at h
    have hlater := (next_run_later_iff s tz e.now).2 (htime s hparse)
    split at h
    · cases h
    split at h
    · cases h
    · rename_i t' hnext
      cases h
      exact lt_of_le_of_lt hnow (hlater t (by rw [hnext, ht]))

theorem storesLater_next (hw : StoresLater w)
    (hok : ∀ now_ns row rows claimed e, w = .evaluating now_ns (row :: rows) claimed → k = .proceed e →
      now_ns ≤ e.now.ns ∧ ∀ s, parse row.2.rrule = some s →
        ¬SetBackOver cal (zoneOf zoneInfo server (timezone row.2.user_id)) s e.now)
    (hn : next dialect (nextRunOf cal zoneInfo server parse) timezone i db w k = some (db', w')) :
    StoresLater w' := by
  cases k with
  | poll now_ns limit =>
    cases w with
    | idle =>
      cases dialect with
      | postgresql =>
        simp only [next] at hn
        cases hn
        trivial
      | sqlite =>
        simp only [next] at hn
        cases hn
        exact fun c hc => by cases hc
    | locking | evaluating | flushing => simp [next] at hn
  | abort =>
    cases w with
    | idle => simp [next] at hn
    | locking | evaluating | flushing =>
      simp only [next] at hn
      cases hn
      trivial
  | proceed e =>
    cases w with
    | idle => simp [next] at hn
    | locking now_ns limit candidates rows =>
      cases candidates with
      | nil =>
        simp only [next] at hn
        cases hn
        exact fun c hc => by cases hc
      | cons id candidates =>
        simp only [next] at hn
        split at hn
        · split at hn
          · cases hn
            trivial
          · cases hn
            trivial
        · cases hn
          exact fun c hc => by cases hc
    | evaluating now_ns rows claimed =>
      cases rows with
      | nil =>
        simp only [next] at hn
        cases hn
        simpa [StoresLater] using hw
      | cons row rows =>
        simp only [next] at hn
        split at hn
        · -- the evaluation adds a run
          rename_i next_run_at hnext
          cases hn
          obtain ⟨hnow, htime⟩ := hok now_ns row rows claimed e rfl rfl
          intro c hc
          rcases List.mem_append.1 hc with hc | hc
          · exact hw c hc
          · obtain rfl := List.mem_singleton.1 hc
            exact nextRunOf_later hnow htime hnext
        · cases hn
          exact hw
        · cases hn
          trivial
    | flushing now_ns claimed flushed =>
      cases claimed with
      | nil =>
        simp only [next] at hn
        cases hn
        trivial
      | cons c claimed =>
        have hmoved : StoresLater (.flushing now_ns claimed (flushed ++ [c])) := by
          intro d hd
          refine hw d ?_
          simp only [List.mem_append, List.mem_cons, List.not_mem_nil, or_false] at hd ⊢
          tauto
        simp only [next] at hn
        split at hn
        · cases hn
          exact hmoved
        split at hn
        · cases hn
        · cases hn
          trivial
        · cases hn
          trivial
        cases hn
        exact hmoved

theorem storesLater_along (hrun : runSchedule (next dialect (nextRunOf cal zoneInfo server parse) timezone)
      ⟨db, List.replicate workers .idle⟩ acts = some c)
    (hok : Along (next dialect (nextRunOf cal zoneInfo server parse) timezone)
      (EvaluatedInTime cal zoneInfo server parse timezone) ⟨db, List.replicate workers .idle⟩ acts) :
    ∀ w ∈ c.procs, StoresLater w := by
  refine invariant_along (I := fun c => ∀ w ∈ c.procs, StoresLater w) ?_ hok hrun ?_
  · intro c i k c' hI hP hact
    obtain ⟨w, db', w', hw, hn, rfl⟩ := act_eq_some hact
    have hw' : StoresLater w' := by
      refine storesLater_next (hI w (List.mem_of_getElem? hw)) ?_ hn
      rintro now_ns row rows claimed e rfl rfl
      exact hP now_ns row rows claimed e hw rfl
    intro v hv
    rcases List.mem_or_eq_of_mem_set hv with hv | rfl
    · exact hI v hv
    · exact hw'
  · intro w hw
    obtain rfl := List.eq_of_mem_replicate hw
    trivial

end Claims

/-- The next run is later outside repeated hours, and then `claim_due` stores none that is due. -/
theorem rescheduling_progress (cal : Calendar D) (zoneInfo : String → Option Zone) (server : Zone) :
    (∀ (s : Text D) (tz : Option String) (now : Clock),
      (∀ t, nextRunNs cal zoneInfo server s tz now = .ok (some t) → now.ns < t) ↔
        ¬SetBackOver cal (zoneOf zoneInfo server tz) s now) ∧
    ∀ (dialect : Dialect) (parse : String → Option (Text D)) (timezone : String → Option String) (workers : Nat)
      (db : Db) (acts : List (Nat × Choice Evaluation)) (c : Conf Db Worker),
      runSchedule (next dialect (nextRunOf cal zoneInfo server parse) timezone)
          ⟨db, List.replicate workers .idle⟩ acts = some c →
        Along (next dialect (nextRunOf cal zoneInfo server parse) timezone)
            (EvaluatedInTime cal zoneInfo server parse timezone) ⟨db, List.replicate workers .idle⟩ acts →
          ∀ w ∈ c.procs, StoresLater w :=
  ⟨next_run_later_iff, fun _ _ _ _ _ _ _ => storesLater_along⟩

/-! ## The end of daylight saving time -/

def newYork : Zone := ⟨-14400, [⟨1730613600, -14400, -18000⟩], rfl, fun d hd => (by cases hd), trivial⟩

def beforeChange : Clock := ⟨1730592000000000, by decide⟩

def secondPass : Clock := ⟨1730615400000000, by decide⟩

/-- `FREQ=MINUTELY`; what is left to dateutil is BYHOUR. -/
def everyMinute : Text (List Nat) := ⟨false, [⟨.minutely, 1, [], [], []⟩], none⟩

/-- Its occurrences, up to the year 9999. -/
def everyMinuteOn : Calendar (List Nat) where
  accepts _ := true
  occurrences r := (List.range ((253402300800 - r.dtstart) / 60).toNat).map fun (i : Nat) => r.dtstart + i * 60
  ascending r := by
    rw [List.pairwise_map]
    exact List.pairwise_lt_range.imp fun h => by omega

/-- `FREQ=DAILY;BYHOUR=12;BYMINUTE=0;BYSECOND=0`, and a calendar with one of its occurrences. -/
def everyDayAtNoon : Text (List Nat) := ⟨false, [⟨.daily, 1, [0], [0], [12]⟩], none⟩

def noon : Calendar (List Nat) := ⟨fun _ => true, fun _ => [1730635200], fun _ => List.pairwise_singleton _ _⟩

theorem not_setBackOver_beforeChange (cal : Calendar (List Nat)) (s : Text (List Nat)) :
    ¬SetBackOver cal newYork s beforeChange := by
  rintro ⟨rule, -, x, -, -, c, hc, hct, -⟩
  obtain rfl := List.mem_singleton.1 hc
  exact absurd hct (by decide)

def claimBefore : List (Nat × Choice Evaluation) :=
  [(0, .poll 1730592000000000000 10), (0, .proceed ⟨beforeChange, false⟩)]

theorem rescheduling_progress_before :
    (∀ t, nextRunNs noon (fun _ => none) newYork everyDayAtNoon none beforeChange = .ok (some t) →
        beforeChange.ns < t) ∧
      ∃ c, runSchedule (next .sqlite (nextRunOf noon (fun _ => none) newYork fun _ => some everyDayAtNoon)
          fun _ => none) ⟨oneDue, List.replicate 1 .idle⟩ claimBefore = some c ∧
        ∀ w ∈ c.procs, StoresLater w := by
  have hprogress := rescheduling_progress noon (fun _ => none) newYork
  refine ⟨(hprogress.1 everyDayAtNoon none beforeChange).2 (not_setBackOver_beforeChange noon everyDayAtNoon),
    _, rfl, hprogress.2 .sqlite (fun _ => some everyDayAtNoon) (fun _ => none) 1 oneDue claimBefore _ rfl ?_⟩
  refine ⟨fun now_ns row rows claimed e hidle => (by cases hidle), fun c hc => ⟨?_, fun _ _ => trivial⟩⟩
  cases hc
  intro now_ns row rows claimed e hevaluating hproceed
  cases hproceed
  cases hevaluating
  exact ⟨by decide, fun s _ => not_setBackOver_beforeChange noon s⟩

/-- The next minute is read as 01:31 of the first time. -/
theorem next_run_in_the_past :
    ¬∀ t, nextRunNs everyMinuteOn (fun _ => none) newYork everyMinute none secondPass = .ok (some t) →
      secondPass.ns < t := by
  rw [next_run_later_iff, not_not]
  refine ⟨⟨⟨.minutely, 1, [], [], []⟩, 1730597400⟩, rfl, 1730597460, ?_, by decide,
    ⟨_, List.mem_cons_self, by decide, by decide, by decide⟩⟩
  simp only [everyMinuteOn, List.mem_map, List.mem_range]
  exact ⟨1, by norm_num, rfl⟩

end RyanAI.Automations.Recurrence
