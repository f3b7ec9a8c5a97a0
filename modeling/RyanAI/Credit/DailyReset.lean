import RyanAI.Lib.Interleaving
import RyanAI.Lib.OrderedMap

/-!
# The daily reset of all balances

`_check_daily_credit_reset` of `utils/automations.py`, run by any number of workers: read the settings with the marker,
look at the clock, take the Redis lock of the day if there is Redis, read the marker again, reset every balance, write
the marker. The lock expires, Redis may fail, and users spend meanwhile. Where the settings are not persistent, every
worker has a marker of its own.

Two workers that both read the marker before either has written it both reset the balances (`second_reset_refunds`).
Where no two are between their second look and their write, and each resets on the day it has read off the clock, no
balance is overwritten twice on one day (`reset_once_per_day`).
-/

namespace RyanAI.Credit.DailyReset

open RyanAI.Lib
open RyanAI.Lib.Interleaving (Conf ReachesWhere)

/-! ## The workers -/

structure Reset where
  day : ℕ
  users : List String

structure Shared where
  /-- The local day, counted from some day on. -/
  day : ℕ
  /-- `lottery.daily_reset.mark`, in the cell of each worker; `none` if it is not a day. -/
  marks : ℕ → Option ℕ
  /-- The marker that was written last. -/
  written : Option ℕ
  /-- The days whose lock is held. -/
  locks : List ℕ
  balances : KeyedTable String ℚ
  resets : List Reset
  /-- The workers between their second look at the marker and their write of it. -/
  busy : List ℕ

/-- Where `_check_daily_credit_reset` is. -/
inductive Stage where
  | idle
  | configured (mark : Option ℕ) (enable : Bool) (credit : Option ℚ)
  | locking (today : ℕ) (credit : Option ℚ)
  | rereading (today : ℕ) (credit : Option ℚ)
  | resetting (today : ℕ) (credit : ℚ)
  | marking (today : ℕ)

inductive Proc where
  | worker (redis : Bool) (stage : Stage)
  | clock
  | expiry
  | users

inductive Choice where
  /-- The settings that are read; the credit is `none` where it is not a number. -/
  | config (enable : Bool) (credit : Option ℚ)
  | proceeds
  /-- Redis or the database fails; a lock may be taken all the same. -/
  | fails (applied : Bool)
  | days (n : ℕ)
  | unlock (day : ℕ)
  | balance (user : String) (value : ℚ)

def cell (persistent : Bool) (i : ℕ) : ℕ := if persistent then 0 else i

def Shared.mark (s : Shared) (persistent : Bool) (i : ℕ) : Option ℕ := s.marks (cell persistent i)

/-- `redis.set(lock_key, '1', ex=3600, nx=True)`. -/
def Shared.lock (s : Shared) (today : ℕ) : Shared := if today ∈ s.locks then s else { s with locks := today :: s.locks }

/-- `Credits.reset_all_credits`, with the value as the column stores it. -/
def Shared.resetAllCredits (s : Shared) (value : ℚ) : Shared :=
  { s with
    balances := s.balances.map fun _ _ => value
    resets := ⟨s.day, s.balances.keys⟩ :: s.resets }

/-- `Config.upsert` of the marker. -/
def Shared.upsertMark (s : Shared) (persistent : Bool) (i today : ℕ) : Shared :=
  { s with
    marks := Function.update s.marks (cell persistent i) (some today)
    written := some today
    busy := s.busy.erase i }

def workerStep (persistent : Bool) (i : ℕ) (s : Shared) (redis : Bool) : Stage → Choice → Option (Shared × Stage)
  | .idle, .config enable credit => some (s, .configured (s.mark persistent i) enable credit)
  | .idle, .fails _ => some (s, .idle)
  | .configured mark enable credit, .proceeds =>
    some (s,
      if !enable then .idle
      else if mark = some s.day then .idle
      else if redis then .locking s.day credit
      else .rereading s.day credit)
  | .locking today credit, .proceeds =>
    some (if today ∈ s.locks then (s, .idle) else (s.lock today, .rereading today credit))
  | .locking today credit, .fails applied => some (if applied then s.lock today else s, .rereading today credit)
  | .rereading today credit, .proceeds =>
    some (if s.mark persistent i = some today then (s, .idle)
      else match credit with
        | none => (s, .idle)
        | some value => ({ s with busy := i :: s.busy }, .resetting today value))
  | .rereading _ _, .fails _ => some (s, .idle)
  | .resetting today value, .proceeds => some (s.resetAllCredits value, .marking today)
  | .resetting _ _, .fails _ => some ({ s with busy := s.busy.erase i }, .idle)
  -- no worker stops between the reset and the marker
  | .marking today, .proceeds => some (s.upsertMark persistent i today, .idle)
  | _, _ => none

def next (persistent : Bool) (i : ℕ) (s : Shared) : Proc → Choice → Option (Shared × Proc)
  | .worker redis stage, k => (workerStep persistent i s redis stage k).map fun r => (r.1, .worker redis r.2)
  | .clock, .days n => some ({ s with day := s.day + n }, .clock)
  | .expiry, .unlock day => some ({ s with locks := s.locks.erase day }, .expiry)
  | .users, .balance user value => some ({ s with balances := s.balances.set user value }, .users)
  | _, _ => none

def Shared.start (day : ℕ) (mark : Option ℕ) (locks : List ℕ) (balances : KeyedTable String ℚ) : Shared where
  day := day
  marks _ := mark
  written := mark
  locks := locks
  balances := balances
  resets := []
  busy := []

/-- Workers with or without Redis, the clock, the expiry of locks and the users. -/
def system (start : Shared) (workers : List Bool) : Conf Shared Proc :=
  ⟨start, workers.map (Proc.worker · .idle) ++ [.clock, .expiry, .users]⟩

def Shared.overwrites (s : Shared) (user : String) (day : ℕ) : ℕ :=
  s.resets.countP fun r => r.day = day ∧ user ∈ r.users

/-- A reset alone between second look and marker, after the latest marker, and on its day. -/
def Clear (persistent : Bool) (i : ℕ) (s : Shared) : Proc → Prop
  | .worker _ (.rereading today (some _)) =>
    s.mark persistent i = some today ∨ (s.busy = [] ∧ s.mark persistent i = s.written)
  | .worker _ (.resetting today _) => s.day = today
  | _ => True

def Proc.today : Proc → Option ℕ
  | .worker _ (.locking today _) | .worker _ (.rereading today _) | .worker _ (.resetting today _)
  | .worker _ (.marking today) => some today
  | _ => none

def Proc.critical : Proc → Bool
  | .worker _ (.resetting _ _) | .worker _ (.marking _) => true
  | _ => false

inductive Trans (persistent : Bool) (i : ℕ) (s : Shared) : Proc → Shared → Proc → Prop where
  | outside {p p' : Proc} {s' : Shared} :
      p.critical = false → p'.critical = false → (∀ today ∈ p'.today, today = s.day ∨ p.today = some today) →
      s'.day = s.day → s'.resets = s.resets → s'.busy = s.busy → s'.written = s.written →
      Trans persistent i s p s' p'
  | tick (n : ℕ) : Trans persistent i s .clock { s with day := s.day + n } .clock
  | enter {redis : Bool} {today : ℕ} {value : ℚ} :
      s.mark persistent i ≠ some today →
      Trans persistent i s (.worker redis (.rereading today (some value))) { s with busy := i :: s.busy }
        (.worker redis (.resetting today value))
  | abandon {redis : Bool} {today : ℕ} {value : ℚ} :
      Trans persistent i s (.worker redis (.resetting today value)) { s with busy := s.busy.erase i }
        (.worker redis .idle)
  | reset {redis : Bool} {today : ℕ} {value : ℚ} :
      Trans persistent i s (.worker redis (.resetting today value)) (s.resetAllCredits value)
        (.worker redis (.marking today))
  | mark {redis : Bool} {today : ℕ} :
      Trans persistent i s (.worker redis (.marking today)) (s.upsertMark persistent i today) (.worker redis .idle)

theorem Trans.stay (h : (Proc.worker redis stage).critical = false) (h' : (Proc.worker redis stage').critical = false)
    (htoday : ∀ today ∈ (Proc.worker redis stage').today,
      today = s.day ∨ (Proc.worker redis stage).today = some today) :
    Trans persistent i s (.worker redis stage) s (.worker redis stage') :=
  .outside h h' htoday rfl rfl rfl rfl

theorem trans_lock : Trans persistent i s (.worker redis (.locking today credit)) (s.lock today)
      (.worker redis (.rereading today credit)) := by
  have hstay : ∀ day ∈ (Proc.worker redis (.rereading today credit)).today,
      day = s.day ∨ (Proc.worker redis (.locking today credit)).today = some day := fun day hday => .inr hday
  rw [Shared.lock]
  split
  · exact .stay rfl rfl hstay
  · exact .outside rfl rfl hstay rfl rfl rfl rfl

theorem trans_of_workerStep (h : workerStep persistent i s redis stage k = some (s', stage')) :
    Trans persistent i s (.worker redis stage) s' (.worker redis stage') := by
  have hidle : ∀ today ∈ (Proc.worker redis .idle).today,
      today = s.day ∨ (Proc.worker redis stage).today = some today := by
    intro today htoday
    cases htoday
  cases stage with
  | idle =>
    cases k with
    | config enable credit =>
      cases h
      refine .stay rfl rfl ?_
      intro today htoday
      cases htoday
    | fails applied =>
      cases h
      exact .stay rfl rfl hidle
    | _ => cases h
  | configured mark enable credit =>
    cases k with
    | proceeds =>
      simp only [workerStep] at h
      cases h
      have hday : ∀ today, some s.day = some today →
          today = s.day ∨ (Proc.worker redis (.configured mark enable credit)).today = some today :=
        fun today htoday => .inl (Option.some.inj htoday).symm
      split
      · exact .stay rfl rfl hidle
      split
      · exact .stay rfl rfl hidle
      · split <;> exact .stay rfl rfl hday
    | _ => cases h
  | locking today credit =>
    cases k with
    | proceeds =>
      simp only [workerStep, Option.some.injEq] at h
      split at h
      · cases h
        exact .stay rfl rfl hidle
      · cases h
        exact trans_lock
    | fails applied =>
      simp only [workerStep] at h
      cases h
      split
      · exact trans_lock
      · exact .stay rfl rfl fun day hday => .inr hday
    | _ => cases h
  | rereading today credit =>
    cases k with
    | proceeds =>
      simp only [workerStep, Option.some.injEq] at h
      split at h
      · cases h
        exact .stay rfl rfl hidle
      rename_i hmark
      cases credit with
      | none =>
        cases h
        exact .stay rfl rfl hidle
      | some value =>
        cases h
        exact .enter hmark
    | fails applied =>
      cases h
      exact .stay rfl rfl hidle
    | _ => cases h
  | resetting today value =>
    cases k with
    | proceeds =>
      cases h
      exact .reset
    | fails applied =>
      cases h
      exact .abandon
    | _ => cases h
  | marking today =>
    cases k with
    | proceeds =>
      cases h
      exact .mark
    | _ => cases h

theorem trans_of_next (h : next persistent i s p k = some (s', p')) : Trans persistent i s p s' p' := by
  cases p with
  | worker redis stage =>
    rw [next, Option.map_eq_some_iff] at h
    obtain ⟨⟨t, stage'⟩, hstep, heq⟩ := h
    cases heq
    exact trans_of_workerStep hstep
  | clock =>
    cases k with
    | days n =>
      cases h
      exact .tick n
    | _ => cases h
  | expiry =>
    cases k with
    | unlock day =>
      cases h
      exact .outside rfl rfl (fun _ h => by cases h) rfl rfl rfl rfl
    | _ => cases h
  | users =>
    cases k with
    | balance user value =>
      cases h
      exact .outside rfl rfl (fun _ h => by cases h) rfl rfl rfl rfl
    | _ => cases h

/-- One reset a day, and the marker tells of it where no worker is about to write. -/
structure Sound (s : Shared) : Prop where
  nodup : (s.resets.map Reset.day).Nodup
  past : ∀ r ∈ s.resets, r.day ≤ s.day
  marked : s.busy = [] → ∀ r ∈ s.resets, r.day = s.day → s.written = some s.day

structure Knows (i : ℕ) (p : Proc) (s : Shared) : Prop where
  today : ∀ today ∈ p.today, today ≤ s.day
  outside : p.critical = false → i ∉ s.busy
  busy : p.critical = true → s.busy = [i]
  resetting : ∀ redis today value, p = .worker redis (.resetting today value) → today = s.day →
    ∀ r ∈ s.resets, r.day ≠ today
  marking : ∀ redis today, p = .worker redis (.marking today) → ∀ r ∈ s.resets, r.day ≤ today

variable {persistent : Bool} {i j : ℕ} {s s' : Shared} {p p' q : Proc}

theorem sound_of_trans (hs : Sound s) (hknows : Knows i p s) (hclear : Clear persistent i s p)
    (h : Trans persistent i s p s' p') : Sound s' := by
  cases h with
  | outside _ _ _ hday hresets hbusy hwritten =>
    constructor
    · exact hresets ▸ hs.nodup
    · rw [hresets, hday]
      exact hs.past
    · rw [hresets, hday, hbusy, hwritten]
      exact hs.marked
  | tick n =>
    refine ⟨hs.nodup, fun r hr => (hs.past r hr).trans (Nat.le_add_right _ _), ?_⟩
    -- on a new day there is no reset yet
    intro hbusy r hr hday
    have hpast := hs.past r hr
    have hn : n = 0 := by
      simp only at hday
      omega
    subst hn
    exact hs.marked hbusy r hr hday
  | enter hmark => exact ⟨hs.nodup, hs.past, fun hbusy => by cases hbusy⟩
  | @abandon redis today value =>
    refine ⟨hs.nodup, hs.past, ?_⟩
    intro _ r hr hday
    have hclock : s.day = today := hclear
    exact absurd (hday.trans hclock) (hknows.resetting redis today value rfl hclock.symm r hr)
  | @reset redis today value =>
    have hclock : s.day = today := hclear
    refine ⟨?_, ?_, ?_⟩
    · refine List.nodup_cons.2 ⟨?_, hs.nodup⟩
      intro hmem
      obtain ⟨r, hr, hday⟩ := List.mem_map.1 hmem
      exact hknows.resetting redis today value rfl hclock.symm r hr (hday.trans hclock)
    · intro r hr
      rcases List.mem_cons.1 hr with rfl | hr
      · exact le_rfl
      · exact hs.past r hr
    · intro hbusy
      rw [show (s.resetAllCredits value).busy = [i] from hknows.busy rfl] at hbusy
      cases hbusy
  | @mark redis today =>
    refine ⟨hs.nodup, hs.past, ?_⟩
    intro _ r hr hday
    have hle := hknows.marking redis today rfl r hr
    have hpast := hknows.today today rfl
    have hday' : r.day = s.day := hday
    have heq : today = s.day := by omega
    exact congrArg some heq

theorem Knows.of_outside (hp : p.critical = false) (htoday : ∀ today ∈ p.today, today ≤ s.day) (hbusy : i ∉ s.busy) :
    Knows i p s where
  today := htoday
  outside _ := hbusy
  busy := by
    intro hcritical
    rw [hp] at hcritical
    cases hcritical
  resetting := by
    rintro redis today value rfl
    cases hp
  marking := by
    rintro redis today rfl
    cases hp

theorem Knows.not_mem_erase (hknows : Knows i p s) (hp : p.critical = true) : i ∉ s.busy.erase i := by
  rw [hknows.busy hp]
  simp

theorem knows_of_trans (hs : Sound s) (hknows : Knows i p s) (hclear : Clear persistent i s p)
    (h : Trans persistent i s p s' p') : Knows i p' s' := by
  cases h with
  | outside hp hp' htoday hday _ hbusy _ =>
    refine .of_outside hp' ?_ (hbusy ▸ hknows.outside hp)
    intro today hmem
    rw [hday]
    rcases htoday today hmem with rfl | hsame
    · exact le_rfl
    · exact hknows.today today hsame
  | tick n =>
    refine .of_outside rfl ?_ (hknows.outside rfl)
    intro today hmem
    cases hmem
  | @enter redis today value hmark =>
    obtain ⟨hbusy, hwritten⟩ := hclear.resolve_left hmark
    constructor
    case today => exact hknows.today
    case outside =>
      intro hcritical
      cases hcritical
    case busy =>
      intro _
      exact congrArg (i :: ·) hbusy
    case resetting =>
      intro redis' today' value' heq hday r hr hsame
      cases heq
      -- a reset of the day would have left its marker
      have hmarked := hs.marked hbusy r hr (hsame.trans hday)
      exact hmark (hwritten.trans (hmarked.trans (congrArg some hday.symm)))
    case marking =>
      intro redis' today' heq
      cases heq
  | @abandon redis today value =>
    refine .of_outside rfl ?_ (hknows.not_mem_erase rfl)
    intro today hmem
    cases hmem
  | @reset redis today value =>
    have hclock : s.day = today := hclear
    constructor
    case today => exact hknows.today
    case outside =>
      intro hcritical
      cases hcritical
    case busy => exact hknows.busy
    case resetting =>
      intro redis' today' value' heq
      cases heq
    case marking =>
      intro redis' today' heq r hr
      cases heq
      rcases List.mem_cons.1 hr with rfl | hr
      · exact hclock.le
      · exact (hs.past r hr).trans hclock.le
  | @mark redis today =>
    refine .of_outside rfl ?_ (hknows.not_mem_erase rfl)
    intro today hmem
    cases hmem

theorem knows_frame (hij : i ≠ j) (hknows : Knows i p s) (hclear : Clear persistent i s p) (hother : Knows j q s)
    (h : Trans persistent i s p s' p') : Knows j q s' := by
  -- while another one is there, the process is not
  have hfree : p.critical = true → q.critical = false := by
    intro hp
    by_contra hq
    have hbusy := hother.busy (by simpa using hq)
    rw [hknows.busy hp, List.singleton_inj] at hbusy
    exact hij hbusy
  cases h with
  | outside _ _ _ hday hresets hbusy _ =>
    constructor
    case today => exact hday ▸ hother.today
    case outside => exact hbusy ▸ hother.outside
    case busy => exact hbusy ▸ hother.busy
    case resetting => exact hday ▸ hresets ▸ hother.resetting
    case marking => exact hresets ▸ hother.marking
  | tick n =>
    constructor
    case today => exact fun today hmem => (hother.today today hmem).trans (Nat.le_add_right _ _)
    case outside => exact hother.outside
    case busy => exact hother.busy
    case resetting =>
      rintro redis today value rfl hday r hr
      have hle := hother.today today rfl
      have hsame : today = s.day := by
        simp only at hday
        omega
      exact hother.resetting redis today value rfl hsame r hr
    case marking => exact hother.marking
  | @enter redis today value hmark =>
    obtain ⟨hbusy, _⟩ := hclear.resolve_left hmark
    have hq : q.critical = false := by
      by_contra hq
      have hmem := hother.busy (by simpa using hq)
      rw [hbusy] at hmem
      cases hmem
    refine .of_outside hq hother.today ?_
    intro hmem
    rcases List.mem_cons.1 hmem with heq | hmem
    · exact hij heq.symm
    · exact hother.outside hq hmem
  | abandon =>
    have hq := hfree rfl
    exact .of_outside hq hother.today fun hmem => hother.outside hq (List.mem_of_mem_erase hmem)
  | reset =>
    have hq := hfree rfl
    exact .of_outside hq hother.today (hother.outside hq)
  | mark =>
    have hq := hfree rfl
    exact .of_outside hq hother.today fun hmem => hother.outside hq (List.mem_of_mem_erase hmem)

section Runs

variable {persistent : Bool} {day : ℕ} {mark : Option ℕ} {locks : List ℕ} {balances : KeyedTable String ℚ}
  {workers : List Bool} {c : Conf Shared Proc}

theorem sound_of_reaches
    (hr : ReachesWhere (next persistent) (Clear persistent) (system (.start day mark locks balances) workers) c) :
    Sound c.shared := by
  have hholds : Interleaving.Holds Sound Knows c := by
    refine Interleaving.invariant_of_frame ?_ ?_ hr ?_
    · intro i k s p s' p' hclear hs hknows hn
      have htrans := trans_of_next hn
      exact ⟨sound_of_trans hs hknows hclear htrans, knows_of_trans hs hknows hclear htrans⟩
    · intro i j k s p s' p' q hij hclear _ hknows hother hn
      exact knows_frame hij hknows hclear hother (trans_of_next hn)
    refine ⟨⟨List.nodup_nil, by simp [system, Shared.start], by simp [system, Shared.start]⟩, ?_⟩
    intro i p hp
    have hmem := List.mem_of_getElem? hp
    have hidle : p.critical = false ∧ p.today = none := by
      rcases List.mem_append.1 hmem with hmem | hmem
      · obtain ⟨redis, _, rfl⟩ := List.mem_map.1 hmem
        exact ⟨rfl, rfl⟩
      · simp only [List.mem_cons, List.not_mem_nil, or_false] at hmem
        rcases hmem with rfl | rfl | rfl <;> exact ⟨rfl, rfl⟩
    refine .of_outside hidle.1 ?_ List.not_mem_nil
    intro today htoday
    rw [hidle.2] at htoday
    cases htoday
  exact hholds.1

/-- No balance is overwritten twice on one day. -/
theorem reset_once_per_day
    (hr : ReachesWhere (next persistent) (Clear persistent) (system (.start day mark locks balances) workers) c)
    (user : String) (today : ℕ) : c.shared.overwrites user today ≤ 1 := by
  have hs := sound_of_reaches hr
  calc c.shared.overwrites user today
      ≤ c.shared.resets.countP fun r => r.day = today := by
        apply List.countP_mono_left
        intro r _ hr
        simp only [decide_eq_true_eq] at hr ⊢
        exact hr.1
    _ = (c.shared.resets.map Reset.day).count today := by
        rw [List.count, List.countP_map]
        rfl
    _ ≤ 1 := List.nodup_iff_count_le_one.1 hs.nodup today

end Runs

instance (persistent : Bool) (i : ℕ) (s : Shared) (p : Proc) : Decidable (Clear persistent i s p) := by
  unfold Clear
  split <;> infer_instance

def quietRun : List (ℕ × Choice) :=
  [(0, .config true (some 3)), (0, .proceeds), (0, .proceeds), (0, .proceeds), (3, .balance "u" 1), (0, .proceeds),
    (0, .config true (some 3)), (0, .proceeds)]

def oneUser : KeyedTable String ℚ := KeyedTable.empty.set "u" 10

theorem reset_once_per_day_alone :
    ∃ c, ReachesWhere (next true) (Clear true) (system (.start 0 none [] oneUser) [false]) c ∧
      c.shared.balances.get "u" = some 1 ∧ c.shared.overwrites "u" 0 ≤ 1 := by
  have hrun : ∃ c, Interleaving.runSchedule
      (fun i s p k => if Clear true i s p then next true i s p k else none)
      (system (.start 0 none [] oneUser) [false]) quietRun = some c ∧ c.shared.balances.get "u" = some 1 :=
    ⟨_, rfl, rfl⟩
  obtain ⟨c, hc, hbalance⟩ := hrun
  have hr := Interleaving.reachesWhere_of_guarded (Interleaving.reaches_of_runSchedule hc)
  exact ⟨c, hr, hbalance, reset_once_per_day hr "u" 0⟩

/-- Both read the marker before it is written, and what was spent comes back. -/
def overlappingRun : List (ℕ × Choice) :=
  [(0, .config true (some 3)), (1, .config true (some 3)), (0, .proceeds), (1, .proceeds), (0, .proceeds),
    (1, .proceeds), (0, .proceeds), (4, .balance "u" 1), (1, .proceeds), (0, .proceeds), (1, .proceeds)]

theorem second_reset_refunds :
    ∃ c, Interleaving.runSchedule (next true) (system (.start 0 none [] oneUser) [false, false]) overlappingRun =
        some c ∧
      c.shared.overwrites "u" 0 = 2 ∧ c.shared.balances.get "u" = some 3 :=
  ⟨_, rfl, by decide, rfl⟩

end RyanAI.Credit.DailyReset
