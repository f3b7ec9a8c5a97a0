import RyanAI.Lib.Interleaving

/-!
# The assignment generation of a connection

The writers of a connection in `models/bot_gateway.py`, among them `set_connection_runtime` with what a sidecar reports
(`_sync_connection` of `routers/bot_gateway.py`). Each loads its rows, assigns attributes and commits; the session then
writes the columns whose value differs from the loaded one. Other operations may commit in between.

`Advances` is what a fencing generation promises of two states of a connection; `assignment_advances` derives it for
every run whose commits meet `WriteOk`.
-/

namespace RyanAI.Backend.Assignment

open RyanAI.Lib.Interleaving

universe u

variable {δ : Type u}

/-! ## Operations -/

/-- A row of `bot_gateway_connection`, with all other columns in `details`. -/
structure Connection (δ : Type u) where
  shardId : Option String
  assignmentGeneration : Option ℤ
  accountKey : Option String
  details : δ

/-- `int(assignment_generation or 0)`. -/
def Connection.generation (c : Connection δ) : ℤ := c.assignmentGeneration.getD 0

abbrev Connections (δ : Type u) := String → Option (Connection δ)

structure Report where
  shardId : Option String
  accountKey : Option String
  assignmentGeneration : Option ℤ

inductive Operation (δ : Type u) where
  | applyShardAssignments (assignments : List (String × String)) (edit : δ → δ → δ)
  | setConnectionRuntime (id : String) (report : Report) (edit : δ → δ → δ)
  | clearConnectionCredentials (id : String) (edit : δ → δ → δ)
  | updateConnection (id : String) (edit : δ → δ → δ)

def column {α : Type} [DecidableEq α] (loaded : α) (assigned : Option α) (stored : α) : α :=
  match assigned with
  | none => stored
  | some v => if v = loaded then stored else v

/-- The connection gets the generation after the loaded one and another shard. -/
def Connection.move (shardId : Option String) (loaded stored : Connection δ) : Connection δ :=
  { stored with
    shardId := column loaded.shardId (some shardId) stored.shardId
    assignmentGeneration :=
      column loaded.assignmentGeneration (some (some (loaded.generation + 1))) stored.assignmentGeneration }

def Connection.report (report : Report) (loaded stored : Connection δ) : Connection δ :=
  { stored with
    shardId := column loaded.shardId (report.shardId.map some) stored.shardId
    accountKey := column loaded.accountKey (report.accountKey.map some) stored.accountKey
    assignmentGeneration :=
      column loaded.assignmentGeneration (report.assignmentGeneration.map some)
        stored.assignmentGeneration }

def Operation.loads : Operation δ → String → Bool
  | .applyShardAssignments assignments _, id => (assignments.lookup id).isSome
  | .setConnectionRuntime id' _ _, id => id = id'
  | .clearConnectionCredentials id' _, id => id = id'
  | .updateConnection id' _, id => id = id'

def Operation.write (op : Operation δ) (id : String) (loaded stored : Connection δ) : Connection δ :=
  match op with
  | .applyShardAssignments assignments edit =>
    match assignments.lookup id with
    | none => stored
    | some target =>
      if loaded.shardId = some target then stored
      else { loaded.move (some target) stored with details := edit loaded.details stored.details }
  | .setConnectionRuntime _ report edit =>
    { loaded.report report stored with details := edit loaded.details stored.details }
  | .clearConnectionCredentials _ edit =>
    { loaded.move none stored with
      accountKey := column loaded.accountKey (some none) stored.accountKey
      details := edit loaded.details stored.details }
  | .updateConnection _ edit => { stored with details := edit loaded.details stored.details }

inductive Phase (δ : Type u) where
  | start
  | loaded (rows : Connections δ)
  | done

structure Session (δ : Type u) where
  op : Operation δ
  phase : Phase δ

def next (_ : Nat) (t : Connections δ) (s : Session δ) (refuses : Bool) : Option (Connections δ × Session δ) :=
  match s.phase with
  | .start => some (t, ⟨s.op, .loaded fun id => if s.op.loads id then t id else none⟩)
  | .loaded rows =>
    if refuses then some (t, ⟨s.op, .done⟩)
    else
      some (fun id => (t id).map fun stored =>
        match rows id with
        | some loaded => s.op.write id loaded stored
        | none => stored, ⟨s.op, .done⟩)
  | .done => none

structure Advances (old new : Connection δ) : Prop where
  le : old.generation ≤ new.generation
  lt : new.shardId ≠ old.shardId → old.generation < new.generation

theorem Advances.refl (c : Connection δ) : Advances c c := ⟨le_refl _, fun h => absurd rfl h⟩

theorem Advances.trans (h : Advances a b) (h' : Advances b c) : Advances a c := by
  refine ⟨h.le.trans h'.le, fun hne => ?_⟩
  by_cases hab : b.shardId = a.shardId
  · have hbc : c.shardId ≠ b.shardId := by
      rw [hab]
      exact hne
    exact lt_of_le_of_lt h.le (h'.lt hbc)
  · exact lt_of_lt_of_le (h.lt hab) h'.le

def WriteOk (op : Operation δ) (id : String) (loaded stored : Connection δ) : Prop :=
  match op with
  | .applyShardAssignments assignments _ =>
    ∀ target, assignments.lookup id = some target → loaded.shardId ≠ some target → stored.generation ≤ loaded.generation
  | .setConnectionRuntime _ report _ =>
    (∀ g, report.assignmentGeneration = some g → some g ≠ loaded.assignmentGeneration →
      stored.generation ≤ g) ∧
      ∀ s, report.shardId = some s → some s ≠ loaded.shardId → some s ≠ stored.shardId →
        ∃ g, report.assignmentGeneration = some g ∧ some g ≠ loaded.assignmentGeneration ∧ stored.generation < g
  | .clearConnectionCredentials _ _ => stored.generation ≤ loaded.generation
  | .updateConnection _ _ => True

def StepOk (_ : Nat) (t : Connections δ) (s : Session δ) : Prop :=
  ∀ rows, s.phase = .loaded rows → ∀ id loaded stored, rows id = some loaded → t id = some stored →
    WriteOk s.op id loaded stored

/-! ## What a commit does -/

theorem generation_move (shardId : Option String) (loaded stored : Connection δ) :
    (loaded.move shardId stored).generation = loaded.generation + 1 := by
  have hne : some (loaded.generation + 1) ≠ loaded.assignmentGeneration := by
    intro h
    have hval := congrArg (fun g => g.getD 0) h
    simp only [Option.getD_some] at hval
    change loaded.generation + 1 = loaded.generation at hval
    omega
  have hcol : (loaded.move shardId stored).assignmentGeneration = some (loaded.generation + 1) := by
    simp only [Connection.move, column]
    rw [if_neg hne]
  rw [Connection.generation, hcol]
  rfl

variable {loaded stored : Connection δ}

theorem advances_move (shardId : Option String) (h : stored.generation ≤ loaded.generation)
    (hgen : new.generation = (loaded.move shardId stored).generation) : Advances stored new := by
  rw [generation_move] at hgen
  constructor
  · omega
  · intro _
    omega

theorem generation_report (hg : report.assignmentGeneration = some g) (hne : some g ≠ loaded.assignmentGeneration) :
    (loaded.report report stored).generation = g := by
  rw [Connection.generation, Connection.report, hg]
  simp only [Option.map_some, column, if_neg hne]
  rfl

theorem generation_report_of_same (stored : Connection δ)
    (h : ∀ g, report.assignmentGeneration = some g → some g = loaded.assignmentGeneration) :
    (loaded.report report stored).generation = stored.generation := by
  rw [Connection.generation, Connection.report, Connection.generation]
  cases hg : report.assignmentGeneration with
  | none => rfl
  | some g => simp only [Option.map_some, column, if_pos (h g hg)]

theorem shardId_report_ne_iff (report : Report) (loaded stored : Connection δ) :
    (loaded.report report stored).shardId ≠ stored.shardId ↔
      ∃ s, report.shardId = some s ∧ some s ≠ loaded.shardId ∧ some s ≠ stored.shardId := by
  rw [Connection.report]
  cases hs : report.shardId with
  | none => simp [column]
  | some s =>
    simp only [Option.map_some, column, Option.some.injEq, exists_eq_left']
    by_cases hload : some s = loaded.shardId <;> simp [hload]

theorem advances_report_iff (report : Report) (loaded stored new : Connection δ)
    (hshard : new.shardId = (loaded.report report stored).shardId)
    (hgen : new.assignmentGeneration = (loaded.report report stored).assignmentGeneration) :
    Advances stored new ↔
      (∀ g, report.assignmentGeneration = some g → some g ≠ loaded.assignmentGeneration →
        stored.generation ≤ g) ∧
        ∀ s, report.shardId = some s → some s ≠ loaded.shardId → some s ≠ stored.shardId →
          ∃ g, report.assignmentGeneration = some g ∧ some g ≠ loaded.assignmentGeneration ∧ stored.generation < g := by
  have hsame : new.generation = (loaded.report report stored).generation := by
    rw [Connection.generation, hgen]
    rfl
  have hchange : new.shardId ≠ stored.shardId ↔
      ∃ s, report.shardId = some s ∧ some s ≠ loaded.shardId ∧ some s ≠ stored.shardId := by
    rw [hshard]
    exact shardId_report_ne_iff report loaded stored
  -- either the report writes its generation, or the stored one stays
  by_cases hex : ∃ g, report.assignmentGeneration = some g ∧ some g ≠ loaded.assignmentGeneration
  · obtain ⟨g, hg, hne⟩ := hex
    have hnew : new.generation = g := hsame.trans (generation_report hg hne)
    constructor
    · intro hadv
      refine ⟨fun g' hg' _ => ?_, fun s hs hload hstored => ?_⟩
      · rw [hg, Option.some.injEq] at hg'
        rw [← hg', ← hnew]
        exact hadv.le
      · refine ⟨g, hg, hne, ?_⟩
        rw [← hnew]
        exact hadv.lt (hchange.2 ⟨s, hs, hload, hstored⟩)
    · rintro ⟨hle, hlt⟩
      constructor
      · rw [hnew]
        exact hle g hg hne
      intro hshards
      obtain ⟨s, hs, hload, hstored⟩ := hchange.1 hshards
      obtain ⟨g', hg', -, hlt'⟩ := hlt s hs hload hstored
      rw [hg, Option.some.injEq] at hg'
      rw [hnew, hg']
      exact hlt'
  · push Not at hex
    have hnew : new.generation = stored.generation := hsame.trans (generation_report_of_same stored hex)
    constructor
    · intro hadv
      refine ⟨fun g hg hne => absurd (hex g hg) hne, fun s hs hload hstored => ?_⟩
      have hlt := hadv.lt (hchange.2 ⟨s, hs, hload, hstored⟩)
      omega
    · rintro ⟨-, hlt⟩
      constructor
      · exact hnew.ge
      · intro hshards
        obtain ⟨s, hs, hload, hstored⟩ := hchange.1 hshards
        obtain ⟨g, hg, hne, -⟩ := hlt s hs hload hstored
        exact absurd (hex g hg) hne

theorem advances_write {id : String} (h : WriteOk op id loaded stored) :
    Advances stored (op.write id loaded stored) := by
  cases op with
  | applyShardAssignments assignments edit =>
    cases hlookup : assignments.lookup id with
    | none =>
      simp only [Operation.write, hlookup]
      exact .refl stored
    | some target =>
      simp only [Operation.write, hlookup]
      split
      · exact .refl stored
      · rename_i hne
        apply advances_move (some target) (h target hlookup hne)
        rfl
  | setConnectionRuntime id' report edit =>
    have hiff := advances_report_iff report loaded stored
      ((Operation.setConnectionRuntime id' report edit).write id loaded stored) rfl rfl
    exact hiff.2 h
  | clearConnectionCredentials id' edit =>
    apply advances_move none h
    rfl
  | updateConnection id' edit => exact ⟨le_refl _, fun h => absurd rfl h⟩

theorem advances_next (hok : StepOk i t s) (h : next i t s refuses = some (t', s')) {id : String}
    (hid : t id = some stored) : ∃ new, t' id = some new ∧ Advances stored new := by
  obtain ⟨op, phase⟩ := s
  cases phase with
  | start =>
    cases h
    exact ⟨stored, hid, .refl stored⟩
  | loaded rows =>
    simp only [next] at h
    split at h
    · cases h
      exact ⟨stored, hid, .refl stored⟩
    cases h
    simp only [hid, Option.map_some]
    cases hrow : rows id with
    | none => exact ⟨stored, rfl, .refl stored⟩
    | some loaded => exact ⟨_, rfl, advances_write (hok rows rfl id loaded stored hrow hid)⟩
  | done => cases h

/-- Where the commits meet the condition, generations advance with the shard. -/
theorem assignment_advances {c c' : Conf (Connections δ) (Session δ)}
    (hr : ReachesWhere next StepOk c c') {id : String} {old : Connection δ}
    (h : c.shared id = some old) :
    ∃ new, c'.shared id = some new ∧ old.generation ≤ new.generation ∧
      (new.shardId ≠ old.shardId → old.generation < new.generation) := by
  have hadv : ∃ new, c'.shared id = some new ∧ Advances old new := by
    induction hr with
    | refl => exact ⟨old, h, .refl old⟩
    | tail _ hs ih =>
      obtain ⟨mid, hmid, hold⟩ := ih
      obtain ⟨i, k, -, hok, hn⟩ := hs
      obtain ⟨new, hnew, hstep⟩ := advances_next hok hn hmid
      exact ⟨new, hnew, hold.trans hstep⟩
  obtain ⟨new, hnew, hle, hlt⟩ := hadv
  exact ⟨new, hnew, hle, hlt⟩

/-- A move from shard `A` to `B`, and a report. -/
def sampleConf (report : Report) : Conf (Connections Unit) (Session Unit) where
  shared := fun id => if id = "conn" then some ⟨some "A", some 5, none, ()⟩ else none
  procs :=
    [⟨.applyShardAssignments [("conn", "B")] fun _ d => d, .start⟩,
      ⟨.setConnectionRuntime "conn" report fun _ d => d, .start⟩]

def sampleAfter (report : Report) (steps : List (Nat × Bool)) : Conf (Connections Unit) (Session Unit) :=
  (runSchedule next (sampleConf report) steps).getD (sampleConf report)

/-- The sidecar reports the old shard and generation. -/
theorem stale_report_decreases : ∃ c c' : Conf (Connections Unit) (Session Unit),
      Reaches next (sampleConf ⟨some "A", none, some 5⟩) c ∧ Reaches next c c' ∧
        c.shared "conn" = some ⟨some "B", some 6, none, ()⟩ ∧
        c'.shared "conn" = some ⟨some "A", some 5, none, ()⟩ := by
  have hmove : runSchedule next (sampleConf ⟨some "A", none, some 5⟩) [(0, false), (0, false)] =
      some (sampleAfter ⟨some "A", none, some 5⟩ [(0, false), (0, false)]) := rfl
  have hreport : runSchedule next (sampleAfter ⟨some "A", none, some 5⟩ [(0, false), (0, false)])
      [(1, false), (1, false)] =
      some (sampleAfter ⟨some "A", none, some 5⟩ [(0, false), (0, false), (1, false), (1, false)]) := rfl
  exact ⟨_, _, reaches_of_runSchedule hmove, reaches_of_runSchedule hreport, rfl, rfl⟩

theorem assignment_advances_move : ∃ c' : Conf (Connections Unit) (Session Unit),
      ReachesWhere next StepOk (sampleConf ⟨none, none, none⟩) c' ∧
        ∃ new, c'.shared "conn" = some new ∧ 5 ≤ new.generation ∧ (new.shardId ≠ some "A" → 5 < new.generation) := by
  have hload : StepWhere next StepOk (sampleConf ⟨none, none, none⟩)
      (sampleAfter ⟨none, none, none⟩ [(0, false)]) := by
    apply StepWhere.act 0 false rfl ?_ rfl
    intro rows hrows
    cases hrows
  have hcommit : StepWhere next StepOk (sampleAfter ⟨none, none, none⟩ [(0, false)])
      (sampleAfter ⟨none, none, none⟩ [(0, false), (0, false)]) := by
    apply StepWhere.act 0 false rfl ?_ rfl
    intro rows hrows id loaded stored hloaded hstored target _ _
    cases hrows
    by_cases hid : id = "conn"
    · subst hid
      cases hloaded
      cases hstored
      exact le_refl _
    · simp [sampleConf, hid] at hstored
  have hrun := Relation.ReflTransGen.tail (.single hload) hcommit
  have hold : (sampleConf ⟨none, none, none⟩).shared "conn" = some ⟨some "A", some 5, none, ()⟩ := rfl
  exact ⟨_, hrun, assignment_advances hrun hold⟩

end RyanAI.Backend.Assignment
