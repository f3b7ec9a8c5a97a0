import RyanAI.Credit.Ledger

/-!
# The ledger invariant

The invariant over every statement-level interleaving. `Consistent` is the global part that holds of any requests:
unique keys, and no second version of a paid check-in. `Balances` says of every version of a balance what it has to
satisfy. `Locks` and `Logged` are local: the rows a request holds at each of its statements, and the log rows it has
written. No other request disturbs them (`frame_of_trans`), which is where the row locks enter.
-/

namespace RyanAI.Credit.Ledger

open RyanAI.Lib
open RyanAI.Lib.Interleaving
open RyanAI.Lib.ReadCommitted

variable {δ : Type}

def Request.NonNeg : Request δ → Prop
  | .addCredit .. => True
  | .setCredit _ credit _ => 0 ≤ credit
  | .resetAllCredits value => 0 ≤ value
  | .checkin _ _ reward _ => 0 ≤ reward

structure Consistent (db : Db δ) : Prop where
  credit_keys : UniqueKeys db.credit
  draws_keys : UniqueKeys db.draws
  draws_once : ∀ k x, committedAt db.draws k = some x → pendingAt db.draws k = none

/-- Every version of every balance satisfies `P`. -/
structure Balances (P : ℚ → Prop) (db : Db δ) : Prop where
  committed : ∀ u v, committedAt db.credit u = some v → P v
  pending : ∀ u owner v, pendingAt db.credit u = some (owner, v) → P v

/-- The rows request `i` holds, with the values put there. -/
def Locks (cfg : Config) (i : Nat) (db : Db δ) : Request δ → Phase → Prop
  | req, .init .insertCommit =>
    (∃ v, toColumn cfg.defaultCredit = some v ∧ HoldsOnly i req.userId v db.credit) ∧
      committedAt db.credit req.userId = none ∧ HoldsNone i db.draws
  | .addCredit u _ _, .addSelect produced =>
    HoldsOnly i u produced db.credit ∧ HoldsNone i db.draws
  | .addCredit u _ _, .addCommit produced b =>
    b = produced ∧ HoldsOnly i u produced db.credit ∧ HoldsNone i db.draws
  | .setCredit .., .setCommit => HoldsNone i db.draws
  | .resetAllCredits _, .resetCommit _ => HoldsNone i db.draws
  | .checkin u today _ _, .checkinLookup =>
    HoldsNone i db.credit ∧ ∃ r, HoldsOnly i (u, today) ⟨i, r⟩ db.draws
  | .checkin u today _ _, .checkinInsertCredit =>
    HoldsNone i db.credit ∧ ∃ r, HoldsOnly i (u, today) ⟨i, r⟩ db.draws
  | .checkin u today _ _, .checkinUpdate _ =>
    ((HoldsNone i db.credit ∧ (committedAt db.credit u).isSome) ∨ ∃ v, HoldsOnly i u v db.credit) ∧
      ∃ r, HoldsOnly i (u, today) ⟨i, r⟩ db.draws
  | .checkin u today _ _, .checkinCommit =>
    (∃ v, HoldsOnly i u v db.credit) ∧ ∃ r, HoldsOnly i (u, today) ⟨i, r⟩ db.draws
  | .checkin u today _ _, .returned =>
    (∃ r, committedAt db.draws (u, today) = some ⟨i, r⟩) ∧ HoldsNone i db.credit ∧ HoldsNone i db.draws
  | _, _ => HoldsNone i db.credit ∧ HoldsNone i db.draws

/-- The log rows that request `i` has written. -/
def logOf (i : Nat) (db : Db δ) : List (CreditLog δ) := db.log.filter fun row => row.id = i

/-- `add_credit_by_user_id` logs when it commits, and only then. -/
def Logged (i : Nat) (db : Db δ) : Request δ → Phase → Prop
  | .addCredit u _ detail, .addReturn produced => logOf i db = [⟨i, u, produced, detail⟩]
  | .addCredit u _ detail, .addReturned produced => logOf i db = [⟨i, u, produced, detail⟩]
  | .addCredit .., _ => logOf i db = []
  | _, _ => True

def ReadNonNeg : Phase → Prop
  | .checkinUpdate current => 0 ≤ current
  | _ => True

/-- The local assertion of request `i`. -/
structure Local (cfg : Config) (i : Nat) (c : Call δ) (db : Db δ) : Prop where
  nonNeg : c.request.NonNeg
  read : ReadNonNeg c.phase
  locks : Locks cfg i db c.request c.phase
  logged : Logged i db c.request c.phase

/-! ## The frame of the other requests -/

/-- What a statement of another request leaves alone for request `j`. -/
structure Frame (j : Nat) (db db' : Db δ) : Prop where
  credit : Untouched j db.credit db'.credit
  draws : Untouched j db.draws db'.draws
  paid : ∀ k x, committedAt db.draws k = some x → committedAt db'.draws k = some x
  log : logOf j db' = logOf j db

theorem Frame.refl (j : Nat) (db : Db δ) : Frame j db db := ⟨.refl j _, .refl j _, fun _ _ h => h, rfl⟩

variable {db db' : Db δ} {j i : Nat} {tbl : Table String ℚ} {cfg : Config} {c c' : Call δ}
    {req : Request δ} {ph : Phase} {v : ℚ} {u : String}

theorem Frame.setCredit (h : Untouched j db.credit tbl) : Frame j db { db with credit := tbl } :=
  ⟨h, .refl j _, fun _ _ h => h, rfl⟩

section

variable (hij : i ≠ j) (hs : Consistent db)

include hij hs

theorem Frame.commit : Frame j db (db.commit i) := by
  refine ⟨untouched_commit hij _, untouched_commit hij _, fun k x h => ?_, rfl⟩
  have hfree := hs.draws_once k x h
  change committedAt (ReadCommitted.commit i db.draws) k = some x
  rw [committedAt_commit_of_not_holds (by simp [hfree]), h]

theorem Frame.commitLog (u : String) (b : ℚ) (detail : δ) :
    Frame j db { db.commit i with log := db.log ++ [⟨i, u, b, detail⟩] } := by
  obtain ⟨hc, hd, hp, -⟩ := Frame.commit hij hs
  exact ⟨hc, hd, hp, by simp [logOf, hij]⟩

theorem Frame.rollback : Frame j db (db.rollback i) := by
  refine ⟨untouched_rollback hij hs.credit_keys, untouched_rollback hij hs.draws_keys,
    fun k x h => ?_, rfl⟩
  change committedAt (ReadCommitted.rollback i db.draws) k = some x
  rw [committedAt_rollback hs.draws_keys, h]

/-- A statement of request `i` stays within what request `j` has not locked. -/
theorem frame_of_trans (h : Trans cfg i db c db' c') : Frame j db db' := by
  cases h with
  | found | missing | retry | addRead | addReturned | setMissed | setReturned | creditFound
  | creditMissing | awardMissed => exact .refl j db
  | inserted _ hi => exact .setCredit (untouched_insert hij hi)
  | creditInserted _ hi => exact .setCredit (untouched_insert hij hi)
  | insertCommitted => exact .commit hij hs
  | resetCommitted => exact .commit hij hs
  | awardCommitted => exact .commit hij hs
  | insertAborted => exact .rollback hij hs
  | refused => exact .rollback hij hs
  | failed => exact .rollback hij hs
  | added _ _ _ hfree => exact .setCredit (untouched_write hij hfree _)
  | setWritten _ hfree => exact .setCredit (untouched_write hij hfree _)
  | awarded _ _ hfree => exact .setCredit (untouched_write hij hfree _)
  | addCommitted => exact .commitLog hij hs _ _ _
  | setCommitted => exact .commitLog hij hs _ _ _
  | resetWritten _ hu => exact .setCredit (untouched_updateAll hij hu)
  | recorded _ hi =>
    refine ⟨.refl j _, untouched_insert hij hi, fun k x hx => ?_, rfl⟩
    rw [committedAt_insert hi, hx]

end

theorem Locks.frame (hf : Frame j db db') (h : Locks cfg j db req ph) : Locks cfg j db' req ph := by
  unfold Locks at h ⊢
  split at h
  · obtain ⟨⟨v, hv, ho⟩, hn, hd⟩ := h
    refine ⟨⟨v, hv, hf.credit.holdsOnly ho⟩, ?_, hf.draws.holdsNone hd⟩
    rw [hf.credit.committed _ v ho.1, hn]
  · exact ⟨hf.credit.holdsOnly h.1, hf.draws.holdsNone h.2⟩
  · exact ⟨h.1, hf.credit.holdsOnly h.2.1, hf.draws.holdsNone h.2.2⟩
  · exact hf.draws.holdsNone h
  · exact hf.draws.holdsNone h
  · obtain ⟨hc, r, hr⟩ := h
    exact ⟨hf.credit.holdsNone hc, r, hf.draws.holdsOnly hr⟩
  · obtain ⟨hc, r, hr⟩ := h
    exact ⟨hf.credit.holdsNone hc, r, hf.draws.holdsOnly hr⟩
  · obtain ⟨hc, r, hr⟩ := h
    refine ⟨?_, r, hf.draws.holdsOnly hr⟩
    rcases hc with ⟨hnone, hrow⟩ | ⟨v, hv⟩
    · exact Or.inl ⟨hf.credit.holdsNone hnone, hf.credit.kept _ hrow⟩
    · exact Or.inr ⟨v, hf.credit.holdsOnly hv⟩
  · obtain ⟨⟨v, hv⟩, r, hr⟩ := h
    exact ⟨⟨v, hf.credit.holdsOnly hv⟩, r, hf.draws.holdsOnly hr⟩
  · obtain ⟨⟨r, hr⟩, hc, hd⟩ := h
    exact ⟨⟨r, hf.paid _ _ hr⟩, hf.credit.holdsNone hc, hf.draws.holdsNone hd⟩
  · exact ⟨hf.credit.holdsNone h.1, hf.draws.holdsNone h.2⟩

theorem Logged.frame (hf : Frame j db db') (h : Logged j db req ph) : Logged j db' req ph := by
  unfold Logged at h ⊢
  rw [hf.log]
  exact h

theorem Local.frame (hf : Frame j db db') (h : Local cfg j c db) : Local cfg j c db' :=
  ⟨h.nonNeg, h.read, h.locks.frame hf, h.logged.frame hf⟩

theorem toColumn_nonneg (hx : 0 ≤ x) (h : toColumn x = some y) : 0 ≤ y := by
  rw [toColumn_eq] at h
  exact FixedPoint.toColumn_nonneg hx h

section

variable (hs : Consistent db)

include hs

theorem Consistent.setCredit (hk : UniqueKeys tbl) : Consistent { db with credit := tbl } :=
  ⟨hk, hs.draws_keys, hs.draws_once⟩

theorem Consistent.recorded {tbl : Table (String × String) CheckinRecord}
    (hi : ReadCommitted.insert i k x db.draws = .done tbl) : Consistent { db with draws := tbl } := by
  refine ⟨hs.credit_keys, hs.draws_keys.insert hi, fun k' y hy => ?_⟩
  rw [committedAt_insert hi] at hy
  rw [pendingAt_insert hi, if_neg]
  · exact hs.draws_once k' y hy
  · rintro rfl
    rw [committedAt_of_insert hi] at hy
    cases hy

theorem Consistent.commit (i : Nat) : Consistent (db.commit i) := by
  refine ⟨hs.credit_keys.commit i, hs.draws_keys.commit i, fun k x hx => ?_⟩
  change committedAt (ReadCommitted.commit i db.draws) k = some x at hx
  change pendingAt (ReadCommitted.commit i db.draws) k = none
  rw [committedAt_commit] at hx
  rw [pendingAt_commit]
  split at hx
  · rename_i owner v hp
    split at hx
    · rename_i ho
      simp [hp, ho]
    · have hfree := hs.draws_once k x hx
      simp [hfree]
  · rename_i hp
    simp [hp]

theorem Consistent.rollback (i : Nat) : Consistent (db.rollback i) := by
  refine ⟨hs.credit_keys.rollback i, hs.draws_keys.rollback i, fun k x hx => ?_⟩
  change committedAt (ReadCommitted.rollback i db.draws) k = some x at hx
  change pendingAt (ReadCommitted.rollback i db.draws) k = none
  rw [committedAt_rollback hs.draws_keys] at hx
  simp [pendingAt_rollback hs.draws_keys, hs.draws_once k x hx]

theorem Consistent.setLog (log : List (CreditLog δ)) : Consistent { db with log := log } :=
  ⟨hs.credit_keys, hs.draws_keys, hs.draws_once⟩

theorem consistent_of_trans (h : Trans cfg i db c db' c') : Consistent db' := by
  cases h with
  | found | missing | retry | addRead | addReturned | setMissed | setReturned | creditFound
  | creditMissing | awardMissed => exact hs
  | inserted _ hi => exact hs.setCredit (hs.credit_keys.insert hi)
  | creditInserted _ hi => exact hs.setCredit (hs.credit_keys.insert hi)
  | insertCommitted | resetCommitted | awardCommitted => exact hs.commit i
  | insertAborted | refused | failed => exact hs.rollback i
  | added | setWritten | awarded => exact hs.setCredit (hs.credit_keys.write i _ _)
  | addCommitted | setCommitted => exact (hs.commit i).setLog _
  | resetWritten _ hu => exact hs.setCredit (hs.credit_keys.updateAll hu)
  | recorded _ hi => exact hs.recorded hi

end

/-! ### Versions of balances -/

section Balances

variable {P : ℚ → Prop}

theorem Balances.write (hb : Balances P db) (i : Nat) (u : String) (hv : P v) :
    Balances P { db with credit := ReadCommitted.write i u v db.credit } := by
  refine ⟨fun k w hw => ?_, fun k owner w hw => ?_⟩
  · rw [committedAt_write] at hw
    exact hb.committed k w hw
  by_cases hk : k = u
  · subst hk
    cases hr : row db.credit k with
    | none => simp [pendingAt, row_write, hr] at hw
    | some r =>
      rw [pendingAt_write_self i v hr] at hw
      simp only [Option.some.injEq, Prod.mk.injEq] at hw
      exact hw.2 ▸ hv
  · rw [pendingAt_write_of_ne i hk] at hw
    exact hb.pending k owner w hw

theorem Balances.insert (hb : Balances P db) (hv : P v) (hi : ReadCommitted.insert i u v db.credit = .done tbl) :
    Balances P { db with credit := tbl } := by
  refine ⟨fun k w hw => ?_, fun k owner w hw => ?_⟩
  · rw [committedAt_insert hi] at hw
    exact hb.committed k w hw
  rw [pendingAt_insert hi] at hw
  split at hw
  · simp only [Option.some.injEq, Prod.mk.injEq] at hw
    exact hw.2 ▸ hv
  · exact hb.pending k owner w hw

theorem Balances.updateAll (hb : Balances P db) (hv : P v)
    (hu : ReadCommitted.updateAll i v db.credit = .rows n tbl) : Balances P { db with credit := tbl } := by
  refine ⟨fun k w hw => ?_, fun k owner w hw => ?_⟩
  · rw [(updateAll_rows hu k).1] at hw
    exact hb.committed k w hw
  rcases (updateAll_rows hu k).2 with hp | ⟨hp, -⟩
  · rw [hp] at hw
    exact hb.pending k owner w hw
  · rw [hp] at hw
    simp only [Option.some.injEq, Prod.mk.injEq] at hw
    exact hw.2 ▸ hv

theorem Balances.commit (hb : Balances P db) (i : Nat) : Balances P (db.commit i) := by
  refine ⟨fun k w hw => ?_, fun k owner w hw => ?_⟩
  · change committedAt (ReadCommitted.commit i db.credit) k = some w at hw
    rw [committedAt_commit] at hw
    split at hw
    · rename_i owner v hp
      split at hw
      · simp only [Option.some.injEq] at hw
        exact hw ▸ hb.pending k owner v hp
      · exact hb.committed k w hw
    · exact hb.committed k w hw
  · change pendingAt (ReadCommitted.commit i db.credit) k = some (owner, w) at hw
    rw [pendingAt_commit, Option.filter_eq_some_iff] at hw
    exact hb.pending k owner w hw.1

theorem Balances.rollback (hs : Consistent db) (hb : Balances P db) (i : Nat) : Balances P (db.rollback i) := by
  refine ⟨fun k w hw => ?_, fun k owner w hw => ?_⟩
  · change committedAt (ReadCommitted.rollback i db.credit) k = some w at hw
    rw [committedAt_rollback hs.credit_keys] at hw
    exact hb.committed k w hw
  · change pendingAt (ReadCommitted.rollback i db.credit) k = some (owner, w) at hw
    rw [pendingAt_rollback hs.credit_keys, Option.filter_eq_some_iff] at hw
    exact hb.pending k owner w hw.1

theorem Balances.select (hb : Balances P db) {c : ℚ} (h : ReadCommitted.select i u db.credit = some c) : P c := by
  rcases pendingAt_or_committedAt_of_select h with hp | hc
  · exact hb.pending u i c hp
  · exact hb.committed u c hc

/-- A version is an earlier one, a new row, or an `UPDATE`'s. -/
theorem balances_of_trans (hs : Consistent db) (hb : Balances P db) (h : Trans cfg i db c db' c')
    (hdefault : ∀ v, toColumn cfg.defaultCredit = some v → P v)
    (hadd : ∀ u amount detail b v, c.request = .addCredit u amount detail → P b →
      (amount < 0 → -amount ≤ b) → toColumn (b + amount) = some v → P v)
    (hset : ∀ u credit detail v, c.request = .setCredit u credit detail → toColumn credit = some v → P v)
    (hreset : ∀ value v, c.request = .resetAllCredits value → toColumn value = some v → P v)
    (haward : ∀ u today reward dup current v, c.request = .checkin u today reward dup →
      c.phase = .checkinUpdate current → toColumn (current + reward) = some v → P v) :
    Balances P db' := by
  cases h with
  | found | missing | retry | addRead | addReturned | setMissed | setReturned | creditFound
  | creditMissing | awardMissed => exact hb
  | inserted hv hi => exact hb.insert (hdefault _ hv) hi
  | creditInserted hv hi => exact hb.insert (hdefault _ hv) hi
  | insertCommitted | resetCommitted | awardCommitted => exact hb.commit i
  | insertAborted | refused | failed => exact hb.rollback hs i
  | added hc hcond hv => exact hb.write i _ (hadd _ _ _ _ _ rfl (hb.select hc) hcond hv)
  | setWritten hv => exact hb.write i _ (hset _ _ _ _ rfl hv)
  | awarded _ hv => exact hb.write i _ (haward _ _ _ _ _ _ rfl rfl hv)
  | addCommitted | setCommitted => exact ⟨(hb.commit i).committed, (hb.commit i).pending⟩
  | resetWritten hv hu => exact hb.updateAll (hreset _ _ rfl hv) hu
  | recorded => exact ⟨hb.committed, hb.pending⟩

end Balances

/-- A debit's `WHERE` is tested on the version it overwrites. -/
theorem nonneg_of_trans (hcfg : 0 ≤ cfg.defaultCredit) (hs : Consistent db)
    (hb : Balances (0 ≤ ·) db) (hl : Local cfg i c db) (h : Trans cfg i db c db' c') :
    Balances (0 ≤ ·) db' := by
  have hreq := hl.nonNeg
  have hread := hl.read
  apply balances_of_trans hs hb h (fun v hv => toColumn_nonneg hcfg hv)
  · intro u amount detail b v _ hb0 hcond hv
    refine toColumn_nonneg ?_ hv
    rcases lt_or_ge amount 0 with hneg | hpos
    · have hle := hcond hneg
      linarith
    · have hb0' : 0 ≤ b := hb0
      linarith
  · intro u credit detail v hc hv
    rw [hc] at hreq
    exact toColumn_nonneg hreq hv
  · intro value v hc hv
    rw [hc] at hreq
    exact toColumn_nonneg hreq hv
  · intro u today reward dup current v hc hph hv
    rw [hc] at hreq
    rw [hph] at hread
    have hcur : 0 ≤ current := hread
    have hrew : 0 ≤ reward := hreq
    exact toColumn_nonneg (by linarith) hv

theorem readNonNeg_of_trans (hcfg : 0 ≤ cfg.defaultCredit) (hb : Balances (0 ≤ ·) db) (h : Trans cfg i db c db' c') :
    ReadNonNeg c'.phase := by
  cases h with
  | @found req =>
    cases req <;> trivial
  | creditFound hc => exact hb.select hc
  | creditInserted => exact hcfg
  | _ => trivial

theorem request_of_trans (h : Trans cfg i db c db' c') : c'.request = c.request := by
  cases h <;> rfl

/-- Request `i` has no open transaction. -/
def Idle (i : Nat) (db : Db δ) : Prop := HoldsNone i db.credit ∧ HoldsNone i db.draws

theorem idle_commit (i : Nat) (db : Db δ) : Idle i (db.commit i) := ⟨holdsNone_commit i _, holdsNone_commit i _⟩

theorem idle_rollback (hs : Consistent db) (i : Nat) : Idle i (db.rollback i) :=
  ⟨holdsNone_rollback hs.credit_keys i, holdsNone_rollback hs.draws_keys i⟩

theorem locks_init_iff {ph : InitPhase} (hph : ph ≠ .insertCommit) : Locks cfg i db req (.init ph) ↔ Idle i db := by
  cases ph <;> first | exact absurd rfl hph | (cases req <;> rfl)

theorem locks_raised_iff : Locks cfg i db req (.raised e) ↔ Idle i db := by
  cases req <;> rfl

theorem locks_afterInit_iff : Locks cfg i db req req.afterInit ↔ Idle i db := by
  cases req <;> rfl

theorem locks_of_trans (hs : Consistent db) (hlocks : Locks cfg i db c.request c.phase)
    (h : Trans cfg i db c db' c') : Locks cfg i db' c'.request c'.phase := by
  cases h with
  | found hph =>
    -- no row is held at any of the three lookups
    have hne : ∀ ph : InitPhase, ph = .lookup ∨ ph = .refresh ∨ ph = .relookup →
        ph ≠ .insertCommit := by
      rintro ph (rfl | rfl | rfl) <;> simp
    exact locks_afterInit_iff.2 ((locks_init_iff (hne _ hph)).1 hlocks)
  | missing => exact (locks_init_iff (by simp)).2 ((locks_init_iff (by simp)).1 hlocks)
  | retry hph =>
    refine (locks_init_iff (by simp)).2 ((locks_init_iff ?_).1 hlocks)
    rcases hph with rfl | rfl <;> simp
  | inserted hv hi =>
    obtain ⟨hc, hd⟩ := (locks_init_iff (by simp)).1 hlocks
    refine ⟨⟨_, hv, hc.insert hi⟩, ?_, hd⟩
    rw [committedAt_insert hi, committedAt_of_insert hi]
  | insertCommitted => exact (locks_init_iff (by simp)).2 (idle_commit i db)
  | insertAborted => exact (locks_init_iff (by simp)).2 (idle_rollback hs i)
  | refused => exact idle_rollback hs i
  | failed => exact locks_raised_iff.2 (idle_rollback hs i)
  | added hc _ _ _ => exact ⟨hlocks.1.write hc, hlocks.2⟩
  | addRead hb =>
    -- the request sees its own uncommitted version, hence the balance it logs is the one it produced
    obtain ⟨hc, hd⟩ := hlocks
    rw [select_of_pendingAt hc.1, Option.some.injEq] at hb
    exact ⟨hb.symm, hc, hd⟩
  | addCommitted => exact idle_commit i db
  | addReturned => exact hlocks
  | setWritten => exact hlocks.2
  | setMissed => exact hlocks.2
  | setCommitted => exact idle_commit i db
  | setReturned => exact hlocks
  | resetWritten => exact hlocks.2
  | resetCommitted => exact idle_commit i db
  | recorded _ hi => exact ⟨hlocks.1, _, hlocks.2.insert hi⟩
  | creditFound hc =>
    obtain ⟨hnone, hdraw⟩ := hlocks
    rw [select_of_holdsNone hnone] at hc
    exact ⟨Or.inl ⟨hnone, by simp [hc]⟩, hdraw⟩
  | creditMissing => exact hlocks
  | creditInserted _ hi => exact ⟨Or.inr ⟨_, hlocks.1.insert hi⟩, hlocks.2⟩
  | awarded hc =>
    obtain ⟨⟨hnone, -⟩ | ⟨v, hv⟩, hdraw⟩ := hlocks
    · exact ⟨⟨_, hnone.write hc⟩, hdraw⟩
    · exact ⟨⟨_, hv.write⟩, hdraw⟩
  | awardMissed hc =>
    -- the row that the lookup found, or that the check-in inserted, is still visible
    obtain ⟨⟨hnone, hrow⟩ | ⟨v, hv⟩, hdraw⟩ := hlocks
    · rw [← select_of_holdsNone hnone, hc] at hrow
      cases hrow
    · rw [select_of_pendingAt hv.1] at hc
      cases hc
  | awardCommitted =>
    obtain ⟨-, r, hr⟩ := hlocks
    exact ⟨⟨r, committedAt_commit_of_pendingAt hr.1⟩, idle_commit i db⟩

theorem Logged.carry (h : Logged i db req ph) (hlog : logOf i db' = logOf i db)
    (hph : ∀ p, ph ≠ .addReturn p ∧ ph ≠ .addReturned p)
    (hph' : ∀ p, ph' ≠ .addReturn p ∧ ph' ≠ .addReturned p) : Logged i db' req ph' := by
  cases req with
  | addCredit u a d =>
    have hold : logOf i db = [] := by
      cases ph <;> first | exact h | (exact absurd rfl (hph _).1) | (exact absurd rfl (hph _).2)
    have hnew : logOf i db' = [] := hlog.trans hold
    cases ph' <;>
      first | exact hnew | (exact absurd rfl (hph' _).1) | (exact absurd rfl (hph' _).2)
  | setCredit | resetAllCredits | checkin => trivial

theorem Request.afterInit_ne (req : Request δ) (p : ℚ) :
    req.afterInit ≠ .addReturn p ∧ req.afterInit ≠ .addReturned p := by
  cases req <;> simp [Request.afterInit]

theorem logged_of_trans (hl : Local cfg i c db) (h : Trans cfg i db c db' c') : Logged i db' c'.request c'.phase := by
  have hlog := hl.logged
  have hlocks := hl.locks
  cases h with
  | found => exact hlog.carry rfl (by simp) (fun p => Request.afterInit_ne _ p)
  | missing | retry | inserted | insertCommitted | insertAborted | added | refused | addRead =>
    exact hlog.carry rfl (by simp) (by simp)
  | @failed req ph e hfin _ hret _ =>
    refine hlog.carry rfl (fun p => ⟨hret p, ?_⟩) (by simp)
    rintro rfl
    simp [Phase.finished] at hfin
  | addReturned => exact hlog
  | @addCommitted u amount detail produced b =>
    have hb : b = produced := hlocks.1
    have hnone : logOf i db = [] := hlog
    change logOf i _ = [⟨i, u, produced, detail⟩]
    simp only [logOf] at hnone
    simp [logOf, hnone, hb]
  | setWritten | setMissed | setCommitted | setReturned | resetWritten | resetCommitted | recorded
  | creditFound | creditMissing | creditInserted | awarded | awardMissed | awardCommitted => trivial

structure StartedNonNeg (cfg : Config) (c : Conf (Db δ) (Call δ)) : Prop where
  started : Started c
  balances : ∀ u v, committedAt c.shared.credit u = some v → 0 ≤ v
  defaultCredit : 0 ≤ cfg.defaultCredit
  requests : ∀ call ∈ c.procs, call.request.NonNeg

theorem consistent_of_started {c : Conf (Db δ) (Call δ)} (h : Started c) : Consistent c.shared :=
  ⟨h.atRest.credit_keys, h.atRest.draws_keys, fun k _ _ => h.atRest.draws_free k⟩

theorem balances_of_started {P : ℚ → Prop} {c : Conf (Db δ) (Call δ)} (h : Started c)
    (hb : ∀ u v, committedAt c.shared.credit u = some v → P v) : Balances P c.shared := by
  refine ⟨hb, fun u owner v hp => ?_⟩
  rw [h.atRest.credit_free u] at hp
  cases hp

theorem idle_of_started {c : Conf (Db δ) (Call δ)} (h : Started c) (i : Nat) : Idle i c.shared := by
  constructor
  · intro k v hp
    rw [h.atRest.credit_free k] at hp
    cases hp
  · intro k v hp
    rw [h.atRest.draws_free k] at hp
    cases hp

theorem locks_start_iff : Locks cfg i db req req.start ↔ Idle i db := by
  cases req <;> rfl

theorem local_of_started {c : Conf (Db δ) (Call δ)} (h : StartedNonNeg cfg c) {call : Call δ}
    (hi : c.procs[i]? = some call) : Local cfg i call c.shared := by
  have hmem := List.mem_of_getElem? hi
  have hlt := (List.getElem?_eq_some_iff.1 hi).1
  have hlog : logOf i c.shared = [] := by
    rw [logOf, List.filter_eq_nil_iff]
    intro row hrow
    have hid := h.started.log row hrow
    simp only [decide_eq_true_eq]
    omega
  have hphase := h.started.phase call hmem
  obtain ⟨req, ph⟩ := call
  simp only at hphase
  subst hphase
  refine ⟨h.requests _ hmem, ?_, locks_start_iff.2 (idle_of_started h.started i), ?_⟩
  · cases req <;> trivial
  · cases req <;> first | exact hlog | trivial

theorem ledger_holds {c₀ c : Conf (Db δ) (Call δ)} (h₀ : StartedNonNeg cfg c₀) (hr : Reaches (next cfg) c₀ c) :
    Holds (fun db => Consistent db ∧ Balances (0 ≤ ·) db) (Local cfg) c := by
  refine invariant_of_frame ?_ ?_ hr ⟨⟨consistent_of_started h₀.started,
    balances_of_started h₀.started h₀.balances⟩, fun i call hi => local_of_started h₀ hi⟩
  · rintro i ok db call db' call' - ⟨hs, hb⟩ hl hn
    have ht := trans_of_next hn
    refine ⟨⟨consistent_of_trans hs ht, nonneg_of_trans h₀.defaultCredit hs hb hl ht⟩, ?_, ?_, ?_, ?_⟩
    · rw [request_of_trans ht]
      exact hl.nonNeg
    · exact readNonNeg_of_trans h₀.defaultCredit hb ht
    · exact locks_of_trans hs hl.locks ht
    · exact logged_of_trans hl ht
  · rintro i j ok db call db' call' other hij - ⟨hs, -⟩ - hj hn
    exact hj.frame (frame_of_trans hij hs (trans_of_next hn))

/-! ## What changes a balance -/

theorem balance_congr (h : ∀ u, committedAt db'.credit u = committedAt db.credit u) (u : String) :
    balance cfg db' u = balance cfg db u := by
  simp only [balance, h]

theorem balance_insertCommit (hl : Locks cfg i db req (.init .insertCommit)) (w : String) :
    balance cfg (db.commit i) w = balance cfg db w := by
  have hl' : (∃ v, toColumn cfg.defaultCredit = some v ∧ HoldsOnly i req.userId v db.credit) ∧
      committedAt db.credit req.userId = none ∧ HoldsNone i db.draws := by
    cases req <;> exact hl
  obtain ⟨⟨v, hv, ho⟩, hnone, -⟩ := hl'
  rw [toColumn_eq] at hv
  have hround := FixedPoint.toColumn_eq_some hv
  change (committedAt (ReadCommitted.commit i db.credit) w).getD _ = _
  by_cases hw : w = req.userId
  · subst hw
    rw [committedAt_commit_of_pendingAt ho.1, balance, hnone, hround]
    rfl
  · rw [committedAt_commit_of_not_holds fun v' hp => hw (ho.2 w v' hp)]
    rfl

theorem balance_of_trans (hs : Consistent db) (hl : Locks cfg i db c.request c.phase)
    (h : Trans cfg i db c db' c') (hadd : ∀ p, c'.phase ≠ .addReturn p)
    (hset : c'.phase ≠ .setReturn) (hret : c'.phase ≠ .returned) (w : String) :
    balance cfg db' w = balance cfg db w := by
  cases h with
  | found | missing | retry | addRead | addReturned | setMissed | creditFound | creditMissing
  | awardMissed | recorded => rfl
  | inserted _ hi => exact balance_congr (fun u => committedAt_insert hi u) w
  | creditInserted _ hi => exact balance_congr (fun u => committedAt_insert hi u) w
  | insertCommitted => exact balance_insertCommit hl w
  | insertAborted => exact balance_congr (fun u => committedAt_rollback hs.credit_keys i u) w
  | refused => exact balance_congr (fun u => committedAt_rollback hs.credit_keys i u) w
  | failed => exact balance_congr (fun u => committedAt_rollback hs.credit_keys i u) w
  | added => exact balance_congr (fun u => committedAt_write i _ _ _ u) w
  | setWritten => exact balance_congr (fun u => committedAt_write i _ _ _ u) w
  | awarded => exact balance_congr (fun u => committedAt_write i _ _ _ u) w
  | resetWritten _ hu => exact balance_congr (fun u => (updateAll_rows hu u).1) w
  | addCommitted => exact absurd rfl (hadd _)
  | setCommitted => exact absurd rfl hset
  | setReturned | resetCommitted | awardCommitted => exact absurd rfl hret

theorem log_of_trans (h : Trans cfg i db c db' c') (hadd : ∀ p, c'.phase ≠ .addReturn p)
    (hset : c'.phase ≠ .setReturn) : db'.log = db.log := by
  cases h with
  | addCommitted => exact absurd rfl (hadd _)
  | setCommitted => exact absurd rfl hset
  | _ => rfl

def Phase.committed : Phase → Bool
  | .addReturn _ => true
  | .addReturned _ => true
  | _ => false

theorem committed_of_trans (h : Trans cfg i db c db' c') (hc : c.phase.committed = true) :
    c'.phase.committed = true := by
  cases h with
  | addReturned => rfl
  | @failed req ph e hfin _ hret _ =>
    cases ph with
    | addReturn p => exact absurd rfl (hret p)
    | addReturned p => simp [Phase.finished] at hfin
    | _ => simp [Phase.committed] at hc
  | _ => simp [Phase.committed] at hc

theorem act_of_refused {c₀ c₁ c₂ c : Conf (Db δ) (Call δ)} (h₀ : StartedNonNeg cfg c₀)
    (hr₁ : Reaches (next cfg) c₀ c₁) {ok : Bool} (hact : act (next cfg) c₁ i ok = some c₂)
    (hr₂ : Reaches (next cfg) c₂ c) {amount : ℚ} {detail : δ} {e : Failure}
    (hend : c.procs[i]? = some ⟨.addCredit u amount detail, .raised e⟩) :
    (∀ w, balance cfg c₂.shared w = balance cfg c₁.shared w) ∧ c₂.shared.log = c₁.shared.log := by
  obtain ⟨p, db', p', hp, hn, rfl⟩ := act_eq_some hact
  obtain ⟨⟨hs, -⟩, hl⟩ := ledger_holds h₀ hr₁
  have ht := trans_of_next hn
  have hlt := (List.getElem?_eq_some_iff.1 hp).1
  have hget : (c₁.procs.set i p')[i]? = some p' := List.getElem?_set_self hlt
  -- the request at the end is the request of this step, and it has not committed in between
  have hreq : p'.request = .addCredit u amount detail := by
    obtain ⟨q, hq, hqr⟩ := proc_persists (P := fun q => q.request = p'.request)
      (fun _ _ _ _ _ _ hn' h' => (request_of_trans (trans_of_next hn')).trans h') hr₂ hget rfl
    rw [hend] at hq
    cases hq
    exact hqr.symm
  have huncommitted : p'.phase.committed = false := by
    by_contra hne
    obtain ⟨q, hq, hqc⟩ := proc_persists (P := fun q => q.phase.committed = true)
      (fun _ _ _ _ _ _ hn' h' => committed_of_trans (trans_of_next hn') h') hr₂ hget
      (by simpa using hne)
    rw [hend] at hq
    cases hq
    simp [Phase.committed] at hqc
  have hadd : ∀ q, p'.phase ≠ .addReturn q := by
    intro q he
    rw [he] at huncommitted
    simp [Phase.committed] at huncommitted
  have hset : p'.phase ≠ .setReturn ∧ p'.phase ≠ .returned := by
    cases ht <;> simp_all [Request.afterInit]
  exact ⟨balance_of_trans hs (hl i p hp).locks ht hadd hset.1 hset.2, log_of_trans ht hadd hset.1⟩

/-- Balances are not negative, users have one row, a successful addition one log row with its
balance, a refused one no effect, and a date is paid once. -/
theorem ledger_law {cfg : Config} {c₀ c : Conf (Db δ) (Call δ)} (h₀ : StartedNonNeg cfg c₀)
    (hr : Reaches (next cfg) c₀ c) :
    (∀ u, 0 ≤ balance cfg c.shared u) ∧
    (∀ u, c.shared.credit.countP (fun r => r.key = u) ≤ 1) ∧
    (∀ (i : Nat) (u : String) (amount : ℚ) (detail : δ) (produced : ℚ),
      (c.procs[i]? = some ⟨.addCredit u amount detail, .addSelect produced⟩ →
        pendingAt c.shared.credit u = some (i, produced)) ∧
      (c.procs[i]? = some ⟨.addCredit u amount detail, .addReturned produced⟩ →
        logOf i c.shared = [⟨i, u, produced, detail⟩])) ∧
    (∀ (c₁ c₂ : Conf (Db δ) (Call δ)) (i : Nat) (ok : Bool) (u : String) (amount : ℚ) (detail : δ)
        (msg : String),
      Reaches (next cfg) c₀ c₁ → act (next cfg) c₁ i ok = some c₂ → Reaches (next cfg) c₂ c →
      c.procs[i]? = some ⟨.addCredit u amount detail, .raised (.http 403 msg)⟩ →
      (∀ w, balance cfg c₂.shared w = balance cfg c₁.shared w) ∧ c₂.shared.log = c₁.shared.log) ∧
    (∀ (i j : Nat) (u today : String) (reward reward' : ℚ) (dup dup' : String),
      c.procs[i]? = some ⟨.checkin u today reward dup, .returned⟩ →
      c.procs[j]? = some ⟨.checkin u today reward' dup', .returned⟩ → i = j) := by
  obtain ⟨⟨hs, hb⟩, hl⟩ := ledger_holds h₀ hr
  refine ⟨fun u => ?_, fun u => ?_, fun i u amount detail produced => ⟨fun hi => ?_, fun hi => ?_⟩, ?_,
    ?_⟩
  · rw [balance]
    cases hu : committedAt c.shared.credit u with
    | none => exact FixedPoint.roundTo_nonneg 12 h₀.defaultCredit
    | some v => exact hb.committed u v hu
  · have hcount := List.nodup_iff_count_le_one.1 hs.credit_keys u
    rw [List.count, List.countP_map] at hcount
    exact hcount
  · exact (hl i _ hi).locks.1.1
  · exact (hl i _ hi).logged
  · intro c₁ c₂ i ok u amount detail msg hr₁ hact hr₂ hend
    exact act_of_refused h₀ hr₁ hact hr₂ hend
  · intro i j u today reward reward' dup dup' hi hj
    -- the committed row of the date carries the id of the request that was paid
    obtain ⟨⟨r, hri⟩, -⟩ := (hl i _ hi).locks
    obtain ⟨⟨r', hrj⟩, -⟩ := (hl j _ hj).locks
    rw [hri] at hrj
    simp only [Option.some.injEq, CheckinRecord.mk.injEq] at hrj
    exact hrj.1

def sampleStart : Conf (Db Unit) (Call Unit) where
  shared := ⟨[⟨"ada", some 10, none⟩], [], []⟩
  procs := [⟨.addCredit "ada" (-4) (), .init .lookup⟩, ⟨.checkin "ada" "2025-01-01" 1 "dup", .checkinInsert⟩]

def sampleConfig : Config := ⟨0, "no credit"⟩

def sampleSchedule : List (Nat × Bool) :=
  [(0, true), (0, true), (0, true), (0, true), (0, true), (1, true), (1, true), (1, true), (1, true)]

theorem sampleStart_started : Started sampleStart where
  atRest := {
    credit_keys := by simp [UniqueKeys, sampleStart]
    draws_keys := by simp [UniqueKeys, sampleStart]
    credit_free := by
      intro u
      by_cases hu : "ada" = u <;> simp [sampleStart, pendingAt, row, hu]
    draws_free := by simp [sampleStart, pendingAt, row] }
  log := by simp [sampleStart]
  phase := by simp [sampleStart, Request.start]

theorem sampleStart_startedNonNeg : StartedNonNeg sampleConfig sampleStart where
  started := sampleStart_started
  balances := by
    intro u v
    by_cases hu : "ada" = u
    · simp only [sampleStart, committedAt, row, hu, List.find?_cons, decide_true, Option.bind_some,
        Option.some.injEq]
      rintro rfl
      norm_num
    · simp [sampleStart, committedAt, row, hu]
  defaultCredit := le_refl 0
  requests := by simp [sampleStart, Request.NonNeg]

theorem ledger_law_sample : ∃ c, runSchedule (next sampleConfig) sampleStart sampleSchedule = some c ∧
      (∀ u, 0 ≤ balance sampleConfig c.shared u) ∧
      ∀ u, c.shared.credit.countP (fun r => r.key = u) ≤ 1 := by
  obtain ⟨c, hc⟩ := Option.isSome_iff_exists.1
    (by decide +kernel : (runSchedule (next sampleConfig) sampleStart sampleSchedule).isSome = true)
  obtain ⟨ha, hb, -⟩ := ledger_law sampleStart_startedNonNeg (reaches_of_runSchedule hc)
  exact ⟨c, hc, ha, hb⟩

end RyanAI.Credit.Ledger
