import RyanAI.Credit.LedgerInvariant

/-!
# Conservation of credit and the lost update

The balance of a user should be the initial balance plus the successful additions plus the rewards of the committed
check-ins. The relative `UPDATE` keeps this under any interleaving. The check-in writes a value computed from an earlier
read, and an addition that commits in between is lost. `FreshAward` asks that the balance is still the one read at the
`UPDATE`; along runs that meet it, with amounts that fit the scale of the column, the balance is conserved.
-/

namespace RyanAI.Credit.Ledger

open RyanAI.Lib
open RyanAI.Lib.Interleaving
open RyanAI.Lib.ReadCommitted

variable {δ : Type}

/-- What a successful addition has added to the balance of `u`. -/
def Call.addedTo (u : String) (c : Call δ) : ℚ :=
  match c.request, c.phase with
  | .addCredit w amount _, .addReturned _ => if w = u then amount else 0
  | _, _ => 0

/-- What a committed check-in has paid to `u`. -/
def Call.rewardedTo (u : String) (c : Call δ) : ℚ :=
  match c.request, c.phase with
  | .checkin w _ reward _, .returned => if w = u then reward else 0
  | _, _ => 0

def Call.movedTo (u : String) (c : Call δ) : ℚ :=
  match c.request, c.phase with
  | .addCredit w amount _, .addReturn _ => if w = u then amount else 0
  | .addCredit w amount _, .addReturned _ => if w = u then amount else 0
  | .checkin w _ reward _, .returned => if w = u then reward else 0
  | _, _ => 0

def Request.Exact : Request δ → Prop
  | .addCredit _ amount _ => FixedPoint.IsScale 12 amount
  | .checkin _ _ reward _ => FixedPoint.IsScale 12 reward
  | _ => False

def FreshAward (cfg : Config) (_ : Nat) (db : Db δ) (c : Call δ) : Prop :=
  match c.request, c.phase with
  | .checkin u _ _ _, .checkinUpdate current => balance cfg db u = current
  | _, _ => True

instance (cfg : Config) (i : Nat) (db : Db δ) (c : Call δ) : Decidable (FreshAward cfg i db c) := by
  unfold FreshAward
  split <;> infer_instance

def Accounted (cfg : Config) (i : Nat) (db : Db δ) : Request δ → Phase → Prop
  | .addCredit u amount _, .addSelect produced => produced = balance cfg db u + amount
  | .addCredit u amount _, .addCommit produced _ => produced = balance cfg db u + amount
  | .checkin u _ reward _, .checkinCommit =>
    ∃ v, pendingAt db.credit u = some (i, v) ∧ v = balance cfg db u + reward
  | _, _ => True

/-- The local assertion of request `i`. -/
structure Exactly (cfg : Config) (i : Nat) (c : Call δ) (db : Db δ) : Prop where
  exact : c.request.Exact
  locks : Locks cfg i db c.request c.phase
  accounted : Accounted cfg i db c.request c.phase

/-! ## One statement -/

theorem toColumn_of_isScale (hx : FixedPoint.IsScale 12 x) (h : toColumn x = some y) : y = x := by
  rw [toColumn_eq] at h
  exact FixedPoint.toColumn_of_isScale hx h

theorem isScale_of_toColumn (h : toColumn x = some y) : FixedPoint.IsScale 12 y := by
  rw [toColumn_eq] at h
  exact FixedPoint.isScale_of_toColumn h

variable {cfg : Config} {db db' : Db δ} {i j : Nat} {c c' : Call δ}

theorem isScale_balance (hb : Balances (FixedPoint.IsScale 12) db) (u : String) :
    FixedPoint.IsScale 12 (balance cfg db u) := by
  rw [balance]
  cases hu : committedAt db.credit u with
  | none => exact FixedPoint.isScale_roundTo 12 _
  | some v => exact hb.committed u v hu

theorem isScale_of_trans (hs : Consistent db) (hb : Balances (FixedPoint.IsScale 12) db) (h : Trans cfg i db c db' c') :
    Balances (FixedPoint.IsScale 12) db' := by
  apply balances_of_trans hs hb h (fun v hv => isScale_of_toColumn hv)
  · intro _ _ _ _ v _ _ _ hv
    exact isScale_of_toColumn hv
  · intro _ _ _ v _ hv
    exact isScale_of_toColumn hv
  · intro _ v _ hv
    exact isScale_of_toColumn hv
  · intro _ _ _ _ _ v _ _ hv
    exact isScale_of_toColumn hv

theorem Frame.balance (hf : Frame j db db') (hp : pendingAt db.credit u = some (j, v)) :
    balance cfg db' u = Ledger.balance cfg db u := by
  simp only [Ledger.balance, hf.credit.committed u v hp]

theorem Accounted.frame (hf : Frame j db db') (hlocks : Locks cfg j db req ph) (h : Accounted cfg j db req ph) :
    Accounted cfg j db' req ph := by
  cases req with
  | addCredit u amount detail =>
    cases ph with
    | addSelect produced =>
      change produced = balance cfg db' u + amount
      rw [hf.balance hlocks.1.1]
      exact h
    | addCommit produced b =>
      change produced = balance cfg db' u + amount
      rw [hf.balance hlocks.2.1.1]
      exact h
    | _ => trivial
  | checkin u today reward dup =>
    cases ph with
    | checkinCommit =>
      obtain ⟨v, hv, he⟩ := h
      refine ⟨v, (hf.credit.pending _ v).2 hv, ?_⟩
      rw [hf.balance hv]
      exact he
    | _ => trivial
  | setCredit | resetAllCredits => trivial

theorem Exactly.frame (hf : Frame j db db') (h : Exactly cfg j c db) : Exactly cfg j c db' :=
  ⟨h.exact, h.locks.frame hf, h.accounted.frame hf h.locks⟩

theorem accounted_of_trans (hb : Balances (FixedPoint.IsScale 12) db)
    (hfresh : FreshAward cfg i db c) (hl : Exactly cfg i c db) (h : Trans cfg i db c db' c') :
    Accounted cfg i db' c'.request c'.phase := by
  obtain ⟨hexact, hlocks, hacc⟩ := hl
  cases h with
  | @found req => cases req <;> trivial
  | @missing req => cases req <;> trivial
  | @retry req => cases req <;> trivial
  | @inserted req => cases req <;> trivial
  | @insertCommitted req => cases req <;> trivial
  | @insertAborted req => cases req <;> trivial
  | @failed req => cases req <;> trivial
  | @added u amount detail c produced hc _ hv _ =>
    -- the request holds no row yet, so that it sees the committed balance, and the sum is not rounded
    have hcom := select_of_holdsNone hlocks.1 u
    rw [hc] at hcom
    have hbal : balance cfg db u = c := by simp [balance, ← hcom]
    change produced = balance cfg _ u + amount
    rw [balance_congr fun w => committedAt_write i _ _ _ w, hbal]
    exact toColumn_of_isScale ((hb.select hc).add hexact) hv
  | addRead => exact hacc
  | @awarded u today reward current c v dup hc hv _ =>
    -- the read may lie several commits back: only `hfresh` ties it to the balance
    have hcur : balance cfg db u = current := hfresh
    obtain ⟨r, hr⟩ := row_isSome_of_visible hc
    refine ⟨v, pendingAt_write_self i v hr, ?_⟩
    rw [balance_congr fun w => committedAt_write i _ _ _ w, hcur]
    exact toColumn_of_isScale ((hcur ▸ isScale_balance hb u).add hexact) hv
  | awardMissed hc =>
    -- a check-in always finds the row of its user, so that its reward is written
    obtain ⟨⟨hnone, hrow⟩ | ⟨v, hv⟩, -⟩ := hlocks
    · rw [← select_of_holdsNone hnone, hc] at hrow
      cases hrow
    · rw [select_of_pendingAt hv.1] at hc
      cases hc
  | _ => trivial

theorem balance_commit_of_holdsOnly (h : HoldsOnly i u v db.credit) (w : String) :
    balance cfg (db.commit i) w = if w = u then v else balance cfg db w := by
  change (committedAt (ReadCommitted.commit i db.credit) w).getD _ = _
  split
  · rename_i hw
    subst hw
    rw [committedAt_commit_of_pendingAt h.1]
    rfl
  · rename_i hw
    rw [committedAt_commit_of_not_holds fun v' hp => hw (h.2 w v' hp)]
    rfl

theorem balance_step (hs : Consistent db) (hl : Exactly cfg i c db) (h : Trans cfg i db c db' c') (u : String) :
    balance cfg db' u = balance cfg db u - c.movedTo u + c'.movedTo u := by
  obtain ⟨hexact, hlocks, hacc⟩ := hl
  -- away from the commits both sides stand still
  have hquiet : (∀ p, c'.phase ≠ .addReturn p) → c'.phase ≠ .setReturn → c'.phase ≠ .returned →
      c.movedTo u = c'.movedTo u →
      balance cfg db' u = balance cfg db u - c.movedTo u + c'.movedTo u := by
    intro h₁ h₂ h₃ hm
    rw [balance_of_trans hs hlocks h h₁ h₂ h₃, hm]
    ring
  cases h with
  | @found req =>
    cases req <;>
      exact hquiet (by simp [Request.afterInit]) (by simp [Request.afterInit])
        (by simp [Request.afterInit]) rfl
  | @missing req => cases req <;> exact hquiet (by simp) (by simp) (by simp) rfl
  | @retry req => cases req <;> exact hquiet (by simp) (by simp) (by simp) rfl
  | @inserted req => cases req <;> exact hquiet (by simp) (by simp) (by simp) rfl
  | @insertCommitted req => cases req <;> exact hquiet (by simp) (by simp) (by simp) rfl
  | @insertAborted req => cases req <;> exact hquiet (by simp) (by simp) (by simp) rfl
  | added | refused | addRead | recorded | creditFound | creditMissing | creditInserted | awarded
  | awardMissed => exact hquiet (by simp) (by simp) (by simp) rfl
  | @failed req ph e hfin _ hret _ =>
    apply hquiet (by simp) (by simp) (by simp)
    cases req <;> cases ph <;>
      first | rfl | exact absurd rfl (hret _) | simp [Phase.finished] at hfin
  | @addCommitted w amount detail produced b =>
    obtain ⟨-, ho, -⟩ := hlocks
    have hp : produced = balance cfg db w + amount := hacc
    change balance cfg (db.commit i) u = _
    rw [balance_commit_of_holdsOnly ho]
    by_cases hw : u = w
    · subst hw
      simp only [if_true, Call.movedTo, hp]
      ring
    · simp [Call.movedTo, hw, Ne.symm hw]
  | addReturned =>
    simp only [Call.movedTo]
    ring
  | @awardCommitted w today reward dup =>
    obtain ⟨⟨v, ho⟩, -⟩ := hlocks
    obtain ⟨v', hv', he⟩ := hacc
    have hvv : v = v' := by
      have heq := ho.1.symm.trans hv'
      simpa using heq
    rw [balance_commit_of_holdsOnly ho, hvv]
    by_cases hw : u = w
    · subst hw
      simp only [if_true, Call.movedTo, he]
      ring
    · simp [Call.movedTo, hw, Ne.symm hw]
  | setWritten | setMissed | setCommitted | setReturned | resetWritten | resetCommitted =>
    exact absurd hexact id

/-! ## Conservation along runs -/

structure StartedExact (c : Conf (Db δ) (Call δ)) : Prop where
  started : Started c
  stored : ∀ u v, committedAt c.shared.credit u = some v → FixedPoint.IsScale 12 v
  requests : ∀ call ∈ c.procs, call.request.Exact

theorem exactly_of_started {c : Conf (Db δ) (Call δ)} (h : StartedExact c) {call : Call δ}
    (hi : c.procs[i]? = some call) : Exactly cfg i call c.shared := by
  have hmem := List.mem_of_getElem? hi
  have hphase := h.started.phase call hmem
  obtain ⟨req, ph⟩ := call
  simp only at hphase
  subst hphase
  refine ⟨h.requests _ hmem, locks_start_iff.2 (idle_of_started h.started i), ?_⟩
  cases req <;> trivial

theorem exactly_holds {c₀ c : Conf (Db δ) (Call δ)} (h₀ : StartedExact c₀)
    (hr : ReachesWhere (next cfg) (FreshAward cfg) c₀ c) :
    Holds (fun db => Consistent db ∧ Balances (FixedPoint.IsScale 12) db) (Exactly cfg) c := by
  refine invariant_of_frame ?_ ?_ hr ⟨⟨consistent_of_started h₀.started,
    balances_of_started h₀.started h₀.stored⟩, fun i call hi => exactly_of_started h₀ hi⟩
  · rintro i ok db call db' call' hfresh ⟨hs, hb⟩ hl hn
    have ht := trans_of_next hn
    refine ⟨⟨consistent_of_trans hs ht, isScale_of_trans hs hb ht⟩, ?_, ?_, ?_⟩
    · rw [request_of_trans ht]
      exact hl.exact
    · exact locks_of_trans hs hl.locks ht
    · exact accounted_of_trans hb hfresh hl ht
  · rintro i j ok db call db' call' other hij - ⟨hs, -⟩ - hj hn
    exact hj.frame (frame_of_trans hij hs (trans_of_next hn))

theorem balance_eq_moved {c₀ c : Conf (Db δ) (Call δ)} (h₀ : StartedExact c₀)
    (hr : ReachesWhere (next cfg) (FreshAward cfg) c₀ c) (u : String) :
    balance cfg c.shared u = balance cfg c₀.shared u + (c.procs.map (Call.movedTo u)).sum := by
  induction hr with
  | refl =>
    -- nothing has been moved before the first statement
    have hzero : ∀ call ∈ c₀.procs, call.movedTo u = 0 := by
      intro call hcall
      have hphase := h₀.started.phase call hcall
      obtain ⟨req, ph⟩ := call
      simp only at hphase
      subst hphase
      cases req <;> rfl
    have hsum : (c₀.procs.map (Call.movedTo u)).sum = 0 := by
      apply List.sum_eq_zero
      intro x hx
      obtain ⟨call, hcall, rfl⟩ := List.mem_map.1 hx
      exact hzero call hcall
    rw [hsum, add_zero]
  | tail hprev hstep ih =>
    obtain ⟨⟨hs, -⟩, hl⟩ := exactly_holds h₀ hprev
    obtain ⟨i, ok, hp, hfresh, hn⟩ := hstep
    have hmove := balance_step hs (hl i _ hp) (trans_of_next hn) u
    rw [hmove, ih, sum_map_set (Call.movedTo u) _ hp]
    ring

theorem movedTo_of_finished (h : c.phase.finished = true) (u : String) :
    c.movedTo u = c.addedTo u + c.rewardedTo u := by
  obtain ⟨req, ph⟩ := c
  cases ph with
  | addReturn p => exact absurd h Bool.false_ne_true
  | _ => cases req <;> simp [Call.movedTo, Call.addedTo, Call.rewardedTo]

/-- Where check-ins write over what they read, balances are the sums of what returned and
committed. -/
theorem balance_conserved {cfg : Config} {c₀ c : Conf (Db δ) (Call δ)} (h₀ : StartedExact c₀)
    (hr : ReachesWhere (next cfg) (FreshAward cfg) c₀ c)
    (hdone : ∀ call ∈ c.procs, call.phase.finished = true) (u : String) :
    balance cfg c.shared u = balance cfg c₀.shared u +
      (c.procs.map (Call.addedTo u)).sum + (c.procs.map (Call.rewardedTo u)).sum := by
  have hsplit : c.procs.map (Call.movedTo u) =
      c.procs.map fun call => call.addedTo u + call.rewardedTo u := by
    apply List.map_congr_left
    intro call hcall
    exact movedTo_of_finished (hdone call hcall) u
  rw [balance_eq_moved h₀ hr u, hsplit, List.sum_map_add, add_assoc]

theorem sampleStart_startedExact : StartedExact sampleStart where
  started := sampleStart_started
  stored := by
    intro u v
    by_cases hu : "ada" = u
    · simp only [sampleStart, committedAt, row, hu, List.find?_cons, decide_true, Option.bind_some,
        Option.some.injEq]
      rintro rfl
      exact ⟨10 * 10 ^ 12, by norm_num⟩
    · simp [sampleStart, committedAt, row, hu]
  requests := by
    intro call hcall
    simp only [sampleStart, List.mem_cons, List.not_mem_nil, or_false] at hcall
    rcases hcall with rfl | rfl
    · exact ⟨-4 * 10 ^ 12, by norm_num⟩
    · exact ⟨1 * 10 ^ 12, by norm_num⟩

theorem balance_conserved_sample : ∃ c, ReachesWhere (next sampleConfig) (FreshAward sampleConfig) sampleStart c ∧
      balance sampleConfig c.shared "ada" = balance sampleConfig sampleStart.shared "ada" +
        (c.procs.map (Call.addedTo "ada")).sum + (c.procs.map (Call.rewardedTo "ada")).sum := by
  obtain ⟨c, hc, hdone⟩ := (Option.any_eq_true _ _).1
    (by decide +kernel : (runSchedule (fun i s p k => if FreshAward sampleConfig i s p then
      next sampleConfig i s p k else none) sampleStart sampleSchedule).any
        (fun c => c.procs.all fun call => call.phase.finished) = true)
  have hr := reachesWhere_of_guarded (reaches_of_runSchedule hc)
  exact ⟨c, hr, balance_conserved sampleStart_startedExact hr (by simpa using hdone) "ada"⟩

/-- The debit of 4 commits in between, and 11 is written over it. -/
theorem checkin_loses_debit : ∃ c, Reaches (next sampleConfig) sampleStart c ∧
      (∀ call ∈ c.procs, call.phase.finished = true) ∧
      balance sampleConfig c.shared "ada" = 11 ∧
      balance sampleConfig sampleStart.shared "ada" +
        (c.procs.map (Call.addedTo "ada")).sum + (c.procs.map (Call.rewardedTo "ada")).sum = 7 := by
  obtain ⟨c, hc, hdone⟩ := (Option.any_eq_true _ _).1
    (by decide +kernel : (runSchedule (next sampleConfig) sampleStart
      [(1, true), (1, true), (0, true), (0, true), (0, true), (0, true), (0, true), (1, true),
        (1, true)]).any (fun c => (c.procs.all fun call => call.phase.finished) &&
          decide (balance sampleConfig c.shared "ada" = 11 ∧
            balance sampleConfig sampleStart.shared "ada" + (c.procs.map (Call.addedTo "ada")).sum +
              (c.procs.map (Call.rewardedTo "ada")).sum = 7)) = true)
  rw [Bool.and_eq_true, decide_eq_true_iff] at hdone
  exact ⟨c, reaches_of_runSchedule hc, by simpa using hdone.1, hdone.2⟩

end RyanAI.Credit.Ledger
