import Mathlib.Logic.Relation
import RyanAI.Mfa.Account

/-!
# What an account was saved for

The bounds on the log of an account, for every run of saves. Each comes from an invariant that ties the log to the data
and to the names that were put: a name that is still good was not used, a challenge has counted the codes tried for it,
the current window has counted its attempts and no window ends later, and the last step of the secret that is enrolled
is the last one accepted.
-/

namespace RyanAI.Mfa

open RyanAI.Lib
open RyanAI.Lib.FreshNames (SingleUse singleUse_nil)

namespace Account

section Logs

variable {α : Type}

abbrev said (what : Purpose → Option α) (log : List Purpose) : List α := log.filterMap what

theorem count_said_cons [DecidableEq α] (what : Purpose → Option α) (why : Purpose) (log : List Purpose) (x : α) :
    (said what (why :: log)).count x = (said what log).count x + if what why = some x then 1 else 0 := by
  cases hsaid : what why with
  | none =>
    rw [said, List.filterMap_cons_none hsaid, if_neg (Option.some_ne_none x).symm]
    rfl
  | some y =>
    rw [said, List.filterMap_cons_some hsaid, List.count_cons]
    simp only [beq_iff_eq, Option.some.injEq]

structure Bounded (log : List Purpose) : Prop where
  recovery : ∀ hash, (said Purpose.recovery log).count hash ≤ 1
  steps : ∀ secret, (said (Purpose.stepOf secret) log).Pairwise fun later earlier => earlier < later
  success : ∀ hash, (said Purpose.success log).count hash ≤ 1
  tried : ∀ hash, (said Purpose.tried log).count hash ≤ 5
  ticket : ∀ hash, (said Purpose.ticket log).count hash ≤ 1
  window : ∀ w, (said Purpose.window log).count w ≤ 10

end Logs

/-! ## Invariants -/

structure Unspent (a : Account) : Prop where
  nodup : a.data.recoveryHashes.Nodup
  recovery : SingleUse (· ∈ a.data.recoveryHashes) (fun hash => .digest hash ∈ a.placed) (said Purpose.recovery a.log)
  ticket : SingleUse a.data.HasTicket (fun hash => .digest hash ∈ a.placed) (said Purpose.ticket a.log)
  separate : a.data.Separate
  success : SingleUse a.data.HasChallenge (fun hash => .digest hash ∈ a.placed) (said Purpose.success a.log)

structure Tries (a : Account) : Prop where
  counted : ∀ slot challenge, a.data.slot slot = some challenge →
    (said Purpose.tried a.log).count challenge.tokenHash ≤ challenge.attempts
  placed : ∀ hash ∈ said Purpose.tried a.log, .digest hash ∈ a.placed
  bound : ∀ hash, (said Purpose.tried a.log).count hash ≤ 5

structure Windows (a : Account) : Prop where
  counted : ∀ limit, a.data.limit = some limit → limit.count ≤ 10 ∧
    (said Purpose.window a.log).count limit.expiresAt ≤ limit.count
  last : ∀ w ∈ said Purpose.window a.log, ∃ limit, a.data.limit = some limit ∧ w ≤ limit.expiresAt
  bound : ∀ w, (said Purpose.window a.log).count w ≤ 10

structure Steps (setup : Setup) (a : Account) : Prop where
  increasing : ∀ secret, (said (Purpose.stepOf secret) a.log).Pairwise fun later earlier => earlier < later
  placed : ∀ secret, said (Purpose.stepOf secret) a.log ≠ [] → .secret secret ∈ a.placed
  enrolled : ∀ secret, a.data.enrolled setup = some secret → .secret secret ∈ a.placed ∧
    ∀ step ∈ said (Purpose.stepOf secret) a.log, step ≤ a.data.lastStep
  pending : ∀ secret, a.data.Pending setup secret → .secret secret ∈ a.placed ∧
    said (Purpose.stepOf secret) a.log = [] ∧ a.data.enrolled setup ≠ some secret

variable {setup : Setup} {a a' : Account}

theorem not_slot_empty (slot : Slot) : MfaData.empty.slot slot = none := by
  cases slot <;> rfl

theorem unspent_empty : Unspent .empty where
  nodup := List.nodup_nil
  recovery := singleUse_nil fun _ h => absurd h List.not_mem_nil
  ticket := singleUse_nil fun _ ⟨_, h, _⟩ => absurd h.symm (Option.some_ne_none _)
  separate := fun slot _ _ _ h _ _ => absurd (h.symm.trans (not_slot_empty slot)) (Option.some_ne_none _)
  success := singleUse_nil fun _ ⟨slot, _, h, _⟩ => absurd (h.symm.trans (not_slot_empty slot)) (Option.some_ne_none _)

theorem tries_empty : Tries .empty where
  counted _ _ _ := Nat.zero_le _
  placed _ h := absurd h List.not_mem_nil
  bound _ := Nat.zero_le _

theorem windows_empty : Windows .empty where
  counted _ h := absurd h.symm (Option.some_ne_none _)
  last _ h := absurd h List.not_mem_nil
  bound _ := Nat.zero_le _

theorem steps_empty : Steps setup .empty where
  increasing _ := List.Pairwise.nil
  placed _ h := absurd rfl h
  enrolled _ h := absurd h.symm (Option.some_ne_none _)
  pending _ := fun ⟨slot, _, h, _⟩ => absurd (h.symm.trans (not_slot_empty slot)) (Option.some_ne_none _)

theorem Unspent.step (ha : a.Unspent) (h : Step setup a a') : a'.Unspent := by
  obtain ⟨hallowed, hnodup, hfresh⟩ := h
  refine ⟨hallowed.nodup_recoveryHashes hnodup ha.nodup, (hallowed.recovery ha.nodup).step ha.recovery hfresh,
    hallowed.ticket.step ha.ticket hfresh, ?_, (hallowed.success ha.separate).step ha.success hfresh⟩
  intro slot slot' challenge challenge' hslot hslot' hhash
  by_contra hne
  -- the token of a challenge that was there before has been put, that of a new one has not
  rcases hallowed.slot ha.separate hslot with ⟨c, hc, hkept⟩ | ⟨-, hnew, hother⟩
  · rcases hallowed.slot ha.separate hslot' with ⟨c', hc', hkept'⟩ | ⟨-, hnew', -⟩
    · exact hne (ha.separate _ _ _ _ hc hc' (hkept.tokenHash ▸ hkept'.tokenHash ▸ hhash))
    · rw [← hhash, hkept.tokenHash] at hnew'
      exact hfresh _ hnew' (ha.success.live_placed _ ⟨slot, c, hc, rfl⟩)
  · rw [hother slot' (Ne.symm hne)] at hslot'
    rw [hhash] at hnew
    exact hfresh _ hnew (ha.success.live_placed _ ⟨slot', challenge', hslot', rfl⟩)

theorem Tries.step (hun : a.Unspent) (ha : a.Tries) (h : Step setup a a') : a'.Tries := by
  obtain @⟨mfa, mfa', placed, log, why, hallowed, hnodup, hfresh⟩ := h
  have htried : ∀ hash, why.tried = some hash → .digest hash ∈ placed ∧ (said Purpose.tried log).count hash < 5 := by
    intro hash hwhy
    obtain ⟨slot, challenge, hslot, rfl, hlt⟩ := hallowed.tried hwhy
    exact ⟨hun.success.live_placed _ ⟨slot, challenge, hslot, rfl⟩, Nat.lt_of_le_of_lt (ha.counted _ _ hslot) hlt⟩
  constructor
  · intro slot challenge' hslot
    rw [count_said_cons]
    rcases hallowed.slot hun.separate hslot with ⟨challenge, hc, hkept⟩ | ⟨-, hnew, -⟩
    · rw [hkept.tokenHash, hkept.attempts]
      exact Nat.add_le_add_right (ha.counted _ _ hc) _
    -- no code was tried for a challenge that is new
    · have hnever : (said Purpose.tried log).count challenge'.tokenHash = 0 :=
        List.count_eq_zero.2 fun hmem => hfresh _ hnew (ha.placed _ hmem)
      rw [hnever, if_neg fun hwhy => hfresh _ hnew (htried _ hwhy).1]
      exact Nat.zero_le _
  · intro hash hmem
    apply List.mem_append_right
    obtain ⟨why', hmem, hwhy⟩ := List.mem_filterMap.1 hmem
    rcases List.mem_cons.1 hmem with rfl | hmem
    · exact (htried hash hwhy).1
    · exact ha.placed hash (List.mem_filterMap.2 ⟨why', hmem, hwhy⟩)
  · intro hash
    rw [count_said_cons]
    split
    · rename_i hwhy
      exact (htried hash hwhy).2
    · exact ha.bound hash

theorem Windows.step (ha : a.Windows) (h : Step setup a a') : a'.Windows := by
  obtain @⟨mfa, mfa', placed, log, why, hallowed, hnodup, hfresh⟩ := h
  obtain ⟨hadvanced, hsame⟩ := hallowed.window
  cases hwhy : why.window with
  | none =>
    have hlog : said Purpose.window (why :: log) = said Purpose.window log := List.filterMap_cons_none hwhy
    have hlimit := hsame hwhy
    constructor
    · rw [hlog, hlimit]
      exact ha.counted
    · rw [hlog, hlimit]
      exact ha.last
    · rw [hlog]
      exact ha.bound
  | some w =>
    have hlog : said Purpose.window (why :: log) = w :: said Purpose.window log := List.filterMap_cons_some hwhy
    -- what the window has counted, after this attempt
    have hlimit : ∃ count, mfa'.limit = some ⟨count, w⟩ ∧ count ≤ 10 ∧
        (said Purpose.window log).count w + 1 ≤ count ∧ ∀ w' ∈ said Purpose.window log, w' ≤ w := by
      generalize hafter : mfa'.limit = after
      have hadv := hadvanced w hwhy
      rw [hafter] at hadv
      cases hadv with
      | @more before hbefore hw hlt =>
        obtain ⟨-, hcount⟩ := ha.counted before hbefore
        refine ⟨before.count + 1, rfl, hlt, hw ▸ Nat.add_le_add_right hcount 1, ?_⟩
        intro w' hw'
        obtain ⟨limit, hlimit, hle⟩ := ha.last w' hw'
        cases hbefore.symm.trans hlimit
        exact hw ▸ hle
      | fresh hlater =>
        have hearlier : ∀ w' ∈ said Purpose.window log, w' < w := by
          intro w' hw'
          obtain ⟨limit, hlimit, hle⟩ := ha.last w' hw'
          exact lt_of_le_of_lt hle (hlater limit hlimit)
        refine ⟨1, rfl, by omega, ?_, fun w' hw' => (hearlier w' hw').le⟩
        rw [List.count_eq_zero.2 fun hmem => lt_irrefl w (hearlier w hmem)]
    obtain ⟨count, hlimit, hle, hcount, hlast⟩ := hlimit
    constructor
    · intro limit heq
      cases hlimit.symm.trans heq
      rw [hlog, List.count_cons_self]
      exact ⟨hle, hcount⟩
    · intro w' hmem
      rw [hlog] at hmem
      refine ⟨_, hlimit, ?_⟩
      rcases List.mem_cons.1 hmem with rfl | hmem
      · exact le_refl _
      · exact hlast w' hmem
    · intro w'
      rw [hlog]
      by_cases heq : w = w'
      · rw [← heq, List.count_cons_self]
        exact hcount.trans hle
      · rw [List.count_cons_of_ne heq]
        exact ha.bound w'

theorem Steps.step (hun : a.Unspent) (ha : a.Steps setup) (h : Step setup a a') : a'.Steps setup := by
  obtain @⟨mfa, mfa', placed, log, why, hallowed, hnodup, hfresh⟩ := h
  have hplaced : ∀ {secret step}, why.stepOf secret = some step → .secret secret ∈ placed := by
    intro secret step hwhy
    obtain ⟨-, -, ⟨henrolled, -⟩ | ⟨hpending, -⟩⟩ := hallowed.accepted hwhy
    · exact (ha.enrolled secret henrolled).1
    · exact (ha.pending secret hpending).1
  -- every step accepted before is earlier
  have hearlier : ∀ {secret step}, why.stepOf secret = some step →
      ∀ earlier ∈ said (Purpose.stepOf secret) log, earlier < step := by
    intro secret step hwhy earlier hmem
    obtain ⟨-, -, ⟨henrolled, hlt⟩ | ⟨hpending, -⟩⟩ := hallowed.accepted hwhy
    · exact lt_of_le_of_lt ((ha.enrolled secret henrolled).2 earlier hmem) hlt
    · rw [(ha.pending secret hpending).2.1] at hmem
      exact absurd hmem List.not_mem_nil
  constructor
  · intro secret
    cases hwhy : why.stepOf secret with
    | none =>
      rw [said, List.filterMap_cons_none hwhy]
      exact ha.increasing secret
    | some step =>
      rw [said, List.filterMap_cons_some hwhy]
      exact List.pairwise_cons.2 ⟨hearlier hwhy, ha.increasing secret⟩
  · intro secret hne
    apply List.mem_append_right
    cases hwhy : why.stepOf secret with
    | none =>
      rw [said, List.filterMap_cons_none hwhy] at hne
      exact ha.placed secret hne
    | some step => exact hplaced hwhy
  · intro secret henrolled
    cases hwhy : why.stepOf secret with
    | none =>
      obtain ⟨henrolled, hlast⟩ := hallowed.enrolled hwhy henrolled
      obtain ⟨hmem, hle⟩ := ha.enrolled secret henrolled
      rw [said, List.filterMap_cons_none hwhy]
      exact ⟨List.mem_append_right _ hmem, fun step hstep => hlast ▸ hle step hstep⟩
    | some step =>
      refine ⟨List.mem_append_right _ (hplaced hwhy), ?_⟩
      rw [said, List.filterMap_cons_some hwhy]
      intro earlier hmem
      rw [show mfa'.lastStep = step from (hallowed.accepted hwhy).1]
      rcases List.mem_cons.1 hmem with rfl | hmem
      · exact le_refl _
      · exact (hearlier hwhy earlier hmem).le
  · intro secret hpending
    obtain ⟨hsame, hold | hnew⟩ := hallowed.pending hun.separate hpending
    · obtain ⟨hmem, hnil, hne⟩ := ha.pending secret hold
      -- a step of the secret would have confirmed it, and no challenge would stay
      have hwhy : why.stepOf secret = none := by
        by_contra hsome
        obtain ⟨step, hwhy⟩ := Option.ne_none_iff_exists'.1 hsome
        obtain ⟨-, -, ⟨henrolled, -⟩ | ⟨-, hgone⟩⟩ := hallowed.accepted hwhy
        · exact hne henrolled
        · obtain ⟨slot, challenge, hslot, -⟩ := hpending
          exact Option.some_ne_none challenge (hslot.symm.trans (hgone slot))
      rw [said, List.filterMap_cons_none hwhy]
      exact ⟨List.mem_append_right _ hmem, hnil, hsame ▸ hne⟩
    · have hwhy : why.stepOf secret = none := by
        by_contra hsome
        obtain ⟨step, hwhy⟩ := Option.ne_none_iff_exists'.1 hsome
        exact hfresh _ hnew (hplaced hwhy)
      rw [said, List.filterMap_cons_none hwhy]
      refine ⟨List.mem_append_left _ hnew, ?_, ?_⟩
      · by_contra hne
        exact hfresh _ hnew (ha.placed secret hne)
      · intro henrolled
        exact hfresh _ hnew (ha.enrolled secret (hsame ▸ henrolled)).1

theorem invariants_of_reaches (h : Reaches setup .empty a) : a.Unspent ∧ a.Tries ∧ a.Windows ∧ a.Steps setup := by
  induction h with
  | refl => exact ⟨unspent_empty, tries_empty, windows_empty, steps_empty⟩
  | tail _ hstep ih =>
    obtain ⟨hunspent, htries, hwindows, hsteps⟩ := ih
    exact ⟨hunspent.step hstep, htries.step hunspent hstep, hwindows.step hstep, hsteps.step hunspent hstep⟩

theorem bounded_of_reaches (h : Reaches setup .empty a) : Bounded a.log := by
  obtain ⟨hunspent, htries, hwindows, hsteps⟩ := invariants_of_reaches h
  exact {
    recovery := List.nodup_iff_count_le_one.1 hunspent.recovery.once
    steps := hsteps.increasing
    success := List.nodup_iff_count_le_one.1 hunspent.success.once
    tried := htries.bound
    ticket := List.nodup_iff_count_le_one.1 hunspent.ticket.once
    window := hwindows.bound }

end Account

end RyanAI.Mfa
