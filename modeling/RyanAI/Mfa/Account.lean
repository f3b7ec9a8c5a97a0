import RyanAI.Lib.FreshNames
import RyanAI.Mfa.Factors

/-!
# Saves of one account

An account on its own: its data, and a log of what it was saved for. `Allowed` says what a save of each purpose may make
of the data, whatever the clock says. `Account.Step` takes one save after the other, with names that are new. Along
every run no recovery code and no ticket is used twice, no challenge succeeds twice or is tried more than five times,
the steps accepted for one secret increase, and no window counts more than ten attempts.
-/

namespace RyanAI.Mfa

open RyanAI.Lib
open RyanAI.Lib.FreshNames (SingleUse singleUse_nil)

/-! ## What a save is for -/

namespace Factor

def recovery? : Factor → Option String
  | .recovery hash => some hash
  | .totp _ _ => none

def stepOf (secret : String) : Factor → Option ℤ
  | .recovery _ => none
  | .totp other step => if other = secret then some step else none

end Factor

/-- What is new when it is placed. -/
inductive Name where
  | digest (hash : String)
  | secret (text : String)
deriving DecidableEq

namespace Purpose

def factor : Purpose → Option Factor
  | .confirmed _ secret step _ => some (.totp secret step)
  | .verified _ factor => some factor
  | .replacing factor _ => some factor
  | .regenerated factor _ => some factor
  | _ => none

def recovery (why : Purpose) : Option String := why.factor.bind Factor.recovery?

def stepOf (secret : String) (why : Purpose) : Option ℤ := why.factor.bind (Factor.stepOf secret)

/-- The challenge that succeeded. -/
def success : Purpose → Option String
  | .confirmed challenge _ _ _ => some challenge
  | .verified challenge _ => some challenge
  | .redeemed challenge _ _ => some challenge
  | _ => none

/-- The challenge that was tried. -/
def tried : Purpose → Option String
  | .attempt challenge _ => challenge
  | _ => none

/-- The end of the window that counts the attempt. -/
def window : Purpose → Option ℤ
  | .attempt _ window => some window
  | _ => none

def ticket : Purpose → Option String
  | .redeemed _ ticket _ => some ticket
  | _ => none

def names : Purpose → List Name
  | .login challenge => [.digest challenge]
  | .attempt _ _ => []
  | .enrollment secret => [.secret secret]
  | .confirmed _ _ _ codes => codes.map .digest
  | .verified _ _ => []
  | .replacing _ challenge => [.digest challenge]
  | .regenerated _ codes => codes.map .digest
  | .redeemed _ _ next => [.digest next]
  | .reset ticket => [.digest ticket]

end Purpose

/-! ## What a save may do -/

structure MfaChallenge.IsNew (challenge : MfaChallenge) : Prop where
  attempts : challenge.attempts = 0
  secret : challenge.secret = none

def MfaChallenge.pending (setup : Setup) (challenge : MfaChallenge) : Option String :=
  challenge.secret.bind setup.decrypt

namespace MfaData

/-- The secret in use. -/
def enrolled (setup : Setup) (mfa : MfaData) : Option String := mfa.secret.bind setup.decrypt

def Pending (setup : Setup) (mfa : MfaData) (secret : String) : Prop :=
  ∃ slot challenge, mfa.slot slot = some challenge ∧ challenge.pending setup = some secret

def HasChallenge (mfa : MfaData) (hash : String) : Prop :=
  ∃ slot challenge, mfa.slot slot = some challenge ∧ challenge.tokenHash = hash

def HasTicket (mfa : MfaData) (hash : String) : Prop :=
  ∃ ticket, mfa.resetTicket = some ticket ∧ ticket.tokenHash = hash

/-- No two slots hold one challenge. -/
def Separate (mfa : MfaData) : Prop :=
  ∀ slot slot' challenge challenge', mfa.slot slot = some challenge → mfa.slot slot' = some challenge' →
    challenge.tokenHash = challenge'.tokenHash → slot = slot'

def limit (mfa : MfaData) : Option MfaLimit := mfa.limits.get "factor"

/-- The data after a factor was accepted. -/
inductive Consumed (setup : Setup) (mfa : MfaData) : Factor → MfaData → Prop
  | recovery {digest : String} : digest ∈ mfa.recoveryHashes →
      Consumed setup mfa (.recovery digest) { mfa with recoveryHashes := mfa.recoveryHashes.erase digest }
  | totp {secret : String} {step : ℤ} : mfa.enrolled setup = some secret → mfa.lastStep < step →
      Consumed setup mfa (.totp secret step) { mfa with lastStep := step }

/-- The data after an attempt was counted. -/
inductive Counted (mfa : MfaData) (window : ℤ) : MfaData → Prop
  | attempt (t : ℤ) : (mfa.currentLimit "factor" t).count < 10 →
      (mfa.currentLimit "factor" t).expiresAt = window →
      Counted mfa window (mfa.countAttempt "factor" (mfa.currentLimit "factor" t))

end MfaData

/-- What a save may make of the data. -/
inductive Allowed (setup : Setup) (mfa : MfaData) : Purpose → MfaData → Prop
  | login {challenge : MfaChallenge} : challenge.IsNew →
      Allowed setup mfa (.login challenge.tokenHash) { mfa with loginChallenge := some challenge }
  | limited {window : ℤ} {mfa' : MfaData} : mfa.Counted window mfa' → Allowed setup mfa (.attempt none window) mfa'
  | attempt {window : ℤ} {mfa' : MfaData} {slot : Slot} {challenge : MfaChallenge} :
      mfa.Counted window mfa' → mfa.slot slot = some challenge → challenge.attempts < 5 →
      Allowed setup mfa (.attempt (some challenge.tokenHash) window)
        (mfa'.setSlot { challenge with attempts := challenge.attempts + 1 } slot)
  | enrollment {slot : Slot} {challenge : MfaChallenge} (nonce secret : String) :
      mfa.slot slot = some challenge →
      Allowed setup mfa (.enrollment secret)
        (mfa.setSlot { challenge with secret := some (setup.encrypt nonce secret) } slot)
  | confirmed {slot : Slot} {challenge : MfaChallenge} {encrypted secret : String} (step : ℤ)
      (codes : List String) :
      mfa.slot slot = some challenge → challenge.secret = some encrypted → setup.decrypt encrypted = some secret →
      Allowed setup mfa (.confirmed challenge.tokenHash secret step codes)
        { mfa with
          secret := some encrypted
          lastStep := step
          recoveryHashes := codes
          loginChallenge := none
          manageChallenge := none
          resetTicket := none
          resetRequired := false }
  | verified {challenge : MfaChallenge} {factor : Factor} {mfa' : MfaData} :
      mfa.loginChallenge = some challenge → mfa.Consumed setup factor mfa' →
      Allowed setup mfa (.verified challenge.tokenHash factor) { mfa' with loginChallenge := none }
  | replacing {challenge : MfaChallenge} {factor : Factor} {mfa' : MfaData} :
      mfa.Consumed setup factor mfa' → challenge.IsNew →
      Allowed setup mfa (.replacing factor challenge.tokenHash) { mfa' with manageChallenge := some challenge }
  | regenerated {factor : Factor} {mfa' : MfaData} (codes : List String) :
      mfa.Consumed setup factor mfa' →
      Allowed setup mfa (.regenerated factor codes)
        { mfa' with
          recoveryHashes := codes
          loginChallenge := none
          manageChallenge := none
          resetTicket := none }
  | redeemed {challenge enroll : MfaChallenge} {ticket : MfaResetTicket} :
      mfa.loginChallenge = some challenge → mfa.resetTicket = some ticket → enroll.IsNew →
      Allowed setup mfa (.redeemed challenge.tokenHash ticket.tokenHash enroll.tokenHash)
        { mfa with resetTicket := none, loginChallenge := some enroll }
  | reset (ticket : MfaResetTicket) :
      Allowed setup mfa (.reset ticket.tokenHash)
        { mfa with
          secret := none
          lastStep := -1
          recoveryHashes := []
          loginChallenge := none
          manageChallenge := none
          resetRequired := true
          resetTicket := some ticket }

/-- The data, the names put in them, and the purposes of the saves, the last first. -/
structure Account where
  data : MfaData
  placed : List Name
  log : List Purpose

namespace Account

def empty : Account := ⟨.empty, [], []⟩

inductive Step (setup : Setup) : Account → Account → Prop
  | save {mfa mfa' : MfaData} {placed : List Name} {log : List Purpose} {why : Purpose} :
      Allowed setup mfa why mfa' → why.names.Nodup → (∀ name ∈ why.names, name ∉ placed) →
      Step setup ⟨mfa, placed, log⟩ ⟨mfa', why.names ++ placed, why :: log⟩

abbrev Reaches (setup : Setup) : Account → Account → Prop := Relation.ReflTransGen (Step setup)

end Account

/-! ## What saves do -/

variable {live live' : String → Prop} {secret : String}

section Effects

variable {setup : Setup} {mfa mfa' : MfaData} {why : Purpose} {factor : Factor} {w : ℤ}

theorem MfaData.slot_setSlot (mfa : MfaData) (challenge : MfaChallenge) (slot slot' : Slot) :
    (mfa.setSlot challenge slot).slot slot' = if slot' = slot then some challenge else mfa.slot slot' := by
  cases slot <;> cases slot' <;> rfl

namespace MfaData

section

variable (h : mfa.Consumed setup factor mfa')

include h

theorem Consumed.slot (slot : Slot) : mfa'.slot slot = mfa.slot slot := by
  cases h <;> cases slot <;> rfl

theorem Consumed.resetTicket : mfa'.resetTicket = mfa.resetTicket := by
  cases h <;> rfl

theorem Consumed.limit : mfa'.limit = mfa.limit := by
  cases h <;> rfl

theorem Consumed.enrolled : mfa'.enrolled setup = mfa.enrolled setup := by
  cases h <;> rfl

end

theorem Counted.slot (h : mfa.Counted w mfa') (slot : Slot) : mfa'.slot slot = mfa.slot slot := by
  cases h
  cases slot <;> rfl

theorem Counted.recoveryHashes (h : mfa.Counted w mfa') : mfa'.recoveryHashes = mfa.recoveryHashes := by
  cases h
  rfl

theorem Counted.resetTicket (h : mfa.Counted w mfa') : mfa'.resetTicket = mfa.resetTicket := by
  cases h
  rfl

theorem Counted.enrolled (setup : Setup) (h : mfa.Counted w mfa') : mfa'.enrolled setup = mfa.enrolled setup := by
  cases h
  rfl

theorem Counted.lastStep (h : mfa.Counted w mfa') : mfa'.lastStep = mfa.lastStep := by
  cases h
  rfl

end MfaData

/-- A challenge that stays: it does not succeed, and its attempts are counted. -/
structure Kept (setup : Setup) (why : Purpose) (challenge challenge' : MfaChallenge) : Prop where
  tokenHash : challenge'.tokenHash = challenge.tokenHash
  unfinished : why.success ≠ some challenge.tokenHash
  attempts : challenge'.attempts = challenge.attempts + if why.tried = some challenge.tokenHash then 1 else 0
  secret : challenge'.secret = challenge.secret ∨
    ∃ nonce secret, why.names = [.secret secret] ∧ challenge'.secret = some (setup.encrypt nonce secret)

theorem Kept.same (hsuccess : why.success ≠ some challenge.tokenHash)
    (htried : why.tried ≠ some challenge.tokenHash) : Kept setup why challenge challenge := by
  refine ⟨rfl, hsuccess, ?_, Or.inl rfl⟩
  rw [if_neg htried, Nat.add_zero]

theorem Allowed.slot (h : Allowed setup mfa why mfa') (hmfa : mfa.Separate) {slot : Slot} {challenge' : MfaChallenge}
    (hslot : mfa'.slot slot = some challenge') :
    (∃ challenge, mfa.slot slot = some challenge ∧ Kept setup why challenge challenge') ∨
      challenge'.IsNew ∧ .digest challenge'.tokenHash ∈ why.names ∧
        ∀ other, other ≠ slot → mfa'.slot other = mfa.slot other := by
  -- what is in the slot that is left alone differs from the challenge in the other slot by its token
  have hother : ∀ {slot slot' : Slot} {challenge challenge' : MfaChallenge}, mfa.slot slot = some challenge →
      mfa.slot slot' = some challenge' → slot ≠ slot' → some challenge.tokenHash ≠ some challenge'.tokenHash :=
    fun hc hc' hne heq => hne (hmfa _ _ _ _ hc hc' (Option.some.inj heq))
  have hlogin : ∀ {challenge challenge' : MfaChallenge}, mfa.slot .login = some challenge →
      mfa.slot .manage = some challenge' → some challenge.tokenHash ≠ some challenge'.tokenHash :=
    fun hc hc' => hother hc hc' (by decide)
  have hnone : ∀ {hash : String}, none ≠ some hash := fun h => Option.some_ne_none _ h.symm
  cases h with
  | login hnew =>
    cases slot with
    | login =>
      cases hslot
      refine Or.inr ⟨hnew, List.mem_singleton.2 rfl, ?_⟩
      intro other hne
      cases other with
      | login => exact absurd rfl hne
      | manage => rfl
    | manage => exact Or.inl ⟨challenge', hslot, .same hnone hnone⟩
  | limited hcounted => exact Or.inl ⟨challenge', hcounted.slot slot ▸ hslot, .same hnone hnone⟩
  | @attempt _ _ slot₀ challenge hcounted hc _ =>
    rw [MfaData.slot_setSlot] at hslot
    split at hslot
    · rename_i heq
      cases hslot
      exact Or.inl ⟨challenge, heq ▸ hc, rfl, hnone, (if_pos rfl).symm ▸ rfl, Or.inl rfl⟩
    · rename_i hne
      rw [hcounted.slot] at hslot
      exact Or.inl ⟨challenge', hslot, .same hnone (hother hc hslot (Ne.symm hne))⟩
  | @enrollment slot₀ challenge nonce secret hc =>
    rw [MfaData.slot_setSlot] at hslot
    split at hslot
    · rename_i heq
      cases hslot
      exact Or.inl ⟨challenge, heq ▸ hc, rfl, hnone, rfl, Or.inr ⟨nonce, secret, rfl, rfl⟩⟩
    · exact Or.inl ⟨challenge', hslot, .same hnone hnone⟩
  | confirmed => cases slot <;> cases hslot
  | verified hc hconsumed =>
    cases slot with
    | login => cases hslot
    | manage =>
      have hslot : mfa.slot .manage = some challenge' := hconsumed.slot .manage ▸ hslot
      exact Or.inl ⟨challenge', hslot, .same (hlogin hc hslot) hnone⟩
  | replacing hconsumed hnew =>
    cases slot with
    | login => exact Or.inl ⟨challenge', hconsumed.slot .login ▸ hslot, .same hnone hnone⟩
    | manage =>
      cases hslot
      refine Or.inr ⟨hnew, List.mem_singleton.2 rfl, ?_⟩
      intro other hne
      cases other with
      | login => exact hconsumed.slot .login
      | manage => exact absurd rfl hne
  | regenerated => cases slot <;> cases hslot
  | redeemed hc _ hnew =>
    cases slot with
    | login =>
      cases hslot
      refine Or.inr ⟨hnew, List.mem_singleton.2 rfl, ?_⟩
      intro other hne
      cases other with
      | login => exact absurd rfl hne
      | manage => rfl
    | manage =>
      have hslot : mfa.slot .manage = some challenge' := hslot
      exact Or.inl ⟨challenge', hslot, .same (hlogin hc hslot) hnone⟩
  | reset => cases slot <;> cases hslot

theorem Allowed.tried (h : Allowed setup mfa why mfa') {hash : String} (htried : why.tried = some hash) :
    ∃ slot challenge, mfa.slot slot = some challenge ∧ challenge.tokenHash = hash ∧ challenge.attempts < 5 := by
  cases h with
  | attempt _ hc hlt =>
    cases htried
    exact ⟨_, _, hc, rfl, hlt⟩
  | _ => cases htried

/-! ### Single use -/

structure UsedUp (use : Option String) (names : List Name) (live live' : String → Prop) : Prop where
  used : ∀ hash, use = some hash → live hash
  left : ∀ hash, live' hash → live hash ∧ use ≠ some hash ∨ .digest hash ∈ names

theorem UsedUp.same (h : ∀ hash, live' hash → live hash) : UsedUp none names live live' where
  used hash heq := absurd heq.symm (Option.some_ne_none hash)
  left hash hlive := Or.inl ⟨h hash hlive, (Option.some_ne_none hash).symm⟩

theorem UsedUp.renewed (hused : ∀ hash, use = some hash → live hash) (h : ∀ hash, live' hash → .digest hash ∈ names) :
    UsedUp use names live live' where
  used := hused
  left hash hlive := Or.inr (h hash hlive)

theorem UsedUp.step {uses : Purpose → Option String} (h : UsedUp (uses why) why.names live live')
    (hsingle : SingleUse live (fun hash => .digest hash ∈ placed) (log.filterMap uses))
    (hfresh : ∀ name ∈ why.names, name ∉ placed) :
    SingleUse live' (fun hash => .digest hash ∈ why.names ++ placed) ((why :: log).filterMap uses) := by
  apply hsingle.step h.used
  · intro hash hplaced
    exact List.mem_append_right _ hplaced
  · intro hash hlive
    rcases h.left hash hlive with hold | hnew
    · exact Or.inl hold
    · exact Or.inr ⟨hfresh _ hnew, List.mem_append_left _ hnew⟩

theorem Allowed.success (h : Allowed setup mfa why mfa') (hmfa : mfa.Separate) :
    UsedUp why.success why.names mfa.HasChallenge mfa'.HasChallenge := by
  constructor
  · intro hash hsuccess
    cases h with
    | confirmed _ _ hc _ _ =>
      cases hsuccess
      exact ⟨_, _, hc, rfl⟩
    | verified hc _ =>
      cases hsuccess
      exact ⟨.login, _, hc, rfl⟩
    | redeemed hc _ _ =>
      cases hsuccess
      exact ⟨.login, _, hc, rfl⟩
    | _ => cases hsuccess
  · rintro hash ⟨slot, challenge', hslot, rfl⟩
    rcases h.slot hmfa hslot with ⟨challenge, hc, hkept⟩ | ⟨-, hnew, -⟩
    · rw [hkept.tokenHash]
      exact Or.inl ⟨⟨slot, challenge, hc, rfl⟩, hkept.unfinished⟩
    · exact Or.inr hnew

theorem MfaData.Consumed.usedUp (h : mfa.Consumed setup factor mfa') (hmfa : mfa.recoveryHashes.Nodup)
    (names : List Name) :
    UsedUp factor.recovery? names (· ∈ mfa.recoveryHashes) (· ∈ mfa'.recoveryHashes) := by
  cases h with
  | recovery hmem =>
    constructor
    · rintro hash ⟨⟩
      exact hmem
    · intro hash hleft
      obtain ⟨hne, hold⟩ := hmfa.mem_erase_iff.1 hleft
      exact Or.inl ⟨hold, fun heq => hne (Option.some.inj heq).symm⟩
  | totp => exact .same fun _ h => h

theorem Allowed.recovery (h : Allowed setup mfa why mfa') (hmfa : mfa.recoveryHashes.Nodup) :
    UsedUp why.recovery why.names (· ∈ mfa.recoveryHashes) (· ∈ mfa'.recoveryHashes) := by
  have hsame : UsedUp none why.names (· ∈ mfa.recoveryHashes) (· ∈ mfa.recoveryHashes) := .same fun _ h => h
  cases h with
  | limited hcounted => exact hcounted.recoveryHashes ▸ hsame
  | @attempt _ _ slot _ hcounted => cases slot <;> exact hcounted.recoveryHashes ▸ hsame
  | @enrollment slot => cases slot <;> exact hsame
  | confirmed => exact .renewed (by rintro hash ⟨⟩) fun hash hmem => List.mem_map_of_mem hmem
  | verified _ hc =>
    have husedUp := hc.usedUp hmfa []
    exact husedUp
  | @replacing challenge _ _ hc =>
    have husedUp := hc.usedUp hmfa [.digest challenge.tokenHash]
    exact husedUp
  | regenerated _ hc => exact .renewed (hc.usedUp hmfa []).used fun hash hmem => List.mem_map_of_mem hmem
  | reset => exact .renewed (by rintro hash ⟨⟩) fun hash hmem => absurd hmem List.not_mem_nil
  | _ => exact hsame

theorem Allowed.nodup_recoveryHashes (h : Allowed setup mfa why mfa') (hnames : why.names.Nodup)
    (hmfa : mfa.recoveryHashes.Nodup) : mfa'.recoveryHashes.Nodup := by
  have hconsumed : ∀ {factor : Factor} {mfa₁ : MfaData}, mfa.Consumed setup factor mfa₁ →
      mfa₁.recoveryHashes.Nodup := by
    intro factor mfa₁ hc
    cases hc with
    | recovery => exact hmfa.erase _
    | totp => exact hmfa
  cases h with
  | limited hcounted => exact hcounted.recoveryHashes ▸ hmfa
  | @attempt _ _ slot _ hcounted => cases slot <;> exact hcounted.recoveryHashes ▸ hmfa
  | @enrollment slot => cases slot <;> exact hmfa
  | confirmed => exact hnames.of_map _
  | verified _ hc =>
    have hnodup := hconsumed hc
    exact hnodup
  | replacing hc =>
    have hnodup := hconsumed hc
    exact hnodup
  | regenerated => exact hnames.of_map _
  | reset => exact List.nodup_nil
  | _ => exact hmfa

theorem Allowed.ticket (h : Allowed setup mfa why mfa') : UsedUp why.ticket why.names mfa.HasTicket mfa'.HasTicket := by
  have hsame : ∀ {mfa₁ : MfaData}, mfa₁.resetTicket = mfa.resetTicket →
      UsedUp none why.names mfa.HasTicket mfa₁.HasTicket := by
    intro mfa₁ heq
    exact .same fun hash ⟨ticket, hticket, hhash⟩ => ⟨ticket, heq ▸ hticket, hhash⟩
  have hgone : ∀ {mfa₁ : MfaData} {hash : String} {P : Prop}, mfa₁.resetTicket = none → mfa₁.HasTicket hash → P := by
    rintro mfa₁ hash P hnone ⟨ticket, hticket, -⟩
    cases hnone.symm.trans hticket
  cases h with
  | limited hcounted => exact hsame hcounted.resetTicket
  | @attempt _ _ slot _ hcounted => cases slot <;> exact hsame hcounted.resetTicket
  | @enrollment slot => cases slot <;> exact hsame rfl
  | confirmed => exact .renewed (by rintro hash ⟨⟩) fun hash hhas => hgone rfl hhas
  | verified _ hc =>
    have husedUp := hsame hc.resetTicket
    exact husedUp
  | replacing hc =>
    have husedUp := hsame hc.resetTicket
    exact husedUp
  | regenerated => exact .renewed (by rintro hash ⟨⟩) fun hash hhas => hgone rfl hhas
  | redeemed _ hticket _ =>
    refine .renewed ?_ fun hash hhas => hgone rfl hhas
    rintro hash ⟨⟩
    exact ⟨_, hticket, rfl⟩
  | reset ticket =>
    refine .renewed (by rintro hash ⟨⟩) ?_
    rintro hash ⟨_, ⟨⟩, rfl⟩
    exact List.mem_singleton.2 rfl
  | login => exact hsame rfl

inductive Advanced (limit : Option MfaLimit) (w : ℤ) : Option MfaLimit → Prop
  | more {before : MfaLimit} : limit = some before → before.expiresAt = w → before.count < 10 →
      Advanced limit w (some ⟨before.count + 1, w⟩)
  | fresh : (∀ before, limit = some before → before.expiresAt < w) → Advanced limit w (some ⟨1, w⟩)

theorem Advanced.expiresAt (h : Advanced limit w limit') : limit'.map MfaLimit.expiresAt = some w := by
  cases h <;> rfl

theorem MfaData.Counted.advanced (h : mfa.Counted w mfa') : Advanced mfa.limit w mfa'.limit := by
  obtain ⟨t, hlt, rfl⟩ := h
  rw [MfaData.limit, MfaData.limit, MfaData.countAttempt, OrderedMap.get_set, if_pos rfl]
  cases hlimit : mfa.limits.get "factor" with
  | none =>
    have hcurrent : mfa.currentLimit "factor" t = ⟨0, t + limitSeconds⟩ := by
      rw [MfaData.currentLimit, hlimit]
    rw [hcurrent]
    exact .fresh fun before hbefore => absurd hbefore.symm (Option.some_ne_none before)
  | some before =>
    by_cases hexpired : before.expiresAt ≤ t
    -- a window that has expired ends before one that begins now
    · have hcurrent : mfa.currentLimit "factor" t = ⟨0, t + limitSeconds⟩ := by
        rw [MfaData.currentLimit, hlimit]
        exact if_pos hexpired
      rw [hcurrent]
      refine .fresh ?_
      rintro before' ⟨⟩
      simp only [limitSeconds]
      omega
    · have hcurrent : mfa.currentLimit "factor" t = before := by
        rw [MfaData.currentLimit, hlimit]
        exact if_neg hexpired
      rw [hcurrent] at hlt ⊢
      exact .more rfl rfl hlt

variable (h : Allowed setup mfa why mfa')

include h

theorem Allowed.window : (∀ w, why.window = some w → Advanced mfa.limit w mfa'.limit) ∧
      (why.window = none → mfa'.limit = mfa.limit) := by
  have hsame : mfa'.limit = mfa.limit → why.window = none →
      (∀ w, why.window = some w → Advanced mfa.limit w mfa'.limit) ∧ (why.window = none → mfa'.limit = mfa.limit) := by
    intro heq hnone
    exact ⟨fun w hw => absurd (hw.symm.trans hnone) (Option.some_ne_none w), fun _ => heq⟩
  cases h with
  | limited hcounted =>
    refine ⟨?_, ?_⟩
    · rintro w ⟨⟩
      exact hcounted.advanced
    · rintro ⟨⟩
  | @attempt _ _ slot _ hcounted =>
    refine ⟨?_, ?_⟩
    · rintro w ⟨⟩
      cases slot <;> exact hcounted.advanced
    · rintro ⟨⟩
  | @enrollment slot => cases slot <;> exact hsame rfl rfl
  | verified _ hc => exact hsame hc.limit rfl
  | replacing hc => exact hsame hc.limit rfl
  | regenerated _ hc => exact hsame hc.limit rfl
  | _ => exact hsame rfl rfl

theorem Allowed.accepted (hstep : why.stepOf secret = some step) :
    mfa'.lastStep = step ∧ mfa'.enrolled setup = some secret ∧
      (mfa.enrolled setup = some secret ∧ mfa.lastStep < step ∨
        mfa.Pending setup secret ∧ ∀ slot, mfa'.slot slot = none) := by
  have hconsumed : ∀ {factor : Factor} {mfa₁ : MfaData}, mfa.Consumed setup factor mfa₁ →
      factor.stepOf secret = some step →
      mfa₁.lastStep = step ∧ mfa₁.enrolled setup = some secret ∧ mfa.enrolled setup = some secret ∧
        mfa.lastStep < step := by
    intro factor mfa₁ hc hstep
    cases hc with
    | recovery => cases hstep
    | @totp other step' henrolled hlt =>
      by_cases heq : other = secret
      · subst heq
        rw [Factor.stepOf, if_pos rfl] at hstep
        cases hstep
        exact ⟨rfl, henrolled, henrolled, hlt⟩
      · rw [Factor.stepOf, if_neg heq] at hstep
        cases hstep
  cases h with
  | @confirmed slot challenge encrypted other step' codes hc hsecret hdecrypt =>
    have hpending : challenge.pending setup = some other := by
      rw [MfaChallenge.pending, hsecret]
      exact hdecrypt
    by_cases heq : other = secret
    · subst heq
      simp only [Purpose.stepOf, Purpose.factor, Option.bind_some, Factor.stepOf, if_pos] at hstep
      cases hstep
      refine ⟨rfl, hdecrypt, Or.inr ⟨⟨slot, challenge, hc, hpending⟩, ?_⟩⟩
      intro slot
      cases slot <;> rfl
    · simp only [Purpose.stepOf, Purpose.factor, Option.bind_some, Factor.stepOf, if_neg heq] at hstep
      cases hstep
  | verified _ hc =>
    obtain ⟨hlast, henrolled', henrolled, hlt⟩ := hconsumed hc hstep
    exact ⟨hlast, henrolled', Or.inl ⟨henrolled, hlt⟩⟩
  | replacing hc =>
    obtain ⟨hlast, henrolled', henrolled, hlt⟩ := hconsumed hc hstep
    exact ⟨hlast, henrolled', Or.inl ⟨henrolled, hlt⟩⟩
  | regenerated _ hc =>
    obtain ⟨hlast, henrolled', henrolled, hlt⟩ := hconsumed hc hstep
    exact ⟨hlast, henrolled', Or.inl ⟨henrolled, hlt⟩⟩
  | _ => cases hstep

theorem Allowed.enrolled (hstep : why.stepOf secret = none) (henrolled : mfa'.enrolled setup = some secret) :
    mfa.enrolled setup = some secret ∧ mfa'.lastStep = mfa.lastStep := by
  have hconsumed : ∀ {factor : Factor} {mfa₁ : MfaData}, mfa.Consumed setup factor mfa₁ →
      factor.stepOf secret = none → mfa₁.enrolled setup = some secret →
      mfa.enrolled setup = some secret ∧ mfa₁.lastStep = mfa.lastStep := by
    intro factor mfa₁ hc hstep henrolled
    rw [hc.enrolled] at henrolled
    cases hc with
    | recovery => exact ⟨henrolled, rfl⟩
    | totp hsecret _ =>
      rw [henrolled, Option.some.injEq] at hsecret
      rw [Factor.stepOf, if_pos hsecret.symm] at hstep
      cases hstep
  cases h with
  | limited hcounted => exact ⟨hcounted.enrolled setup ▸ henrolled, hcounted.lastStep⟩
  | @attempt _ _ slot _ hcounted =>
    cases slot <;> exact ⟨hcounted.enrolled setup ▸ henrolled, hcounted.lastStep⟩
  | @enrollment slot => cases slot <;> exact ⟨henrolled, rfl⟩
  | @confirmed _ _ encrypted other _ _ _ _ hdecrypt =>
    have heq : other = secret := Option.some.inj (hdecrypt.symm.trans henrolled)
    rw [Purpose.stepOf, Purpose.factor, Option.bind_some, Factor.stepOf, if_pos heq] at hstep
    cases hstep
  | verified _ hc =>
    have hkept := hconsumed hc hstep henrolled
    exact hkept
  | replacing hc =>
    have hkept := hconsumed hc hstep henrolled
    exact hkept
  | regenerated _ hc =>
    have hkept := hconsumed hc hstep henrolled
    exact hkept
  | reset => cases henrolled
  | _ => exact ⟨henrolled, rfl⟩

theorem Allowed.pending (hmfa : mfa.Separate) (hpending : mfa'.Pending setup secret) :
    mfa'.enrolled setup = mfa.enrolled setup ∧ (mfa.Pending setup secret ∨ .secret secret ∈ why.names) := by
  obtain ⟨slot, challenge', hslot, hsecret⟩ := hpending
  constructor
  · cases h with
    | limited hcounted => exact hcounted.enrolled setup
    | @attempt _ _ slot _ hcounted => cases slot <;> exact hcounted.enrolled setup
    | @enrollment slot => cases slot <;> rfl
    | confirmed => cases slot <;> cases hslot
    | verified _ hc => exact hc.enrolled
    | replacing hc => exact hc.enrolled
    | regenerated => cases slot <;> cases hslot
    | reset => cases slot <;> cases hslot
    | _ => rfl
  · rcases h.slot hmfa hslot with ⟨challenge, hc, hkept⟩ | ⟨hnew, -, -⟩
    · rcases hkept.secret with hsame | ⟨nonce, drawn, hnames, hdrawn⟩
      · exact Or.inl ⟨slot, challenge, hc, by rw [MfaChallenge.pending, ← hsame]; exact hsecret⟩
      · rw [MfaChallenge.pending, hdrawn, Option.bind_some, setup.decrypt_encrypt, Option.some.injEq] at hsecret
        rw [hnames, hsecret]
        exact Or.inr List.mem_cons_self
    · rw [MfaChallenge.pending, hnew.secret] at hsecret
      cases hsecret

end Effects

end RyanAI.Mfa
