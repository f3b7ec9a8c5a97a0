import RyanAI.Mfa.Account

/-!
# What an operation does in which order

An operation saves what is allowed on the row that it has read last, or saved last, and puts only names that it has
drawn and not put. It compares a code after a save has counted the attempt, once for each. All seven operations keep to
this, whatever the answers; what they return says for what they have saved last.
-/

namespace RyanAI.Mfa

open RyanAI.Lib
open RyanAI.Lib.Program (Follows Protocol Returns perform)

/-! ## The protocol -/

/-- The challenge of an attempt, `none` for one without a challenge. -/
def Purpose.attempted : Purpose → Option (Option String)
  | .attempt challenge _ => some challenge
  | _ => none

structure Phase where
  /-- The row that was read or saved last. -/
  snapshot : Option Auth
  /-- The row counts an attempt, and the code was not compared yet. -/
  attempted : Option (Option String)
  held : List Name
  saved : Option Purpose

def Phase.start : Phase := ⟨none, none, [], none⟩

namespace Phase

def read (phase : Phase) (auth : Auth) : Phase := { phase with snapshot := some auth, attempted := none }

def save (auth : Auth) (why : Purpose) : Phase := ⟨some auth, why.attempted, [], some why⟩

def hold (phase : Phase) (names : List Name) : Phase := { phase with held := phase.held ++ names }

end Phase

def mayAsk (setup : Setup) (phase : Phase) : Effect → Prop
  | .save auth mfa _ why => phase.snapshot = some auth ∧ Allowed setup auth.data why mfa ∧ why.names.Sublist phase.held
  | .evaluate auth challenge => phase.snapshot = some auth ∧ phase.attempted = some challenge
  | _ => True

def phaseAfter (setup : Setup) (phase : Phase) : (e : Effect) → e.Answer → Phase
  | .getAuth _, .ok (some auth) => phase.read auth
  | .getAuth _, .ok none => phase
  | .getAuth _, .error () => phase
  | .save auth mfa revoke why, .ok (some (revision, stamp)) => .save (auth.saved mfa revoke revision stamp) why
  | .save _ _ _ _, .ok none => { phase with held := [] }
  | .save _ _ _ _, .error () => { phase with held := [] }
  | .newToken _, token => phase.hold [.digest (setup.tokenHash token)]
  | .newSecret, (secret, _) => phase.hold [.secret secret]
  | .evaluate _ _, _ => { phase with attempted := none }
  | .now, _ => phase
  | .getUserRole _, _ => phase
  | .getMfaConfig, _ => phase

def mfaProtocol (setup : Setup) : Protocol Effect.Answer Phase := ⟨mayAsk setup, phaseAfter setup⟩

/-! ## Parts of the operations -/

variable {auth : Auth} {mfa : MfaData} {t : ℤ}

section Parts

variable {setup : Setup} {phase : Phase}

theorem follows_now : now.Follows (mfaProtocol setup) (Returns fun phase' _ => phase' = phase) phase :=
  ⟨trivial, fun _ => rfl⟩

theorem follows_newToken (pre : String) : (newToken pre).Follows (mfaProtocol setup)
    (Returns fun phase' token => phase' = phase.hold [.digest (setup.tokenHash token)]) phase :=
  ⟨trivial, fun _ => rfl⟩

theorem follows_evaluate (hsnapshot : phase.snapshot = some auth) (hattempted : phase.attempted = some challenge) :
    (evaluate auth challenge).Follows (mfaProtocol setup)
      (Returns fun phase' _ => phase'.snapshot = some auth) phase :=
  ⟨⟨hsnapshot, hattempted⟩, fun _ => hsnapshot⟩

theorem follows_getAuth (userId : String) : (getAuth userId).Follows (mfaProtocol setup)
    (Returns fun phase' auth => phase' = phase.read auth) phase := by
  refine ⟨trivial, ?_⟩
  rintro (⟨⟩ | _ | auth)
  · exact .thrown _
  · exact .thrown _
  · show Follows _ _ (phase.read auth) (if auth.active then pure auth else throw _)
    split
    · exact .returned rfl
    · exact .thrown _

theorem follows_saveMfa (hsnapshot : phase.snapshot = some auth)
    (hallowed : Allowed setup auth.data why mfa) (hnames : why.names.Sublist phase.held) :
    (saveMfa auth mfa revoke why).Follows (mfaProtocol setup)
      (Returns fun phase' auth' => phase' = .save auth' why ∧ auth'.data = mfa) phase := by
  refine ⟨⟨hsnapshot, hallowed, hnames⟩, ?_⟩
  rintro (⟨⟩ | _ | ⟨revision, stamp⟩)
  · exact .thrown _
  · exact .thrown _
  · exact .returned ⟨rfl, rfl⟩

theorem follows_newChallenge (auth : Auth) (kind : ChallengeType) (context : ChallengeContext) :
    (newChallenge setup auth kind context).Follows (mfaProtocol setup)
      (Returns fun phase' created => created.2.IsNew ∧ phase' = phase.hold [.digest created.2.tokenHash]) phase := by
  refine (follows_newToken _).seq ?_
  rintro _ token rfl
  refine follows_now.seq ?_
  rintro _ t rfl
  exact .returned ⟨⟨rfl, rfl⟩, rfl⟩

theorem follows_newCodes (n : ℕ) : (newCodes setup n).Follows (mfaProtocol setup)
    (Returns fun phase' codes => phase' = phase.hold (codes.map .digest)) phase := by
  induction n generalizing phase with
  | zero =>
    refine .returned ?_
    rw [List.map_nil, Phase.hold, List.append_nil]
  | succ n ih =>
    refine (follows_newToken _).seq ?_
    rintro _ token rfl
    refine ih.seq ?_
    rintro _ codes rfl
    refine .returned ?_
    rw [Phase.hold, Phase.hold, Phase.hold, List.append_assoc, List.map_cons]
    rfl

theorem follows_decryptSecret (encrypted : String) : (decryptSecret setup encrypted).Follows (mfaProtocol setup)
    (Returns fun phase' secret => phase' = phase ∧ setup.decrypt encrypted = some secret) phase := by
  rw [decryptSecret]
  split
  · rename_i secret hdecrypt
    exact .returned ⟨rfl, hdecrypt⟩
  · exact .thrown _

theorem follows_checkUser (userId : String) : (checkUser userId).Follows (mfaProtocol setup)
    (Returns fun phase' _ => phase' = phase) phase := by
  refine ⟨trivial, fun (role : Option String) => ?_⟩
  show Follows _ _ phase (if role = some "admin" ∨ role = some "user" then _ else _)
  split
  · refine ⟨trivial, fun (enabled : Bool) => ?_⟩
    show Follows _ _ phase (if enabled then pure () else throw _)
    split
    · exact .returned rfl
    · exact .thrown _
  · exact .thrown _

theorem follows_limitAccount (userId : String) (expectedStamp : Option String) (rounds : ℕ) :
    (limitAccount userId expectedStamp rounds).Follows (mfaProtocol setup)
      (Returns fun phase' auth => phase'.snapshot = some auth ∧ phase'.attempted = some none) phase := by
  induction rounds generalizing phase with
  | zero => exact .thrown _
  | succ n ih =>
    refine (follows_getAuth _).seq ?_
    rintro _ auth rfl
    split
    · exact .thrown _
    refine follows_now.seq ?_
    rintro _ t rfl
    dsimp only
    split
    · exact .thrown _
    rename_i hlt
    apply Follows.caught
    · have hcounted : auth.data.Counted _ _ := .attempt t (Nat.lt_of_not_le hlt) rfl
      refine (follows_saveMfa rfl (.limited hcounted) (List.nil_sublist _)).weaken ?_
      rintro _ auth' ⟨rfl, -⟩
      exact ⟨rfl, rfl⟩
    · intro phase' err
      split
      · exact .thrown _
      · exact ih

/-! ### Challenges -/

theorem challengeIn_eq_some {kinds : List ChallengeType}
    (h : challengeIn setup auth slot kinds token t = some challenge) :
    auth.data.slot slot = some challenge ∧ challenge.tokenHash = setup.tokenHash token := by
  obtain ⟨hslot, hgood⟩ := Option.filter_eq_some_iff.1 h
  exact ⟨hslot, (of_decide_eq_true hgood).2.2.2⟩

theorem slotOf_eq_login {kinds : List ChallengeType} (token : String) (h : .replace ∉ kinds) :
    slotOf setup mfa kinds token = .login := by
  rw [slotOf, if_neg fun hmem => h hmem.1, if_neg]
  rintro rfl
  exact h (List.mem_singleton.2 rfl)

structure Loaded.Current (loaded : Loaded) (phase : Phase) : Prop where
  snapshot : phase.snapshot = some loaded.auth
  slot : loaded.auth.data.slot loaded.slot = some loaded.challenge

section

variable (token : String) (kinds : List ChallengeType)

include token kinds

theorem follows_loadChallenge : (loadChallenge setup token kinds).Follows (mfaProtocol setup)
      (Returns fun phase' loaded => loaded.Current phase') phase := by
  rw [loadChallenge]
  split
  · exact .thrown _
  refine (follows_getAuth _).seq ?_
  rintro _ auth rfl
  refine follows_now.seq ?_
  rintro _ t rfl
  split
  · exact .thrown _
  · rename_i challenge hchallenge
    refine (follows_checkUser _).seq ?_
    rintro _ ⟨⟩ rfl
    exact .returned ⟨rfl, (challengeIn_eq_some hchallenge).1⟩

structure Loaded.Attempted (setup : Setup) (token : String) (kinds : List ChallengeType) (loaded : Loaded)
    (phase : Phase) : Prop extends loaded.Current phase where
  attempted : phase.attempted = some (some loaded.challenge.tokenHash)
  tokenHash : loaded.challenge.tokenHash = setup.tokenHash token
  login : .replace ∉ kinds → loaded.slot = .login

theorem follows_attemptRounds (userId : String) (rounds : ℕ) (hsnapshot : phase.snapshot = some auth) :
    (attemptRounds setup token kinds userId rounds auth).Follows (mfaProtocol setup)
      (Returns fun phase' loaded => loaded.Attempted setup token kinds phase') phase := by
  -- a save that loses the race leads to the next round, on the row that is read then
  induction rounds generalizing phase auth with
  | zero => exact .thrown _
  | succ n ih =>
    rw [attemptRounds]
    refine follows_now.seq ?_
    rintro _ t rfl
    dsimp only
    split
    · exact .thrown _
    rename_i challenge hchallenge
    obtain ⟨hslot, htoken⟩ := challengeIn_eq_some hchallenge
    refine (follows_checkUser _).seq ?_
    rintro _ ⟨⟩ rfl
    split
    · exact .thrown _
    rename_i hattempts
    refine follows_now.seq ?_
    rintro _ t rfl
    split
    · exact .thrown _
    rename_i hlimit
    apply Follows.caught
    · have hcounted : auth.data.Counted _ _ := .attempt t (Nat.lt_of_not_le hlimit) rfl
      have hallowed : Allowed setup auth.data _ _ := .attempt hcounted hslot (Nat.lt_of_not_le hattempts)
      refine (follows_saveMfa hsnapshot hallowed (List.nil_sublist _)).seq ?_
      rintro _ updated ⟨rfl, hdata⟩
      refine .returned ⟨⟨rfl, ?_⟩, rfl, htoken, slotOf_eq_login token⟩
      rw [hdata, MfaData.slot_setSlot, if_pos rfl]
    · intro phase' err
      split
      · exact .thrown _
      · refine (follows_getAuth _).seq ?_
        rintro _ auth' rfl
        exact ih rfl

theorem follows_attemptChallenge : (attemptChallenge setup token kinds).Follows (mfaProtocol setup)
      (Returns fun phase' loaded => loaded.Attempted setup token kinds phase') phase := by
  rw [attemptChallenge]
  split
  · exact .thrown _
  · refine (follows_getAuth _).seq ?_
    rintro _ auth rfl
    exact follows_attemptRounds token kinds _ 5 rfl

end

def Factor.Matches (setup : Setup) (code : String) (recovery : Bool) : Factor → Prop
  | .recovery hash => recovery = true ∧ hash = setup.tokenHash (setup.lower (setup.strip code))
  | .totp secret step => recovery = false ∧ setup.totpAt secret (step * 30) = setup.strip code

theorem matchingStep_eq_some (h : matchingStep setup t secret code lastStep = some step) :
    lastStep < step ∧ setup.totpAt secret (step * 30) = code := by
  rw [matchingStep] at h
  split at h
  · have hfound := List.find?_some h
    exact of_decide_eq_true hfound
  · cases h

theorem follows_consumeFactor (mfa : MfaData) (code : String) (recovery : Bool) :
    (consumeFactor setup mfa code recovery).Follows (mfaProtocol setup)
      (Returns fun phase' consumed => phase' = phase ∧ mfa.Consumed setup consumed.2 consumed.1 ∧
        consumed.2.Matches setup code recovery) phase := by
  rw [consumeFactor]
  split
  · rename_i hrecovery
    dsimp only
    split
    · rename_i hmem
      exact .returned ⟨rfl, .recovery hmem, hrecovery, rfl⟩
    · exact .thrown _
  rename_i hrecovery
  split
  · exact .thrown _
  rename_i encrypted hsecret
  refine (follows_decryptSecret encrypted).seq ?_
  rintro _ secret ⟨rfl, hdecrypt⟩
  refine follows_now.seq ?_
  rintro _ t rfl
  split
  · rename_i step hstep
    obtain ⟨hlt, hcode⟩ := matchingStep_eq_some hstep
    have henrolled : mfa.enrolled setup = some secret := by
      rw [MfaData.enrolled, hsecret]
      exact hdecrypt
    exact .returned ⟨rfl, .totp henrolled hlt, eq_false_of_ne_true hrecovery, hcode⟩
  · exact .thrown _

/-! ## The operations -/

theorem follows_saveMfa_drawn (hsnapshot : phase.snapshot = some auth) (hallowed : Allowed setup auth.data why mfa) :
    (saveMfa auth mfa revoke why).Follows (mfaProtocol setup)
      (Returns fun phase' auth' => phase' = .save auth' why ∧ auth'.data = mfa) (phase.hold why.names) :=
  follows_saveMfa hsnapshot hallowed (List.sublist_append_right _ _)

theorem follows_startMfaLogin (hsnapshot : phase.snapshot = some auth) (authMethod : String)
    (oauthSessionId provider : Option String) :
    (startMfaLogin setup auth authMethod oauthSessionId provider).Follows (mfaProtocol setup)
      (Returns fun _ _ => True) phase := by
  refine follows_now.seq ?_
  rintro _ t rfl
  refine (follows_newChallenge _ _ _).seq ?_
  rintro _ ⟨token, challenge⟩ ⟨hnew, rfl⟩
  refine (follows_saveMfa_drawn hsnapshot (.login hnew)).seq ?_
  intro _ _ _
  exact .returned trivial

theorem follows_startMfaEnrollment (token : String) :
    (startMfaEnrollment setup token).Follows (mfaProtocol setup) (Returns fun _ _ => True) phase := by
  refine (follows_loadChallenge _ _).seq ?_
  intro phase loaded hloaded
  split
  · exact (follows_decryptSecret _).weaken fun _ _ _ => trivial
  · refine ⟨trivial, ?_⟩
    rintro ⟨secret, nonce⟩
    have hallowed : Allowed setup loaded.auth.data _ _ := .enrollment nonce secret hloaded.slot
    exact (follows_saveMfa_drawn hloaded.snapshot hallowed).seq fun _ _ _ => .returned trivial

theorem follows_confirmMfaEnrollment (token code : String) :
    (confirmMfaEnrollment setup token code).Follows (mfaProtocol setup)
      (Returns fun phase' _ => ∃ why factor, phase'.saved = some why ∧ why.success = some (setup.tokenHash token) ∧
        why.factor = some factor ∧ factor.Matches setup code false) phase := by
  refine (follows_attemptChallenge _ _).seq ?_
  intro phase loaded hloaded
  refine (follows_evaluate hloaded.snapshot hloaded.attempted).seq ?_
  intro phase _ hsnapshot
  split
  · exact .thrown _
  rename_i encrypted hsecret
  refine (follows_decryptSecret encrypted).seq ?_
  rintro _ secret ⟨rfl, hdecrypt⟩
  refine follows_now.seq ?_
  rintro _ t rfl
  split
  · exact .thrown _
  rename_i step hstep
  refine (follows_newCodes 10).seq ?_
  rintro _ hashes rfl
  have hallowed : Allowed setup loaded.auth.data _ _ := .confirmed step hashes hloaded.slot hsecret hdecrypt
  refine (follows_saveMfa_drawn hsnapshot hallowed).seq ?_
  rintro _ auth ⟨rfl, -⟩
  exact .returned ⟨_, _, rfl, congrArg some hloaded.tokenHash, rfl, rfl, (matchingStep_eq_some hstep).2⟩

theorem follows_verifyMfaChallenge (token code : String) (recovery : Bool) :
    (verifyMfaChallenge setup token code recovery).Follows (mfaProtocol setup)
      (Returns fun phase' _ => ∃ why factor, phase'.saved = some why ∧ why.success = some (setup.tokenHash token) ∧
        why.factor = some factor ∧ factor.Matches setup code recovery) phase := by
  refine (follows_attemptChallenge _ _).seq ?_
  intro phase loaded hloaded
  refine (follows_evaluate hloaded.snapshot hloaded.attempted).seq ?_
  intro phase _ hsnapshot
  refine (follows_consumeFactor _ _ _).seq ?_
  rintro _ ⟨mfa, factor⟩ ⟨rfl, hconsumed, hmatches⟩
  have hlogin : loaded.auth.data.loginChallenge = some loaded.challenge := by
    have hslot := hloaded.slot
    rwa [hloaded.login (by decide)] at hslot
  refine (follows_saveMfa hsnapshot (.verified hlogin hconsumed) (List.nil_sublist _)).weaken ?_
  rintro _ auth ⟨rfl, -⟩
  exact ⟨_, _, rfl, congrArg some hloaded.tokenHash, rfl, hmatches⟩

theorem follows_manageMfa (userId : String) (claims : Claims) (code : String) (recovery replace : Bool) :
    (manageMfa setup userId claims code recovery replace).Follows (mfaProtocol setup)
      (Returns fun phase' _ => ∃ why factor, phase'.saved = some why ∧ why.factor = some factor ∧
        factor.Matches setup code recovery) phase := by
  refine follows_now.seq ?_
  rintro _ t rfl
  split
  · exact .thrown _
  refine ⟨trivial, fun (enabled : Bool) => ?_⟩
  show Follows _ _ _ (if enabled then _ else throw _)
  split
  · refine (follows_limitAccount _ _ _).seq ?_
    rintro phase auth ⟨hsnapshot, hattempted⟩
    refine (follows_evaluate hsnapshot hattempted).seq ?_
    intro phase _ hsnapshot
    refine (follows_consumeFactor _ _ _).seq ?_
    rintro _ ⟨mfa, factor⟩ ⟨rfl, hconsumed, hmatches⟩
    dsimp only
    split
    · refine (follows_newChallenge _ _ _).seq ?_
      rintro _ ⟨token, challenge⟩ ⟨hnew, rfl⟩
      refine (follows_saveMfa_drawn hsnapshot (.replacing hconsumed hnew)).seq ?_
      rintro _ auth ⟨rfl, -⟩
      exact .returned ⟨_, _, rfl, rfl, hmatches⟩
    · refine (follows_newCodes 10).seq ?_
      rintro _ hashes rfl
      refine (follows_saveMfa_drawn hsnapshot (.regenerated hashes hconsumed)).seq ?_
      rintro _ auth ⟨rfl, -⟩
      exact .returned ⟨_, _, rfl, rfl, hmatches⟩
  · exact .thrown _

theorem ticketFor_eq_some (h : mfa.ticketFor setup resetToken t = some ticket) :
    mfa.resetTicket = some ticket ∧ ticket.tokenHash = setup.tokenHash resetToken := by
  rw [MfaData.ticketFor] at h
  split at h
  · obtain ⟨hticket, hgood⟩ := Option.filter_eq_some_iff.1 h
    exact ⟨hticket, (of_decide_eq_true hgood).2⟩
  · cases h

theorem follows_redeemMfaResetToken (token resetToken : String) :
    (redeemMfaResetToken setup token resetToken).Follows (mfaProtocol setup)
      (Returns fun phase' _ => ∃ why, phase'.saved = some why ∧ why.success = some (setup.tokenHash token) ∧
        why.ticket = some (setup.tokenHash resetToken)) phase := by
  refine (follows_attemptChallenge _ _).seq ?_
  intro phase loaded hloaded
  refine (follows_evaluate hloaded.snapshot hloaded.attempted).seq ?_
  intro phase _ hsnapshot
  refine follows_now.seq ?_
  rintro _ t rfl
  split
  · exact .thrown _
  rename_i ticket hticket
  obtain ⟨hreset, htoken⟩ := ticketFor_eq_some hticket
  have hlogin : loaded.auth.data.loginChallenge = some loaded.challenge := by
    have hslot := hloaded.slot
    rwa [hloaded.login (by decide)] at hslot
  refine (follows_newChallenge _ _ _).seq ?_
  rintro _ ⟨next, enroll⟩ ⟨hnew, rfl⟩
  refine (follows_saveMfa_drawn hsnapshot (.redeemed hlogin hreset hnew)).seq ?_
  rintro _ auth ⟨rfl, -⟩
  exact .returned ⟨_, rfl, congrArg some hloaded.tokenHash, congrArg some htoken⟩

theorem follows_resetMfa (userId : String) :
    (resetMfa setup userId).Follows (mfaProtocol setup) (Returns fun _ _ => True) phase := by
  refine (follows_getAuth _).seq ?_
  rintro _ auth rfl
  refine (follows_newToken _).seq ?_
  rintro _ token rfl
  refine follows_now.seq ?_
  rintro _ t rfl
  have hallowed : Allowed setup auth.data _ _ := .reset ⟨setup.tokenHash token, t + 1800⟩
  refine (follows_saveMfa_drawn rfl hallowed).seq ?_
  intro _ _ _
  exact .returned trivial

end Parts

def Call.Saved (setup : Setup) (saved : Purpose → Prop) : Call → Prop
  | .confirmEnrollment token code =>
    ∃ why factor, saved why ∧ why.success = some (setup.tokenHash token) ∧ why.factor = some factor ∧
      factor.Matches setup code false
  | .verify token code recovery =>
    ∃ why factor, saved why ∧ why.success = some (setup.tokenHash token) ∧ why.factor = some factor ∧
      factor.Matches setup code recovery
  | .manage _ code recovery _ =>
    ∃ why factor, saved why ∧ why.factor = some factor ∧ factor.Matches setup code recovery
  | .redeem token resetToken =>
    ∃ why, saved why ∧ why.success = some (setup.tokenHash token) ∧ why.ticket = some (setup.tokenHash resetToken)
  | .startLogin _ _ _ => True
  | .startEnrollment _ => True
  | .reset => True

theorem Call.Saved.mono {saved saved' : Purpose → Prop} {call : Call} (h : call.Saved setup saved)
    (hsaved : ∀ why, saved why → saved' why) : call.Saved setup saved' := by
  cases call with
  | confirmEnrollment token code =>
    obtain ⟨why, factor, hwhy, hrest⟩ := h
    exact ⟨why, factor, hsaved why hwhy, hrest⟩
  | verify token code recovery =>
    obtain ⟨why, factor, hwhy, hrest⟩ := h
    exact ⟨why, factor, hsaved why hwhy, hrest⟩
  | manage claims code recovery replace =>
    obtain ⟨why, factor, hwhy, hrest⟩ := h
    exact ⟨why, factor, hsaved why hwhy, hrest⟩
  | redeem token resetToken =>
    obtain ⟨why, hwhy, hrest⟩ := h
    exact ⟨why, hsaved why hwhy, hrest⟩
  | _ => trivial

theorem follows_program (setup : Setup) (userId : String) (call : Call) :
    (call.program setup userId).Follows (mfaProtocol setup)
      (Returns fun phase _ => call.Saved setup fun why => phase.saved = some why) .start := by
  cases call with
  | startLogin authMethod oauthSessionId provider =>
    refine (follows_getAuth _).seq ?_
    rintro _ auth rfl
    exact (follows_startMfaLogin rfl _ _ _).seq fun _ _ _ => .returned trivial
  | startEnrollment token => exact (follows_startMfaEnrollment _).seq fun _ _ _ => .returned trivial
  | confirmEnrollment token code => exact (follows_confirmMfaEnrollment _ _).seq fun _ _ h => .returned h
  | verify token code recovery => exact (follows_verifyMfaChallenge _ _ _).seq fun _ _ h => .returned h
  | manage claims code recovery replace => exact (follows_manageMfa _ _ _ _ _).seq fun _ _ h => .returned h
  | redeem token resetToken => exact (follows_redeemMfaResetToken _ _).seq fun _ _ h => .returned h
  | reset => exact (follows_resetMfa _).seq fun _ _ _ => .returned trivial

end RyanAI.Mfa
