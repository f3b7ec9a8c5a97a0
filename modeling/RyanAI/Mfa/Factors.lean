import RyanAI.Lib.HttpError
import RyanAI.Lib.OrderedMap
import RyanAI.Lib.Program

/-!
# Authenticator state and challenges

`utils/mfa.py` keeps the second factor of a user, the challenges of a login and the counts of attempts in the
credential row. An operation reads the row, and saves what it makes of it with `update_mfa_by_id`, which takes effect
only on the row that was read. Operations that take a code save the count of the attempt first, look at the code, and
save once more.

The operations are programs that ask the database, the clock and the source of randomness. A save names its purpose and
the place where a code is compared is marked by a question of its own; neither has an effect.
-/

namespace RyanAI.Mfa

open RyanAI.Lib
open RyanAI.Lib.Program (perform)

/-! ## The credential row -/

structure MfaLimit where
  count : ℕ
  expiresAt : ℤ

structure MfaResetTicket where
  tokenHash : String
  expiresAt : ℤ

inductive ChallengeType where
  | enroll
  | verify
  | replace
  | recover
deriving DecidableEq

structure MfaChallenge where
  tokenHash : String
  type : ChallengeType
  expiresAt : ℤ
  attempts : ℕ
  authMethod : String
  authTime : ℤ
  sessionStamp : Option String
  secret : Option String
  oauthSessionId : Option String
  provider : Option String

/-- `MfaData` without its revision. -/
structure MfaData where
  secret : Option String
  lastStep : ℤ
  recoveryHashes : List String
  loginChallenge : Option MfaChallenge
  manageChallenge : Option MfaChallenge
  resetRequired : Bool
  resetTicket : Option MfaResetTicket
  limits : OrderedMap String MfaLimit

def MfaData.empty : MfaData := ⟨none, -1, [], none, none, false, none, []⟩

/-- A row of `auth`; `mfa` comes with its revision. -/
structure Auth where
  id : String
  password : String
  active : Bool
  mfa : Option (String × MfaData)
  sessionStamp : Option String

namespace Auth

/-- `auth.mfa.model_copy(deep=True) if auth.mfa else MfaData()`. -/
def data (auth : Auth) : MfaData := (auth.mfa.map Prod.snd).getD .empty

def revision (auth : Auth) : Option String := auth.mfa.map Prod.fst

def saved (auth : Auth) (mfa : MfaData) (revoke : Bool) (revision stamp : String) : Auth :=
  { auth with mfa := some (revision, mfa), sessionStamp := if revoke then some stamp else auth.sessionStamp }

end Auth

inductive Slot where
  | login
  | manage
deriving DecidableEq

namespace MfaData

def slot (mfa : MfaData) : Slot → Option MfaChallenge
  | .login => mfa.loginChallenge
  | .manage => mfa.manageChallenge

def setSlot (mfa : MfaData) (challenge : MfaChallenge) : Slot → MfaData
  | .login => { mfa with loginChallenge := some challenge }
  | .manage => { mfa with manageChallenge := some challenge }

end MfaData

structure Setup where
  tokenHash : String → String
  strip : String → String
  lower : String → String
  /-- `pyotp.TOTP(secret).at(time)`. -/
  totpAt : String → ℤ → String
  /-- Encryption takes a nonce. -/
  encrypt : String → String → String
  /-- `none` for an `InvalidToken`. -/
  decrypt : String → Option String
  decrypt_encrypt : ∀ nonce secret, decrypt (encrypt nonce secret) = some secret

inductive Factor where
  | recovery (hash : String)
  | totp (secret : String) (step : ℤ)
deriving DecidableEq

inductive Purpose where
  | login (challenge : String)
  | attempt (challenge : Option String) (window : ℤ)
  | enrollment (secret : String)
  | confirmed (challenge secret : String) (step : ℤ) (codes : List String)
  | verified (challenge : String) (factor : Factor)
  | replacing (factor : Factor) (challenge : String)
  | regenerated (factor : Factor) (codes : List String)
  | redeemed (challenge ticket next : String)
  | reset (ticket : String)

inductive Effect where
  /-- `Auths.get_auth_by_id`. -/
  | getAuth (userId : String)
  /-- `Auths.update_mfa_by_id` with its commit. -/
  | save (auth : Auth) (mfa : MfaData) (revoke : Bool) (why : Purpose)
  /-- `int(time.time())`. -/
  | now
  /-- A random token behind a text. -/
  | newToken (pre : String)
  /-- A random secret, and a nonce to encrypt it. -/
  | newSecret
  /-- The role of the user, `none` if there is no such user. -/
  | getUserRole (userId : String)
  /-- `ENABLE_MFA`. -/
  | getMfaConfig
  /-- A code is compared now, on this row. -/
  | evaluate (auth : Auth) (challenge : Option String)

def Effect.Answer : Effect → Type
  | .getAuth _ => Except Unit (Option Auth)
  | .save _ _ _ _ => Except Unit (Option (String × String))
  | .now => ℤ
  | .newToken _ => String
  | .newSecret => String × String
  | .getUserRole _ => Option String
  | .getMfaConfig => Bool
  | .evaluate _ _ => Unit

abbrev Operation (α : Type) := Program Effect.Answer HttpError α

def now : Operation ℤ := perform (E := Effect) .now

def newToken (pre : String) : Operation String := perform (E := Effect) (.newToken pre)

def evaluate (auth : Auth) (challenge : Option String) : Operation Unit := perform (E := Effect) (.evaluate auth challenge)

/-! ## Reading and saving -/

def challengeSeconds : ℤ := 300

def limitSeconds : ℤ := 900

def unavailable : HttpError := ⟨503, "Authentication is temporarily unavailable."⟩

def getAuth (userId : String) : Operation Auth :=
  .ask (.getAuth userId) fun
    | .error () => throw unavailable
    | .ok none => throw ⟨401, "Invalid authentication request."⟩
    | .ok (some auth) => if auth.active then pure auth else throw ⟨401, "Invalid authentication request."⟩

/-- `save_mfa`. -/
def saveMfa (auth : Auth) (mfa : MfaData) (revoke : Bool) (why : Purpose) : Operation Auth :=
  .ask (.save auth mfa revoke why) fun
    | .error () => throw unavailable
    | .ok none => throw ⟨409, "Authentication changed in another request. Please start again."⟩
    | .ok (some (revision, stamp)) => pure (auth.saved mfa revoke revision stamp)

def busy : HttpError := ⟨409, "Authentication is busy. Please try again."⟩

def tooManyAttempts : HttpError := ⟨429, "Too many attempts. Please try again later."⟩

def MfaData.currentLimit (mfa : MfaData) (kind : String) (now : ℤ) : MfaLimit :=
  match mfa.limits.get kind with
  | none => ⟨0, now + limitSeconds⟩
  | some limit => if limit.expiresAt ≤ now then ⟨0, now + limitSeconds⟩ else limit

def MfaData.countAttempt (mfa : MfaData) (kind : String) (limit : MfaLimit) : MfaData :=
  { mfa with limits := mfa.limits.set kind { limit with count := limit.count + 1 } }

/-- `limit_account(user_id, 'factor', …, check_stamp=True)` -/
def limitAccount (userId : String) (expectedStamp : Option String) : ℕ → Operation Auth
  | 0 => throw busy
  | n + 1 => do
    let auth ← getAuth userId
    if auth.sessionStamp ≠ expectedStamp then throw ⟨401, "Session expired. Please sign in again."⟩
    else
      let t ← now
      let limit := auth.data.currentLimit "factor" t
      if 10 ≤ limit.count then throw tooManyAttempts
      else
        tryCatch (saveMfa auth (auth.data.countAttempt "factor" limit) false (.attempt none limit.expiresAt))
          fun error => if error.status ≠ 409 then throw error else limitAccount userId expectedStamp n

/-! ## Challenges -/

structure ChallengeContext where
  authMethod : String
  authTime : ℤ
  oauthSessionId : Option String
  provider : Option String

/-- `new_challenge`: the token and the challenge. -/
def newChallenge (setup : Setup) (auth : Auth) (kind : ChallengeType) (context : ChallengeContext) :
    Operation (String × MfaChallenge) := do
  let token ← newToken (auth.id ++ ".")
  let t ← now
  return (token, ⟨setup.tokenHash token, kind, t + challengeSeconds, 0, context.authMethod, context.authTime,
    auth.sessionStamp, none, context.oauthSessionId, context.provider⟩)

/-- `start_mfa_login`: the token of the challenge. -/
def startMfaLogin (setup : Setup) (auth : Auth) (authMethod : String) (oauthSessionId provider : Option String) :
    Operation String := do
  let mfa := auth.data
  let kind : ChallengeType := if mfa.resetRequired then .recover else if mfa.secret.isSome then .verify else .enroll
  let t ← now
  let (token, challenge) ← newChallenge setup auth kind ⟨authMethod, t, oauthSessionId, provider⟩
  let _ ← saveMfa auth { mfa with loginChallenge := some challenge } false (.login challenge.tokenHash)
  return token

/-- `none` where the token has no dot, or too much before it. -/
def tokenUser (token : String) : Option String :=
  let before := token.toList.takeWhile (· ≠ '.')
  if before.length = token.length ∨ 64 < before.length then none else some (String.ofList before)

def expired : HttpError := ⟨401, "This authentication step expired. Please start again."⟩

/-- The slot that `load_challenge` looks at. -/
def slotOf (setup : Setup) (mfa : MfaData) (kinds : List ChallengeType) (token : String) : Slot :=
  if .replace ∈ kinds ∧ mfa.manageChallenge.any fun challenge => challenge.tokenHash = setup.tokenHash token then
    .manage
  else if kinds = [.replace] then .manage
  else .login

def challengeIn (setup : Setup) (auth : Auth) (slot : Slot) (kinds : List ChallengeType) (token : String) (t : ℤ) :
    Option MfaChallenge :=
  (auth.data.slot slot).filter fun challenge =>
    challenge.type ∈ kinds ∧ t < challenge.expiresAt ∧ challenge.sessionStamp = auth.sessionStamp ∧
      challenge.tokenHash = setup.tokenHash token

/-- What `load_challenge` returns; the data are those of the row. -/
structure Loaded where
  auth : Auth
  challenge : MfaChallenge
  slot : Slot

def checkUser (userId : String) : Operation Unit :=
  .ask (.getUserRole userId) fun (role : Option String) =>
    if role = some "admin" ∨ role = some "user" then
      .ask .getMfaConfig fun (enabled : Bool) =>
        if enabled then pure () else throw ⟨403, "MFA is disabled. Please sign in again."⟩
    else throw ⟨403, "Account is awaiting approval."⟩

/-- The rounds of `load_challenge` without `attempt`. -/
def loadChallenge (setup : Setup) (token : String) (kinds : List ChallengeType) : Operation Loaded :=
  match tokenUser token with
  | none => throw expired
  | some userId => do
    let auth ← getAuth userId
    let slot := slotOf setup auth.data kinds token
    let t ← now
    match challengeIn setup auth slot kinds token t with
    | none => throw expired
    | some challenge => do
      checkUser userId
      return ⟨auth, challenge, slot⟩

/-- The rounds of `load_challenge` with `attempt=True`. -/
def attemptRounds (setup : Setup) (token : String) (kinds : List ChallengeType) (userId : String) :
    ℕ → Auth → Operation Loaded
  | 0, _ => throw busy
  | n + 1, auth => do
    let slot := slotOf setup auth.data kinds token
    let t ← now
    match challengeIn setup auth slot kinds token t with
    | none => throw expired
    | some challenge => do
      checkUser userId
      if 5 ≤ challenge.attempts then throw ⟨429, "Too many codes. Please sign in again."⟩
      else
        let t ← now
        let limit := auth.data.currentLimit "factor" t
        if 10 ≤ limit.count then throw tooManyAttempts
        else
          let counted := { challenge with attempts := challenge.attempts + 1 }
          let mfa := (auth.data.countAttempt "factor" limit).setSlot counted slot
          tryCatch
            (do
              let updated ← saveMfa auth mfa false (.attempt (some challenge.tokenHash) limit.expiresAt)
              return ⟨updated, counted, slot⟩)
            fun error =>
              if error.status ≠ 409 then throw error
              else do
                let auth ← getAuth userId
                attemptRounds setup token kinds userId n auth

/-- `load_challenge` with `attempt=True`. -/
def attemptChallenge (setup : Setup) (token : String) (kinds : List ChallengeType) : Operation Loaded :=
  match tokenUser token with
  | none => throw expired
  | some userId => do
    let auth ← getAuth userId
    attemptRounds setup token kinds userId 5 auth

/-- `matching_step` at the time `t`. -/
def matchingStep (setup : Setup) (t : ℤ) (secret code : String) (lastStep : ℤ) : Option ℤ :=
  if code.length = 6 ∧ code.toList.all Char.isDigit then
    [t / 30, t / 30 - 1, t / 30 + 1].find? fun step => lastStep < step ∧ setup.totpAt secret (step * 30) = code
  else none

def decryptSecret (setup : Setup) (encrypted : String) : Operation String :=
  match setup.decrypt encrypted with
  | some secret => pure secret
  | none => throw ⟨503, "Authenticator configuration is unavailable. Contact the operator."⟩

def invalidCode : HttpError := ⟨401, "Invalid or already used code."⟩

/-- `consume_factor`: the data without what the code has used, and what that is. -/
def consumeFactor (setup : Setup) (mfa : MfaData) (code : String) (recovery : Bool) : Operation (MfaData × Factor) :=
  if recovery then
    let digest := setup.tokenHash (setup.lower (setup.strip code))
    if digest ∈ mfa.recoveryHashes then
      return ({ mfa with recoveryHashes := mfa.recoveryHashes.erase digest }, .recovery digest)
    else throw invalidCode
  else
    match mfa.secret with
    | none => throw invalidCode
    | some encrypted => do
      let secret ← decryptSecret setup encrypted
      let t ← now
      match matchingStep setup t secret (setup.strip code) mfa.lastStep with
      | some step => return ({ mfa with lastStep := step }, .totp secret step)
      | none => throw invalidCode

def newCodes (setup : Setup) : ℕ → Operation (List String)
  | 0 => pure []
  | n + 1 => do
    let code ← newToken ""
    let rest ← newCodes setup n
    return setup.tokenHash code :: rest

def recoveryCodes (setup : Setup) : Operation (List String) := newCodes setup 10

/-! ## Operations -/

/-- `start_mfa_enrollment`: the secret. -/
def startMfaEnrollment (setup : Setup) (token : String) : Operation String := do
  let loaded ← loadChallenge setup token [.enroll, .replace]
  match loaded.challenge.secret with
  | some encrypted => decryptSecret setup encrypted
  | none =>
    .ask .newSecret fun (drawn : String × String) => do
      let encrypted := setup.encrypt drawn.2 drawn.1
      let challenge := { loaded.challenge with secret := some encrypted }
      let _ ← saveMfa loaded.auth (loaded.auth.data.setSlot challenge loaded.slot) false (.enrollment drawn.1)
      return drawn.1

/-- `confirm_mfa_enrollment`: the hashes of the recovery codes. -/
def confirmMfaEnrollment (setup : Setup) (token code : String) : Operation (List String) := do
  let loaded ← attemptChallenge setup token [.enroll, .replace]
  let mfa := loaded.auth.data
  evaluate loaded.auth (some loaded.challenge.tokenHash)
  match loaded.challenge.secret with
  | none => throw ⟨401, "Invalid code. Check your authenticator and try again."⟩
  | some encrypted => do
    let secret ← decryptSecret setup encrypted
    let t ← now
    match matchingStep setup t secret (setup.strip code) (-1) with
    | none => throw ⟨401, "Invalid code. Check your authenticator and try again."⟩
    | some step => do
      let hashes ← recoveryCodes setup
      let _ ← saveMfa loaded.auth
        { mfa with
          secret := some encrypted
          lastStep := step
          recoveryHashes := hashes
          loginChallenge := none
          manageChallenge := none
          resetTicket := none
          resetRequired := false } true
        (.confirmed loaded.challenge.tokenHash secret step hashes)
      return hashes

/-- `verify_mfa_challenge`. -/
def verifyMfaChallenge (setup : Setup) (token code : String) (recovery : Bool) : Operation Auth := do
  let loaded ← attemptChallenge setup token [.verify]
  evaluate loaded.auth (some loaded.challenge.tokenHash)
  let (mfa, factor) ← consumeFactor setup loaded.auth.data code recovery
  saveMfa loaded.auth { mfa with loginChallenge := none } false (.verified loaded.challenge.tokenHash factor)

/-- The claims of the session that `manage_mfa` is called with. -/
structure Claims where
  authTime : ℤ
  sessionStamp : Option String
  authMethod : String

/-- `manage_mfa`: a challenge's token, or the hashes of new recovery codes. -/
def manageMfa (setup : Setup) (userId : String) (claims : Claims) (code : String) (recovery replace : Bool) :
    Operation (String ⊕ List String) := do
  let t ← now
  if challengeSeconds < t - claims.authTime then throw ⟨403, "reauthentication_required"⟩
  else
    .ask .getMfaConfig fun (enabled : Bool) =>
      if enabled then do
        let auth ← limitAccount userId claims.sessionStamp 5
        evaluate auth none
        let (mfa, factor) ← consumeFactor setup auth.data code recovery
        if replace then do
          let (token, challenge) ← newChallenge setup auth .replace ⟨claims.authMethod, claims.authTime, none, none⟩
          let _ ← saveMfa auth { mfa with manageChallenge := some challenge } false
            (.replacing factor challenge.tokenHash)
          return .inl token
        else do
          let hashes ← recoveryCodes setup
          let _ ← saveMfa auth
            { mfa with
              recoveryHashes := hashes
              loginChallenge := none
              manageChallenge := none
              resetTicket := none } true (.regenerated factor hashes)
          return .inr hashes
      else throw ⟨403, "MFA is disabled."⟩

def MfaData.ticketFor (setup : Setup) (mfa : MfaData) (resetToken : String) (t : ℤ) : Option MfaResetTicket :=
  if mfa.resetRequired then
    mfa.resetTicket.filter fun ticket => t < ticket.expiresAt ∧ ticket.tokenHash = setup.tokenHash resetToken
  else none

/-- `redeem_mfa_reset_token`: the token of the next challenge. -/
def redeemMfaResetToken (setup : Setup) (token resetToken : String) : Operation String := do
  let loaded ← attemptChallenge setup token [.recover]
  let mfa := loaded.auth.data
  evaluate loaded.auth (some loaded.challenge.tokenHash)
  let t ← now
  match mfa.ticketFor setup resetToken t with
  | none => throw ⟨401, "Invalid or expired operator recovery token."⟩
  | some ticket => do
    let (newToken, enroll) ← newChallenge setup loaded.auth .enroll
      ⟨loaded.challenge.authMethod, loaded.challenge.authTime, loaded.challenge.oauthSessionId,
        loaded.challenge.provider⟩
    let _ ← saveMfa loaded.auth { mfa with resetTicket := none, loginChallenge := some enroll } false
      (.redeemed loaded.challenge.tokenHash ticket.tokenHash enroll.tokenHash)
    return newToken

/-- `reset_mfa`, for a user that is found: the ticket. -/
def resetMfa (setup : Setup) (userId : String) : Operation String := do
  let auth ← getAuth userId
  let ticket ← newToken ""
  let t ← now
  let _ ← saveMfa auth
    { auth.data with
      secret := none
      lastStep := -1
      recoveryHashes := []
      loginChallenge := none
      manageChallenge := none
      resetRequired := true
      resetTicket := some ⟨setup.tokenHash ticket, t + 1800⟩ } true
    (.reset (setup.tokenHash ticket))
  return ticket

inductive Call where
  | startLogin (authMethod : String) (oauthSessionId provider : Option String)
  | startEnrollment (token : String)
  | confirmEnrollment (token code : String)
  | verify (token code : String) (recovery : Bool)
  | manage (claims : Claims) (code : String) (recovery replace : Bool)
  | redeem (token resetToken : String)
  | reset

def Call.program (setup : Setup) (userId : String) : Call → Operation Unit
  | .startLogin authMethod oauthSessionId provider => do
    let auth ← getAuth userId
    let _ ← startMfaLogin setup auth authMethod oauthSessionId provider
  | .startEnrollment token => do
    let _ ← startMfaEnrollment setup token
  | .confirmEnrollment token code => do
    let _ ← confirmMfaEnrollment setup token code
  | .verify token code recovery => do
    let _ ← verifyMfaChallenge setup token code recovery
  | .manage claims code recovery replace => do
    let _ ← manageMfa setup userId claims code recovery replace
  | .redeem token resetToken => do
    let _ ← redeemMfaResetToken setup token resetToken
  | .reset => do
    let _ ← resetMfa setup userId

end RyanAI.Mfa
