import RyanAI.Lib.NumericText

/-!
# Signed requests

The sidecar (`security/hmac.ts`) and the backend (`routers/bot_gateway.py`) sign the requests they send each other. Both
join version, timestamp, nonce, method, path and content hash with line feeds. What one side signs the other one
accepts, and the joined text determines its parts (`signatures_agree`).

SHA-256 and HMAC are parameters; both languages print them as lower-case hexadecimal digits. The methods are tokens,
which are ASCII.
-/

namespace RyanAI.Gateway.Hmac

open RyanAI.Lib.NumericText

/-! ## Text -/

def lowerChar (c : Char) : Char := if c.toNat = 0x212A then 'k' else c.toLower

/-- `toLowerCase` and `lower`. -/
def lower (s : String) : String := s.map lowerChar

/-- `toUpperCase` and `upper`, of ASCII text. -/
def upper (s : String) : String := s.map Char.toUpper

/-- `[A-Za-z0-9._:-]`. -/
def nonceChar (c : Char) : Bool :=
  (65 ≤ c.toNat ∧ c.toNat ≤ 90) ∨ (97 ≤ c.toNat ∧ c.toNat ≤ 122) ∨ (48 ≤ c.toNat ∧ c.toNat ≤ 57) ∨
    c ∈ ['.', '_', ':', '-']

/-- `/^[A-Za-z0-9._:-]{16,128}$/`. -/
def nonceOk (nonce : String) : Bool :=
  nonce.toList.all nonceChar && decide (16 ≤ nonce.toList.length ∧ nonce.toList.length ≤ 128)

def ascii (s : String) : Bool := s.toList.all fun c => c.toNat < 128

def present (header : Option String) : Option String := header.filter fun s => s ≠ ""

structure Headers where
  timestamp : Option String
  nonce : Option String
  contentSha256 : Option String
  signature : Option String

/-- `SignedHeaders`. -/
structure SignedHeaders where
  timestamp : String
  nonce : String
  contentSha256 : String
  signature : String
deriving DecidableEq

def SignedHeaders.sent (h : SignedHeaders) : Headers where
  timestamp := some h.timestamp
  nonce := some h.nonce
  contentSha256 := some h.contentSha256
  signature := some h.signature

/-! ## The sidecar -/

def signatureVersion : String := "v1"

def canonicalRequest (method pathWithQuery timestamp nonce contentSha256 : String) : String :=
  "\n".intercalate [signatureVersion, timestamp, nonce, upper method, pathWithQuery, contentSha256]

structure SignableRequest where
  method : String
  pathWithQuery : String
  body : List UInt8
  timestamp : Option String
  nonce : Option String

/-- Why `verifyRequest` refuses a request. -/
inductive Rejection where
  | missingSignatureHeaders
  | invalidNonce
  | staleTimestamp
  | contentHashMismatch
  | signatureMismatch
deriving DecidableEq

def Rejection.reason : Rejection → String
  | .missingSignatureHeaders => "missing_signature_headers"
  | .invalidNonce => "invalid_nonce"
  | .staleTimestamp => "stale_timestamp"
  | .contentHashMismatch => "content_hash_mismatch"
  | .signatureMismatch => "signature_mismatch"

/-- `Number(timestamp)`, where it is a safe integer. -/
def readTimestamp (timestamp : String) : Option ℤ := (jsNumber timestamp).bind safeInteger

section Sides

variable (sha256 : List UInt8 → String) (hmac : String → String → String)

/-- `signRequest`. `clock` is `Date.now()`, `uuid` a fresh `randomUUID()`. -/
def signRequest (clock : ℤ) (uuid : String) (secret : String) (request : SignableRequest) : SignedHeaders :=
  let timestamp := (present request.timestamp).getD (toString (clock / 1000))
  let nonce := (present request.nonce).getD uuid
  let contentSha256 := sha256 request.body
  let canonical := canonicalRequest request.method request.pathWithQuery timestamp nonce contentSha256
  { timestamp
    nonce
    contentSha256
    signature := signatureVersion ++ "=" ++ hmac secret canonical }

/-- `VerifyRequestInput` without the clock. -/
structure VerifyRequestInput where
  secret : String
  method : String
  pathWithQuery : String
  body : List UInt8
  headers : Headers
  maxSkewSeconds : ℤ

/-- `verifyRequest`. `now` is in milliseconds, `clock` is `Date.now()`. -/
def verifyRequest (now : Option ℤ) (clock : ℤ) (input : VerifyRequestInput) : Except Rejection String :=
  match present input.headers.timestamp, present input.headers.nonce, present input.headers.contentSha256,
      present input.headers.signature with
  | some timestamp, some nonce, some contentSha256, some signature =>
    if nonceOk nonce = false then .error .invalidNonce
    else
      -- `Math.floor` of the milliseconds
      let nowSeconds := now.getD clock / 1000
      match readTimestamp timestamp with
      | none => .error .staleTimestamp
      | some t =>
        if |nowSeconds - t| > input.maxSkewSeconds then .error .staleTimestamp
        else
          let actualHash := sha256 input.body
          if actualHash ≠ lower contentSha256 then .error .contentHashMismatch
          else
            let canonical := canonicalRequest input.method input.pathWithQuery timestamp nonce actualHash
            let expected := signatureVersion ++ "=" ++ hmac input.secret canonical
            if expected ≠ lower signature then .error .signatureMismatch
            else .ok nonce
  | _, _, _, _ => .error .missingSignatureHeaders

end Sides

/-! ## The backend -/

def botGatewayHmacVersion : String := "v1"

/-- `BOT_GATEWAY_SIGNATURE_MAX_SKEW`. -/
def botGatewaySignatureMaxSkew : ℤ := 5 * 60

def canonicalBotGatewayRequest (method pathWithQuery timestamp nonce contentSha256 : String) : String :=
  "\n".intercalate [botGatewayHmacVersion, timestamp, nonce, upper method, pathWithQuery, contentSha256]

/-- `compare_digest` raises a `TypeError` on non-ASCII text; the others are status 401. -/
inductive SignatureError where
  | missing
  | nonce
  | timestamp
  | stale
  | contentHash
  | signature
  | typeError
deriving DecidableEq

def SignatureError.detail : SignatureError → Option String
  | .missing => some "Missing bot gateway signature"
  | .nonce => some "Invalid bot gateway nonce"
  | .timestamp => some "Invalid bot gateway timestamp"
  | .stale => some "Stale bot gateway signature"
  | .contentHash => some "Bot gateway content hash mismatch"
  | .signature => some "Invalid bot gateway signature"
  | .typeError => none

/-- `hmac.compare_digest(expected, text)` for an ASCII `expected`. -/
def compareDigest (expected text : String) : Except SignatureError Bool :=
  if ascii text then .ok (expected = text) else .error .typeError

section Sides

variable (sha256 : List UInt8 → String) (hmac : String → String → String)

/-- `sign_bot_gateway_request`; `clock` is `int(time.time())`. -/
def signBotGatewayRequest (clock : ℤ) (uuid : String) (secret method pathWithQuery : String)
    (body : List UInt8) (timestamp nonce : Option String) : SignedHeaders :=
  let timestamp := (present timestamp).getD (toString clock)
  let nonce := (present nonce).getD uuid
  let contentSha256 := sha256 body
  let canonical := canonicalBotGatewayRequest method pathWithQuery timestamp nonce contentSha256
  { timestamp
    nonce
    contentSha256
    signature := botGatewayHmacVersion ++ "=" ++ hmac secret canonical }

/-- `now or int(time.time())`. -/
def pyNow (now : Option ℤ) (clock : ℤ) : ℤ := (now.filter fun t => t ≠ 0).getD clock

/-- `verify_bot_gateway_signature`: the nonce and the hash of the body. -/
def verifyBotGatewaySignature (now : Option ℤ) (clock : ℤ) (secret method pathWithQuery : String)
    (body : List UInt8) (headers : Headers) : Except SignatureError (String × String) :=
  match present headers.timestamp, present headers.nonce, present headers.contentSha256,
      present headers.signature with
  | some timestamp, some nonce, some contentSha256, some signature =>
    if nonceOk nonce = false then .error .nonce
    else
      match pyInt timestamp with
      | none => .error .timestamp
      | some t =>
        if |pyNow now clock - t| > botGatewaySignatureMaxSkew then .error .stale
        else do
          let actualHash := sha256 body
          if !(← compareDigest actualHash (lower contentSha256)) then throw .contentHash
          let canonical := canonicalBotGatewayRequest method pathWithQuery timestamp nonce actualHash
          let expected := botGatewayHmacVersion ++ "=" ++ hmac secret canonical
          if !(← compareDigest expected (lower signature)) then throw .signature
          return (nonce, actualHash)
  | _, _, _, _ => .error .missing

end Sides

/-! ## What a signed request looks like to a verifier -/

def hexChar (c : Char) : Bool := (48 ≤ c.toNat ∧ c.toNat ≤ 57) ∨ (97 ≤ c.toNat ∧ c.toNat ≤ 102)

def HexDigest (s : String) : Prop := s.toList.length = 64 ∧ ∀ c ∈ s.toList, hexChar c = true

variable {s nonce method timestamp pathWithQuery : String} {t : ℤ}

theorem HexDigest.ne_empty (h : HexDigest s) : s ≠ "" := by
  rintro rfl
  simp [HexDigest] at h

theorem lowerChar_of_hexChar (h : hexChar c = true) : lowerChar c = c := by
  simp only [hexChar, decide_eq_true_eq] at h
  rw [lowerChar, if_neg (by omega)]
  delta Char.toLower
  rw [dif_neg]
  intro hupper
  have hlow : 65 ≤ c.toNat := hupper.1
  have hhigh : c.toNat ≤ 90 := hupper.2
  omega

theorem lower_of_forall (h : ∀ c ∈ s.toList, lowerChar c = c) : lower s = s := by
  apply String.ext
  rw [lower, String.toList_map, List.map_congr_left h, List.map_id']

theorem HexDigest.lower (h : HexDigest s) : lower s = s := by
  apply lower_of_forall
  intro c hc
  exact lowerChar_of_hexChar (h.2 c hc)

theorem HexDigest.ascii (h : HexDigest s) : ascii s = true := by
  apply List.all_eq_true.mpr
  intro c hc
  have hx := h.2 c hc
  simp only [hexChar, decide_eq_true_eq] at hx ⊢
  omega

theorem lower_signature (h : HexDigest s) : lower ("v1=" ++ s) = "v1=" ++ s := by
  apply lower_of_forall
  intro c hc
  rw [String.toList_append] at hc
  rcases List.mem_append.mp hc with hc | hc
  · have hversion : "v1=".toList.all (fun c => lowerChar c = c) = true := by decide
    exact of_decide_eq_true (List.all_eq_true.mp hversion c hc)
  · exact lowerChar_of_hexChar (h.2 c hc)

theorem ascii_signature (h : HexDigest s) : ascii ("v1=" ++ s) = true := by
  rw [Hmac.ascii, String.toList_append, List.all_append]
  have hversion : "v1=".toList.all (fun c => decide (c.toNat < 128)) = true := by decide
  rw [hversion]
  exact h.ascii

theorem signature_ne_empty (s : String) : "v1=" ++ s ≠ "" := by
  intro h
  have := congrArg String.toList h
  simp at this

theorem present_some (h : s ≠ "") : present (some s) = some s := by
  simp [present, h]

theorem ne_empty_of_nonceOk (h : nonceOk nonce = true) : nonce ≠ "" := by
  rintro rfl
  exact absurd h (by decide)

theorem ne_empty_of_pyInt (h : pyInt s = some t) : s ≠ "" := by
  rintro rfl
  have hempty : pyInt "" = none := by decide
  simp [hempty] at h

section Verify

variable {sha256 : List UInt8 → String} {hmac : String → String → String}

def signedHeaders (sha256 : List UInt8 → String) (hmac : String → String → String)
    (secret method pathWithQuery : String) (body : List UInt8) (timestamp nonce : String) : SignedHeaders where
  timestamp := timestamp
  nonce := nonce
  contentSha256 := sha256 body
  signature := "v1=" ++ hmac secret (canonicalRequest method pathWithQuery timestamp nonce (sha256 body))

theorem signRequest_eq (clock : ℤ) (uuid secret : String) (request : SignableRequest) :
    signRequest sha256 hmac clock uuid secret request =
      signedHeaders sha256 hmac secret request.method request.pathWithQuery request.body
        ((present request.timestamp).getD (toString (clock / 1000))) ((present request.nonce).getD uuid) := rfl

theorem signBotGatewayRequest_eq (clock : ℤ) (uuid secret method pathWithQuery : String)
    (body : List UInt8) (timestamp nonce : Option String) :
    signBotGatewayRequest sha256 hmac clock uuid secret method pathWithQuery body timestamp nonce =
      signedHeaders sha256 hmac secret method pathWithQuery body
        ((present timestamp).getD (toString clock)) ((present nonce).getD uuid) := rfl

theorem verifyRequest_signed (hsha : ∀ body, HexDigest (sha256 body))
    (hhmac : ∀ secret text, HexDigest (hmac secret text))
    (hnonce : nonceOk nonce = true) (hempty : timestamp ≠ "")
    (htime : readTimestamp timestamp = some t) (hskew : |now.getD clock / 1000 - t| ≤ maxSkew) :
    verifyRequest sha256 hmac now clock
      { secret
        method
        pathWithQuery
        body
        headers := (signedHeaders sha256 hmac secret method pathWithQuery body timestamp nonce).sent
        maxSkewSeconds := maxSkew } = .ok nonce := by
  simp only [verifyRequest, SignedHeaders.sent, signedHeaders, present_some hempty,
    present_some (ne_empty_of_nonceOk hnonce), present_some (hsha body).ne_empty,
    present_some (signature_ne_empty _), hnonce, htime, (hsha body).lower, lower_signature (hhmac _ _)]
  -- each check of the verifier passes in turn
  rw [if_neg (by simp), if_neg (not_lt.mpr hskew), if_neg (by simp), if_neg]
  simp only [ne_eq, not_not]
  rfl

theorem verifyBotGatewaySignature_signed (hsha : ∀ body, HexDigest (sha256 body))
    (hhmac : ∀ secret text, HexDigest (hmac secret text))
    (hnonce : nonceOk nonce = true) (htime : pyInt timestamp = some t)
    (hskew : |pyNow now clock - t| ≤ botGatewaySignatureMaxSkew) :
    verifyBotGatewaySignature sha256 hmac now clock secret method pathWithQuery body
        (signedHeaders sha256 hmac secret method pathWithQuery body timestamp nonce).sent =
      .ok (nonce, sha256 body) := by
  have hexpected : botGatewayHmacVersion ++ "=" = "v1=" := by decide
  simp only [verifyBotGatewaySignature, SignedHeaders.sent, signedHeaders,
    present_some (ne_empty_of_pyInt htime), present_some (ne_empty_of_nonceOk hnonce),
    present_some (hsha body).ne_empty, present_some (signature_ne_empty _), hnonce, htime,
    (hsha body).lower, lower_signature (hhmac _ _), compareDigest, (hsha body).ascii,
    ascii_signature (hhmac _ _), hexpected]
  rw [if_neg (by simp), if_neg (not_lt.mpr hskew)]
  simp only [canonicalBotGatewayRequest, canonicalRequest, botGatewayHmacVersion, signatureVersion,
    if_true, decide_true]
  rfl

end Verify

/-! ## The canonical text determines the request -/

def methodChar (c : Char) : Bool :=
  c.toNat ∈ [33, 35, 36, 37, 38, 39, 42, 43, 45, 46, 94, 95, 96, 124, 126] ∨ (48 ≤ c.toNat ∧ c.toNat ≤ 57) ∨
    (65 ≤ c.toNat ∧ c.toNat ≤ 90)

def methodOk (method : String) : Bool := method ≠ "" ∧ method.toList.all methodChar

structure Admitted (method timestamp nonce : String) : Prop where
  method : methodOk method = true
  nonce : nonceOk nonce = true
  sidecar : (readTimestamp timestamp).isSome = true
  backend : (pyInt timestamp).isSome = true

theorem Admitted.time (h : Admitted method timestamp nonce) :
    ∃ t, readTimestamp timestamp = some t ∧ pyInt timestamp = some t := by
  obtain ⟨t, ht⟩ := Option.isSome_iff_exists.mp h.sidecar
  obtain ⟨n, hn⟩ := Option.isSome_iff_exists.mp h.backend
  refine ⟨t, ht, ?_⟩
  rw [safeInteger_eq_int ht hn]
  exact hn

theorem canonicalRequest_toList (method pathWithQuery timestamp nonce contentSha256 : String) :
    (canonicalRequest method pathWithQuery timestamp nonce contentSha256).toList =
      ['v', '1', '\n'] ++ (timestamp.toList ++ '\n' :: (nonce.toList ++ '\n' :: ((upper method).toList ++
        '\n' :: (pathWithQuery.toList ++ '\n' :: contentSha256.toList)))) := by
  rw [canonicalRequest, String.toList_intercalate]
  simp [List.intercalate, signatureVersion]

theorem upper_of_methodOk (h : methodOk method = true) : upper method = method := by
  apply String.ext
  rw [upper, String.toList_map]
  have hchars : ∀ c ∈ method.toList, c.toUpper = c := by
    intro c hc
    simp only [methodOk, decide_eq_true_eq] at h
    have hx := List.all_eq_true.mp h.2 c hc
    simp only [methodChar, List.mem_cons, List.not_mem_nil, or_false, decide_eq_true_eq] at hx
    delta Char.toUpper
    rw [dif_neg]
    intro hlower
    have hlow : 97 ≤ c.toNat := hlower.1
    have hhigh : c.toNat ≤ 122 := hlower.2
    omega
  rw [List.map_congr_left hchars, List.map_id']

theorem newline_notMem_method (h : methodOk method = true) : ∀ c ∈ method.toList, c ≠ '\n' := by
  rintro c hc rfl
  simp only [methodOk, decide_eq_true_eq] at h
  exact absurd (List.all_eq_true.mp h.2 _ hc) (by decide)

theorem newline_notMem_digest (h : HexDigest s) : ∀ c ∈ s.toList, c ≠ '\n' := by
  rintro c hc rfl
  exact absurd (h.2 _ hc) (by decide)

theorem nonceChar_not_space (h : nonceChar c = true) : ¬ anySpace c = true := by
  simp only [nonceChar, List.mem_cons, List.not_mem_nil, or_false, decide_eq_true_eq] at h
  simp only [anySpace, jsSpace, pySpace, commonSpaces, List.mem_cons, List.not_mem_nil, or_false, decide_eq_true_eq]
  rcases h with h | h | h | rfl | rfl | rfl | rfl
  · omega
  · omega
  · omega
  all_goals decide

theorem nonce_shape (h : nonceOk nonce = true) : nonce.toList ≠ [] ∧ ∀ c ∈ nonce.toList, ¬ anySpace c = true := by
  simp only [nonceOk, Bool.and_eq_true, decide_eq_true_eq] at h
  obtain ⟨hchars, hlen, -⟩ := h
  constructor
  · intro hnil
    simp [hnil] at hlen
  · intro c hc
    exact nonceChar_not_space (List.all_eq_true.mp hchars c hc)

theorem split_last_line (hh : ∀ c ∈ h, c ≠ '\n') (hh' : ∀ c ∈ h', c ≠ '\n')
    (heq : p ++ '\n' :: h = p' ++ '\n' :: h') : p = p' ∧ h = h' := by
  have hrev : h.reverse ++ '\n' :: p.reverse = h'.reverse ++ '\n' :: p'.reverse := by
    simpa using congrArg List.reverse heq
  obtain ⟨hdigest, hpath⟩ :=
    span_unique (p := fun c => c ≠ '\n') (by simpa using hh) (by simpa using hh') (by simp) (by simp) hrev
  exact ⟨List.reverse_injective (List.cons.inj hpath).2, List.reverse_injective hdigest⟩

theorem split_first_lines
    (hjs : jsNumber ts = some q) (hpy : pyInt ts = some t) (hjs' : jsNumber ts' = some q') (hpy' : pyInt ts' = some t')
    (hnonce : nonceOk nonce = true) (hnonce' : nonceOk nonce' = true)
    (heq : ts.toList ++ '\n' :: (nonce.toList ++ '\n' :: rest) =
      ts'.toList ++ '\n' :: (nonce'.toList ++ '\n' :: rest')) : ts = ts' ∧ nonce = nonce' ∧ rest = rest' := by
  obtain ⟨a, x, b, hs, hx, hxs, ha, hb⟩ := number_shape hjs hpy
  obtain ⟨a', x', b', hs', hx', hxs', ha', hb'⟩ := number_shape hjs' hpy'
  obtain ⟨hne, hns⟩ := nonce_shape hnonce
  obtain ⟨hne', hns'⟩ := nonce_shape hnonce'
  have hnl : anySpace '\n' = true := by decide
  -- the line feed after the timestamp belongs to the white space at its end
  have hblock : ∀ {b : List Char}, (∀ c ∈ b, anySpace c = true) → ∀ c ∈ b ++ ['\n'], anySpace c = true := by
    intro b hb c hc
    rcases List.mem_append.mp hc with hc | hc
    · exact hb c hc
    · rw [List.mem_singleton.mp hc]
      exact hnl
  have heq' : a ++ (x ++ ((b ++ ['\n']) ++ (nonce.toList ++ '\n' :: rest))) =
      a' ++ (x' ++ ((b' ++ ['\n']) ++ (nonce'.toList ++ '\n' :: rest'))) := by
    rw [hs, hs'] at heq
    simpa using heq
  -- the four blocks in turn
  obtain ⟨rfl, h1⟩ := span_unique (p := fun c => anySpace c = true) ha ha'
    (head_append_of_forall hx hxs _) (head_append_of_forall hx' hxs' _) heq'
  have hstop : ∀ {b z : List Char}, (∀ c ∈ b, anySpace c = true) →
      ∀ c ∈ ((b ++ ['\n']) ++ z).head?, ¬ ¬ anySpace c = true := by
    intro b z hb c hc
    exact not_not_intro (head_append_of_forall (by simp) (hblock hb) z c hc)
  obtain ⟨rfl, h2⟩ := span_unique (p := fun c => ¬ anySpace c = true) hxs hxs' (hstop hb) (hstop hb') h1
  obtain ⟨hbb, h3⟩ := span_unique (p := fun c => anySpace c = true) (hblock hb) (hblock hb')
    (head_append_of_forall hne hns _) (head_append_of_forall hne' hns' _) h2
  obtain ⟨hnn, h4⟩ := span_unique (p := fun c => ¬ anySpace c = true) hns hns' (by simp [hnl]) (by simp [hnl]) h3
  refine ⟨?_, String.ext hnn, (List.cons.inj h4).2⟩
  apply String.ext
  rw [hs, hs', List.append_cancel_right hbb]

theorem canonicalRequest_inj
    (h : Admitted method timestamp nonce) (h' : Admitted method' timestamp' nonce') (hhash : HexDigest contentSha256)
    (hhash' : HexDigest contentSha256') (heq : canonicalRequest method pathWithQuery timestamp nonce contentSha256 =
      canonicalRequest method' pathWithQuery' timestamp' nonce' contentSha256') :
    method = method' ∧ pathWithQuery = pathWithQuery' ∧ timestamp = timestamp' ∧ nonce = nonce' ∧
      contentSha256 = contentSha256' := by
  obtain ⟨t, hjs, hpy⟩ := h.time
  obtain ⟨t', hjs', hpy'⟩ := h'.time
  obtain ⟨q, hq, -⟩ := Option.bind_eq_some_iff.mp hjs
  obtain ⟨q', hq', -⟩ := Option.bind_eq_some_iff.mp hjs'
  have hlist := congrArg String.toList heq
  rw [canonicalRequest_toList, canonicalRequest_toList, upper_of_methodOk h.method,
    upper_of_methodOk h'.method] at hlist
  obtain ⟨hts, hnn, hrest⟩ := split_first_lines hq hpy hq' hpy' h.nonce h'.nonce (List.append_cancel_left hlist)
  -- the method ends at the first line feed, and the digest starts after the last one
  obtain ⟨hm, htail⟩ := span_unique (p := fun c => c ≠ '\n') (newline_notMem_method h.method)
    (newline_notMem_method h'.method) (by simp) (by simp) hrest
  obtain ⟨hp, hh⟩ := split_last_line (newline_notMem_digest hhash) (newline_notMem_digest hhash')
    (List.cons.inj htail).2
  exact ⟨String.ext hm, String.ext hp, hts, hnn, String.ext hh⟩

/-- The two agree on canonical texts and in their windows, and the text determines the request. -/
theorem signatures_agree {sha256 : List UInt8 → String} {hmac : String → String → String}
    (hsha : ∀ body, HexDigest (sha256 body)) (hhmac : ∀ secret text, HexDigest (hmac secret text)) :
    (∀ method path timestamp nonce hash : String,
      canonicalRequest method path timestamp nonce hash = canonicalBotGatewayRequest method path timestamp nonce hash) ∧
    (∀ (clock : ℤ) (uuid secret : String) (request : SignableRequest) (h : SignedHeaders),
      h = signRequest sha256 hmac clock uuid secret request →
      Admitted request.method h.timestamp h.nonce →
      ∃ t, readTimestamp h.timestamp = some t ∧ pyInt h.timestamp = some t ∧
        ∀ (now : Option ℤ) (clock : ℤ), |pyNow now clock - t| ≤ botGatewaySignatureMaxSkew →
          verifyBotGatewaySignature sha256 hmac now clock secret request.method request.pathWithQuery
            request.body h.sent = .ok (h.nonce, sha256 request.body)) ∧
    (∀ (clock : ℤ) (uuid secret method path : String) (body : List UInt8) (timestamp nonce : Option String)
        (h : SignedHeaders),
      h = signBotGatewayRequest sha256 hmac clock uuid secret method path body timestamp nonce →
      Admitted method h.timestamp h.nonce →
      ∃ t, readTimestamp h.timestamp = some t ∧ pyInt h.timestamp = some t ∧
        ∀ (now : Option ℤ) (clock maxSkew : ℤ), |now.getD clock / 1000 - t| ≤ maxSkew →
          verifyRequest sha256 hmac now clock ⟨secret, method, path, body, h.sent, maxSkew⟩ = .ok h.nonce) ∧
    (∀ (method path timestamp nonce method' path' timestamp' nonce' : String) (body body' : List UInt8),
      Admitted method timestamp nonce → Admitted method' timestamp' nonce' →
      canonicalRequest method path timestamp nonce (sha256 body) =
        canonicalRequest method' path' timestamp' nonce' (sha256 body') →
      method = method' ∧ path = path' ∧ timestamp = timestamp' ∧ nonce = nonce' ∧ sha256 body = sha256 body') := by
  refine ⟨fun _ _ _ _ _ => rfl, ?_, ?_, ?_⟩
  -- signed by the sidecar, verified by the backend
  · rintro clock uuid secret request h rfl hadm
    obtain ⟨t, hjs, hpy⟩ := hadm.time
    refine ⟨t, hjs, hpy, ?_⟩
    intro now clock hskew
    rw [signRequest_eq] at hadm hpy ⊢
    exact verifyBotGatewaySignature_signed hsha hhmac hadm.nonce hpy hskew
  -- the other way round
  · rintro clock uuid secret method path body timestamp nonce h rfl hadm
    obtain ⟨t, hjs, hpy⟩ := hadm.time
    refine ⟨t, hjs, hpy, ?_⟩
    intro now clock maxSkew hskew
    rw [signBotGatewayRequest_eq] at hadm hjs hpy ⊢
    exact verifyRequest_signed hsha hhmac hadm.nonce (ne_empty_of_pyInt hpy) hjs hskew
  · intro method path timestamp nonce method' path' timestamp' nonce' body body' hadm hadm' heq
    exact canonicalRequest_inj hadm hadm' (hsha body) (hsha body') heq

def emptySha256 : String := "e3b0c44298fc1c149afbf4c8996fb92427ae41e4649b934ca495991b7852b855"

/-- The HMAC of `v1\n1700000000\nnonce-0123456789\nPOST\n/v1/operations/drain\n` and an empty body's
hash under `secret`. -/
def drainHmac : String := "4eef3f895a102a6d25615384d056a3a6be53628d63175292046cafbbc67cde7b"

theorem hexDigest_emptySha256 : HexDigest emptySha256 := ⟨by decide, List.all_eq_true.mp (by decide)⟩

theorem hexDigest_drainHmac : HexDigest drainHmac := ⟨by decide, List.all_eq_true.mp (by decide)⟩

theorem readTimestamp_drain : readTimestamp "1700000000" = some 1700000000 := by
  have hnumber : jsNumber "1700000000" = some ((1700000000 : ℤ) : ℚ) := by
    apply jsLiteral_of_pyLiteral
    · exact List.all_eq_true.mp (by decide)
    · decide
  rw [readTimestamp, hnumber]
  exact safeInteger_of_small (by norm_num)

theorem signatures_agree_drain : HexDigest emptySha256 ∧ HexDigest drainHmac ∧
    Admitted "POST" "1700000000" "nonce-0123456789" ∧
    verifyRequest (fun _ => emptySha256) (fun _ _ => drainHmac) none 1700000300000
      ⟨"secret", "POST", "/v1/operations/drain", [],
        (signBotGatewayRequest (fun _ => emptySha256) (fun _ _ => drainHmac) 0 "" "secret" "POST"
          "/v1/operations/drain" [] (some "1700000000") (some "nonce-0123456789")).sent, 300⟩ =
      .ok "nonce-0123456789" := by
  have hadm : Admitted "POST" "1700000000" "nonce-0123456789" :=
    ⟨by decide, by decide, by rw [readTimestamp_drain]; rfl, by decide⟩
  refine ⟨hexDigest_emptySha256, hexDigest_drainHmac, hadm, ?_⟩
  obtain ⟨t, ht, -, hverify⟩ :=
    (signatures_agree (fun _ => hexDigest_emptySha256) fun _ _ => hexDigest_drainHmac).2.2.1 0 "" "secret"
      "POST" "/v1/operations/drain" [] (some "1700000000") (some "nonce-0123456789") _ rfl hadm
  have htime : t = 1700000000 := Option.some.inj (ht.symm.trans readTimestamp_drain)
  exact hverify none 1700000300000 300 (by rw [htime]; decide)

end RyanAI.Gateway.Hmac
