import RyanAI.Credit.Pricing

/-!
# Charging a response

`backend/open_webui/utils/credit/usage.py`: `CreditDeduct` collects what a request has to pay and the
tokens its response used, and charges the total when its context is left without an exception.
`CreditDeduct.run` reads one response or one chunk of a streamed response; the validation of a
response and the tokenizer are parameters (`Reader`).
-/

namespace RyanAI.Credit.Pricing

open RyanAI.Lib

/-- `prompt_tokens_details` and `input_tokens_details`. -/
structure PromptTokensDetails where
  cachedTokens : Option ℤ

/-- `CompletionUsage`, without the fields that only the log shows. -/
structure CompletionUsage where
  promptTokens : ℤ
  completionTokens : ℤ
  totalTokens : ℤ
  promptTokensDetails : Option PromptTokensDetails
  inputTokensDetails : Option PromptTokensDetails

def CompletionUsage.none : CompletionUsage := ⟨0, 0, 0, Option.none, Option.none⟩

/-- A `CreditDeduct` object. `price` holds the unit prices and the call price. -/
structure CreditDeduct where
  isError : Bool
  emptyNoCost : Bool
  remoteId : Json
  modelId : Json
  body : Dict
  isStream : Bool
  usage : CompletionUsage
  price : ModelPrice
  features : List String
  customFees : List (Json × ℚ)
  isOfficialUsage : Bool

/-- `fees[name] = cost`. -/
def setFee (name : Json) (cost : ℚ) : List (Json × ℚ) → List (Json × ℚ)
  | [] => [(name, cost)]
  | (name', cost') :: rest =>
    if name'.eqv name then (name', cost) :: rest else (name', cost') :: setFee name cost rest

/-- One entry of `build_custom_fees`; bad paths and names are skipped. -/
def applyFee (py : Builtins) (body : Dict) (path name value existsCheck : Json) (cost : ℚ)
    (fees : List (Json × ℚ)) : List (Json × ℚ) :=
  match py.find path (.obj body) with
  | none => fees
  | some values =>
    if values.isEmpty then fees
    else if existsCheck.truthy || values.any (Json.eqv · value) then
      if name.hashable then setFee name cost fees else fees
    else fees

/-- The loop of `build_custom_fees`, which a malformed entry ends. -/
def customFeesLoop (py : Builtins) (body : Dict) (fees : List (Json × ℚ)) : List Json → List (Json × ℚ)
  | [] => fees
  | .obj config :: rest =>
    match config.lookup "path", config.lookup "name", config.lookup "value",
      config.lookup "exists", config.lookup "cost" with
    | some path, some name, some value, some existsCheck, some cost =>
      if !path.truthy then customFeesLoop py body fees rest
      else
        match cost.number with
        | none => fees
        | some q =>
          if q ≤ 0 then customFeesLoop py body fees rest
          else customFeesLoop py body (applyFee py body path name value existsCheck q fees) rest
    | _, _, _, _, _ => fees
  | _ :: rest => customFeesLoop py body fees rest

/-- `build_custom_fees`. -/
def buildCustomFees (env : Env) (body : Dict) : List (Json × ℚ) :=
  match configuredFees env.py (env.settings.creditConfig "credit.calculate.custom_price_config"
      (.str env.settings.env.customPriceConfig)) with
  | none => []
  | some configs => customFeesLoop env.py body [] configs

/-- `flags.update(source)` for a source that is an object. -/
def updateFlags (flags : Dict) : Json → Dict
  | .obj source => Dict.update flags source
  | _ => flags

def chargedFeatures (body : Dict) : List String :=
  let metadata := match Dict.get body "metadata" with
    | .obj fields => fields
    | _ => []
  enabledFeatures (updateFlags (updateFlags (updateFlags [] (Dict.get body "features"))
    (Dict.get metadata "features")) (Dict.get metadata "features_for_credit"))

/-- `CreditDeduct.__init__`. -/
def CreditDeduct.init (env : Env) (modelId : Json) (body : Dict) (isStream isEmbedding : Bool) :
    Except Raised CreditDeduct := do
  let price ← getModelPrice env.models env.recursionLimit (getModelByIdSync env.models modelId)
  return {
    isError := false
    emptyNoCost := !isEmbedding &&
      (env.settings.creditConfig "credit.no_charge_empty_response"
        (.bool env.settings.env.noChargeEmptyResponse)).truthy
    remoteId := .str ""
    modelId := modelId
    body := body
    isStream := isStream
    usage := .none
    price := price
    features := chargedFeatures body
    customFees := buildCustomFees env body
    isOfficialUsage := false }

/-! ## Prices -/

namespace CreditDeduct

def isEmptyResponse (d : CreditDeduct) : Bool := d.usage.completionTokens ≤ 0

def costsNothing (d : CreditDeduct) : Bool := d.isError || (d.isEmptyResponse && d.emptyNoCost)

def promptUnitPrice (d : CreditDeduct) : ℚ :=
  if d.price.promptLongCtxTokens ≤ d.usage.promptTokens ∧ 0 < d.price.promptLongCtxTokens ∧
      0 < d.price.promptLongCtx then d.price.promptLongCtx
  else d.price.prompt

def promptCacheUnitPrice (d : CreditDeduct) : ℚ :=
  if d.price.promptLongCtxTokens ≤ d.usage.promptTokens ∧ 0 < d.price.promptLongCtxTokens ∧
      0 < d.price.promptLongCtxCache then d.price.promptLongCtxCache
  else d.price.promptCache

def completionUnitPrice (d : CreditDeduct) : ℚ :=
  if d.price.completionLongCtxTokens ≤ d.usage.completionTokens ∧
      0 < d.price.completionLongCtxTokens ∧ 0 < d.price.completionLongCtx then
    d.price.completionLongCtx
  else d.price.completion

def cacheTokens (d : CreditDeduct) : ℤ :=
  match d.usage.promptTokensDetails.bind (·.cachedTokens) with
  | some n => if n = 0 then (d.usage.inputTokensDetails.bind (·.cachedTokens)).getD 0 else n
  | none => (d.usage.inputTokensDetails.bind (·.cachedTokens)).getD 0

def promptPrice (d : CreditDeduct) : ℚ :=
  if d.costsNothing then 0
  else if 0 < d.cacheTokens ∧ 0 < d.promptCacheUnitPrice then
    (d.promptCacheUnitPrice * d.cacheTokens + d.promptUnitPrice * (d.usage.promptTokens - d.cacheTokens)) / 1000 / 1000
  else d.promptUnitPrice * d.usage.promptTokens / 1000 / 1000

def completionPrice (d : CreditDeduct) : ℚ :=
  if d.costsNothing then 0 else d.completionUnitPrice * d.usage.completionTokens / 1000 / 1000

def requestPrice (d : CreditDeduct) : ℚ := if d.costsNothing then 0 else d.price.call

def featurePrice (env : Env) (d : CreditDeduct) : Except Raised ℚ :=
  if d.costsNothing then .ok 0 else getFeaturePrice env d.features

def customPrice (d : CreditDeduct) : ℚ := if d.costsNothing then 0 else (d.customFees.map Prod.snd).sum / 1000 / 1000

def totalPrice (env : Env) (d : CreditDeduct) : Except Raised ℚ := do
  if d.costsNothing then return 0
  let features ← d.featurePrice env
  let total :=
    if 0 < d.price.call then d.requestPrice + features + d.customPrice
    else d.promptPrice + d.completionPrice + features + d.customPrice
  return max total (← minimumCost env)

/-- `__exit__`: the amount for `Credits.add_credit_by_user_id`, if called. -/
def exit (env : Env) (d : CreditDeduct) (raised : Bool) : Except Raised (Option ℚ) := do
  if raised || d.isError then return none
  return some (-(← d.totalPrice env))

end CreditDeduct

/-! ## Reading a response -/

/-- What `CreditDeduct.run` gets; bytes by their text. -/
inductive Response where
  | dict (d : Dict)
  | bytes (text : Option String)
  | str (text : String)

structure Completion where
  id : Json
  usage : Option CompletionUsage
  content : Option String

structure Reader where
  validate : (isStream : Bool) → Json → Option Completion
  encoder : Json → Option (String → ℤ)
  messageTokens : (String → ℤ) → Json → Option ℤ

/-- The white space that `str.strip` removes. -/
def isSpace (c : Char) : Bool :=
  c.val ∈ ([9, 10, 11, 12, 13, 28, 29, 30, 31, 32, 133, 160, 5760, 8192, 8193, 8194, 8195, 8196, 8197,
    8198, 8199, 8200, 8201, 8202, 8232, 8233, 8239, 8287, 12288] : List UInt32)

/-- `text.strip()`. -/
def strip (text : List Char) : List Char := ((text.dropWhile isSpace).reverse.dropWhile isSpace).reverse

/-- `text.lstrip(chars)`: drops the leading characters that occur in `chars`. -/
def lstrip (chars : String) (text : List Char) : List Char := text.dropWhile fun c => chars.toList.contains c

def cleanText (text : String) : List Char := lstrip "data: " (strip text.toList)

def isDone (text : String) : Bool := "[DONE]".toList.isPrefixOf (cleanText text)

/-- `clean_response` on text, with its default response. -/
def cleanResponse (py : Builtins) (isStream : Bool) (text : String) : Json :=
  if isDone text || (cleanText text).isEmpty then .obj []
  else
    match py.loads (String.ofList (cleanText text)) with
    | some response => response
    | none =>
      let content : Json := .obj [("content", .str (String.ofList (strip text.toList)))]
      .obj [("choices", .arr [.obj [(if isStream then "delta" else "message", content)]])]

/-- `Calculator.calculate_usage`; `none` is its exception. -/
def calculateUsage (rd : Reader) (cached : CompletionUsage) (modelId messages : Json)
    (response : Completion) : Option (Bool × CompletionUsage) :=
  match response.usage with
  | some usage => some (true, usage)
  | none => do
    let encode ← rd.encoder modelId
    let prompt ←
      if cached.promptTokens ≠ 0 then some cached.promptTokens
      else rd.messageTokens encode messages
    let completion := match response.content with
      | none => 0
      | some content => encode (String.ofList (lstrip "<think>" content.toList))
    return (false, ⟨prompt, completion, prompt + completion, none, none⟩)

namespace CreditDeduct

def addUsage (d : CreditDeduct) (official : Bool) (usage : CompletionUsage) : CreditDeduct :=
  if official then { d with isOfficialUsage := true, usage := usage }
  else if d.isOfficialUsage then d
  else if d.isStream then
    { d with usage := { d.usage with
        promptTokens := usage.promptTokens
        completionTokens := d.usage.completionTokens + usage.completionTokens
        totalTokens := usage.promptTokens + (d.usage.completionTokens + usage.completionTokens) } }
  else { d with usage := usage }

/-- `_run` on a cleaned response; before an exception only the id is recorded. -/
def read (rd : Reader) (d : CreditDeduct) (response : Json) : CreditDeduct :=
  if !response.truthy then d
  else
    match rd.validate d.isStream response, response with
    | some completion, .obj fields =>
      if (Dict.get fields "error").truthy then { d with isError := true }
      else
        let d' := { d with remoteId := completion.id }
        match calculateUsage rd d.usage d.modelId (Dict.get d.body "messages") completion with
        | some (official, usage) => d'.addUsage official usage
        | none => d'
    | _, _ => d

/-- `run`, which logs and drops every exception of `_run`. -/
def run (py : Builtins) (rd : Reader) (d : CreditDeduct) (response : Response) : CreditDeduct :=
  if !(Dict.get d.body "messages").truthy then d
  else
    match response with
    | .dict fields => d.read rd (.obj fields)
    | .bytes (some text) => d.read rd (cleanResponse py d.isStream text)
    | .bytes none => d
    | .str text => d.read rd (cleanResponse py d.isStream text)

end CreditDeduct

end RyanAI.Credit.Pricing
