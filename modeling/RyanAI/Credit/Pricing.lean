import RyanAI.Lib.Json
import RyanAI.Lib.Chain

/-!
# Prices and the check before a call

`utils/credit/utils.py`: how the price of a call is looked up (`getModelPrice`, `getFeaturePrice`, `getCustomPrice`) and
how `checkCreditByUserId` decides whether a request may go upstream. Amounts are `Decimal` in the source and exact
rationals here. What the code calls on configured or received data (`json.loads`, JSONPath, `Decimal`, `int`, `float`)
are fields of `Builtins`; an operation that raises returns `none` there and an error here.
-/

namespace RyanAI.Credit.Pricing

open RyanAI.Lib

structure Builtins where
  /-- `json.loads` -/
  loads : String → Option Json
  /-- `[match.value for match in jsonpath_parse(path).find(body)]` -/
  find : Json → Json → Option (List Json)
  /-- `Decimal(value)` -/
  decimal : Json → Option ℚ
  /-- `int(value)` -/
  int : Json → Option ℤ
  /-- The value of `float(amount)` -/
  float : ℚ → ℚ

/-- The values the process took from its environment (`open_webui/config.py`). -/
structure Defaults where
  noChargeEmptyResponse : Bool
  noCreditMsg : String
  imageGenPrice : String
  codeExecutePrice : String
  webSearchPrice : String
  toolServerPrice : String
  minimumCost : String
  customPriceConfig : String

/-- The `config` table, and whether it is used at all. -/
structure Settings where
  persistentEnabled : Bool
  rows : String → Option Json
  env : Defaults

/-- `Config.DEFAULTS`, as far as prices are concerned. -/
def Defaults.value (env : Defaults) : String → Option Json
  | "credit.no_charge_empty_response" => some (.bool env.noChargeEmptyResponse)
  | "credit.no_credit_msg" => some (.str env.noCreditMsg)
  | "credit.calculate.feature.image_gen_price" => some (.str env.imageGenPrice)
  | "credit.calculate.feature.code_execute_price" => some (.str env.codeExecutePrice)
  | "credit.calculate.feature.web_search_price" => some (.str env.webSearchPrice)
  | "credit.calculate.feature.tool_server_price" => some (.str env.toolServerPrice)
  | "credit.calculate.minimum_cost" => some (.str env.minimumCost)
  | "credit.calculate.custom_price_config" => some (.str env.customPriceConfig)
  | _ => none

/-- `Config.get_sync`. -/
def Settings.getSync (s : Settings) (key : String) (default : Json) : Json :=
  let fallback := (s.env.value key).getD default
  if s.persistentEnabled then (s.rows key).getD fallback else fallback

/-- `credit_config`: a stored `null` counts as not configured. -/
def Settings.creditConfig (s : Settings) (key : String) (default : Json) : Json :=
  match s.getSync key default with
  | .null => default
  | value => value

/-! ## Models -/

/-- The `price` column; rows written before a field existed lack it. -/
structure ModelPriceForm where
  callPrice : Option ℚ
  minimumCredit : Option ℚ

/-- A row of the `model` table. -/
structure ModelModel where
  id : String
  baseModelId : Option String
  price : Option ModelPriceForm

/-- The surroundings; `recursionLimit` counts the lookups of a base model, each inside the one before, that the
interpreter's recursion limit leaves room for. -/
structure Env where
  py : Builtins
  settings : Settings
  models : List ModelModel
  recursionLimit : Nat

/-- `Models.get_model_by_id_sync`; an id that is no text matches no row. -/
def getModelByIdSync (models : List ModelModel) : Json → Option ModelModel
  | .str id => models.find? fun m => m.id = id
  | _ => none

/-- The ten prices that `get_model_price` returns. -/
structure ModelPrice where
  prompt : ℚ
  completion : ℚ
  promptLongCtxTokens : ℚ
  promptLongCtx : ℚ
  completionLongCtxTokens : ℚ
  completionLongCtx : ℚ
  promptCache : ℚ
  promptLongCtxCache : ℚ
  call : ℚ
  minimumCredit : ℚ

def ModelPrice.perCall (call minimumCredit : ℚ) : ModelPrice := ⟨0, 0, 0, 0, 0, 0, 0, 0, call, minimumCredit⟩

def baseModel (models : List ModelModel) (m : ModelModel) : Option ModelModel :=
  match m.baseModelId with
  | none => none
  | some base => if base = "" then none else getModelByIdSync models (.str base)

def ModelModel.ownPrice (m : ModelModel) : ModelPrice :=
  match m.price with
  | none => .perCall 0 0
  | some price => .perCall (price.callPrice.getD 0) (price.minimumCredit.getD 0)

/-- `get_model_price`. The first lookup without room raises `RecursionError` inside `get_model_by_id_sync`, which takes
it for a missing row. -/
def getModelPrice (models : List ModelModel) : Nat → Option ModelModel → Except Raised ModelPrice
  | _, none => .ok (.perCall 0 0)
  | 0, some m => .ok m.ownPrice
  | n + 1, some m =>
    match baseModel models m with
    | some base => getModelPrice models n (some base)
    | none => .ok m.ownPrice

/-! ## Fees -/

/-- `Decimal(value)`. -/
def Env.toDecimal (env : Env) (value : Json) : Except Raised ℚ :=
  match env.py.decimal value with
  | some q => .ok q
  | none => .error .invalidOperation

def unitPrice (env : Env) (key default : String) : Except Raised ℚ := do
  let price ← env.toDecimal (env.settings.creditConfig key (.str default))
  return price / 1000 / 1000

def featurePrice (env : Env) : String → Except Raised ℚ
  | "image_generation" =>
    unitPrice env "credit.calculate.feature.image_gen_price" env.settings.env.imageGenPrice
  | "code_interpreter" =>
    unitPrice env "credit.calculate.feature.code_execute_price" env.settings.env.codeExecutePrice
  | "web_search" =>
    unitPrice env "credit.calculate.feature.web_search_price" env.settings.env.webSearchPrice
  | "direct_tool_servers" =>
    unitPrice env "credit.calculate.feature.tool_server_price" env.settings.env.toolServerPrice
  | _ => .ok 0

/-- `get_feature_price`. -/
def getFeaturePrice (env : Env) (features : List String) : Except Raised ℚ :=
  features.foldlM (fun price feature => return price + (← featurePrice env feature)) 0

/-- `{k for k, v in flags.items() if v}`. -/
def enabledFeatures (flags : Dict) : List String := ((flags.filter fun kv => kv.2.truthy).map Prod.fst).dedup

/-- A `custom_price_config` that is no text of a JSON list has none. -/
def configuredFees (py : Builtins) : Json → Option (List Json)
  | .str text =>
    if text = "" ∨ text = "[]" then none
    else
      match py.loads text with
      | some (.arr configs) => some configs
      | _ => none
  | _ => none

/-- One entry in `get_custom_price`; one that raises is skipped. -/
def customCost (py : Builtins) (body : Dict) : Json → ℤ
  | .obj config =>
    match config.lookup "path", (config.lookup "cost").bind py.int, config.lookup "exists" with
    | some path, some cost, some existsCheck =>
      if !path.truthy ∨ cost ≤ 0 then 0
      else
        match py.find path (.obj body) with
        | none => 0
        | some values =>
          if existsCheck.truthy && !values.isEmpty then cost
          else if !existsCheck.truthy && values.any (Json.eqv · (Dict.get config "value")) then cost
          else 0
    | _, _, _ => 0
  | _ => 0

/-- `get_custom_price`. -/
def getCustomPrice (env : Env) (body : Dict) : ℚ :=
  match configuredFees env.py
      (env.settings.creditConfig "credit.calculate.custom_price_config" (.str "[]")) with
  | none => 0
  | some configs => ((configs.map (customCost env.py body)).sum : ℤ) / 1000 / 1000

def minimumCost (env : Env) : Except Raised ℚ :=
  env.toDecimal (env.settings.creditConfig "credit.calculate.minimum_cost"
    (.str env.settings.env.minimumCost))

/-- `features or metadata[first] or metadata[second] or {}` -/
def featureFlags (formData : Dict) (first second : String) : Except Raised Json := do
  let features := Dict.get formData "features"
  if features.truthy then return features
  let metadata := (Dict.get formData "metadata").orElse (.obj [])
  let flags ← metadata.get first
  if flags.truthy then return flags
  return (← metadata.get second).orElse (.obj [])

/-- `is_free_request`. -/
def isFreeRequest (env : Env) (modelPrice : List ℚ) (formData : Dict) : Except Raised Bool := do
  let isFreeModel := decide ((modelPrice.map env.py.float).sum ≤ 0)
  let flags ← (← featureFlags formData "features" "features_for_credit").items
  let isFeatureFree := decide ((← getFeaturePrice env (enabledFeatures flags)) ≤ 0)
  let isCustomFeeFree := decide (getCustomPrice env formData ≤ 0)
  return isFreeModel && isFeatureFree && isCustomFeeFree

/-- A refusal is the `HTTPException` with status 403; it may leave its message in the chat. -/
inductive Verdict where
  | accepted
  | refused (detail : Json) (noted : Option (Json × Json))

def requestedModel (formData : Dict) : Json :=
  ((Dict.get formData "model").orElse (Dict.get formData "model_id")).orElse (.str "")

def noCredit (env : Env) (formData : Dict) : Verdict :=
  let detail := env.settings.creditConfig "credit.no_credit_msg" (.str env.settings.env.noCreditMsg)
  match (Dict.get formData "metadata").orElse (.obj formData) with
  | .obj metadata =>
    let chatId := Dict.get metadata "chat_id"
    let messageId := (Dict.get metadata "message_id").orElse (Dict.get metadata "id")
    .refused detail (if chatId.truthy && messageId.truthy then some (chatId, messageId) else none)
  | _ => .refused detail none

/-- `check_credit_by_user_id`, with the result of `init_credit_by_user_id`. -/
def checkCreditByUserId (env : Env) (initCredit : Except Raised (Option ℚ)) (formData : Dict) :
    Except Raised Verdict := do
  let price ← getModelPrice env.models env.recursionLimit
    (getModelByIdSync env.models (requestedModel formData))
  let free ← isFreeRequest env [price.prompt, price.completion, price.promptLongCtx,
    price.completionLongCtx, price.promptCache, price.promptLongCtxCache, price.call] formData
  if free then return .accepted
  let credit ← initCredit
  let flags ← (← featureFlags formData "features_for_credit" "features").items
  let features ← getFeaturePrice env (enabledFeatures flags)
  let minimum ← minimumCost env
  let estimatedCost := max ((if 0 < price.call then price.call else 0) + features + getCustomPrice env formData) minimum
  let requiredCredit := max price.minimumCredit estimatedCost
  match credit with
  | none => return noCredit env formData
  | some balance => return if balance < requiredCredit then noCredit env formData else .accepted

end RyanAI.Credit.Pricing
