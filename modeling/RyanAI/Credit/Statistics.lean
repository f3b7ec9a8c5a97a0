import RyanAI.Lib.Json
import RyanAI.Lib.Tally

/-!
# Credit statistics

`get_statistics` of `routers/credit.py` adds up tokens and prices of the credit logs of a time range, in total, by model
and by user. The logs have details of three kinds and are validated by pydantic when they are read. The price of a
standalone feature has no tokens, on which the sum raises (`getStatistics_feature`). Without one in the range, or if the
range cannot be validated and counts as empty, the totals of the tokens are the sums of both breakdowns. `Decimal`
addition rounds to 28 digits, here by a parameter `add`, so the prices add up where the running sums of the models and
of the users do (`statistics_consistent_iff`).
-/

namespace RyanAI.Credit.Statistics

open Lib

/-- A row of `credit_log`: the two dictionaries of its `detail` that are read. -/
structure CreditLog where
  userId : String
  createdAt : ℤ
  usage : Dict
  apiParams : Dict

/-- `model_dump(exclude_unset=True, exclude_none=True)`: the three counts, and the rest under other
names. -/
structure CompletionUsage where
  totalTokens : ℤ
  promptTokens : ℤ
  completionTokens : ℤ
  rest : Dict
  rest_totalTokens : rest.lookup "total_tokens" = none

def CompletionUsage.dump (usage : CompletionUsage) : Dict :=
  ("total_tokens", .num usage.totalTokens) :: ("prompt_tokens", .num usage.promptTokens) ::
    ("completion_tokens", .num usage.completionTokens) :: usage.rest

/-- The prices that `CreditDeduct` logs, as floats. -/
structure DeductPrices where
  total : ℚ
  promptUnit : ℚ
  promptCacheUnit : ℚ
  completionUnit : ℚ
  call : ℚ
  feature : ℚ
  features : List String
  custom : ℚ
  customDetail : List (String × ℚ)

inductive LogEntry where
  | deduct (userId : String) (createdAt : ℤ) (prices : DeductPrices) (usage : CompletionUsage)
      (isOfficialUsage isEmptyResponse emptyNoCost isStream : Bool) (modelId : String) (modelName : Option String)
  | feature (userId : String) (createdAt : ℤ) (name : String) (modelId : Option String) (amount : ℚ)
  | setCredit (userId : String) (createdAt : ℤ) (apiParams : Dict)

/-- The usage that `CreditDeduct.__exit__` logs, over the prices. -/
def deductUsage (prices : DeductPrices) (usage : CompletionUsage) (isOfficialUsage isEmptyResponse emptyNoCost : Bool) :
    Dict :=
  Dict.update
    [("total_price", .num prices.total),
     ("prompt_unit_price", .num prices.promptUnit),
     ("prompt_cache_unit_price", .num prices.promptCacheUnit),
     ("completion_unit_price", .num prices.completionUnit),
     ("call_price", .num prices.call),
     ("feature_price", .num prices.feature),
     ("features", .arr (prices.features.map .str)),
     ("custom_fee", .num prices.custom),
     ("custom_fee_detail", .obj (prices.customDetail.map fun fee => (fee.1, .num fee.2))),
     ("is_calculate", .bool !isOfficialUsage),
     ("is_empty_response", .bool isEmptyResponse),
     ("empty_no_cost", .bool emptyNoCost)]
    usage.dump

def LogEntry.log : LogEntry → CreditLog
  | .deduct userId createdAt prices usage isOfficialUsage isEmptyResponse emptyNoCost isStream modelId modelName =>
    { userId := userId
      createdAt := createdAt
      usage := deductUsage prices usage isOfficialUsage isEmptyResponse emptyNoCost
      apiParams := [
        ("model", .obj (("id", .str modelId) :: (modelName.map fun name => ("name", Json.str name)).toList)),
        ("is_stream", .bool isStream)] }
  | .feature userId createdAt name modelId amount =>
    let id := (modelId.filter (· ≠ "")).getD name
    { userId := userId
      createdAt := createdAt
      usage := [("total_price", .num amount), ("feature_price", .num amount), ("features", .arr [.str name]),
        ("is_calculate", .bool true)]
      apiParams := [("model", .obj [("id", .str id), ("name", .str id)])] }
  | .setCredit userId createdAt apiParams =>
    { userId := userId
      createdAt := createdAt
      usage := []
      apiParams := apiParams }

/-! ## Reading them -/

/-- How pydantic reads a `Decimal` and an `int`; `none` is a `ValidationError`. -/
structure Validator where
  decimal : Json → Option ℚ
  int : Json → Option ℤ
  decimal_num : ∀ q, (decimal (.num q)).isSome
  int_num : ∀ n : ℤ, int (.num n) = some n

def optional {α : Type} (parse : Json → Option α) (fields : Dict) (key : String) : Option (Option α) :=
  match fields.lookup key with
  | none => some none
  | some .null => some none
  | some value => (parse value).map some

/-- `Optional[str]`. -/
def parseStr : Json → Option String
  | .str s => some s
  | _ => none

/-- `CreditLogUsage`, with the fields that are read. -/
structure CreditLogUsage where
  totalPrice : Option ℚ
  totalTokens : Option ℤ

def validateUsage (v : Validator) (fields : Dict) : Option CreditLogUsage := do
  let totalPrice ← optional v.decimal fields "total_price"
  let _ ← optional v.decimal fields "prompt_unit_price"
  let _ ← optional v.decimal fields "completion_unit_price"
  let _ ← optional v.decimal fields "call_price"
  let _ ← optional v.decimal fields "feature_price"
  let _ ← optional v.int fields "completion_tokens"
  let _ ← optional v.int fields "prompt_tokens"
  let totalTokens ← optional v.int fields "total_tokens"
  return ⟨totalPrice, totalTokens⟩

/-- `SimpleModelModel`, with the field that is read. -/
structure SimpleModel where
  id : Option String

/-- `api_params.model`; a missing one is an empty dictionary. -/
def validateModel (apiParams : Dict) : Option (Option SimpleModel) :=
  match apiParams.lookup "model" with
  | none => some none
  | some (.obj fields) => do
    let id ← optional parseStr fields "id"
    let _ ← optional parseStr fields "name"
    return some ⟨id⟩
  | some _ => none

/-- `CreditLogSimpleModel`. -/
structure SimpleLog where
  userId : String
  usage : CreditLogUsage
  model : Option SimpleModel

def validateLog (v : Validator) (log : CreditLog) : Option SimpleLog := do
  let model ← validateModel log.apiParams
  let usage ← validateUsage v log.usage
  return ⟨log.userId, usage, model⟩

def inRange (startTime endTime : ℤ) (userIds : List String) (log : CreditLog) : Bool :=
  startTime ≤ log.createdAt && log.createdAt < endTime && (userIds.isEmpty || log.userId ∈ userIds)

/-- `get_log_by_time`: one invalid row empties the list. -/
def getLogByTime (v : Validator) (startTime endTime : ℤ) (userIds : List String) (logs : List CreditLog) :
    List SimpleLog :=
  ((logs.filter (inRange startTime endTime userIds)).mapM (validateLog v)).getD []

/-! ## Adding up -/

structure Totals where
  totalTokens : ℤ
  totalCredit : ℚ
  modelCostPie : OrderedMap (Option String) ℚ
  modelTokenPie : OrderedMap (Option String) ℤ
  userCostPie : OrderedMap String ℚ
  userTokenPie : OrderedMap String ℤ

def Totals.zero : Totals := ⟨0, 0, [], [], [], []⟩

/-- `f'{log.user_id}:{user_map.get(log.user_id, log.user_id)}'`. -/
def userKey (users : List (String × String)) (userId : String) : String :=
  userId ++ ":" ++ (users.lookup userId).getD userId

structure Counted where
  modelKey : Option String
  userKey : String
  price : ℚ
  tokens : ℤ

def Totals.count (add : ℚ → ℚ → ℚ) (s : Totals) (c : Counted) : Totals where
  totalTokens := s.totalTokens + c.tokens
  totalCredit := add s.totalCredit c.price
  modelCostPie := Tally.bump add c.modelKey c.price s.modelCostPie
  modelTokenPie := Tally.bump (· + ·) c.modelKey c.tokens s.modelTokenPie
  userCostPie := Tally.bump add c.userKey c.price s.userCostPie
  userTokenPie := Tally.bump (· + ·) c.userKey c.tokens s.userTokenPie

/-- A log without price or model is passed over, and `None` cannot be added. -/
def counted (users : List (String × String)) (log : SimpleLog) : Except Raised (Option Counted) :=
  match log.usage.totalPrice, log.model with
  | some price, some model =>
    match log.usage.totalTokens with
    | some tokens => .ok (some ⟨model.id, userKey users log.userId, price, tokens⟩)
    | none => .error .typeError
  | _, _ => .ok none

def addUp (add : ℚ → ℚ → ℚ) (users : List (String × String)) : List SimpleLog → Totals → Except Raised Totals
  | [], s => .ok s
  | log :: rest, s => do
    let c ← counted users log
    addUp add users rest (c.elim s (s.count add))

/-- `user.split(':', 1)[1]`. -/
def afterColon (key : String) : String := String.ofList (key.toList.dropWhile (· ≠ ':')).tail

structure Report where
  totalTokens : ℤ
  totalCredit : ℚ
  modelCostPie : List (Option String × ℚ)
  modelTokenPie : List (Option String × ℤ)
  userCostPie : List (String × ℚ)
  userTokenPie : List (String × ℤ)

def Totals.response (s : Totals) : Report where
  totalTokens := s.totalTokens
  totalCredit := s.totalCredit
  modelCostPie := s.modelCostPie
  modelTokenPie := s.modelTokenPie
  userCostPie := s.userCostPie.map fun entry => (afterColon entry.1, entry.2)
  userTokenPie := s.userTokenPie.map fun entry => (afterColon entry.1, entry.2)

/-- `get_statistics`; `users` are those of the query. -/
def getStatistics (v : Validator) (add : ℚ → ℚ → ℚ) (hasQuery : Bool) (users : List (String × String))
    (startTime endTime : ℤ) (logs : List CreditLog) : Except Raised Report := do
  if hasQuery && users.isEmpty then return Totals.zero.response
  else
    let totals ← addUp add users
      (getLogByTime v startTime endTime (if hasQuery then users.map Prod.fst else []) logs) Totals.zero
    return totals.response

/-! ## What the logs count for -/

theorem lookup_update_of_none (h : other.lookup key = none) : (Dict.update d other).lookup key = d.lookup key := by
  induction other generalizing d with
  | nil => rfl
  | cons entry rest ih =>
    obtain ⟨key', value'⟩ := entry
    rw [Dict.lookup_cons] at h
    split at h
    · cases h
    · rename_i hne
      rw [Dict.update, List.foldl_cons]
      exact (ih h).trans (by rw [Dict.lookup_set, if_neg hne])

theorem lookup_totalTokens (d : Dict) (usage : CompletionUsage) :
    (Dict.update d usage.dump).lookup "total_tokens" = some (.num usage.totalTokens) := by
  have hrest : List.lookup "total_tokens" (("prompt_tokens", Json.num usage.promptTokens) ::
      ("completion_tokens", Json.num usage.completionTokens) :: usage.rest) = none := by
    rw [Dict.lookup_cons, if_neg (by decide), Dict.lookup_cons, if_neg (by decide)]
    exact usage.rest_totalTokens
  rw [CompletionUsage.dump, Dict.update, List.foldl_cons]
  exact (lookup_update_of_none hrest).trans (by rw [Dict.lookup_set, if_pos rfl])

variable {v : Validator} {simple : SimpleLog}

theorem validateLog_eq_some (h : validateLog v log = some simple) : validateModel log.apiParams = some simple.model ∧
      optional v.decimal log.usage "total_price" = some simple.usage.totalPrice ∧
      optional v.int log.usage "total_tokens" = some simple.usage.totalTokens := by
  simp only [validateLog, validateUsage, Option.bind_eq_bind, Option.pure_def, Option.bind_eq_some_iff,
    Option.some.injEq] at h
  obtain ⟨model, hmodel, usage, ⟨price, hprice, _, _, _, _, _, _, _, _, _, _, _, _, tokens, htokens, rfl⟩, rfl⟩ := h
  exact ⟨hmodel, hprice, htokens⟩

def LogEntry.IsFeature : LogEntry → Prop
  | .feature _ _ _ _ _ => True
  | _ => False

theorem counted_ok {entry : LogEntry} (h : validateLog v entry.log = some simple) (hfeature : ¬ entry.IsFeature)
    (users : List (String × String)) :
    ∃ c, counted users simple = .ok c := by
  obtain ⟨_, hprice, htokens⟩ := validateLog_eq_some h
  cases entry with
  | feature userId createdAt name modelId amount => exact absurd trivial hfeature
  | setCredit userId createdAt apiParams =>
    have hnone : simple.usage.totalPrice = none := (Option.some.inj hprice).symm
    refine ⟨none, ?_⟩
    rw [counted, hnone]
  | deduct userId createdAt prices usage isOfficialUsage isEmptyResponse emptyNoCost isStream modelId modelName =>
    have hsome : simple.usage.totalTokens = some usage.totalTokens := by
      have hlookup : (LogEntry.log (.deduct userId createdAt prices usage isOfficialUsage isEmptyResponse emptyNoCost
          isStream modelId modelName)).usage.lookup "total_tokens" = some (.num usage.totalTokens) :=
        lookup_totalTokens _ usage
      rw [optional, hlookup] at htokens
      simp only [v.int_num, Option.map_some, Option.some.injEq] at htokens
      exact htokens.symm
    rw [counted, hsome]
    split
    · exact ⟨_, rfl⟩
    · exact ⟨none, rfl⟩

theorem counted_feature {entry : LogEntry} (h : validateLog v entry.log = some simple) (hfeature : entry.IsFeature)
    (users : List (String × String)) :
    counted users simple = .error .typeError := by
  obtain ⟨hmodel, hprice, htokens⟩ := validateLog_eq_some h
  cases entry with
  | setCredit userId createdAt apiParams => exact hfeature.elim
  | deduct userId createdAt prices usage isOfficialUsage isEmptyResponse emptyNoCost isStream modelId modelName =>
    exact hfeature.elim
  | feature userId createdAt name modelId amount =>
    have hnone : simple.usage.totalTokens = none := (Option.some.inj htokens).symm
    have hsome : ∃ price, simple.usage.totalPrice = some price := by
      obtain ⟨price, hdecimal⟩ := Option.isSome_iff_exists.1 (v.decimal_num amount)
      have hread : (v.decimal (.num amount)).map some = some simple.usage.totalPrice := hprice
      rw [hdecimal] at hread
      exact ⟨price, (Option.some.inj hread).symm⟩
    have hmodel' : ∃ model, simple.model = some model := ⟨_, (Option.some.inj hmodel).symm⟩
    obtain ⟨price, hprice⟩ := hsome
    obtain ⟨model, hmodel⟩ := hmodel'
    rw [counted, hprice, hmodel, hnone]

def countedAll (users : List (String × String)) : List SimpleLog → Except Raised (List Counted)
  | [] => .ok []
  | log :: rest => do
    let c ← counted users log
    let cs ← countedAll users rest
    return c.toList ++ cs

theorem addUp_eq (add : ℚ → ℚ → ℚ) (users : List (String × String)) (logs : List SimpleLog) (s : Totals) :
    addUp add users logs s = (countedAll users logs).map fun cs => cs.foldl (Totals.count add) s := by
  induction logs generalizing s with
  | nil => rfl
  | cons log rest ih =>
    rw [addUp, countedAll]
    cases counted users log with
    | error e => rfl
    | ok c =>
      simp only [bind, Except.bind, ih]
      cases countedAll users rest with
      | error e => rfl
      | ok cs =>
        cases c with
        | none => rfl
        | some c => rfl

/-- The logs that count, where none of them raises. -/
def charges (users : List (String × String)) (logs : List SimpleLog) : List Counted :=
  logs.filterMap fun log => (counted users log).toOption.join

theorem countedAll_ok (h : ∀ log ∈ logs, ∃ c, counted users log = .ok c) :
    countedAll users logs = .ok (charges users logs) := by
  induction logs with
  | nil => rfl
  | cons log rest ih =>
    obtain ⟨c, hc⟩ := h log List.mem_cons_self
    rw [countedAll, hc, ih fun l hl => h l (List.mem_cons_of_mem _ hl), charges, charges, List.filterMap_cons, hc]
    cases c <;> rfl

theorem countedAll_error (hlog : log ∈ logs)
    (h : counted users log = .error e) : ∃ e', countedAll users logs = .error e' := by
  induction logs with
  | nil => cases hlog
  | cons first rest ih =>
    rw [countedAll]
    cases hfirst : counted users first with
    | error e' => exact ⟨e', rfl⟩
    | ok c =>
      rcases List.mem_cons.1 hlog with rfl | hrest
      · rw [h] at hfirst
        cases hfirst
      · obtain ⟨e', he'⟩ := ih hrest
        exact ⟨e', by rw [he']; rfl⟩

structure Holds (add : ℚ → ℚ → ℚ) (cs : List Counted) (s : Totals) : Prop where
  modelToken : s.totalTokens = Tally.total s.modelTokenPie
  userToken : s.totalTokens = Tally.total s.userTokenPie
  totalCredit : s.totalCredit = (cs.map Counted.price).foldl add 0
  modelCost : Tally.Runs add (cs.map fun c => (c.modelKey, c.price)) s.modelCostPie
  userCost : Tally.Runs add (cs.map fun c => (c.userKey, c.price)) s.userCostPie

variable {add : ℚ → ℚ → ℚ}

theorem holds_zero : Holds add [] Totals.zero := ⟨rfl, rfl, rfl, Tally.runs_nil, Tally.runs_nil⟩

theorem Holds.count (h : Holds add cs s) (c : Counted) : Holds add (cs ++ [c]) (s.count add c) where
  modelToken := by rw [Totals.count, Tally.total_bump_add, h.modelToken]
  userToken := by rw [Totals.count, Tally.total_bump_add, h.userToken]
  totalCredit := by simp [Totals.count, h.totalCredit]
  modelCost := by
    rw [List.map_append]
    exact h.modelCost.bump _ _
  userCost := by
    rw [List.map_append]
    exact h.userCost.bump _ _

theorem Holds.foldl (cs : List Counted) :
    ∀ {pre : List Counted} {s : Totals}, Holds add pre s → Holds add (pre ++ cs) (cs.foldl (Totals.count add) s) := by
  induction cs with
  | nil =>
    intro pre s h
    rwa [List.append_nil]
  | cons c rest ih =>
    intro pre s h
    rw [List.append_cons]
    exact ih (h.count c)

/-! ## Consistency -/

def Consistent (result : Except Raised Report) : Prop :=
  ∃ report, result = .ok report ∧
    report.totalTokens = (report.modelTokenPie.map Prod.snd).sum ∧
    report.totalTokens = (report.userTokenPie.map Prod.snd).sum ∧
    report.totalCredit = (report.modelCostPie.map Prod.snd).sum ∧
    report.totalCredit = (report.userCostPie.map Prod.snd).sum

/-- The running sum of all prices is the sum of those of the keys. -/
def SumsAgree {κ : Type} [DecidableEq κ] (add : ℚ → ℚ → ℚ) (key : Counted → κ) (cs : List Counted) : Prop :=
  (cs.map Counted.price).foldl add 0 =
    ∑ k ∈ (cs.map key).toFinset, ((cs.filter fun c => key c = k).map Counted.price).foldl add 0

theorem Holds.consistent_iff (h : Holds add cs s) :
    Consistent (.ok s.response) ↔ SumsAgree add Counted.modelKey cs ∧ SumsAgree add Counted.userKey cs := by
  have hcredit : ∀ {κ : Type} [DecidableEq κ] (key : Counted → κ) {tally : OrderedMap κ ℚ},
      Tally.Runs add (cs.map fun c => (key c, c.price)) tally →
        (s.totalCredit = Tally.total tally ↔ SumsAgree add key cs) := by
    intro κ _ key tally htally
    rw [htally.total, h.totalCredit, SumsAgree, List.map_map]
    simp only [Tally.runOf, List.filter_map, List.map_map, Function.comp_def]
  have huserToken : s.totalTokens = (s.response.userTokenPie.map Prod.snd).sum := by
    rw [Totals.response, List.map_map]
    exact h.userToken
  have huserCost : (s.response.userCostPie.map Prod.snd).sum = Tally.total s.userCostPie := by
    rw [Totals.response, List.map_map]
    rfl
  rw [← hcredit _ h.modelCost, ← hcredit _ h.userCost, ← huserCost]
  constructor
  · rintro ⟨report, hreport, -, -, hmodel, huser⟩
    cases hreport
    exact ⟨hmodel, huser⟩
  · rintro ⟨hmodel, huser⟩
    exact ⟨_, rfl, h.modelToken, huserToken, hmodel, huser⟩

def queriedIds (hasQuery : Bool) (users : List (String × String)) : List String :=
  if hasQuery then users.map Prod.fst else []

def selected (hasQuery : Bool) (users : List (String × String)) (startTime endTime : ℤ) (entries : List LogEntry) :
    List LogEntry :=
  entries.filter fun entry => inRange startTime endTime (queriedIds hasQuery users) entry.log

structure ReadsFeature (v : Validator) (hasQuery : Bool) (users : List (String × String)) (startTime endTime : ℤ)
    (entries : List LogEntry) : Prop where
  found : (hasQuery && users.isEmpty) = false
  valid : ∀ entry ∈ selected hasQuery users startTime endTime entries, (validateLog v entry.log).isSome
  feature : ∃ entry ∈ selected hasQuery users startTime endTime entries, entry.IsFeature

theorem mapM_of_isSome {α β : Type} {f : α → Option β} {l : List α} (h : ∀ a ∈ l, (f a).isSome) :
    l.mapM f = some (l.filterMap f) := by
  induction l with
  | nil => rfl
  | cons a rest ih =>
    obtain ⟨b, hb⟩ := Option.isSome_iff_exists.1 (h a List.mem_cons_self)
    rw [List.mapM_cons, hb, ih fun x hx => h x (List.mem_cons_of_mem _ hx), List.filterMap_cons_some hb]
    rfl

theorem mapM_of_eq_none {α β : Type} {f : α → Option β} {l : List α} {a : α} (ha : a ∈ l) (h : f a = none) :
    l.mapM f = none := by
  induction l with
  | nil => cases ha
  | cons b rest ih =>
    rw [List.mapM_cons]
    rcases List.mem_cons.1 ha with rfl | hrest
    · rw [h]
      rfl
    · rw [ih hrest]
      cases f b with
      | none => rfl
      | some _ => rfl

theorem getLogByTime_eq (v : Validator) (hasQuery : Bool) (users : List (String × String)) (startTime endTime : ℤ)
    (entries : List LogEntry) :
    getLogByTime v startTime endTime (queriedIds hasQuery users) (entries.map LogEntry.log) =
      ((selected hasQuery users startTime endTime entries).mapM fun entry => validateLog v entry.log).getD [] := by
  rw [getLogByTime, List.filter_map, List.mapM_map]
  rfl

section Report

variable (v : Validator) (add : ℚ → ℚ → ℚ) (hasQuery : Bool) (users : List (String × String)) (startTime endTime : ℤ)
  (entries : List LogEntry)

/-- What the report adds up. -/
def chargesRead : List Counted :=
  if hasQuery && users.isEmpty then []
  else charges users (getLogByTime v startTime endTime (queriedIds hasQuery users) (entries.map LogEntry.log))

variable {v hasQuery users startTime endTime entries}

theorem getStatistics_found (hfound : (hasQuery && users.isEmpty) = false) (logs : List CreditLog) :
    getStatistics v add hasQuery users startTime endTime logs =
      (addUp add users (getLogByTime v startTime endTime (queriedIds hasQuery users) logs) Totals.zero).map
        Totals.response := by
  rw [getStatistics, hfound, queriedIds, if_neg (by decide)]
  cases addUp add users (getLogByTime v startTime endTime (if hasQuery then users.map Prod.fst else []) logs)
      Totals.zero with
  | error e => rfl
  | ok totals => rfl

theorem getStatistics_feature (h : ReadsFeature v hasQuery users startTime endTime entries) :
    ∃ e, getStatistics v add hasQuery users startTime endTime (entries.map LogEntry.log) = .error e := by
  obtain ⟨entry, hentry, hfeature⟩ := h.feature
  obtain ⟨simple, hsimple⟩ := Option.isSome_iff_exists.1 (h.valid entry hentry)
  have hmem : simple ∈ (selected hasQuery users startTime endTime entries).filterMap fun entry =>
      validateLog v entry.log := List.mem_filterMap.2 ⟨entry, hentry, hsimple⟩
  obtain ⟨e, he⟩ := countedAll_error hmem (counted_feature hsimple hfeature users)
  refine ⟨e, ?_⟩
  rw [getStatistics_found add h.found, getLogByTime_eq, mapM_of_isSome h.valid, Option.getD_some, addUp_eq, he]
  rfl

theorem counted_read (hfound : (hasQuery && users.isEmpty) = false)
    (h : ¬ ReadsFeature v hasQuery users startTime endTime entries) :
    ∀ log ∈ getLogByTime v startTime endTime (queriedIds hasQuery users) (entries.map LogEntry.log),
      ∃ c, counted users log = .ok c := by
  intro log hlog
  rw [getLogByTime_eq] at hlog
  by_cases hvalid : ∀ entry ∈ selected hasQuery users startTime endTime entries, (validateLog v entry.log).isSome
  · rw [mapM_of_isSome hvalid, Option.getD_some] at hlog
    obtain ⟨entry, hentry, hread⟩ := List.mem_filterMap.1 hlog
    exact counted_ok hread (fun hfeature => h ⟨hfound, hvalid, entry, hentry, hfeature⟩) users
  · push Not at hvalid
    obtain ⟨entry, hentry, hinvalid⟩ := hvalid
    rw [mapM_of_eq_none hentry (Option.not_isSome_iff_eq_none.1 (by simp [hinvalid]))] at hlog
    cases hlog

theorem getStatistics_consistent_iff (h : ¬ ReadsFeature v hasQuery users startTime endTime entries) :
    Consistent (getStatistics v add hasQuery users startTime endTime (entries.map LogEntry.log)) ↔
      SumsAgree add Counted.modelKey (chargesRead v hasQuery users startTime endTime entries) ∧
        SumsAgree add Counted.userKey (chargesRead v hasQuery users startTime endTime entries) := by
  cases hfound : hasQuery && users.isEmpty with
  | true =>
    have hzero : getStatistics v add hasQuery users startTime endTime (entries.map LogEntry.log) =
        .ok Totals.zero.response := by
      rw [getStatistics, hfound]
      rfl
    rw [hzero, chargesRead, if_pos hfound]
    exact holds_zero.consistent_iff
  | false =>
    rw [getStatistics_found add hfound, addUp_eq, countedAll_ok (counted_read hfound h), chargesRead,
      if_neg (by simp [hfound])]
    exact (holds_zero.foldl _).consistent_iff

end Report

/-- The report is consistent exactly without such prices, if the running sums add up. -/
theorem statistics_consistent_iff (v : Validator) (add : ℚ → ℚ → ℚ) (hasQuery : Bool)
    (users : List (String × String)) (startTime endTime : ℤ) (entries : List LogEntry) :
    Consistent (getStatistics v add hasQuery users startTime endTime (entries.map LogEntry.log)) ↔
      ¬ ReadsFeature v hasQuery users startTime endTime entries ∧
        SumsAgree add Counted.modelKey (chargesRead v hasQuery users startTime endTime entries) ∧
        SumsAgree add Counted.userKey (chargesRead v hasQuery users startTime endTime entries) := by
  by_cases hfeature : ReadsFeature v hasQuery users startTime endTime entries
  · refine iff_of_false ?_ fun h => h.1 hfeature
    rintro ⟨report, hreport, -⟩
    obtain ⟨e, he⟩ := getStatistics_feature add hfeature
    rw [he] at hreport
    cases hreport
  · rw [getStatistics_consistent_iff add hfeature]
    exact (and_iff_right hfeature).symm

def plainValidator : Validator where
  decimal
    | .num q => some q
    | _ => none
  int
    | .num q => if q.den = 1 then some q.num else none
    | _ => none
  decimal_num _ := rfl
  int_num n := by simp

/-- A single charge for `web_search` in the range. -/
theorem web_search_breaks_report : ¬ Consistent (getStatistics plainValidator (· + ·) false [("u", "Ann")] 0 10
      [LogEntry.log (.feature "u" 5 "web_search" none (1 / 100))]) := by
  rintro ⟨report, hreport, -⟩
  obtain ⟨e, he⟩ := @getStatistics_feature plainValidator (· + ·) false [("u", "Ann")] 0 10
    [.feature "u" 5 "web_search" none (1 / 100)] ⟨rfl, by decide, _, List.mem_cons_self, trivial⟩
  rw [List.map_singleton, hreport] at he
  cases he

end RyanAI.Credit.Statistics
