import RyanAI.Credit.Coverage
import RyanAI.Lib.KeyedSum

/-!
# Custom fees before and after a call

`get_custom_price` adds up, before the call, the costs of the fee entries that apply to the body, and
`build_custom_fees` writes them, for the charge, into a dictionary under their names. A name that comes twice keeps its
last cost only, so the two disagree; and a stored `null` makes the first fall back to no entries, the second to those of
the environment. `custom_fees_agree_iff` says for which entries the two are the same.
-/

namespace RyanAI.Credit.Pricing

open RyanAI.Lib

def customPriceConfig : String := "credit.calculate.custom_price_config"

/-- The entries that `build_custom_fees` goes through. -/
def feeEntries (env : Env) : List Json :=
  (configuredFees env.py
    (env.settings.creditConfig customPriceConfig (.str env.settings.env.customPriceConfig))).getD []

/-- The stored configuration is `null`. -/
def ConfigNull (env : Env) : Prop := env.settings.getSync customPriceConfig (.str "[]") = .null

def WellFormedFee : Json → Prop
  | .obj config =>
    (config.lookup "path").isSome ∧ (config.lookup "name").isSome ∧
      (config.lookup "value").isSome ∧ (config.lookup "exists").isSome ∧
      ∃ cost : ℤ, 0 < cost ∧ config.lookup "cost" = some (.num cost)
  | _ => False

def Matches (py : Builtins) (body config : Dict) : Bool :=
  (Dict.get config "path").truthy &&
    match py.find (Dict.get config "path") (.obj body) with
    | none => false
    | some values =>
      !values.isEmpty && ((Dict.get config "exists").truthy || values.any (Json.eqv · (Dict.get config "value")))

def matchedFee (py : Builtins) (body : Dict) : Json → Option (Json × ℚ)
  | .obj config =>
    if Matches py body config then
      some (Dict.get config "name", ((Dict.get config "cost").number).getD 0)
    else none
  | _ => none

def matchedFees (env : Env) (body : Dict) : List (Json × ℚ) := (feeEntries env).filterMap (matchedFee env.py body)

theorem setFee_eq_write (name : Json) (cost : ℚ) (fees : List (Json × ℚ)) :
    setFee name cost fees = KeyedSum.write Json.eqv name cost fees := by
  induction fees with
  | nil => rfl
  | cons fee rest ih =>
    obtain ⟨name', cost'⟩ := fee
    rw [setFee, KeyedSum.write, ih]

/-! ## The two evaluators -/

section Evaluators

variable {py : Builtins} {body : Dict} {entry : Json}

def addFee (fee : Option (Json × ℚ)) (fees : List (Json × ℚ)) : List (Json × ℚ) :=
  match fee with
  | some (name, cost) => if name.hashable then setFee name cost fees else fees
  | none => fees

theorem customFeesLoop_cons (h : WellFormedFee entry) (fees : List (Json × ℚ)) (rest : List Json) :
    customFeesLoop py body fees (entry :: rest) =
      customFeesLoop py body (addFee (matchedFee py body entry) fees) rest := by
  cases entry with
  | obj config =>
    obtain ⟨hpath, hname, hvalue, hexists, cost, hpos, hcost⟩ := h
    obtain ⟨path, hpath⟩ := Option.isSome_iff_exists.1 hpath
    obtain ⟨name, hname⟩ := Option.isSome_iff_exists.1 hname
    obtain ⟨value, hvalue⟩ := Option.isSome_iff_exists.1 hvalue
    obtain ⟨existsCheck, hexists⟩ := Option.isSome_iff_exists.1 hexists
    have hq : ¬ (cost : ℚ) ≤ 0 := by
      rw [not_le]
      exact_mod_cast hpos
    simp only [customFeesLoop, hpath, hname, hvalue, hexists, hcost, Json.number, hq, if_false,
      matchedFee, Matches, Dict.get, Option.getD_some]
    by_cases htruthy : path.truthy = true
    · simp only [htruthy, Bool.not_true, Bool.false_eq_true, if_false, Bool.true_and, applyFee]
      cases py.find path (.obj body) with
      | none => rfl
      | some values =>
        by_cases hempty : values.isEmpty = true
        · simp [hempty, addFee]
        · by_cases hmatch : (existsCheck.truthy || values.any (Json.eqv · value)) = true
          · simp [hempty, hmatch, addFee]
          · simp [hempty, hmatch, addFee]
    · simp [htruthy, addFee]
  | null | bool b | num q | str text | arr items => cases h

theorem customCost_eq (hint : ∀ n : ℤ, py.int (.num n) = some n) (h : WellFormedFee entry) :
    (customCost py body entry : ℚ) = ((matchedFee py body entry).map Prod.snd).getD 0 := by
  cases entry with
  | obj config =>
    obtain ⟨hpath, hname, hvalue, hexists, cost, hpos, hcost⟩ := h
    obtain ⟨path, hpath⟩ := Option.isSome_iff_exists.1 hpath
    obtain ⟨value, hvalue⟩ := Option.isSome_iff_exists.1 hvalue
    obtain ⟨existsCheck, hexists⟩ := Option.isSome_iff_exists.1 hexists
    simp only [customCost, hpath, hcost, hexists, hvalue, Option.bind_some, hint, matchedFee, Matches,
      Dict.get, Option.getD_some, Json.number, not_le.2 hpos, or_false]
    by_cases htruthy : path.truthy = true
    · simp only [htruthy, Bool.not_true, Bool.false_eq_true, if_false, Bool.true_and]
      cases py.find path (.obj body) with
      | none => simp
      | some values =>
        by_cases hempty : values.isEmpty = true
        · have hvalues : values = [] := List.isEmpty_iff.1 hempty
          simp [hvalues]
        by_cases htrue : existsCheck.truthy = true
        · simp [hempty, htrue]
        · by_cases hany : values.any (Json.eqv · value) = true
          · simp [hempty, htrue, hany]
          · simp [hempty, htrue, hany]
    · simp [htruthy]
  | null | bool b | num q | str text | arr items => cases h

theorem matchedFee_pos (h : WellFormedFee entry) (hfee : matchedFee py body entry = some fee) : 0 < fee.2 := by
  cases entry with
  | obj config =>
    obtain ⟨-, -, -, -, cost, hpos, hcost⟩ := h
    simp only [matchedFee] at hfee
    split at hfee
    · cases hfee
      simpa [Dict.get, hcost, Json.number] using hpos
    · cases hfee
  | null | bool b | num q | str text | arr items => cases h

theorem sum_customCost (hint : ∀ n : ℤ, py.int (.num n) = some n) {entries : List Json}
    (h : ∀ entry ∈ entries, WellFormedFee entry) :
    ((entries.map (customCost py body)).sum : ℚ) = ((entries.filterMap (matchedFee py body)).map Prod.snd).sum := by
  induction entries with
  | nil => simp
  | cons entry rest ih =>
    obtain ⟨hentry, hrest⟩ := List.forall_mem_cons.1 h
    rw [List.map_cons, List.sum_cons, Int.cast_add, ih hrest, customCost_eq hint hentry]
    cases hfee : matchedFee py body entry with
    | none => simp [hfee]
    | some fee => simp [hfee]

theorem customFeesLoop_eq (h : ∀ entry ∈ entries, WellFormedFee entry) (fees : List (Json × ℚ)) :
    customFeesLoop py body fees entries = KeyedSum.writeAll Json.eqv
      ((entries.filterMap (matchedFee py body)).filter fun fee => fee.1.hashable) fees := by
  induction entries generalizing fees with
  | nil => rfl
  | cons entry rest ih =>
    obtain ⟨hentry, hrest⟩ := List.forall_mem_cons.1 h
    rw [customFeesLoop_cons hentry, ih hrest]
    cases hfee : matchedFee py body entry with
    | none => rw [List.filterMap_cons_none hfee]; rfl
    | some fee =>
      rw [List.filterMap_cons_some hfee]
      by_cases hhash : fee.1.hashable = true
      · simp [hhash, addFee, setFee_eq_write]
      · simp [hhash, addFee]

end Evaluators

theorem buildCustomFees_eq (env : Env) (body : Dict) :
    buildCustomFees env body = customFeesLoop env.py body [] (feeEntries env) := by
  unfold buildCustomFees feeEntries customPriceConfig
  split
  · rename_i hnone
    rw [hnone]
    rfl
  · rename_i configs hsome
    rw [hsome]
    rfl

theorem getSync_default (s : Settings) (default default' : Json) :
    s.getSync customPriceConfig default = s.getSync customPriceConfig default' := rfl

theorem getCustomPrice_of_null (h : ConfigNull env) (body : Dict) : getCustomPrice env body = 0 := by
  have hconfig : env.settings.creditConfig "credit.calculate.custom_price_config" (.str "[]") =
      .str "[]" := by
    unfold Settings.creditConfig
    rw [show env.settings.getSync "credit.calculate.custom_price_config" (.str "[]") = .null from h]
  simp [getCustomPrice, hconfig, configuredFees]

theorem getCustomPrice_of_not_null (h : ¬ ConfigNull env) (body : Dict) : getCustomPrice env body =
      (((feeEntries env).map (customCost env.py body)).sum : ℤ) / 1000 / 1000 := by
  have hsame : env.settings.creditConfig "credit.calculate.custom_price_config" (.str "[]") =
      env.settings.creditConfig customPriceConfig (.str env.settings.env.customPriceConfig) := by
    unfold Settings.creditConfig
    rw [getSync_default env.settings (.str env.settings.env.customPriceConfig) (.str "[]")]
    change ¬ env.settings.getSync customPriceConfig (.str "[]") = .null at h
    rw [show ("credit.calculate.custom_price_config" : String) = customPriceConfig from rfl]
    cases hvalue : env.settings.getSync customPriceConfig (.str "[]") <;> simp_all
  unfold getCustomPrice feeEntries
  rw [hsame]
  split
  · rename_i hnone
    rw [hnone]
    simp
  · rename_i configs hsome
    rw [hsome]
    rfl

/-- The fees agree exactly when the names of the entries that apply are keys and distinct, and the
configuration is not `null` where there are any. -/
theorem custom_fees_agree_iff (env : Env) (body : Dict) (hint : ∀ n : ℤ, env.py.int (.num n) = some n)
    (hwf : ∀ entry ∈ feeEntries env, WellFormedFee entry) :
    ((buildCustomFees env body).map Prod.snd).sum / 1000 / 1000 = getCustomPrice env body ↔
      (ConfigNull env → ∀ fee ∈ matchedFees env body, fee.1.hashable = false) ∧
      (¬ ConfigNull env → (∀ fee ∈ matchedFees env body, fee.1.hashable = true) ∧
        (matchedFees env body).Pairwise fun a b => a.1.eqv b.1 = false) := by
  have hpos : ∀ fee ∈ matchedFees env body, 0 < fee.2 := by
    intro fee hfee
    obtain ⟨entry, hentry, hmatch⟩ := List.mem_filterMap.1 hfee
    exact matchedFee_pos (hwf entry hentry) hmatch
  rw [buildCustomFees_eq, customFeesLoop_eq hwf]
  change ((KeyedSum.writeAll Json.eqv
    ((matchedFees env body).filter fun fee => fee.1.hashable) []).map Prod.snd).sum / 1000 / 1000 = _ ↔ _
  by_cases hnull : ConfigNull env
  · rw [getCustomPrice_of_null hnull]
    have hfilter : ∀ fee ∈ (matchedFees env body).filter fun fee => fee.1.hashable, 0 < fee.2 :=
      fun fee hfee => hpos fee (List.mem_of_mem_filter hfee)
    simp only [hnull, true_imp_iff, not_true_eq_false, false_imp_iff, and_true, div_eq_zero_iff,
      OfNat.ofNat_ne_zero, or_false]
    rw [KeyedSum.sum_eq_zero_iff (KeyedSum.pos_writeAll (by simp) hfilter),
      KeyedSum.writeAll_eq_nil, List.filter_eq_nil_iff]
    simp
  · rw [getCustomPrice_of_not_null hnull, sum_customCost hint hwf]
    simp only [hnull, false_imp_iff, true_and, not_false_eq_true, true_imp_iff]
    rw [← KeyedSum.sum_written_eq_iff hpos]
    change _ / 1000 / 1000 = ((matchedFees env body).map Prod.snd).sum / 1000 / 1000 ↔ _
    rw [div_left_inj' (by norm_num), div_left_inj' (by norm_num)]

def feeText (name cost : String) : String :=
  "\x7b\"path\": \"$.model\", \"name\": \"" ++ name ++
    "\", \"value\": 0, \"exists\": true, \"cost\": " ++ cost ++ "\x7d"

def feeOf (name : String) (cost : ℚ) : Json :=
  .obj [("path", .str "$.model"), ("name", .str name), ("value", .num 0), ("exists", .bool true),
    ("cost", .num cost)]

def feesText (name : String) : String := "[" ++ feeText "model" "1000000" ++ ", " ++ feeText name "2000000" ++ "]"

def feeEnv (name : String) : Env where
  py := {
    loads := fun text =>
      if text = feesText name then some (.arr [feeOf "model" 1000000, feeOf name 2000000]) else none
    find := fun path body =>
      match path, body with
      | .str "$.model", .obj fields => some (fields.lookup "model").toList
      | _, _ => none
    decimal := sampleEnv.py.decimal
    int := fun value =>
      match value with
      | .num q => some (q.num.tdiv q.den)
      | _ => none
    float := id }
  settings := ⟨true, fun _ => none,
    { sampleEnv.settings.env with customPriceConfig := feesText name }⟩
  models := sampleEnv.models
  recursionLimit := 1000

theorem custom_fees_agree_two_names : ((buildCustomFees (feeEnv "vision") sampleBody).map Prod.snd).sum / 1000 / 1000 =
      getCustomPrice (feeEnv "vision") sampleBody := by
  have hentries : feeEntries (feeEnv "vision") = [feeOf "model" 1000000, feeOf "vision" 2000000] := by
    decide +kernel
  have hfees : matchedFees (feeEnv "vision") sampleBody =
      [(.str "model", 1000000), (.str "vision", 2000000)] := by decide +kernel
  apply (custom_fees_agree_iff (feeEnv "vision") sampleBody _ _).2
  · rw [hfees]
    have hnull : ¬ ConfigNull (feeEnv "vision") := by
      intro hnull
      cases hnull
    exact ⟨fun h => absurd h hnull, fun _ => ⟨by decide, by decide⟩⟩
  · intro n
    simp [feeEnv]
  · rw [hentries]
    intro entry hentry
    rcases List.mem_pair.1 hentry with rfl | rfl
    · exact ⟨rfl, rfl, rfl, rfl, 1000000, by norm_num, by simp [Dict.lookup_cons]⟩
    · exact ⟨rfl, rfl, rfl, rfl, 2000000, by norm_num, by simp [Dict.lookup_cons]⟩

/-- Two entries of one name: three credits before the call, two for the charge. -/
theorem custom_fees_disagree_same_name : feeEntries (feeEnv "model") = [feeOf "model" 1000000, feeOf "model" 2000000] ∧
      getCustomPrice (feeEnv "model") sampleBody = 3 ∧
      ((buildCustomFees (feeEnv "model") sampleBody).map Prod.snd).sum / 1000 / 1000 = 2 := by
  refine ⟨?_, ?_, ?_⟩ <;> decide +kernel

end RyanAI.Credit.Pricing
