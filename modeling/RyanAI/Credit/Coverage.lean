import RyanAI.Credit.Deduct
import RyanAI.Credit.Ledger

/-!
# Does the check cover the charge?

`checkCreditByUserId` prices a request before it goes upstream, `CreditDeduct` prices it again afterwards. They read
features and custom fees in different ways, and the check takes no notice of the minimum cost where it finds the
request free. The second price does not depend on the response (`totalPrice_eq`); `Covered` says exactly when the charge
stays within what the check has required.

The last section compares the two lookups of the call price, of the requested model and of the one that
`generate_chat_completion` put in its place.
-/

namespace RyanAI.Credit.Pricing

open RyanAI.Lib

/-! ## The two prices -/

def requestedPrice (env : Env) (body : Dict) : Except Raised ModelPrice :=
  getModelPrice env.models env.recursionLimit (getModelByIdSync env.models (requestedModel body))

/-- `is_free_request` on the prices of a model. -/
def freeRequest (env : Env) (price : ModelPrice) (body : Dict) : Except Raised Bool :=
  isFreeRequest env [price.prompt, price.completion, price.promptLongCtx, price.completionLongCtx,
    price.promptCache, price.promptLongCtxCache, price.call] body

def ModelPrice.callCost (price : ModelPrice) : ℚ := if 0 < price.call then price.call else 0

def checkedFees (env : Env) (body : Dict) : Except Raised ℚ := do
  let flags ← (← featureFlags body "features_for_credit" "features").items
  return (← getFeaturePrice env (enabledFeatures flags)) + getCustomPrice env body

def chargedFees (env : Env) (body : Dict) : Except Raised ℚ := do
  return (← getFeaturePrice env (chargedFeatures body)) + ((buildCustomFees env body).map Prod.snd).sum / 1000 / 1000

variable {models : List ModelModel} {price : ModelPrice} {env : Env} {body : Dict} {b : ℚ}
    {d : CreditDeduct}

theorem exists_perCall_of_getModelPrice (h : getModelPrice models n m = .ok price) :
    ∃ call minimum, price = .perCall call minimum := by
  have hown : ∀ m : ModelModel, ∃ call minimum, m.ownPrice = .perCall call minimum := by
    intro m
    rw [ModelModel.ownPrice]
    split
    · exact ⟨0, 0, rfl⟩
    · exact ⟨_, _, rfl⟩
  fun_induction getModelPrice models n m with
  | case1 =>
    cases h
    exact ⟨0, 0, rfl⟩
  | case2 =>
    cases h
    exact hown _
  | case3 n m base hbase ih => exact ih h
  | case4 =>
    cases h
    exact hown _

theorem exists_modelPrice (models : List ModelModel) (n : Nat) (row : Option ModelModel) :
    ∃ price, getModelPrice models n row = .ok price := by
  fun_induction getModelPrice models n row with
  | case1 => exact ⟨_, rfl⟩
  | case2 => exact ⟨_, rfl⟩
  | case3 n m base hbase ih => exact ih
  | case4 => exact ⟨_, rfl⟩

theorem noCredit_ne_accepted (env : Env) (body : Dict) : noCredit env body ≠ .accepted := by
  rw [noCredit]
  split <;> simp

theorem verdict_accepted_iff : (pure (if b < required then noCredit env body else .accepted) : Except Raised Verdict) =
      .ok .accepted ↔ required ≤ b := by
  constructor
  · intro h
    by_contra hlt
    rw [if_pos (not_le.1 hlt)] at h
    exact noCredit_ne_accepted env body (Except.ok.inj h)
  · intro h
    rw [if_neg (not_lt.2 h)]
    rfl

theorem check_accepted_iff : checkCreditByUserId env (.ok (some b)) body = .ok .accepted ↔
      ∃ price, requestedPrice env body = .ok price ∧
        (freeRequest env price body = .ok true ∨
          (freeRequest env price body = .ok false ∧
            ∃ fees minimum, checkedFees env body = .ok fees ∧ minimumCost env = .ok minimum ∧
              max price.minimumCredit (max (price.callCost + fees) minimum) ≤ b)) := by
  rw [checkCreditByUserId, requestedPrice]
  rw [bind_eq_ok]
  apply exists_congr
  intro price
  apply and_congr_right
  intro _
  rw [bind_eq_ok]
  constructor
  · rintro ⟨free, hfree, h⟩
    cases free with
    | true => exact Or.inl hfree
    | false =>
      refine Or.inr ⟨hfree, ?_⟩
      simp only [Bool.false_eq_true, if_false, bind_eq_ok] at h
      obtain ⟨credit, hcredit, json, hjson, flags, hflags, features, hfeatures, minimum, hmin, h⟩ := h
      cases hcredit
      refine ⟨features + getCustomPrice env body, minimum, ?_, hmin, ?_⟩
      · simp only [checkedFees, bind_eq_ok]
        exact ⟨json, hjson, flags, hflags, features, hfeatures, rfl⟩
      · rw [verdict_accepted_iff] at h
        rw [← add_assoc]
        exact h
  · rintro (hfree | ⟨hfree, fees, minimum, hfees, hmin, hle⟩)
    · exact ⟨true, hfree, rfl⟩
    · refine ⟨false, hfree, ?_⟩
      simp only [checkedFees, bind_eq_ok] at hfees
      obtain ⟨json, hjson, flags, hflags, features, hfeatures, hsum⟩ := hfees
      cases hsum
      simp only [Bool.false_eq_true, if_false, bind_eq_ok]
      refine ⟨some b, rfl, json, hjson, flags, hflags, features, hfeatures, minimum, hmin, ?_⟩
      rw [← add_assoc] at hle
      exact verdict_accepted_iff.2 hle

section Charge

variable {d : CreditDeduct} {call minimum : ℚ}

theorem promptPrice_eq_zero (h : d.price = .perCall call minimum) : d.promptPrice = 0 := by
  have hunit : d.promptUnitPrice = 0 := by simp [CreditDeduct.promptUnitPrice, h, ModelPrice.perCall]
  have hcache : d.promptCacheUnitPrice = 0 := by
    simp [CreditDeduct.promptCacheUnitPrice, h, ModelPrice.perCall]
  simp [CreditDeduct.promptPrice, hunit, hcache]

theorem completionPrice_eq_zero (h : d.price = .perCall call minimum) : d.completionPrice = 0 := by
  have hunit : d.completionUnitPrice = 0 := by
    simp [CreditDeduct.completionUnitPrice, h, ModelPrice.perCall]
  simp [CreditDeduct.completionPrice, hunit]

theorem totalPrice_eq (env : Env) (h : d.price = .perCall call minimum) (hcost : d.costsNothing = false) (total : ℚ) :
    d.totalPrice env = .ok total ↔
      ∃ features minimum, getFeaturePrice env d.features = .ok features ∧
        minimumCost env = .ok minimum ∧
        total = max (d.price.callCost + (features + (d.customFees.map Prod.snd).sum / 1000 / 1000))
          minimum := by
  have hcustom : d.customPrice = (d.customFees.map Prod.snd).sum / 1000 / 1000 := by
    simp [CreditDeduct.customPrice, hcost]
  have hsum : ∀ features : ℚ,
      (if 0 < d.price.call then d.requestPrice + features + d.customPrice
        else d.promptPrice + d.completionPrice + features + d.customPrice) =
      d.price.callCost + (features + (d.customFees.map Prod.snd).sum / 1000 / 1000) := by
    intro features
    rw [hcustom, promptPrice_eq_zero h, completionPrice_eq_zero h, ModelPrice.callCost,
      CreditDeduct.requestPrice, hcost]
    split <;> simp [add_assoc]
  simp only [CreditDeduct.totalPrice, CreditDeduct.featurePrice, hcost, Bool.false_eq_true, if_false, bind_eq_ok, hsum]
  refine exists_congr fun features => ⟨?_, ?_⟩
  · rintro ⟨hf, m, hm, ht⟩
    cases ht
    exact ⟨m, hf, hm, rfl⟩
  · rintro ⟨m, hf, hm, rfl⟩
    exact ⟨hf, m, hm, rfl⟩

end Charge

theorem costsNothing_of_nonempty (herror : d.isError = false) (h : d.isEmptyResponse = false) :
    d.costsNothing = false := by
  simp [CreditDeduct.costsNothing, herror, h]

/-! ### Reading the responses -/

structure SameRequest (d d' : CreditDeduct) : Prop where
  isStream : d'.isStream = d.isStream
  price : d'.price = d.price
  features : d'.features = d.features
  customFees : d'.customFees = d.customFees

theorem SameRequest.refl (d : CreditDeduct) : SameRequest d d := ⟨rfl, rfl, rfl, rfl⟩

theorem SameRequest.trans (h : SameRequest d₁ d₂) (h' : SameRequest d₂ d₃) : SameRequest d₁ d₃ where
  isStream := h'.isStream.trans h.isStream
  price := h'.price.trans h.price
  features := h'.features.trans h.features
  customFees := h'.customFees.trans h.customFees

theorem sameRequest_addUsage (d : CreditDeduct) (official : Bool) (usage : CompletionUsage) :
    SameRequest d (d.addUsage official usage) := by
  rw [CreditDeduct.addUsage]
  split
  · exact ⟨rfl, rfl, rfl, rfl⟩
  · split
    · exact .refl d
    · split <;> exact ⟨rfl, rfl, rfl, rfl⟩

theorem sameRequest_read (rd : Reader) (d : CreditDeduct) (response : Json) : SameRequest d (d.read rd response) := by
  unfold CreditDeduct.read
  split
  · exact .refl d
  split
  · rename_i completion fields _ _
    have hid : SameRequest d { d with remoteId := completion.id } := ⟨rfl, rfl, rfl, rfl⟩
    split
    · exact ⟨rfl, rfl, rfl, rfl⟩
    · split
      · exact hid.trans (sameRequest_addUsage _ _ _)
      · exact hid
  · exact .refl d

theorem sameRequest_run (py : Builtins) (rd : Reader) (d : CreditDeduct) (response : Response) :
    SameRequest d (d.run py rd response) := by
  unfold CreditDeduct.run
  split
  · exact .refl d
  split
  · exact sameRequest_read rd d _
  · exact sameRequest_read rd d _
  · exact .refl d
  · exact sameRequest_read rd d _

theorem sameRequest_foldl (py : Builtins) (rd : Reader) (d : CreditDeduct) (responses : List Response) :
    SameRequest d (responses.foldl (CreditDeduct.run py rd) d) := by
  induction responses generalizing d with
  | nil => exact .refl d
  | cons response rest ih => exact (sameRequest_run py rd d response).trans (ih _)

def oneToken : CompletionUsage := ⟨0, 1, 1, none, none⟩

def oneTokenReader : Reader where
  validate := fun _ _ => some ⟨.str "chatcmpl-1", some oneToken, none⟩
  encoder := fun _ => none
  messageTokens := fun _ _ => none

def oneTokenResponse : Response := .dict [("object", .str "chat.completion")]

theorem run_oneToken (py : Builtins) (h : (Dict.get d.body "messages").truthy = true) :
    d.run py oneTokenReader oneTokenResponse =
      { d with remoteId := .str "chatcmpl-1", isOfficialUsage := true, usage := oneToken } := by
  simp only [CreditDeduct.run, h, Bool.not_true, Bool.false_eq_true, if_false]
  rfl

theorem foldl_run_of_no_messages (h : (Dict.get d.body "messages").truthy = false) (responses : List Response) :
    responses.foldl (CreditDeduct.run py rd) d = d := by
  induction responses with
  | nil => rfl
  | cons response rest ih =>
    have hrun : d.run py rd response = d := by simp [CreditDeduct.run, h]
    rw [List.foldl_cons, hrun, ih]

theorem exists_init (hprice : requestedPrice env body = .ok price) (isStream : Bool) :
    ∃ d, CreditDeduct.init env (requestedModel body) body isStream false = .ok d ∧ d.isError = false ∧
      d.body = body := by
  simp only [CreditDeduct.init, bind_eq_ok]
  exact ⟨_, ⟨price, hprice, rfl⟩, rfl, rfl⟩

theorem totalPrice_iff (hprice : requestedPrice env body = .ok price)
    (hinit : CreditDeduct.init env (requestedModel body) body isStream false = .ok d)
    (hsame : SameRequest d d') (herror : d'.isError = false) (hempty : d'.isEmptyResponse = false) (P : ℚ → Prop) :
    (∃ total, d'.totalPrice env = .ok total ∧ P total) ↔
    ∃ fees minimum, chargedFees env body = .ok fees ∧ minimumCost env = .ok minimum ∧
      P (max (price.callCost + fees) minimum) := by
  obtain ⟨call, least, hperCall⟩ := exists_perCall_of_getModelPrice hprice
  simp only [CreditDeduct.init, bind_eq_ok] at hinit
  obtain ⟨price', hprice', hd⟩ := hinit
  cases hprice'.symm.trans hprice
  cases hd
  have hcost := costsNothing_of_nonempty herror hempty
  -- reading changes neither the price nor the fees, so that the total is that of the new object
  have htotal := fun total => totalPrice_eq env (hsame.price.trans hperCall) hcost total
  simp only [hsame.price, hsame.features, hsame.customFees] at htotal
  simp only [htotal, chargedFees, bind_eq_ok]
  constructor
  · rintro ⟨total, ⟨features, minimum, hf, hm, rfl⟩, hP⟩
    exact ⟨_, minimum, ⟨features, hf, rfl⟩, hm, hP⟩
  · rintro ⟨fees, minimum, ⟨features, hf, hfees⟩, hm, hP⟩
    cases hfees
    exact ⟨_, ⟨features, minimum, hf, hm, rfl⟩, hP⟩

/-! ## When the charge is covered -/

/-- The charge looks the price up at another depth of the stack than the check. -/
def Env.atLimit (env : Env) (limit : Nat) : Env := { env with recursionLimit := limit }

/-- The charge stays within what the check has required, for balances from `least` on: for a free
request the call price, the fees and the minimum cost, for others what goes beyond that checked. -/
def Covered (env : Env) (limit : Nat) (body : Dict) (least : ℚ) : Prop :=
  ∀ price paid, requestedPrice env body = .ok price → requestedPrice (env.atLimit limit) body = .ok paid →
    (freeRequest env price body = .ok true →
      ∃ fees minimum, chargedFees env body = .ok fees ∧ minimumCost env = .ok minimum ∧
        paid.callCost + fees ≤ least ∧ minimum ≤ least) ∧
    (freeRequest env price body = .ok false →
      ∀ checked minimum, checkedFees env body = .ok checked → minimumCost env = .ok minimum →
        ∃ fees, chargedFees env body = .ok fees ∧
          (paid.callCost + fees ≤ price.callCost + checked ∨
            paid.callCost + fees ≤ max least (max price.minimumCredit minimum)))

theorem covers_of_le (h : total ≤ b) : Ledger.covers (-total) b = true := by
  simp only [Ledger.covers, neg_neg, decide_eq_true_eq]
  intro _
  exact h

/-- An accepted request is charged with success, whatever is answered. -/
def ChargeFits (env : Env) (limit : Nat) (body : Dict) (isStream : Bool) (b : ℚ) : Prop :=
  checkCreditByUserId env (.ok (some b)) body = .ok .accepted →
    ∃ d, CreditDeduct.init (env.atLimit limit) (requestedModel body) body isStream false = .ok d ∧
      ∀ (rd : Reader) (responses : List Response) (d' : CreditDeduct),
        d' = responses.foldl (CreditDeduct.run env.py rd) d → d'.isError = false →
        d'.isEmptyResponse = false →
        ∃ total, d'.totalPrice env = .ok total ∧ total ≤ b ∧ Ledger.covers (-total) b = true

theorem chargeFits_iff (hpaid : requestedPrice (env.atLimit limit) body = .ok paid) (isStream : Bool) :
    ChargeFits env limit body isStream b ↔
      ((Dict.get body "messages").truthy = true → checkCreditByUserId env (.ok (some b)) body = .ok .accepted →
        ∃ fees minimum, chargedFees env body = .ok fees ∧ minimumCost env = .ok minimum ∧
          max (paid.callCost + fees) minimum ≤ b) := by
  obtain ⟨d, hd, herror₀, hbody⟩ := exists_init hpaid isStream
  constructor
  · intro h hmessages hacc
    obtain ⟨d₁, hd₁, h⟩ := h hacc
    cases hd₁.symm.trans hd
    -- one response that is not empty shows the price
    have hrun : [oneTokenResponse].foldl (CreditDeduct.run env.py oneTokenReader) d =
        { d with remoteId := .str "chatcmpl-1", isOfficialUsage := true, usage := oneToken } := by
      apply run_oneToken env.py
      rw [hbody]
      exact hmessages
    have hsame := sameRequest_foldl env.py oneTokenReader d [oneTokenResponse]
    rw [hrun] at hsame
    have htotal := h oneTokenReader [oneTokenResponse] _ hrun.symm herror₀ rfl
    obtain ⟨fees, minimum, hfees, hmin, hle, -⟩ := (totalPrice_iff hpaid hd hsame herror₀ rfl _).1 htotal
    exact ⟨fees, minimum, hfees, hmin, hle⟩
  · intro h hacc
    refine ⟨d, hd, ?_⟩
    rintro rd responses d' rfl herror hempty
    cases hmessages : (Dict.get body "messages").truthy with
    | false =>
      -- nothing is read, and what is not read counts as empty
      rw [← hbody] at hmessages
      rw [foldl_run_of_no_messages hmessages] at hempty
      simp only [CreditDeduct.init, bind_eq_ok] at hd
      obtain ⟨price', -, hd⟩ := hd
      cases hd
      cases hempty
    | true =>
      obtain ⟨fees, minimum, hfees, hmin, hle⟩ := h hmessages hacc
      exact (totalPrice_iff hpaid hd (sameRequest_foldl env.py rd d responses) herror hempty
        fun total => total ≤ b ∧ Ledger.covers (-total) b = true).2
          ⟨fees, minimum, hfees, hmin, hle, covers_of_le hle⟩

/-- The debit always goes through exactly when the request is covered or has no messages. -/
theorem check_covers_charge_iff (env : Env) (limit : Nat) (body : Dict) (isStream : Bool) (least : ℚ) :
    (∀ b, least ≤ b → ChargeFits env limit body isStream b) ↔
      ((Dict.get body "messages").truthy = true → Covered env limit body least) := by
  constructor
  · intro h hmessages price paid hprice hpaid
    have hfits := fun b hb => (chargeFits_iff hpaid isStream).1 (h b hb) hmessages
    constructor
    · -- a free request passes with the least balance
      intro hfree
      have hacc := (check_accepted_iff (b := least)).2 ⟨price, hprice, Or.inl hfree⟩
      obtain ⟨fees, minimum, hfees, hmin, hle⟩ := hfits least le_rfl hacc
      exact ⟨fees, minimum, hfees, hmin, (le_max_left _ _).trans hle, (le_max_right _ _).trans hle⟩
    -- any other passes with exactly what is required
    intro hfree checked minimum hchecked hmin
    have hacc := check_accepted_iff.2 ⟨price, hprice, Or.inr ⟨hfree, checked, minimum, hchecked, hmin,
      le_max_right least _⟩⟩
    obtain ⟨fees, minimum', hfees, hmin', hle⟩ := hfits _ (le_max_left least _) hacc
    refine ⟨fees, hfees, ?_⟩
    have hcost := (le_max_left _ _).trans hle
    simp only [le_max_iff] at hcost ⊢
    rcases hcost with hleast | hcredit | hsum | hminimum
    · exact Or.inr (Or.inl hleast)
    · exact Or.inr (Or.inr (Or.inl hcredit))
    · exact Or.inl hsum
    · exact Or.inr (Or.inr (Or.inr hminimum))
  · intro hcov b hb
    obtain ⟨paid, hpaid⟩ : ∃ paid, requestedPrice (env.atLimit limit) body = .ok paid := exists_modelPrice _ _ _
    rw [chargeFits_iff hpaid]
    intro hmessages hacc
    obtain ⟨price, hprice, hcase⟩ := check_accepted_iff.1 hacc
    obtain ⟨hfreeCov, hpaidCov⟩ := hcov hmessages price paid hprice hpaid
    rcases hcase with hfree | ⟨hfree, checked, minimum, hchecked, hmin, hle⟩
    · obtain ⟨fees, minimum, hfees, hmin, hcost, hminimum⟩ := hfreeCov hfree
      exact ⟨fees, minimum, hfees, hmin, (max_le hcost hminimum).trans hb⟩
    obtain ⟨fees, hfees, hcost⟩ := hpaidCov hfree checked minimum hchecked hmin
    simp only [max_le_iff] at hle
    obtain ⟨hcredit, hsum, hminimum⟩ := hle
    refine ⟨fees, minimum, hfees, hmin, max_le ?_ hminimum⟩
    rcases hcost with hfee | hroom
    · exact hfee.trans hsum
    · exact hroom.trans (max_le hb (max_le hcredit hminimum))

def sampleEnv : Env where
  py := {
    loads := fun _ => none
    find := fun _ _ => none
    decimal := fun value =>
      match value with
      | .str "0" => some 0
      | .str "1000000" => some 1000000
      | _ => none
    int := fun _ => none
    float := id }
  settings := ⟨true, fun _ => none, ⟨true, "no credit", "1000000", "0", "0", "0", "0", "[]"⟩⟩
  models := [⟨"gpt-4o", none, none⟩]
  recursionLimit := 1000

def sampleBody : Dict :=
  [("model", .str "gpt-4o"),
    ("messages", .arr [.obj [("role", .str "user"), ("content", .str "a cat")]]),
    ("features", .obj [("voice", .bool true)]),
    ("metadata", .obj [("features", .obj [("image_generation", .bool true)])])]

/-- An empty balance passes, and the ledger refuses the one credit. -/
theorem feature_fee_not_covered : checkCreditByUserId sampleEnv (.ok (some 0)) sampleBody = .ok .accepted ∧
      (∃ d, CreditDeduct.init sampleEnv (requestedModel sampleBody) sampleBody true false = .ok d ∧
        (d.run sampleEnv.py oneTokenReader oneTokenResponse).isError = false ∧
        (d.run sampleEnv.py oneTokenReader oneTokenResponse).isEmptyResponse = false ∧
        (d.run sampleEnv.py oneTokenReader oneTokenResponse).totalPrice sampleEnv = .ok 1) ∧
      Ledger.covers (-1) 0 = false := by
  refine ⟨check_accepted_iff.2 ⟨.perCall 0 0, rfl, Or.inl (by decide +kernel)⟩, ⟨_, rfl, ?_⟩, ?_⟩ <;>
    decide +kernel

/-! ## The call price at check and at charge -/

open RyanAI.Lib.Chain

/-- The model that `generate_chat_completion` charges. -/
def upstreamModel (models : List ModelModel) (modelId : Json) : Json :=
  match getModelByIdSync models modelId with
  | none => modelId
  | some m =>
    match m.baseModelId with
    | none => modelId
    | some base => if base = "" then modelId else .str base

def OwnPriceLost (models : List ModelModel) (id : String) : Prop :=
  ∃ m base, getModelByIdSync models (.str id) = some m ∧ m.baseModelId = some base ∧ base ≠ "" ∧
    getModelByIdSync models (.str base) = none ∧ m.ownPrice.call ≠ 0

theorem baseModel_mem {m b : ModelModel} (h : baseModel models m = some b) : b ∈ models := by
  simp only [baseModel] at h
  split at h
  · cases h
  · split at h
    · cases h
    · exact List.mem_of_find?_eq_some h

theorem getModelPrice_of_chainEnd (h : chainEnd (baseModel models) n m = some e) :
    getModelPrice models n (some m) = .ok e.ownPrice := by
  induction n generalizing m with
  | zero => cases h
  | succ n ih =>
    simp only [chainEnd] at h
    simp only [getModelPrice]
    cases hbase : baseModel models m with
    | none =>
      rw [hbase] at h
      cases h
      rfl
    | some base =>
      rw [hbase] at h
      exact ih h

theorem exists_price_of_acyclic (hacyclic : Acyclic (baseModel models)) (row : Option ModelModel) :
    ∃ n price, ∀ limit, n ≤ limit → getModelPrice models limit row = .ok price := by
  cases row with
  | none =>
    refine ⟨0, .perCall 0 0, fun limit _ => ?_⟩
    cases limit <;> rfl
  | some m =>
    obtain ⟨n, e, he⟩ := exists_chainEnd_of_acyclic (fun _ _ h => baseModel_mem h) hacyclic m
    exact ⟨n, e.ownPrice, fun limit hlimit => getModelPrice_of_chainEnd (chainEnd_mono he hlimit)⟩

theorem upstreamModel_cases (models : List ModelModel) (id : String) :
    upstreamModel models (.str id) = .str id ∧ ¬ OwnPriceLost models id ∨
      ∃ m base, getModelByIdSync models (.str id) = some m ∧ m.baseModelId = some base ∧ base ≠ "" ∧
        upstreamModel models (.str id) = .str base := by
  cases hrow : getModelByIdSync models (.str id) with
  | none =>
    refine Or.inl ⟨by simp [upstreamModel, hrow], ?_⟩
    rintro ⟨m, base, hm, -⟩
    cases hm.symm.trans hrow
  | some m =>
    cases hbase : m.baseModelId with
    | none =>
      refine Or.inl ⟨by simp [upstreamModel, hrow, hbase], ?_⟩
      rintro ⟨m', base, hm, hb, -⟩
      cases hm.symm.trans hrow
      cases hb.symm.trans hbase
    | some base =>
      by_cases hempty : base = ""
      · refine Or.inl ⟨by simp [upstreamModel, hrow, hbase, hempty], ?_⟩
        rintro ⟨m', base', hm, hb, hne, -⟩
        cases hm.symm.trans hrow
        cases hb.symm.trans hbase
        exact hne hempty
      · exact Or.inr ⟨m, base, rfl, hbase, hempty, by simp [upstreamModel, hrow, hbase, hempty]⟩

theorem call_eq_iff_of_base {id base : String} {m : ModelModel}
    (hrow : getModelByIdSync models (.str id) = some m) (hbase : m.baseModelId = some base)
    (hne : base ≠ "") {limit : Nat} {checked charged : ModelPrice}
    (hchecked : getModelPrice models (limit + 1) (some m) = .ok checked)
    (hcharged : getModelPrice models limit (getModelByIdSync models (.str base)) = .ok charged) :
    checked.call = charged.call ↔ ¬ OwnPriceLost models id := by
  have hlink : baseModel models m = getModelByIdSync models (.str base) := by
    simp [baseModel, hbase, hne]
  simp only [getModelPrice, hlink] at hchecked
  cases hb : getModelByIdSync models (.str base) with
  | some b =>
    rw [hb] at hcharged hchecked
    -- a registered base model: both lookups go through its row
    cases hchecked.symm.trans hcharged
    apply iff_of_true rfl
    rintro ⟨m', base', hm, hb', -, hnone, -⟩
    cases hm.symm.trans hrow
    cases hb'.symm.trans hbase
    cases hnone.symm.trans hb
  | none =>
    rw [hb] at hcharged hchecked
    cases hchecked
    have hfree : charged.call = 0 := by
      cases limit <;>
        · cases hcharged
          rfl
    rw [hfree]
    constructor
    · rintro hzero ⟨m', base', hm, -, -, -, hown⟩
      cases hm.symm.trans hrow
      exact hown hzero
    · intro hlost
      by_contra hown
      exact hlost ⟨m, base, hrow, hbase, hne, hb, hown⟩

/-- Both lookups return, and agree exactly if the requested model's price is not lost. -/
theorem call_price_agrees_iff {models : List ModelModel} (hacyclic : Acyclic (baseModel models)) (id : String) :
    ∃ n, ∀ (env : Env) (body : Dict) (isStream : Bool), env.models = models → n ≤ env.recursionLimit →
      requestedModel body = .str id →
      ∃ checked d, requestedPrice env body = .ok checked ∧
        CreditDeduct.init env (upstreamModel models (.str id)) body isStream false = .ok d ∧
        (checked.call = d.price.call ↔ ¬ OwnPriceLost models id) := by
  obtain ⟨n₁, checked, h₁⟩ := exists_price_of_acyclic hacyclic (getModelByIdSync models (.str id))
  obtain ⟨n₂, charged, h₂⟩ :=
    exists_price_of_acyclic hacyclic (getModelByIdSync models (upstreamModel models (.str id)))
  refine ⟨max n₁ n₂, ?_⟩
  rintro env body isStream rfl hlimit hmodel
  have hcharged := h₂ env.recursionLimit (by omega)
  refine ⟨checked, _, ?_, by rw [CreditDeduct.init, hcharged]; rfl, ?_⟩
  · rw [requestedPrice, hmodel]
    exact h₁ _ (by omega)
  rcases upstreamModel_cases env.models id with ⟨hsame, hkept⟩ | ⟨m, base, hrow, hbase, hne, hup⟩
  · rw [hsame, h₁ _ (by omega)] at hcharged
    cases hcharged
    exact iff_of_true rfl hkept
  · rw [hup] at hcharged
    -- one more level for the check, since the charge starts one link further on
    have hchecked := h₁ (env.recursionLimit + 1) (by omega)
    rw [hrow] at hchecked
    exact call_eq_iff_of_base hrow hbase hne hchecked hcharged

theorem acyclic_of_no_base (h : ∀ m ∈ models, baseModel models m = none) : Acyclic (baseModel models) := by
  intro a hcycle
  obtain ⟨b, -, hlast⟩ := Relation.TransGen.tail'_iff.1 hcycle
  obtain ⟨c, hfirst, -⟩ := Relation.TransGen.head'_iff.1 hcycle
  have hnone := h a (baseModel_mem hlast)
  rw [hfirst] at hnone
  cases hnone

def presetModels : List ModelModel := [⟨"preset", some "upstream", some ⟨some 5, none⟩⟩]

theorem presetModels_acyclic : Acyclic (baseModel presetModels) := by
  apply acyclic_of_no_base
  intro m hm
  simp only [presetModels, List.mem_singleton] at hm
  subst hm
  rfl

theorem call_price_agrees_preset : Acyclic (baseModel presetModels) ∧
      ∃ n, ∀ (env : Env) (body : Dict) (isStream : Bool), env.models = presetModels →
        n ≤ env.recursionLimit → requestedModel body = .str "preset" →
        ∃ checked d, requestedPrice env body = .ok checked ∧
          CreditDeduct.init env (upstreamModel presetModels (.str "preset")) body isStream false = .ok d ∧
          (checked.call = d.price.call ↔ ¬ OwnPriceLost presetModels "preset") :=
  ⟨presetModels_acyclic, call_price_agrees_iff presetModels_acyclic "preset"⟩

/-- The check reads a call price of five, the charge one of zero. -/
theorem preset_price_lost : ∃ (env : Env) (body : Dict) (checked : ModelPrice) (d : CreditDeduct),
      Acyclic (baseModel env.models) ∧ requestedModel body = .str "preset" ∧
      requestedPrice env body = .ok checked ∧
      CreditDeduct.init env (upstreamModel env.models (.str "preset")) body true false = .ok d ∧
      checked.call = 5 ∧ d.price.call = 0 :=
  ⟨{ sampleEnv with models := presetModels }, [("model", .str "preset")], _, _, presetModels_acyclic,
    rfl, rfl, rfl, rfl, rfl⟩

end RyanAI.Credit.Pricing
