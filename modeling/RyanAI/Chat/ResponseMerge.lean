import RyanAI.Chat.ResponseStream

/-!
# Deltas of one key

Two deltas of one key, one after the other, do the same as a single delta with their texts joined (`reduce_joined`), for
every type of item, every state of its parts and every default of an index. The one exception are deltas on the field
`type` of an item, which change the rules that the next delta goes by.
-/

namespace RyanAI.Chat.ResponseStream

open Lib

variable {repr : Json → String}

variable {result items middle output : List Json} {index : ℚ} {use : Failure}
    {field partType s t deltaType eventType : String} {item data : Dict} {merge : Dict → Dict}

variable {change : Dict → Except Failure Dict}

theorem modifyAt_eq_ok : modifyAt use items index change = .ok result ↔
      ∃ i fields fields', position index items.length = .ok i ∧ copyOf use (items.getD i .null) = .ok fields ∧
        change fields = .ok fields' ∧ result = items.set i (.obj fields') := by
  simp only [modifyAt, bind_eq_ok]
  constructor
  · rintro ⟨i, hi, fields, hf, fields', hc, hr⟩
    exact ⟨i, fields, fields', hi, hf, hc, (Except.ok.inj hr).symm⟩
  · rintro ⟨i, fields, fields', hi, hf, hc, rfl⟩
    exact ⟨i, hi, fields, hf, fields', hc, rfl⟩

theorem length_modifyAt (h : modifyAt use items index change = .ok result) : result.length = items.length := by
  obtain ⟨i, fields, fields', -, -, -, rfl⟩ := modifyAt_eq_ok.1 h
  rw [List.length_set]

theorem position_lt {length i : ℕ} (h : position index length = .ok i) : i < length := by
  rw [position] at h
  split at h
  · cases h
  rename_i hint
  have hnum : (index.num : ℚ) = index := Rat.den_eq_one_iff _ |>.1 (not_not.1 hint)
  split at h
  · rename_i hrange
    cases h
    have h0 : 0 ≤ index.num := Rat.num_nonneg.2 hrange.1
    have h1 : index.num < length := by exact_mod_cast hnum ▸ hrange.2
    omega
  split at h
  · rename_i hrange
    cases h
    have hsum : index + length = ((index.num + length : ℤ) : ℚ) := by
      rw [Int.cast_add, hnum]
      rfl
    rw [hsum, Rat.num_intCast]
    have h0 : index.num < 0 := Rat.num_neg.2 hrange.1
    have h1 : 0 ≤ index.num + length := by exact_mod_cast hsum ▸ hrange.2
    omega
  · cases h

theorem modifyAt_twice {f g both : Dict → Except Failure Dict}
    (hboth : ∀ a b c, f a = .ok b → g b = .ok c → both a = .ok c) (hf : modifyAt use items index f = .ok middle)
    (hg : modifyAt use middle index g = .ok result) :
    modifyAt use items index both = .ok result := by
  have hlength := length_modifyAt hf
  obtain ⟨i, a, b, hi, ha, hb, rfl⟩ := modifyAt_eq_ok.1 hf
  obtain ⟨j, b', c, hj, hb', hc, rfl⟩ := modifyAt_eq_ok.1 hg
  rw [hlength, hi] at hj
  cases hj
  have hlt : i < items.length := position_lt hi
  rw [List.getD_eq_getElem?_getD, List.getElem?_set_self hlt] at hb'
  cases hb'
  rw [modifyAt_eq_ok]
  exact ⟨i, a, c, hi, ha, hboth a b c hb hc, by rw [List.set_set]⟩

theorem padded_eq {filler : Json} (h : ⌊index⌋ < items.length) : padded items index filler = items := by
  have hnone : (⌊index⌋ + 1 - items.length).toNat = 0 := by omega
  rw [padded, hnone, List.replicate_zero, List.append_nil]

theorem lt_length_padded (items : List Json) (index : ℚ) (filler : Json) :
    ⌊index⌋ < (padded items index filler).length := by
  rw [padded, List.length_append, List.length_replicate]
  push_cast
  omega

/-! ## Merging texts -/

theorem deepMerge_twice (current : Json) (s t : String) :
    deepMerge (deepMerge current (.str s)) (.str t) = deepMerge current (.str (s ++ t)) := by
  cases current with
  | str u => rw [deepMerge, deepMerge, deepMerge, String.append_assoc]
  | null => rfl
  | bool b => rfl
  | num q => rfl
  | arr items => rfl
  | obj fields => rfl

theorem deepMerge_ne_null (current : Json) (s : String) : deepMerge current (.str s) ≠ .null := by
  cases current <;> exact Json.noConfusion

theorem mergeValue_twice (key : String) (s t : String) (target : Dict) :
    mergeValue key (.str t) (mergeValue key (.str s) target) = mergeValue key (.str (s ++ t)) target := by
  -- the current value, or the empty text in its place
  have hstr : ∀ (u : String) (d : Dict), mergeValue key (.str u) d =
      Dict.set d key (deepMerge (if Dict.get d key = .null then .str "" else Dict.get d key) (.str u)) := by
    intro u d
    rfl
  have hread : ∀ v, Dict.get (Dict.set target key v) key = v := by
    intro v
    rw [Dict.get, Dict.lookup_set_self, Option.getD_some]
  rw [hstr t, hstr s, hstr (s ++ t), hread, if_neg (deepMerge_ne_null _ _), deepMerge_twice, Dict.set_set]

theorem mergeText_twice (s t : String) (part : Dict) :
    mergeText (.str t) (mergeText (.str s) part) = mergeText (.str (s ++ t)) part := by
  simp only [mergeText, Dict.lookup_set_self, Option.getD_some, deepMerge_twice, Dict.set_set]

theorem mergePart_eq_ok {index : Except Failure ℚ} {item' : Dict} :
    mergePart field partType index merge item = .ok item' ↔
      ∃ parts i parts', partsOf field item = .ok parts ∧ index = .ok i ∧
        modifyAt .attributeError (padded parts i (.obj [("type", .str partType), ("text", .str "")])) i
          (fun part => .ok (merge part)) = .ok parts' ∧
        item' = Dict.set item field (.arr parts') := by
  simp only [mergePart, bind_eq_ok]
  constructor
  · rintro ⟨parts, hp, i, hi, parts', hm, hr⟩
    exact ⟨parts, i, parts', hp, hi, hm, (Except.ok.inj hr).symm⟩
  · rintro ⟨parts, i, parts', hp, hi, hm, rfl⟩
    exact ⟨parts, hp, i, hi, parts', hm, rfl⟩

theorem mergePart_twice {index index' : Except Failure ℚ} {merge' both : Dict → Dict} {middle result : Dict}
    (hindex : ∀ i j, index = .ok i → index' = .ok j → i = j) (hboth : ∀ part, merge' (merge part) = both part)
    (h : mergePart field partType index merge item = .ok middle)
    (h' : mergePart field partType index' merge' middle = .ok result) :
    mergePart field partType index both item = .ok result := by
  obtain ⟨parts, i, parts', hp, hi, hm, rfl⟩ := mergePart_eq_ok.1 h
  obtain ⟨parts₁, j, parts'', hp', hj, hm', rfl⟩ := mergePart_eq_ok.1 h'
  obtain rfl := hindex i j hi hj
  rw [partsOf, Dict.lookup_set_self] at hp'
  cases hp'
  have hlong : ⌊i⌋ < parts'.length := by
    rw [length_modifyAt hm]
    exact lt_length_padded _ _ _
  rw [padded_eq hlong] at hm'
  refine mergePart_eq_ok.2 ⟨parts, i, parts'', hp, hi, modifyAt_twice ?_ hm hm', Dict.set_set _ _ _ _⟩
  intro a b c hb hc
  cases hb
  cases hc
  rw [hboth]

theorem type_mergePart {index : Except Failure ℚ} {item' : Dict} (hfield : field ≠ "type")
    (h : mergePart field partType index merge item = .ok item') :
    item'.lookup "type" = item.lookup "type" := by
  obtain ⟨_, _, _, _, _, _, rfl⟩ := mergePart_eq_ok.1 h
  exact Dict.lookup_set_of_ne _ hfield.symm _

theorem appendArguments_twice {middle result : Dict} (h : appendArguments repr (.str s) item = .ok middle)
    (h' : appendArguments repr (.str t) middle = .ok result) :
    appendArguments repr (.str (s ++ t)) item = .ok result ∧ middle.lookup "type" = item.lookup "type" := by
  cases harguments : (item.lookup "arguments").getD (.str "") with
  | str u =>
    simp only [appendArguments, harguments] at h
    cases h
    simp only [appendArguments, Dict.lookup_set_self, Option.getD_some, Except.ok.injEq, strOf, Dict.set_set] at h'
    simp only [appendArguments, harguments, strOf, ← h', String.append_assoc, true_and]
    exact Dict.lookup_set_of_ne _ (by decide) _
  | null => simp [appendArguments, harguments] at h
  | bool b => simp [appendArguments, harguments] at h
  | num q => simp [appendArguments, harguments] at h
  | arr items => simp [appendArguments, harguments] at h
  | obj fields => simp [appendArguments, harguments] at h

theorem deltaField_ne_type (h : deltaType ≠ "type") : deltaField deltaType ≠ "type" := by
  rw [deltaField]
  split
  · decide
  · exact h

/-- Two deltas on one item are one: the first leaves its type, and the indices are read by both or
neither. -/
theorem deltaItem_twice {contentIndex contentIndex' summaryIndex summaryIndex' : Except Failure ℚ}
    {middle result : Dict} (htype : deltaType ≠ "type")
    (hcontent : ∀ i j, contentIndex = .ok i → contentIndex' = .ok j → i = j)
    (hsummary : ∀ i j, summaryIndex = .ok i → summaryIndex' = .ok j → i = j)
    (h : deltaItem repr deltaType contentIndex summaryIndex (.str s) item = .ok middle)
    (h' : deltaItem repr deltaType contentIndex' summaryIndex' (.str t) middle = .ok result) :
    deltaItem repr deltaType contentIndex summaryIndex (.str (s ++ t)) item = .ok result := by
  simp only [deltaItem] at h h' ⊢
  by_cases harguments : deltaType = "function_call_arguments"
  · simp only [if_pos harguments] at h h' ⊢
    by_cases hcall : (item.lookup "type").getD (.str "") = .str "function_call"
    · rw [if_pos hcall] at h ⊢
      by_cases hcall' : (middle.lookup "type").getD (.str "") = .str "function_call"
      · rw [if_pos hcall'] at h'
        exact (appendArguments_twice h h').1
      exfalso
      rw [appendArguments] at h
      split at h
      · cases h
        rw [Dict.lookup_set_of_ne _ (by decide)] at hcall'
        exact hcall' hcall
      · cases h
    · rw [if_neg hcall] at h ⊢
      cases h
      rw [if_neg hcall] at h'
      exact h'
  · simp only [if_neg harguments] at h h' ⊢
    -- the type of the item decides, and every branch keeps it
    by_cases hmessage : (item.lookup "type").getD (.str "") = .str "message"
    · simp only [if_pos hmessage] at h ⊢
      split at h
      · rename_i hreasoning
        cases h
        rw [if_pos hmessage, if_pos hreasoning] at h'
        rw [if_pos hreasoning]
        exact h'
      · rename_i hreasoning
        rw [type_mergePart (by decide) h, if_pos hmessage, if_neg hreasoning] at h'
        rw [if_neg hreasoning]
        exact mergePart_twice hcontent (mergeValue_twice _ s t) h h'
    · simp only [if_neg hmessage] at h ⊢
      by_cases hreasoning : (item.lookup "type").getD (.str "") = .str "reasoning"
      · simp only [if_pos hreasoning] at h ⊢
        split at h
        · rename_i hsummaryText
          rw [type_mergePart (by decide) h, if_neg hmessage, if_pos hreasoning, if_pos hsummaryText] at h'
          rw [if_pos hsummaryText]
          exact mergePart_twice hsummary (mergeText_twice s t) h h'
        rename_i hsummaryText
        rw [if_neg hsummaryText]
        split at h
        · rename_i htext
          rw [type_mergePart (by decide) h, if_neg hmessage, if_pos hreasoning, if_neg hsummaryText, if_pos htext] at h'
          rw [if_pos htext]
          exact mergePart_twice hcontent (mergeText_twice s t) h h'
        · rename_i htext
          cases h
          rw [if_neg hmessage, if_pos hreasoning, if_neg hsummaryText, if_neg htext] at h'
          rw [if_neg htext]
          exact h'
      · simp only [if_neg hreasoning] at h ⊢
        cases h
        have hkept : (mergeValue (deltaField deltaType) (.str s) item).lookup "type" = item.lookup "type" :=
          Dict.lookup_set_of_ne _ (deltaField_ne_type htype).symm _
        rw [hkept, if_neg hmessage, if_neg hreasoning, mergeValue_twice] at h'
        exact h'

/-! ## Two deltas of one key -/

/-- `==` on what `get_response_delta_key` returns. -/
def keyEqv : Option DeltaKey → Option DeltaKey → Bool
  | none, none => true
  | some a, some b => a.eqv b
  | _, _ => false

theorem number_of_eqv {v w : Json} {q : ℚ} (h : v.eqv w = true) (hv : v.number = some q) : w.number = some q := by
  cases v with
  | bool b =>
    rw [Json.eqv, beq_iff_eq] at h
    exact h.trans hv
  | num r =>
    rw [Json.eqv, beq_iff_eq] at h
    exact h.trans hv
  | null => cases hv
  | str s => cases hv
  | arr items => cases hv
  | obj fields => cases hv

theorem eq_null_of_eqv {v : Json} (h : Json.null.eqv v = true) : v = .null := by
  cases v with
  | null => rfl
  | _ => simp [Json.eqv] at h

theorem indexOr_eq_ok {default i : ℚ} (h : indexOr data field default = .ok i) :
    (data.lookup field = none ∧ default = i) ∨ (Dict.get data field).number = some i := by
  rw [indexOr] at h
  rw [Dict.get]
  split at h
  · rename_i hnone
    exact .inl ⟨hnone, Except.ok.inj h⟩
  rename_i value hvalue
  rw [hvalue, Option.getD_some]
  split at h
  · rename_i q hq
    cases h
    exact .inr hq
  · cases h

theorem indexOr_agree {a b : Dict} {d d' i j : ℚ} (heqv : (Dict.get a field).eqv (Dict.get b field) = true)
    (hd : a.lookup field = none → d = d') (ha : indexOr a field d = .ok i) (hb : indexOr b field d' = .ok j) :
    i = j := by
  have hnull : ∀ {data : Dict}, data.lookup field = none → Dict.get data field = .null := by
    intro data h
    rw [Dict.get, h, Option.getD_none]
  rcases indexOr_eq_ok ha with ⟨hna, rfl⟩ | hi
  · rcases indexOr_eq_ok hb with ⟨-, rfl⟩ | hj
    · exact hd hna
    · rw [hnull hna] at heqv
      rw [eq_null_of_eqv heqv] at hj
      cases hj
  · have hj' := number_of_eqv heqv hi
    rcases indexOr_eq_ok hb with ⟨hnb, -⟩ | hj
    · rw [hnull hnb] at hj'
      cases hj'
    · rw [hj'] at hj
      exact Option.some.inj hj

theorem lt_of_floor_lt {q : ℚ} {n : ℕ} (h : ⌊q⌋ < n) : q < n := by
  have hnext : ((⌊q⌋ + 1 : ℤ) : ℚ) ≤ n := by exact_mod_cast h
  refine lt_of_lt_of_le ?_ hnext
  push_cast
  exact Int.lt_floor_add_one q

theorem startItem_eq_ok {started : List Json} (h : startItem deltaType data index output = .ok started) :
    index < started.length ∧ (index < output.length → started = output) := by
  rw [startItem] at h
  split at h
  · rename_i hlt
    cases h
    exact ⟨hlt, fun _ => rfl⟩
  · rename_i hge
    refine ⟨?_, fun hlt => absurd hlt hge⟩
    rw [length_modifyAt h]
    exact lt_of_floor_lt (lt_length_padded _ _ _)

theorem deltaOutput_eq_ok : deltaOutput repr deltaType data output = .ok result ↔
      ∃ index started, indexOr data "output_index" ((output.length - 1 : ℕ) : ℚ) = .ok index ∧
        startItem deltaType data index output = .ok started ∧
        (if 0 ≤ index ∧ index < started.length then
          modifyAt .attributeError started index
            (deltaItem repr deltaType (indexOr data "content_index" 0) (indexOr data "summary_index" 0)
              (deltaOf data))
        else .ok started) = .ok result := by
  simp only [deltaOutput, bind_eq_ok]
  constructor
  · rintro ⟨index, hi, started, hs, hm⟩
    exact ⟨index, started, hi, hs, hm⟩
  · rintro ⟨index, started, hi, hs, hm⟩
    exact ⟨index, hi, started, hs, hm⟩

theorem last_index {started : List Json}
    (h : startItem deltaType data ((output.length - 1 : ℕ) : ℚ) output = .ok started) :
    started.length - 1 = output.length - 1 := by
  cases output with
  | nil =>
    rw [startItem, if_neg (by simp)] at h
    rw [length_modifyAt h]
    simp [padded]
  | cons item rest =>
    rw [(startItem_eq_ok h).2 (by simp)]

theorem deltaOutput_twice {first second : Dict} (htype : deltaType ≠ "type")
    (hindex : ∀ field ∈ ["output_index", "content_index", "summary_index"],
      (Dict.get first field).eqv (Dict.get second field) = true) (hs : deltaOf first = .str s)
    (ht : deltaOf second = .str t) (h : deltaOutput repr deltaType first output = .ok middle)
    (h' : deltaOutput repr deltaType second middle = .ok result) :
    deltaOutput repr deltaType (Dict.set first "delta" (.str (s ++ t))) output = .ok result := by
  obtain ⟨index, started, hi, hstart, hm⟩ := deltaOutput_eq_ok.1 h
  obtain ⟨index', started', hi', hstart', hm'⟩ := deltaOutput_eq_ok.1 h'
  have hlength : middle.length = started.length := by
    split at hm
    · exact length_modifyAt hm
    · cases hm
      rfl
  have hbelow := (startItem_eq_ok hstart).1
  -- both deltas mean the same item, also where neither says which
  obtain rfl : index = index' := by
    refine indexOr_agree (hindex _ (by simp)) ?_ hi hi'
    intro hnone
    rw [indexOr, hnone] at hi
    cases hi
    rw [hlength, last_index hstart]
  obtain rfl : started' = middle := (startItem_eq_ok hstart').2 (by rw [hlength]; exact hbelow)
  have hread : ∀ field d, field ≠ "delta" →
      indexOr (Dict.set first "delta" (.str (s ++ t))) field d = indexOr first field d := by
    intro field d hne
    rw [indexOr, indexOr, Dict.lookup_set_of_ne _ hne]
  have hstarted : startItem deltaType (Dict.set first "delta" (.str (s ++ t))) index output = .ok started := by
    rw [← hstart, startItem, startItem, Dict.get, Dict.get, Dict.lookup_set_of_ne _ (by decide)]
  refine deltaOutput_eq_ok.2 ⟨index, started, ?_, hstarted, ?_⟩
  · rw [hread _ _ (by decide)]
    exact hi
  rw [hread _ _ (by decide), hread _ _ (by decide), deltaOf, Dict.lookup_set_self, Option.getD_some]
  rw [hlength] at hm'
  by_cases hrange : 0 ≤ index ∧ index < started.length
  · rw [if_pos hrange, hs] at hm
    rw [if_pos hrange, ht] at hm'
    rw [if_pos hrange]
    refine modifyAt_twice ?_ hm hm'
    intro item item₁ item₂ h₁ h₂
    exact deltaItem_twice htype (fun i j => indexOr_agree (hindex _ (by simp)) (fun _ => rfl))
      (fun i j => indexOr_agree (hindex _ (by simp)) (fun _ => rfl)) h₁ h₂
  · rw [if_neg hrange] at hm hm' ⊢
    cases hm
    exact hm'

/-! ## Two events of one key -/

def deltaTypeOf (data : Dict) : Option String :=
  match typeOf data with
  | .ok eventType =>
    match components eventType with
    | _ :: deltaType :: _ :: _ => some deltaType
    | _ => none
  | .error _ => none

theorem not_done_of_delta (h : endsWith eventType ".delta" = true) : endsWith eventType ".done" = false := by
  rw [Bool.eq_false_iff]
  intro hdone
  obtain ⟨u, hu⟩ := List.isSuffixOf_iff_suffix.1 h
  obtain ⟨v, hv⟩ := List.isSuffixOf_iff_suffix.1 hdone
  have hlast := congrArg List.getLast? (hu.trans hv.symm)
  rw [List.getLast?_append, List.getLast?_append] at hlast
  revert hlast
  simp

/-- An event of a type that ends in `.delta` does what its delta does. -/
theorem reduce_delta (htype : typeOf data = .ok eventType) (hdelta : endsWith eventType ".delta" = true)
    (output : List Json) :
    reduce repr output data =
      if startsWith eventType "response." then
        match components eventType with
        | _ :: deltaType :: _ :: _ => deltaOutput repr deltaType data output
        | _ => .ok output
      else .ok output := by
  have hne : ∀ t, endsWith t ".delta" = false → eventType ≠ t := by
    rintro t ht rfl
    rw [hdelta] at ht
    cases ht
  have hdone : isResponse eventType ".done" = false := by
    rw [isResponse, not_done_of_delta hdelta, Bool.and_false]
  rw [reduce, handle, htype]
  simp only [Except.bind, bind, pure, Except.pure]
  rw [if_neg (hne _ (by decide)), if_neg (hne _ (by decide)), if_neg (hne _ (by decide)), isResponse, hdelta,
    Bool.and_true]
  by_cases hresponse : startsWith eventType "response." = true
  · rw [if_pos hresponse, if_pos hresponse]
    rcases components eventType with _ | ⟨_, _ | ⟨deltaType, _ | ⟨_, _⟩⟩⟩
    · rfl
    · rfl
    · rfl
    · cases hout : deltaOutput repr deltaType data output with
      | error e => simp only [hout]
      | ok result => simp only [hout]
  · rw [if_neg hresponse, if_neg hresponse, if_neg (hne _ (by decide)), hdone, if_neg (by decide),
      if_neg (hne _ (by decide)), if_neg (hne _ (by decide)), if_neg (hne _ (by decide))]

/-- For the types that end in `.delta`. -/
theorem getResponseDeltaKey_delta (htype : typeOf data = .ok eventType) (hdelta : endsWith eventType ".delta" = true) :
    getResponseDeltaKey data = .ok
      (if startsWith eventType "response." then
        some ⟨eventType, Dict.get data "item_id", Dict.get data "output_index", Dict.get data "content_index",
          Dict.get data "summary_index"⟩
      else none) := by
  rw [getResponseDeltaKey, htype]
  simp only [Except.bind, bind, pure, Except.pure, isResponse, hdelta, Bool.and_true]
  split <;> rfl

theorem typeOf_set_delta (data : Dict) (value : Json) : typeOf (Dict.set data "delta" value) = typeOf data := by
  rw [typeOf, typeOf, Dict.lookup_set_of_ne _ (by decide)]

theorem getResponseDeltaKey_set_delta (data : Dict) (value : Json) :
    getResponseDeltaKey (Dict.set data "delta" value) = getResponseDeltaKey data := by
  have hget : ∀ field, field ≠ "delta" → Dict.get (Dict.set data "delta" value) field = Dict.get data field := by
    intro field hne
    rw [Dict.get, Dict.get, Dict.lookup_set_of_ne _ hne]
  rw [getResponseDeltaKey, getResponseDeltaKey, typeOf_set_delta, hget _ (by decide), hget _ (by decide),
    hget _ (by decide), hget _ (by decide)]

theorem deltaTypeOf_set_delta (data : Dict) (value : Json) :
    deltaTypeOf (Dict.set data "delta" value) = deltaTypeOf data := by
  rw [deltaTypeOf, deltaTypeOf, typeOf_set_delta]

theorem deltaOf_of_lookup {event : Dict} {text : String} (h : event.lookup "delta" = some (.str text)) :
    deltaOf event = .str text := by
  rw [deltaOf, h, Option.getD_some]

theorem reduce_joined {first second : Dict} {eventType' : String} {key key' : Option DeltaKey}
    (hfirst : typeOf first = .ok eventType) (hsecond : typeOf second = .ok eventType')
    (hdelta : endsWith eventType ".delta" = true) (hdelta' : endsWith eventType' ".delta" = true)
    (hkey : getResponseDeltaKey first = .ok key) (hkey' : getResponseDeltaKey second = .ok key')
    (heqv : keyEqv key key' = true) (htype : deltaTypeOf first ≠ some "type") (hs : deltaOf first = .str s)
    (ht : deltaOf second = .str t) (h : reduce repr output first = .ok middle)
    (h' : reduce repr middle second = .ok result) :
    reduce repr output (Dict.set first "delta" (.str (s ++ t))) = .ok result := by
  rw [getResponseDeltaKey_delta hfirst hdelta, Except.ok.injEq] at hkey
  rw [getResponseDeltaKey_delta hsecond hdelta', Except.ok.injEq] at hkey'
  rw [reduce_delta hfirst hdelta] at h
  rw [reduce_delta hsecond hdelta'] at h'
  rw [reduce_delta ((typeOf_set_delta _ _).trans hfirst) hdelta]
  by_cases hresponse : startsWith eventType "response." = true
  · rw [if_pos hresponse] at hkey h ⊢
    subst hkey
    by_cases hresponse' : startsWith eventType' "response." = true
    · rw [if_pos hresponse'] at hkey' h'
      subst hkey'
      simp only [keyEqv, DeltaKey.eqv, Bool.and_eq_true, beq_iff_eq] at heqv
      obtain ⟨⟨⟨⟨rfl, -⟩, hout⟩, hcontent⟩, hsummary⟩ := heqv
      rw [deltaTypeOf, hfirst] at htype
      rcases hcomponents : components eventType with _ | ⟨_, _ | ⟨deltaType, _ | ⟨_, _⟩⟩⟩ <;>
        simp only [hcomponents] at h h' htype ⊢
      · cases h
        exact h'
      · cases h
        exact h'
      · cases h
        exact h'
      · refine deltaOutput_twice (fun heq => htype (congrArg some heq)) ?_ hs ht h h'
        simpa using ⟨hout, hcontent, hsummary⟩
    · rw [if_neg hresponse'] at hkey'
      subst hkey'
      cases heqv
  · rw [if_neg hresponse] at hkey h ⊢
    subst hkey
    cases h
    by_cases hresponse' : startsWith eventType' "response." = true
    · rw [if_pos hresponse'] at hkey'
      subst hkey'
      cases heqv
    · rw [if_neg hresponse'] at h'
      exact h'

end RyanAI.Chat.ResponseStream
