import RyanAI.Lib.Json
import RyanAI.Lib.OrderedMap

/-!
# The usage of several model calls

`normalize_usage` and `merge_usage` of `utils/response.py`. A record of usage is whatever a provider has sent; counters
are read under the names that the providers have for them and kept under one name each. In whatever order and grouping
records are merged, the tokens are the sums of what they say, and the result is marked as incomplete where one of them
was, or where several were merged and one lacks a counter (`usage_adds_up`). A counter that normalising has not found is
not there under any of its names afterwards (`Normal`), so that no later merge finds it.
-/

namespace RyanAI.Chat.Usage

open Lib

/-! ## Records -/

/-- A dictionary of usage. -/
abbrev Record := KeyedTable String Json

/-- `record.get(key)`. -/
def valueOf (record : Record) (key : String) : Json := (record.get key).getD .null

/-- Set the keys that have a value, one after the other. -/
def assign (record : Record) (writes : List (String × Option Json)) : Record :=
  writes.foldl (fun record write => (write.2.map fun value => record.set write.1 value).getD record) record

/-! ## `normalize_usage` -/

/-- `usage_counter`; `int` is the conversion of a text, `none` if it raises. A float is cut off. -/
def usageCounter (int : String → Option ℤ) : Json → Option ℕ
  | .num q => if 0 ≤ q.num.tdiv q.den then some (q.num.tdiv q.den).toNat else none
  | .str s => ((int s).filter (0 ≤ ·)).map Int.toNat
  | .null | .bool _ | .arr _ | .obj _ => none

/-- The first of the keys that has a counter. -/
def firstCounter (int : String → Option ℤ) (usage : Record) (keys : List String) : Option ℕ :=
  keys.findSome? fun key => usageCounter int (valueOf usage key)

def counted (n : ℕ) : Json := .num n

/-- Pop the key, and set it again if there is a value. -/
def replace (record : Record) (key : String) (value : Option ℕ) : Record :=
  assign (record.delete key) [(key, value.map counted)]

/-- `aliases` of `normalize_usage`. -/
def aliases : List (String × List String) :=
  [("input_tokens", ["input_tokens", "prompt_tokens", "prompt_eval_count"]),
    ("output_tokens", ["output_tokens", "completion_tokens", "eval_count", "predicted_n"]),
    ("total_tokens", ["total_tokens"])]

/-- The prompt tokens and those from the cache, as `llama.cpp` has them. -/
def promptCounter (int : String → Option ℤ) (usage : Record) : Option ℕ :=
  (usageCounter int (valueOf usage "prompt_n")).map fun prompt =>
    prompt + (usageCounter int (valueOf usage "cache_n")).getD 0

/-- The sum of the two counters, if both are there. -/
def totalOf (record : Record) : Option Json :=
  match record.get "input_tokens", record.get "output_tokens" with
  | some input, some output => some (.num (input.number.getD 0 + output.number.getD 0))
  | _, _ => none

/-- `normalize_usage`. -/
def normalizeUsage (int : String → Option ℤ) (usage : Record) : Record :=
  if usage.entries = [] then .empty
  else
    let result := aliases.foldl (fun result entry => replace result entry.1 (firstCounter int usage entry.2)) usage
    let result :=
      if (result.get "input_tokens").isNone then
        assign result [("input_tokens", (promptCounter int usage).map counted)]
      else result
    let result :=
      if (result.get "total_tokens").isNone then assign result [("total_tokens", totalOf result)] else result
    ["prompt_tokens", "completion_tokens"].foldl
      (fun result key => replace result key (usageCounter int (valueOf usage key))) result

/-! ## `merge_usage` -/

def usageTokenKeys : List String :=
  ["input_tokens", "output_tokens", "total_tokens", "cache_read_input_tokens", "cache_creation_input_tokens"]

def usageCostKeys : List String := ["cost", "total_cost", "input_cost", "output_cost", "prompt_cost", "completion_cost"]

def usageSummableKeys : List String := usageTokenKeys ++ usageCostKeys

def usageDetailKeys : List String :=
  ["prompt_tokens_details", "completion_tokens_details", "input_tokens_details", "output_tokens_details"]

/-- `_is_numeric_usage_value`, with the number. -/
def numeric : Json → Option ℚ
  | .num q => some q
  | _ => none

/-- The sum of two values, where what is no number counts as zero; `none` if neither is one. `plus` is `+`. -/
def sumNumeric (plus : ℚ → ℚ → ℚ) (current incoming : Json) : Option Json :=
  if (numeric current).isSome || (numeric incoming).isSome then
    some (.num (plus ((numeric current).getD 0) ((numeric incoming).getD 0)))
  else none

theorem sizeOf_lookup {record fields : Dict} {key : String} (h : (record.lookup key).getD (.num 0) = .obj fields) :
    sizeOf fields < sizeOf record := by
  cases hlookup : record.lookup key with
  | none =>
    rw [hlookup] at h
    cases h
  | some value =>
    rw [hlookup, Option.getD_some] at h
    subst h
    have hmem := List.sizeOf_lt_of_mem (Dict.mem_of_lookup hlookup)
    simp only [Prod.mk.sizeOf_spec, Json.obj.sizeOf_spec] at hmem
    omega

theorem sizeOf_nil_le (record : Dict) : sizeOf ([] : Dict) ≤ sizeOf record := by
  cases record with
  | nil => exact le_rfl
  | cons entry rest =>
    simp only [List.nil.sizeOf_spec, List.cons.sizeOf_spec]
    omega

/-- `_merge_numeric_usage_map`. -/
def mergeNumericUsageMap (plus : ℚ → ℚ → ℚ) (current incoming : Dict) : Dict :=
  (current ++ incoming).foldl (fun result entry =>
    -- a key that one side lacks counts as zero there
    let merged : Option Json :=
      match _hcurrent : (current.lookup entry.1).getD (.num 0), _hincoming : (incoming.lookup entry.1).getD (.num 0) with
      | .obj currentFields, .obj incomingFields => some (.obj (mergeNumericUsageMap plus currentFields incomingFields))
      | .obj currentFields, _ => some (.obj (mergeNumericUsageMap plus currentFields []))
      | _, .obj incomingFields => some (.obj (mergeNumericUsageMap plus [] incomingFields))
      | currentValue, incomingValue => sumNumeric plus currentValue incomingValue
    (merged.map fun value => Dict.set result entry.1 value).getD result) (Dict.update current incoming)
termination_by sizeOf current + sizeOf incoming
decreasing_by
  · have := sizeOf_lookup _hcurrent
    have := sizeOf_lookup _hincoming
    omega
  · have := sizeOf_lookup _hcurrent
    have := sizeOf_nil_le incoming
    omega
  · have := sizeOf_lookup _hincoming
    have := sizeOf_nil_le current
    omega

/-- The members of a value that is a dictionary. -/
def fieldsOf : Json → Dict
  | .obj fields => fields
  | _ => []

def isDict : Json → Bool
  | .obj _ => true
  | _ => false

/-- What the loop over `USAGE_SUMMABLE_KEYS` sets a key to. -/
def summed (plus : ℚ → ℚ → ℚ) (current incoming : Record) (key : String) : Option Json :=
  if (current.get key).isSome || (incoming.get key).isSome then
    sumNumeric plus ((current.get key).getD (.num 0)) ((incoming.get key).getD (.num 0))
  else none

/-- What the loop over `USAGE_DETAIL_KEYS` sets a key to. -/
def details (plus : ℚ → ℚ → ℚ) (current incoming : Record) (key : String) : Option Json :=
  if isDict (valueOf current key) || isDict (valueOf incoming key) then
    some (.obj (mergeNumericUsageMap plus (fieldsOf (valueOf current key)) (fieldsOf (valueOf incoming key))))
  else none

/-- The record is marked as incomplete. -/
def marked (record : Record) : Bool := (valueOf record "incomplete").truthy

/-- One of the two counters is missing. -/
def lacking (record : Record) : Bool := (record.get "input_tokens").isNone || (record.get "output_tokens").isNone

/-- `merge_usage` for two records that are normalised and not empty. -/
def mergeRecords (plus : ℚ → ℚ → ℚ) (currentUsage incomingUsage : Record) : Record :=
  let result := (currentUsage.update incomingUsage).set "incomplete"
    (.bool (marked currentUsage || marked incomingUsage || (lacking currentUsage || lacking incomingUsage)))
  let result := assign result (usageSummableKeys.map fun key => (key, summed plus currentUsage incomingUsage key))
  let result := assign result (usageDetailKeys.map fun key => (key, details plus currentUsage incomingUsage key))
  -- the aliases keep the latest call's size
  assign result
    [("prompt_tokens", incomingUsage.get "input_tokens"), ("completion_tokens", incomingUsage.get "output_tokens")]

/-- `merge_usage`. -/
def mergeUsage (int : String → Option ℤ) (plus : ℚ → ℚ → ℚ) (current incoming : Option Record) : Record :=
  let currentUsage := normalizeUsage int (current.getD .empty)
  let incomingUsage := normalizeUsage int (incoming.getD .empty)
  if incomingUsage.entries = [] then currentUsage
  else if currentUsage.entries = [] then incomingUsage
  else mergeRecords plus currentUsage incomingUsage

/-! ## Reading a record -/

variable {int : String → Option ℤ} {plus : ℚ → ℚ → ℚ} {record usage current incoming : Record} {key : String}
  {records : List Record}

inductive Side where
  | input
  | output

/-- The name under which a counter is kept. -/
def Side.target : Side → String
  | .input => "input_tokens"
  | .output => "output_tokens"

/-- What normalising finds for a counter. -/
def Side.read (int : String → Option ℤ) (record : Record) : Side → Option ℕ
  | .input => (firstCounter int record ["input_tokens", "prompt_tokens", "prompt_eval_count"]).or
      (promptCounter int record)
  | .output => firstCounter int record ["output_tokens", "completion_tokens", "eval_count", "predicted_n"]

/-- The total, as normalising finds it. -/
def readTotal (int : String → Option ℤ) (record : Record) : Option ℕ :=
  (usageCounter int (valueOf record "total_tokens")).or <|
    (Side.input.read int record).bind fun input => (Side.output.read int record).map fun output => input + output

theorem usageCounter_counted (n : ℕ) : usageCounter int (counted n) = some n := by
  simp [usageCounter, counted]

theorem get_assign_of_not_mem {writes : List (String × Option Json)} (h : key ∉ writes.map Prod.fst) :
    (assign record writes).get key = record.get key := by
  induction writes generalizing record with
  | nil => rfl
  | cons write rest ih =>
    rw [List.map_cons, List.mem_cons, not_or] at h
    rw [assign, List.foldl_cons]
    refine (ih h.2).trans ?_
    cases write.2 with
    | none => rfl
    | some value => rw [Option.map_some, Option.getD_some, KeyedTable.get_set, if_neg h.1]

/-- A loop that sets keys by a function: the value does not depend on which other keys there are. -/
theorem get_assign_map (f : String → Option Json) (keys : List String) :
    (assign record (keys.map fun key => (key, f key))).get key =
      if key ∈ keys then (f key).or (record.get key) else record.get key := by
  induction keys generalizing record with
  | nil => rfl
  | cons first rest ih =>
    rw [List.map_cons, assign, List.foldl_cons]
    refine ih.trans ?_
    by_cases hfirst : key = first
    · subst hfirst
      rw [if_pos List.mem_cons_self]
      cases hvalue : f key with
      | none => simp
      | some value => simp
    · have hget : (((f first).map fun value => record.set first value).getD record).get key = record.get key := by
        cases f first with
        | none => rfl
        | some value => rw [Option.map_some, Option.getD_some, KeyedTable.get_set, if_neg hfirst]
      simp only [hget, List.mem_cons, hfirst, false_or]

theorem get_assign_single (value : Option Json) :
    (assign record [(key, value)]).get key = value.or (record.get key) := by
  cases value with
  | none => rfl
  | some value =>
    show (record.set key value).get key = some value
    rw [KeyedTable.get_set, if_pos rfl]

theorem get_replace (key' : String) (value : Option ℕ) :
    (replace record key value).get key' = if key' = key then value.map counted else record.get key' := by
  rw [replace]
  by_cases hkey : key' = key
  · subst hkey
    rw [if_pos rfl, get_assign_single, KeyedTable.get_delete, if_pos rfl, Option.or_none]
  · rw [if_neg hkey, get_assign_of_not_mem (by simpa using hkey), KeyedTable.get_delete, if_neg hkey]

theorem get_ifNone (value : Option Json) (key' : String) :
    (if (record.get key).isNone then assign record [(key, value)] else record).get key' =
      if key' = key then (record.get key).or value else record.get key' := by
  by_cases hnone : (record.get key).isNone = true
  · rw [if_pos hnone]
    by_cases hkey : key' = key
    · subst hkey
      rw [if_pos rfl, get_assign_single, Option.isNone_iff_eq_none.1 hnone, Option.or_none, Option.none_or]
    · rw [if_neg hkey, get_assign_of_not_mem (by simpa using hkey)]
  · rw [if_neg hnone]
    split
    · rename_i hkey
      obtain ⟨old, hold⟩ := Option.ne_none_iff_exists'.1 fun hget => hnone (Option.isNone_iff_eq_none.2 hget)
      rw [hkey, hold, Option.some_or]
    · rfl

theorem map_counted_or (a b : Option ℕ) : (a.map counted).or (b.map counted) = (a.or b).map counted := by
  cases a <;> rfl

/-- What normalising makes of each key. -/
theorem get_normalizeUsage (h : usage.entries ≠ []) (key : String) : (normalizeUsage int usage).get key =
      if key = "completion_tokens" then (usageCounter int (valueOf usage "completion_tokens")).map counted
      else if key = "prompt_tokens" then (usageCounter int (valueOf usage "prompt_tokens")).map counted
      else if key = "total_tokens" then (readTotal int usage).map counted
      else if key = "output_tokens" then (Side.output.read int usage).map counted
      else if key = "input_tokens" then (Side.input.read int usage).map counted
      else usage.get key := by
  rw [normalizeUsage, if_neg h]
  -- the keys of `aliases`
  obtain ⟨first, hfirst⟩ : ∃ first, first =
      aliases.foldl (fun result entry => replace result entry.1 (firstCounter int usage entry.2)) usage := ⟨_, rfl⟩
  have hget : ∀ key, first.get key =
      if key = "total_tokens" then (usageCounter int (valueOf usage "total_tokens")).map counted
      else if key = "output_tokens" then (Side.output.read int usage).map counted
      else if key = "input_tokens" then
        (firstCounter int usage ["input_tokens", "prompt_tokens", "prompt_eval_count"]).map counted
      else usage.get key := by
    intro key
    have htotal : firstCounter int usage ["total_tokens"] = usageCounter int (valueOf usage "total_tokens") := by
      rw [firstCounter, List.findSome?_cons]
      cases usageCounter int (valueOf usage "total_tokens") <;> rfl
    simp only [hfirst, aliases, List.foldl_cons, List.foldl_nil, get_replace, htotal]
    rfl
  -- the prompt tokens of `llama.cpp`, and the total
  obtain ⟨second, hsecond⟩ : ∃ second, second =
      if (first.get "input_tokens").isNone then
        assign first [("input_tokens", (promptCounter int usage).map counted)]
      else first := ⟨_, rfl⟩
  have hget' : ∀ key, second.get key =
      if key = "input_tokens" then (Side.input.read int usage).map counted else first.get key := by
    intro key
    rw [hsecond, get_ifNone, hget "input_tokens"]
    simp only [String.reduceEq, if_false, if_true, map_counted_or]
    rfl
  have htotal : totalOf second =
      ((Side.input.read int usage).bind fun input => (Side.output.read int usage).map fun output =>
        input + output).map counted := by
    rw [totalOf, hget' "input_tokens", hget' "output_tokens", hget "output_tokens"]
    simp only [String.reduceEq, if_false, if_true]
    cases Side.input.read int usage with
    | none => rfl
    | some input =>
      cases Side.output.read int usage with
      | none => rfl
      | some output => simp [counted, Json.number]
  obtain ⟨third, hthird⟩ : ∃ third, third =
      if (second.get "total_tokens").isNone then assign second [("total_tokens", totalOf second)] else second := ⟨_, rfl⟩
  have hget'' : ∀ key, third.get key =
      if key = "total_tokens" then (readTotal int usage).map counted else second.get key := by
    intro key
    rw [hthird, get_ifNone, hget' "total_tokens", hget "total_tokens", htotal]
    simp only [String.reduceEq, if_false, if_true, map_counted_or]
    rfl
  simp only [← hfirst, ← hsecond, ← hthird, List.foldl_cons, List.foldl_nil]
  simp only [get_replace, hget'', hget', hget]
  by_cases houtput : key = "output_tokens"
  · simp only [houtput, String.reduceEq, if_false, if_true]
  · by_cases hinput : key = "input_tokens"
    · simp only [hinput, String.reduceEq, if_false, if_true]
    · simp only [houtput, hinput, if_false]
      split_ifs <;> rfl

/-! ## Normal records -/

/-- The names under which a counter is looked for, the one under which it is kept first. -/
def Side.sources : Side → List String
  | .input => ["input_tokens", "prompt_tokens", "prompt_eval_count", "prompt_n"]
  | .output => ["output_tokens", "completion_tokens", "eval_count", "predicted_n"]

variable {side : Side}

theorem read_eq_none_iff :
    side.read int record = none ↔ ∀ key ∈ side.sources, usageCounter int (valueOf record key) = none := by
  cases side with
  | input =>
    simp [Side.read, Side.sources, firstCounter, promptCounter, Option.or_eq_none_iff, and_assoc]
  | output => simp [Side.read, Side.sources, firstCounter]

/-- The counter under its own name comes first. -/
theorem read_of_target {n : ℕ} (h : record.get side.target = some (counted n)) : side.read int record = some n := by
  have hcounter : usageCounter int (valueOf record side.target) = some n := by
    rw [valueOf, h]
    exact usageCounter_counted n
  cases side with
  | input =>
    rw [Side.target] at hcounter
    rw [Side.read, firstCounter, List.findSome?_cons, hcounter]
    rfl
  | output =>
    rw [Side.target] at hcounter
    rw [Side.read, firstCounter, List.findSome?_cons, hcounter]

/-- Each counter is there under its own name, if it is there under any. -/
def Normal (int : String → Option ℤ) (record : Record) : Prop :=
  ∀ side : Side, record.get side.target = (side.read int record).map counted

theorem entries_eq_nil_iff : record.entries = [] ↔ ∀ key, record.get key = none := by
  constructor
  · intro h key
    rw [KeyedTable.get, h]
    rfl
  · intro h
    by_contra hne
    obtain ⟨⟨key, value⟩, hentry⟩ := List.exists_mem_of_ne_nil _ hne
    have hget := KeyedTable.get_eq_some.2 hentry
    rw [h] at hget
    cases hget

theorem normalizeUsage_empty (h : usage.entries = []) : normalizeUsage int usage = .empty := if_pos h

/-- Normalising changes what no key says that it does not set. -/
theorem get_normalizeUsage_of_ne (h : key ∉ ["completion_tokens", "prompt_tokens", "total_tokens", "output_tokens",
    "input_tokens"]) : (normalizeUsage int usage).get key = usage.get key := by
  by_cases hempty : usage.entries = []
  · rw [normalizeUsage_empty hempty, entries_eq_nil_iff.1 hempty]
    rfl
  · simp only [List.mem_cons, List.not_mem_nil, or_false, not_or] at h
    rw [get_normalizeUsage hempty, if_neg h.1, if_neg h.2.1, if_neg h.2.2.1, if_neg h.2.2.2.1, if_neg h.2.2.2.2]

theorem get_normalizeUsage_target (int : String → Option ℤ) (usage : Record) (side : Side) :
    (normalizeUsage int usage).get side.target = (side.read int usage).map counted := by
  by_cases hempty : usage.entries = []
  · have hread : side.read int usage = none := by
      rw [read_eq_none_iff]
      intro key _
      rw [valueOf, entries_eq_nil_iff.1 hempty]
      rfl
    rw [normalizeUsage_empty hempty, hread]
    rfl
  · rw [get_normalizeUsage hempty]
    cases side <;> rfl

/-- A name other than its own keeps its counter, or is gone with it. -/
theorem usageCounter_normalizeUsage (h : key ∉ ["total_tokens", "output_tokens", "input_tokens"]) :
    usageCounter int (valueOf (normalizeUsage int usage) key) = usageCounter int (valueOf usage key) := by
  by_cases hempty : usage.entries = []
  · rw [normalizeUsage_empty hempty, valueOf, valueOf, entries_eq_nil_iff.1 hempty]
    rfl
  have halias : ∀ key, (normalizeUsage int usage).get key = (usageCounter int (valueOf usage key)).map counted →
      usageCounter int (valueOf (normalizeUsage int usage) key) = usageCounter int (valueOf usage key) := by
    intro key hget
    rw [valueOf, hget]
    cases usageCounter int (valueOf usage key) with
    | none => rfl
    | some n => exact usageCounter_counted n
  by_cases hprompt : key = "prompt_tokens"
  · subst hprompt
    exact halias _ (get_normalizeUsage hempty _)
  by_cases hcompletion : key = "completion_tokens"
  · subst hcompletion
    exact halias _ (get_normalizeUsage hempty _)
  rw [valueOf, get_normalizeUsage_of_ne, valueOf]
  simp only [List.mem_cons, List.not_mem_nil, or_false, not_or] at h ⊢
  exact ⟨hcompletion, hprompt, h⟩

theorem read_normalizeUsage (int : String → Option ℤ) (usage : Record) (side : Side) :
    side.read int (normalizeUsage int usage) = side.read int usage := by
  have htarget := get_normalizeUsage_target int usage side
  cases hread : side.read int usage with
  | some n =>
    rw [hread] at htarget
    exact read_of_target htarget
  | none =>
    rw [hread] at htarget
    rw [read_eq_none_iff] at hread ⊢
    intro key hkey
    by_cases hname : key = side.target
    · rw [hname, valueOf, htarget]
      rfl
    · rw [usageCounter_normalizeUsage]
      · exact hread key hkey
      · revert key
        cases side <;> decide

theorem normal_normalizeUsage (int : String → Option ℤ) (usage : Record) : Normal int (normalizeUsage int usage) := by
  intro side
  rw [read_normalizeUsage, get_normalizeUsage_target]

theorem marked_normalizeUsage (int : String → Option ℤ) (usage : Record) :
    marked (normalizeUsage int usage) = marked usage := by
  rw [marked, valueOf, get_normalizeUsage_of_ne (by decide)]
  rfl

/-- Normalising twice is normalising once. -/
theorem normalizeUsage_idempotent (int : String → Option ℤ) (usage : Record) (key : String) :
    (normalizeUsage int (normalizeUsage int usage)).get key = (normalizeUsage int usage).get key := by
  by_cases hempty : usage.entries = []
  · rw [normalizeUsage_empty hempty]
    rfl
  by_cases hnone : (normalizeUsage int usage).entries = []
  · rw [normalizeUsage_empty hnone, entries_eq_nil_iff.1 hnone]
    rfl
  have htotal : readTotal int (normalizeUsage int usage) = readTotal int usage := by
    have hget : (normalizeUsage int usage).get "total_tokens" = (readTotal int usage).map counted :=
      get_normalizeUsage hempty _
    have hcounter : usageCounter int (valueOf (normalizeUsage int usage) "total_tokens") = readTotal int usage := by
      rw [valueOf, hget]
      cases readTotal int usage with
      | none => rfl
      | some n => exact usageCounter_counted n
    rw [readTotal, hcounter]
    simp only [read_normalizeUsage]
    cases hread : readTotal int usage with
    | some n => rfl
    | none =>
      rw [readTotal, Option.or_eq_none_iff] at hread
      rw [Option.none_or]
      exact hread.2
  rw [get_normalizeUsage hnone, get_normalizeUsage hempty, usageCounter_normalizeUsage (by decide),
    usageCounter_normalizeUsage (by decide), htotal, read_normalizeUsage, read_normalizeUsage]
  split_ifs <;> rfl

/-! ## One merge -/

theorem get_mergeRecords_of_summable (h : key ∈ usageSummableKeys) : (mergeRecords plus current incoming).get key =
      (summed plus current incoming key).or ((incoming.get key).or (current.get key)) := by
  have hothers : ∀ key ∈ usageSummableKeys, key ∉ usageDetailKeys ∧ key ∉ ["prompt_tokens", "completion_tokens"] ∧
      key ≠ "incomplete" := by decide
  obtain ⟨hdetail, halias, hflag⟩ := hothers key h
  rw [mergeRecords, get_assign_of_not_mem halias, get_assign_map, if_neg hdetail, get_assign_map, if_pos h,
    KeyedTable.get_set, if_neg hflag, KeyedTable.get_update]

theorem get_mergeRecords_incomplete : (mergeRecords plus current incoming).get "incomplete" =
      some (.bool (marked current || marked incoming || (lacking current || lacking incoming))) := by
  rw [mergeRecords, get_assign_of_not_mem (by simp), get_assign_map, if_neg (by decide), get_assign_map,
    if_neg (by decide), KeyedTable.get_set, if_pos rfl]

theorem get_mergeRecords_other (hsummable : key ∉ usageSummableKeys) (hdetail : key ∉ usageDetailKeys)
    (hflag : key ≠ "incomplete") :
    (mergeRecords plus current incoming).get key =
      if key = "completion_tokens" then (incoming.get "output_tokens").or ((incoming.get key).or (current.get key))
      else if key = "prompt_tokens" then (incoming.get "input_tokens").or ((incoming.get key).or (current.get key))
      else (incoming.get key).or (current.get key) := by
  have hbefore : ∀ result : Record, (assign result
      [("prompt_tokens", incoming.get "input_tokens"), ("completion_tokens", incoming.get "output_tokens")]).get key =
      if key = "completion_tokens" then (incoming.get "output_tokens").or (result.get key)
      else if key = "prompt_tokens" then (incoming.get "input_tokens").or (result.get key) else result.get key := by
    intro result
    have hsplit : assign result
        [("prompt_tokens", incoming.get "input_tokens"), ("completion_tokens", incoming.get "output_tokens")] =
        assign (assign result [("prompt_tokens", incoming.get "input_tokens")])
          [("completion_tokens", incoming.get "output_tokens")] := rfl
    rw [hsplit]
    by_cases hcompletion : key = "completion_tokens"
    · subst hcompletion
      rw [if_pos rfl, get_assign_single, get_assign_of_not_mem (by simp)]
    rw [if_neg hcompletion, get_assign_of_not_mem (by simpa using hcompletion)]
    by_cases hprompt : key = "prompt_tokens"
    · subst hprompt
      rw [if_pos rfl, get_assign_single]
    · rw [if_neg hprompt, get_assign_of_not_mem (by simpa using hprompt)]
  rw [mergeRecords, hbefore, get_assign_map, if_neg hdetail, get_assign_map, if_neg hsummable, KeyedTable.get_set,
    if_neg hflag, KeyedTable.get_update]

/-- Adding two counters of which either may be missing. -/
def addCounters : Option ℕ → Option ℕ → Option ℕ
  | none, n => n
  | some m, n => some (m + n.getD 0)

/-- A counter of the result is the sum of the two, and missing only if both are. -/
theorem get_mergeRecords_target (hplus : ∀ m n : ℕ, plus m n = (m + n : ℕ)) (hcurrent : Normal int current)
    (hincoming : Normal int incoming) (side : Side) :
    (mergeRecords plus current incoming).get side.target =
      (addCounters (side.read int current) (side.read int incoming)).map counted := by
  have hmem : side.target ∈ usageSummableKeys := by cases side <;> decide
  rw [get_mergeRecords_of_summable hmem, summed, hcurrent side, hincoming side]
  have hzero : ∀ m n : ℕ, plus (m : ℚ) (n : ℚ) = ((m + n : ℕ) : ℚ) := hplus
  cases side.read int current with
  | none =>
    cases side.read int incoming with
    | none => rfl
    | some n =>
      have hsum := hzero 0 n
      simp only [Nat.cast_zero, Nat.zero_add] at hsum
      simp [sumNumeric, numeric, counted, addCounters, hsum]
  | some m =>
    cases side.read int incoming with
    | none =>
      have hsum := hzero m 0
      simp only [Nat.cast_zero, Nat.add_zero] at hsum
      simp [sumNumeric, numeric, counted, addCounters, hsum]
    | some n => simp [sumNumeric, numeric, counted, addCounters, hzero]

/-- A counter that neither record has is found under no name in the result. -/
theorem usageCounter_mergeRecords (hincoming : Normal int incoming)
    (hread : side.read int current = none) (hread' : side.read int incoming = none)
    (htarget : (mergeRecords plus current incoming).get side.target = none) (hkey : key ∈ side.sources) :
    usageCounter int (valueOf (mergeRecords plus current incoming) key) = none := by
  by_cases hname : key = side.target
  · rw [hname, valueOf, htarget]
    rfl
  have hmerged : (mergeRecords plus current incoming).get key = (incoming.get key).or (current.get key) := by
    have hlatest := hincoming side
    rw [hread', Option.map_none] at hlatest
    have hother : key ∉ usageSummableKeys ∧ key ∉ usageDetailKeys ∧ key ≠ "incomplete" := by
      revert key
      cases side <;> decide
    rw [get_mergeRecords_other hother.1 hother.2.1 hother.2.2]
    cases side with
    | input =>
      have hne : key ≠ "completion_tokens" := by
        rintro rfl
        exact absurd hkey (by decide)
      rw [Side.target] at hlatest
      rw [if_neg hne, hlatest, Option.none_or, ite_self]
    | output =>
      have hne : key ≠ "prompt_tokens" := by
        rintro rfl
        exact absurd hkey (by decide)
      rw [Side.target] at hlatest
      rw [if_neg hne, hlatest, Option.none_or, ite_self]
  have hold := read_eq_none_iff.1 hread key hkey
  have hnew := read_eq_none_iff.1 hread' key hkey
  rw [valueOf] at hold hnew ⊢
  rw [hmerged]
  cases hget : incoming.get key with
  | none => exact hold
  | some value =>
    rw [hget] at hnew
    exact hnew

theorem read_mergeRecords (hplus : ∀ m n : ℕ, plus m n = (m + n : ℕ)) (hcurrent : Normal int current)
    (hincoming : Normal int incoming) (side : Side) :
    side.read int (mergeRecords plus current incoming) =
      addCounters (side.read int current) (side.read int incoming) := by
  have htarget := get_mergeRecords_target hplus hcurrent hincoming side
  cases hsum : addCounters (side.read int current) (side.read int incoming) with
  | some n =>
    rw [hsum] at htarget
    exact read_of_target htarget
  | none =>
    rw [hsum] at htarget
    obtain ⟨hread, hread'⟩ : side.read int current = none ∧ side.read int incoming = none := by
      cases hread : side.read int current with
      | none =>
        rw [hread] at hsum
        exact ⟨rfl, hsum⟩
      | some m =>
        rw [hread] at hsum
        cases hsum
    rw [read_eq_none_iff]
    intro key hkey
    exact usageCounter_mergeRecords hincoming hread hread' htarget hkey

theorem normal_mergeRecords (hplus : ∀ m n : ℕ, plus m n = (m + n : ℕ)) (hcurrent : Normal int current)
    (hincoming : Normal int incoming) : Normal int (mergeRecords plus current incoming) := by
  intro side
  rw [get_mergeRecords_target hplus hcurrent hincoming, read_mergeRecords hplus hcurrent hincoming]

theorem lacking_iff (h : Normal int record) : lacking record = true ↔ ∃ side : Side, side.read int record = none := by
  have hread : ∀ side : Side, (record.get side.target).isNone = true ↔ side.read int record = none := by
    intro side
    rw [h side, Option.isNone_iff_eq_none, Option.map_eq_none_iff]
  rw [lacking, Bool.or_eq_true]
  constructor
  · rintro (hnone | hnone)
    · exact ⟨.input, (hread .input).1 hnone⟩
    · exact ⟨.output, (hread .output).1 hnone⟩
  · rintro ⟨side, hnone⟩
    cases side with
    | input => exact .inl ((hread .input).2 hnone)
    | output => exact .inr ((hread .output).2 hnone)

/-! ## Any number of merges -/

/-- Records, merged in some grouping. -/
inductive Grouping where
  | record (usage : Option Record)
  | merge (current incoming : Grouping)

/-- The result of the merges. -/
def Grouping.fold (int : String → Option ℤ) (plus : ℚ → ℚ → ℚ) : Grouping → Option Record
  | .record usage => usage
  | .merge current incoming => some (mergeUsage int plus (current.fold int plus) (incoming.fold int plus))

/-- The records that are merged, each of them normalised. -/
def Grouping.leaves (int : String → Option ℤ) : Grouping → List Record
  | .record usage => [normalizeUsage int (usage.getD .empty)]
  | .merge current incoming => current.leaves int ++ incoming.leaves int

/-- The tokens of a record; missing ones count as zero. -/
def tokens (key : String) (record : Record) : ℚ := ((record.get key).bind numeric).getD 0

def Present (record : Record) : Prop := record.entries ≠ []

instance (record : Record) : Decidable (Present record) := inferInstanceAs (Decidable (_ ≠ _))

def present (records : List Record) : List Record := records.filter fun record => decide (Present record)

/-- The sum of the counters of some records. -/
def total (int : String → Option ℤ) (side : Side) (records : List Record) : Option ℕ :=
  (records.map fun record => side.read int record).foldr addCounters none

theorem total_append (int : String → Option ℤ) (side : Side) (records records' : List Record) :
    total int side (records ++ records') = addCounters (total int side records) (total int side records') := by
  induction records with
  | nil => rfl
  | cons record rest ih =>
    have hassoc : ∀ a b c, addCounters a (addCounters b c) = addCounters (addCounters a b) c := by
      intro a b c
      cases a with
      | none => rfl
      | some a =>
        cases b with
        | none => rfl
        | some b => simp [addCounters, Nat.add_assoc]
    have hcons : ∀ rs, total int side (record :: rs) = addCounters (side.read int record) (total int side rs) :=
      fun _ => rfl
    rw [List.cons_append, hcons, hcons, ih, hassoc]

theorem total_eq_none_iff : total int side records = none ↔ ∀ record ∈ records, side.read int record = none := by
  induction records with
  | nil => simp [total]
  | cons record rest ih =>
    have hcons : total int side (record :: rest) = addCounters (side.read int record) (total int side rest) := rfl
    rw [hcons, List.forall_mem_cons, ← ih]
    cases side.read int record with
    | none => simp [addCounters]
    | some n => simp [addCounters]

/-- The record is what the given ones add up to, all of them normalised and none of them empty. -/
structure Adds (int : String → Option ℤ) (records : List Record) (sum : Record) : Prop where
  normals : ∀ record ∈ records, Normal int record
  normal : Normal int sum
  read : ∀ side : Side, side.read int sum = total int side records
  empty : sum.entries = [] ↔ records = []
  marked : marked sum = true ↔
    (∃ record ∈ records, marked record = true) ∨ 2 ≤ records.length ∧ ∃ record ∈ records, lacking record = true

theorem adds_normalizeUsage (int : String → Option ℤ) (usage : Record) :
    Adds int (present [normalizeUsage int usage]) (normalizeUsage int usage) := by
  have hnormal := normal_normalizeUsage int usage
  by_cases hpresent : Present (normalizeUsage int usage)
  · have hlist : present [normalizeUsage int usage] = [normalizeUsage int usage] := by
      rw [present, List.filter_cons_of_pos (by simpa using hpresent), List.filter_nil]
    rw [hlist]
    refine ⟨by simpa using hnormal, hnormal, ?_, iff_of_false hpresent (List.cons_ne_nil _ _), by simp⟩
    intro side
    rw [total]
    cases hread : side.read int (normalizeUsage int usage) with
    | none => simp [addCounters, hread]
    | some n => simp [addCounters, hread]
  · have hempty : (normalizeUsage int usage).entries = [] := not_not.1 hpresent
    have hlist : present [normalizeUsage int usage] = [] := by
      rw [present, List.filter_cons_of_neg (by simpa using hpresent), List.filter_nil]
    rw [hlist]
    refine ⟨by simp, hnormal, ?_, iff_of_true hempty rfl, ?_⟩
    · intro side
      rw [read_eq_none_iff.2]
      · rfl
      · intro key _
        rw [valueOf, entries_eq_nil_iff.1 hempty]
        rfl
    · rw [marked, valueOf, entries_eq_nil_iff.1 hempty]
      simp [Json.truthy]

/-- Normalising a sum again leaves it as it is, as long as it leaves something. -/
theorem Adds.normalize {sum : Record} (h : Adds int records sum)
    (hkept : Present sum → Present (normalizeUsage int sum)) : Adds int records (normalizeUsage int sum) := by
  refine ⟨h.normals, normal_normalizeUsage int sum, ?_, ?_, ?_⟩
  · intro side
    rw [read_normalizeUsage, h.read]
  · rw [← h.empty]
    constructor
    · intro hempty
      by_contra hpresent
      exact hkept hpresent hempty
    · intro hempty
      rw [normalizeUsage_empty hempty]
      rfl
  · rw [marked_normalizeUsage, h.marked]

/-- Two records of a list that differ make two. -/
theorem two_le_length {r r' : Record} (hr : r ∈ records) (hr' : r' ∈ records) (hne : r ≠ r') : 2 ≤ records.length := by
  match records, hr, hr' with
  | [_], hr, hr' => exact absurd ((List.mem_singleton.1 hr).trans (List.mem_singleton.1 hr').symm) hne
  | _ :: _ :: _, _, _ => exact Nat.le_add_left 2 _

/-- What a later merge sees of a sum: it is marked or lacks a counter exactly if one of its records does. -/
theorem Adds.flagged_iff {sum : Record} (h : Adds int records sum) (hpresent : records ≠ []) :
    (Usage.marked sum = true ∨ lacking sum = true) ↔
      ∃ record ∈ records, Usage.marked record = true ∨ lacking record = true := by
  rw [h.marked, lacking_iff h.normal]
  simp only [h.read, total_eq_none_iff]
  constructor
  · rintro ((⟨record, hrecord, hmarked⟩ | ⟨-, record, hrecord, hlacking⟩) | ⟨side, hnone⟩)
    · exact ⟨record, hrecord, .inl hmarked⟩
    · exact ⟨record, hrecord, .inr hlacking⟩
    · obtain ⟨record, hrecord⟩ := List.exists_mem_of_ne_nil _ hpresent
      exact ⟨record, hrecord, .inr ((lacking_iff (h.normals record hrecord)).2 ⟨side, hnone record hrecord⟩)⟩
  · rintro ⟨record, hrecord, hmarked | hlacking⟩
    · exact .inl (.inl ⟨record, hrecord, hmarked⟩)
    · obtain ⟨side, hnone⟩ := (lacking_iff (h.normals record hrecord)).1 hlacking
      by_cases hall : ∀ record ∈ records, side.read int record = none
      · exact .inr ⟨side, hall⟩
      · -- another record has the counter
        obtain ⟨other, hother, hsome⟩ := by simpa using hall
        refine .inl (.inr ⟨two_le_length hrecord hother ?_, record, hrecord, hlacking⟩)
        rintro rfl
        exact hsome hnone

theorem Adds.merge {records' : List Record} (hplus : ∀ m n : ℕ, plus m n = (m + n : ℕ))
    (h : Adds int records current) (h' : Adds int records' incoming) (hcurrent : current.entries ≠ [])
    (hincoming : incoming.entries ≠ []) : Adds int (records ++ records') (mergeRecords plus current incoming) := by
  have hne : records ≠ [] := fun hnil => hcurrent (h.empty.2 hnil)
  have hne' : records' ≠ [] := fun hnil => hincoming (h'.empty.2 hnil)
  refine ⟨?_, normal_mergeRecords hplus h.normal h'.normal, ?_, ?_, ?_⟩
  · intro record hrecord
    rcases List.mem_append.1 hrecord with hrecord | hrecord
    · exact h.normals record hrecord
    · exact h'.normals record hrecord
  · intro side
    rw [read_mergeRecords hplus h.normal h'.normal, h.read, h'.read, total_append]
  · refine iff_of_false ?_ (List.append_ne_nil_of_left_ne_nil hne _)
    intro hempty
    have hflag := entries_eq_nil_iff.1 hempty "incomplete"
    rw [get_mergeRecords_incomplete] at hflag
    cases hflag
  · have hmarked : Usage.marked (mergeRecords plus current incoming) = true ↔
        (Usage.marked current = true ∨ lacking current = true) ∨
          (Usage.marked incoming = true ∨ lacking incoming = true) := by
      rw [Usage.marked, valueOf, get_mergeRecords_incomplete, Option.getD_some, Json.truthy]
      simp only [Bool.or_eq_true]
      tauto
    have htwo : 2 ≤ (records ++ records').length := by
      have hlength := List.length_pos_of_ne_nil hne
      have hlength' := List.length_pos_of_ne_nil hne'
      rw [List.length_append]
      omega
    rw [hmarked, h.flagged_iff hne, h'.flagged_iff hne']
    simp only [List.mem_append, or_and_right, exists_or, and_or_left, htwo, true_and]
    exact or_or_or_comm

/-- A record that is normalised is not emptied by normalising it again; the mark of a merge stays as well. -/
theorem present_normalizeUsage (h : Present (normalizeUsage int usage)) :
    Present (normalizeUsage int (normalizeUsage int usage)) := by
  intro hempty
  refine h (entries_eq_nil_iff.2 ?_)
  intro key
  rw [← normalizeUsage_idempotent]
  exact entries_eq_nil_iff.1 hempty key

theorem present_normalize_mergeRecords : Present (normalizeUsage int (mergeRecords plus current incoming)) := by
  intro hempty
  have hflag := entries_eq_nil_iff.1 hempty "incomplete"
  rw [get_normalizeUsage_of_ne (by decide), get_mergeRecords_incomplete] at hflag
  cases hflag

/-- The induction over the merges: what a grouping comes to, once normalised, is what its records add up to, and so is
the result of a merge as it is. -/
theorem adds_fold (int : String → Option ℤ) (hplus : ∀ m n : ℕ, plus m n = (m + n : ℕ)) (grouping : Grouping) :
    Adds int (present (grouping.leaves int)) (normalizeUsage int ((grouping.fold int plus).getD .empty)) ∧
      ∀ a b, grouping = .merge a b →
        Adds int (present (grouping.leaves int)) ((grouping.fold int plus).getD .empty) := by
  induction grouping with
  | record usage => exact ⟨adds_normalizeUsage int (usage.getD .empty), nofun⟩
  | merge a b iha ihb =>
    obtain ⟨ha, -⟩ := iha
    obtain ⟨hb, -⟩ := ihb
    have hleaves : present ((Grouping.merge a b).leaves int) = present (a.leaves int) ++ present (b.leaves int) := by
      rw [Grouping.leaves, present, List.filter_append]
      rfl
    have hfold : ((Grouping.merge a b).fold int plus).getD .empty =
        mergeUsage int plus (a.fold int plus) (b.fold int plus) := rfl
    rw [hleaves, hfold, mergeUsage]
    by_cases hincoming : (normalizeUsage int ((b.fold int plus).getD .empty)).entries = []
    · have hsame := hb.empty.1 hincoming
      simp only [if_pos hincoming, hsame, List.append_nil]
      exact ⟨ha.normalize present_normalizeUsage, fun _ _ _ => ha⟩
    by_cases hcurrent : (normalizeUsage int ((a.fold int plus).getD .empty)).entries = []
    · have hsame := ha.empty.1 hcurrent
      simp only [if_neg hincoming, if_pos hcurrent, hsame, List.nil_append]
      exact ⟨hb.normalize present_normalizeUsage, fun _ _ _ => hb⟩
    · simp only [if_neg hincoming, if_neg hcurrent]
      have hmerge := ha.merge hplus hb hcurrent hincoming
      exact ⟨hmerge.normalize fun _ => present_normalize_mergeRecords, fun _ _ _ => hmerge⟩

theorem Normal.tokens_eq (h : Normal int record) (side : Side) :
    tokens side.target record = ((side.read int record).getD 0 : ℕ) := by
  rw [tokens, h side]
  cases side.read int record with
  | none => rfl
  | some n => rfl

/-- The tokens of a sum are the sum of the tokens, over all the records: an empty one has none. -/
theorem sum_tokens_present (key : String) (records : List Record) :
    ((present records).map (tokens key)).sum = (records.map (tokens key)).sum := by
  induction records with
  | nil => rfl
  | cons record rest ih =>
    by_cases hpresent : Present record
    · rw [present, List.filter_cons_of_pos (by simpa using hpresent), List.map_cons, List.sum_cons, List.map_cons,
        List.sum_cons, ← ih]
      rfl
    · have hzero : tokens key record = 0 := by
        rw [tokens, entries_eq_nil_iff.1 (not_not.1 hpresent)]
        rfl
      rw [present, List.filter_cons_of_neg (by simpa using hpresent), List.map_cons, List.sum_cons, hzero, zero_add,
        ← ih]
      rfl

theorem Adds.tokens_eq {sum : Record} (h : Adds int records sum) (side : Side) :
    tokens side.target sum = (records.map (tokens side.target)).sum := by
  have htotal : ∀ rs : List Record, (∀ record ∈ rs, Normal int record) →
      ((total int side rs).getD 0 : ℚ) = (rs.map (tokens side.target)).sum := by
    intro rs hrs
    induction rs with
    | nil => rfl
    | cons record rest ih =>
      have hcons : total int side (record :: rest) = addCounters (side.read int record) (total int side rest) := rfl
      rw [List.map_cons, List.sum_cons, ← ih fun other hother => hrs other (List.mem_cons_of_mem _ hother),
        (hrs record List.mem_cons_self).tokens_eq, hcons]
      cases side.read int record with
      | none => simp [addCounters]
      | some n => simp [addCounters]
  rw [h.normal.tokens_eq, h.read, htotal records h.normals]

/-- The tokens of a merge of records in any grouping are the sums of what the records say, once normalised, and it is
marked as incomplete exactly if one of the records is, or two or more are not empty and one of these lacks a counter.
Normalising a record again changes nothing. `plus` is the addition of numbers, exact on whole ones. -/
theorem usage_adds_up (int : String → Option ℤ) (plus : ℚ → ℚ → ℚ) (hplus : ∀ m n : ℕ, plus m n = (m + n : ℕ)) :
    (∀ (a b : Grouping), ∃ result, (Grouping.merge a b).fold int plus = some result ∧
      (∀ side : Side,
        tokens side.target result = (((Grouping.merge a b).leaves int).map (tokens side.target)).sum ∧
          ∀ value ∈ result.get side.target, ∃ n, value = counted n) ∧
      (marked result = true ↔
        (∃ record ∈ present ((Grouping.merge a b).leaves int), marked record = true) ∨
          2 ≤ (present ((Grouping.merge a b).leaves int)).length ∧
            ∃ record ∈ present ((Grouping.merge a b).leaves int), lacking record = true)) ∧
    ∀ usage key, (normalizeUsage int (normalizeUsage int usage)).get key = (normalizeUsage int usage).get key := by
  refine ⟨?_, normalizeUsage_idempotent int⟩
  intro a b
  have hadds := (adds_fold int hplus (.merge a b)).2 a b rfl
  refine ⟨_, rfl, ?_, hadds.marked⟩
  intro side
  refine ⟨?_, ?_⟩
  · rw [← sum_tokens_present]
    exact hadds.tokens_eq side
  · intro value hvalue
    obtain ⟨n, -, hn⟩ := Option.map_eq_some_iff.1 ((hadds.normal side).symm.trans hvalue)
    exact ⟨n, hn.symm⟩

/-- A call of one provider and two of another one, the last without the tokens of its answer. -/
def threeCalls : Grouping :=
  .merge
    (.merge (.record (some (KeyedTable.empty.set "prompt_tokens" (.num 10) |>.set "completion_tokens" (.num 5))))
      (.record (some (KeyedTable.empty.set "prompt_n" (.num 2) |>.set "cache_n" (.num 4) |>.set "predicted_n" (.num 3)))))
    (.record (some (KeyedTable.empty.set "input_tokens" (.num 7))))

theorem usage_adds_up_threeCalls :
    ∃ result, threeCalls.fold (fun _ => none) (· + ·) = some result ∧ tokens "input_tokens" result = 23 ∧
      marked result = true := by
  obtain ⟨result, hresult, htokens, hmarked⟩ := (usage_adds_up (fun _ => none) (· + ·) (by simp)).1
    (.merge (.record _) (.record _)) (.record _)
  refine ⟨result, hresult, ?_, ?_⟩
  · have hsum := (htokens .input).1
    rw [Side.target] at hsum
    rw [hsum]
    decide +kernel
  · rw [hmarked]
    decide +kernel

end RyanAI.Chat.Usage
