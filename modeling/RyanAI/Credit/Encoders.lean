import Mathlib
import RyanAI.Lib.OrderedMap

/-!
# The encoders of a calculator

`Calculator.get_encoder` keeps the encoders it has loaded and calls itself again once one is loaded. The second
call has the full model id and neither the prefix nor the default model, so it may be about another encoder than the
one just kept, and `lstrip` takes any leading characters of the prefix from the id. `getEncoder_faithful` says for
which model ids none of this shows.
-/

namespace RyanAI.Credit.Encoders

open RyanAI.Lib

/-- `str.lstrip`: all characters in front that occur in `chars`. -/
def lstrip (chars text : String) : String := String.ofList (text.toList.dropWhile (· ∈ chars.toList))

/-- `model_id_ops`. -/
def modelIdOps (modelPrefixToRemove modelId : String) : String :=
  if modelPrefixToRemove ≠ "" then lstrip modelPrefixToRemove modelId else modelId

section Calculator

variable {Encoding : Type} (encodingForModel : String → Option Encoding)

/-- `get_encoder`, and the encoders it leaves; `none` from tiktoken is a `KeyError`, and `depth`
bounds the nesting. -/
def getEncoder : ℕ → OrderedMap String Encoding → (modelId modelPrefixToRemove defaultModelForEncoding : String) →
    Option Encoding × OrderedMap String Encoding
  | 0, encoder, _, _, _ => (none, encoder)
  | depth + 1, encoder, modelId, modelPrefixToRemove, defaultModelForEncoding =>
    match encoder.get (modelIdOps modelPrefixToRemove modelId) with
    | some found => (some found, encoder)
    | none =>
      match encodingForModel (modelIdOps modelPrefixToRemove modelId) with
      | none => getEncoder depth encoder defaultModelForEncoding "" "gpt-4o"
      | some found =>
        getEncoder depth (encoder.set (modelIdOps modelPrefixToRemove modelId) found) modelId "" "gpt-4o"

/-- The encoders after some calls on a fresh `Calculator`. -/
def encodersAfter (depth : ℕ) (removed defaultModel : String) (calls : List String) : OrderedMap String Encoding :=
  calls.foldl (fun encoder modelId => (getEncoder encodingForModel depth encoder modelId removed defaultModel).2) []

def withoutPrefix (removed modelId : String) : String :=
  if removed.toList <+: modelId.toList then String.ofList (modelId.toList.drop removed.length) else modelId

def wantedEncoder (removed defaultModel modelId : String) : Option Encoding :=
  (encodingForModel (withoutPrefix removed modelId)).or (encodingForModel defaultModel)

variable {encodingForModel} {depth : ℕ} {encoder : OrderedMap String Encoding} {removed defaultModel modelId : String}

def Kept (encodingForModel : String → Option Encoding) (encoder : OrderedMap String Encoding) : Prop :=
  ∀ id found, encoder.get id = some found → encodingForModel id = some found

variable {found : Encoding}

theorem Kept.set (h : Kept encodingForModel encoder) (hfound : encodingForModel modelId = some found) :
    Kept encodingForModel (encoder.set modelId found) := by
  intro id other hid
  rw [OrderedMap.get_set] at hid
  split at hid
  · rename_i heq
    rw [heq, hfound, hid]
  · exact h id other hid

theorem Kept.getEncoder (h : Kept encodingForModel encoder) :
    Kept encodingForModel (getEncoder encodingForModel depth encoder modelId removed defaultModel).2 := by
  induction depth generalizing encoder modelId removed defaultModel with
  | zero => exact h
  | succ depth ih =>
    rw [Encoders.getEncoder]
    split
    · exact h
    · split
      · exact ih h
      · exact ih (h.set ‹_›)

theorem kept_encodersAfter (calls : List String) :
    Kept encodingForModel (encodersAfter encodingForModel depth removed defaultModel calls) := by
  induction calls using List.reverseRecOn with
  | nil => exact nofun
  | append_singleton calls modelId ih =>
    rw [encodersAfter, List.foldl_append]
    exact ih.getEncoder

theorem isSome_getEncoder {id : String} (h : (encoder.get id).isSome) :
    ((getEncoder encodingForModel depth encoder modelId removed defaultModel).2.get id).isSome := by
  induction depth generalizing encoder modelId removed defaultModel with
  | zero => exact h
  | succ depth ih =>
    rw [getEncoder]
    split
    · exact h
    split
    · exact ih h
    apply ih
    rw [OrderedMap.get_set]
    split
    · rfl
    · exact h

/-! ## What is returned -/

@[simp] theorem modelIdOps_empty : modelIdOps "" modelId = modelId := rfl

theorem getEncoder_known (h : Kept encodingForModel encoder) (hfound : encodingForModel modelId = some found) :
    (getEncoder encodingForModel (depth + 2) encoder modelId "" defaultModel).1 = some found := by
  cases hget : encoder.get modelId with
  | some other => simp [getEncoder, hget, ← h modelId other hget, hfound]
  | none => simp [getEncoder, hget, hfound, OrderedMap.get_set]

/-- Without a prefix an unknown id gets the encoder of `gpt-4o`. -/
theorem getEncoder_plain (h : Kept encodingForModel encoder) (hdefault : (encodingForModel "gpt-4o").isSome) :
    (getEncoder encodingForModel (depth + 3) encoder modelId "" "gpt-4o").1 =
      (encodingForModel modelId).or (encodingForModel "gpt-4o") := by
  cases hfound : encodingForModel modelId with
  | some found => exact getEncoder_known h hfound
  | none =>
    have hget : encoder.get modelId = none := by
      rw [Option.eq_none_iff_forall_not_mem]
      intro found hget
      simp [h modelId found hget] at hfound
    obtain ⟨found, hgpt⟩ := Option.isSome_iff_exists.1 hdefault
    have hnext := @getEncoder_known _ _ depth _ "gpt-4o" _ _ h hgpt
    rw [getEncoder]
    simp [hget, hfound, hnext, hgpt]

theorem getEncoder_call (h : Kept encodingForModel encoder) (hdefault : (encodingForModel "gpt-4o").isSome) :
    (getEncoder encodingForModel (depth + 4) encoder modelId removed defaultModel).1 =
      (encoder.get (modelIdOps removed modelId)).or
        ((encodingForModel (if (encodingForModel (modelIdOps removed modelId)).isSome then modelId
          else defaultModel)).or (encodingForModel "gpt-4o")) := by
  rw [getEncoder]
  cases hget : encoder.get (modelIdOps removed modelId) with
  | some found => rfl
  | none =>
    cases hfound : encodingForModel (modelIdOps removed modelId) with
    | some found => exact getEncoder_plain (h.set hfound) hdefault
    | none => exact getEncoder_plain h hdefault

theorem get_encodersAfter (hfound : encodingForModel (modelIdOps removed modelId) = some found) :
    (encodersAfter encodingForModel (depth + 1) removed defaultModel [modelId]).get (modelIdOps removed modelId) =
      some found := by
  have hkept : Kept encodingForModel (encodersAfter encodingForModel (depth + 1) removed defaultModel [modelId]) :=
    kept_encodersAfter _
  have hsome : ((encodersAfter encodingForModel (depth + 1) removed defaultModel [modelId]).get
      (modelIdOps removed modelId)).isSome := by
    rw [encodersAfter, List.foldl_cons, List.foldl_nil, getEncoder, hfound]
    apply isSome_getEncoder
    rw [OrderedMap.get_set, if_pos rfl]
    rfl
  obtain ⟨other, hother⟩ := Option.isSome_iff_exists.1 hsome
  rw [hother, ← hkept _ _ hother, hfound]

/-- The id that `lstrip` leaves has no other encoder than the one wanted, nor has the id of the
second call. -/
def Transparent (encodingForModel : String → Option Encoding) (removed defaultModel modelId : String) : Prop :=
  let stripped := encodingForModel (modelIdOps removed modelId)
  let second := encodingForModel (if stripped.isSome then modelId else defaultModel)
  (stripped.isSome → stripped = wantedEncoder encodingForModel removed defaultModel modelId) ∧
    second.or (encodingForModel "gpt-4o") = wantedEncoder encodingForModel removed defaultModel modelId

/-- The encoder is always the wanted one exactly if the id is transparent. -/
theorem getEncoder_transparent_iff (hdefault : (encodingForModel "gpt-4o").isSome) (hdepth : 4 ≤ depth) :
    (∀ calls, (getEncoder encodingForModel depth (encodersAfter encodingForModel depth removed defaultModel calls)
        modelId removed defaultModel).1 = wantedEncoder encodingForModel removed defaultModel modelId) ↔
      Transparent encodingForModel removed defaultModel modelId := by
  obtain ⟨depth, rfl⟩ := Nat.exists_eq_add_of_le' hdepth
  simp only [getEncoder_call (kept_encodersAfter _) hdefault]
  constructor
  · intro h
    refine ⟨?_, h []⟩
    intro hstripped
    obtain ⟨found, hfound⟩ := Option.isSome_iff_exists.1 hstripped
    have hagain := h [modelId]
    rw [get_encodersAfter hfound] at hagain
    rw [hfound, ← hagain, Option.some_or]
  · rintro ⟨hstripped, hsecond⟩ calls
    cases hget : (encodersAfter encodingForModel (depth + 4) removed defaultModel calls).get
        (modelIdOps removed modelId) with
    | none => exact hsecond
    | some found =>
      have hfound := kept_encodersAfter calls _ _ hget
      rw [Option.some_or, ← hstripped (by rw [hfound]; rfl), hfound]

end Calculator

def sampleEncoding (modelId : String) : Option String :=
  if modelId = "gpt-4" then some "cl100k_base" else if modelId = "gpt-4o" then some "o200k_base" else none

theorem getEncoder_transparent_iff_gpt :
    (∀ calls, (getEncoder sampleEncoding 4 (encodersAfter sampleEncoding 4 "" "gpt-4o" calls) "gpt-4" "" "gpt-4o").1 =
        wantedEncoder sampleEncoding "" "gpt-4o" "gpt-4") ↔
      Transparent sampleEncoding "" "gpt-4o" "gpt-4" :=
  getEncoder_transparent_iff (by decide) (by decide)

/-- The second call returns the encoder that the first has kept. -/
theorem first_encoder_differs : ¬ ∀ (removed defaultModel modelId : String) (calls : List String),
      (getEncoder sampleEncoding 4 (encodersAfter sampleEncoding 4 removed defaultModel calls) modelId removed
        defaultModel).1 = wantedEncoder sampleEncoding removed defaultModel modelId := by
  intro h
  have hfirst := h "openai/" "gpt-4o" "openai/gpt-4" []
  revert hfirst
  decide +kernel

end RyanAI.Credit.Encoders
