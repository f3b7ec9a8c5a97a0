import RyanAI.Chat.ResponseMerge

/-!
# Deltas that are emitted in chunks

`stream_body_handler` of `utils/middleware.py` holds one delta back and joins later ones of the same key to it, until
there are as many as the chunk size or another event comes. Here a message is not continued, so the event itself is what
is emitted; `priorOutput` are the items of earlier rounds of tool calls, by which the indices are shifted. A delta that
finds one of its key pending is joined to it when both are texts; otherwise what was pending is never emitted.
-/

namespace RyanAI.Chat.ResponseStream

open Lib

variable {repr : Json → String}

/-- `get_response_data_with_full_output_index`: the index is shifted, and a response loses its
output. -/
def withFullOutputIndex (priorOutput : List Json) (data : Dict) : Dict :=
  if priorOutput = [] then data
  else
    let shifted : Option Json :=
      match Dict.get data "output_index" with
      | .num q => if q.den = 1 then some (.num (q + priorOutput.length)) else none
      | .bool b => some (.num ((if b then 1 else 0) + priorOutput.length))
      | _ => none
    match shifted, Dict.get data "response" with
    | some index, _ => Dict.set data "output_index" index
    | none, .obj response => Dict.set data "response" (.obj (response.filter fun field => field.1 ≠ "output"))
    | none, _ => data

@[simp] theorem withFullOutputIndex_nil (data : Dict) : withFullOutputIndex [] data = data := if_pos rfl

/-- `RESPONSE_COMPLETION_RESPONSE_FIELDS`. -/
def completionResponseFields : List String := ["error", "id", "output", "usage"]

/-- `{key: response[key] for key in keys if key in response}`. -/
def pick (keys : List String) (response : Dict) : Dict :=
  keys.filterMap fun key => (response.lookup key).map fun value => (key, value)

/-- `get_response_completion_event_data`. -/
def completionEventData (event : Dict) : Dict :=
  match Dict.get event "response" with
  | .obj response => Dict.set event "response" (.obj (pick completionResponseFields response))
  | _ => event

/-! ## The queue -/

/-- `last_delta_data`, `last_delta_type` and `last_delta_key`. -/
structure Pending where
  data : Dict
  deltaType : String
  key : Option DeltaKey
  deriving DecidableEq

structure Queue where
  deltaCount : ℕ
  pending : Option Pending
  emitted : List Dict
  deriving DecidableEq

def Queue.empty : Queue := { deltaCount := 0, pending := none, emitted := [] }

/-- `flush_pending_delta_data`. -/
def flushPendingDeltaData (threshold : ℕ) (q : Queue) : Queue :=
  match q.pending with
  | none => q
  | some pending =>
    if threshold ≤ q.deltaCount then
      { deltaCount := 0, pending := none, emitted := q.emitted ++ [pending.data] }
    else q

/-- The two texts that `append_to_text_field` joins. -/
def bothTexts (a b : Dict) : Option (String × String) :=
  match Dict.get a "delta", Dict.get b "delta" with
  | .str s, .str t => some (s, t)
  | _, _ => none

def enqueue (data : Dict) (deltaType : String) (key : Option DeltaKey) (q : Queue) : Queue :=
  match q.pending with
  | none => { q with deltaCount := q.deltaCount + 1, pending := some ⟨data, deltaType, key⟩ }
  | some pending =>
    match keyEqv pending.key key, bothTexts pending.data data with
    | true, some (s, t) =>
      { q with
        deltaCount := q.deltaCount + 1
        pending := some { pending with data := Dict.set pending.data "delta" (.str (s ++ t)) } }
    | same, _ =>
      let q := if pending.deltaType ≠ deltaType ∨ same = false then flushPendingDeltaData 0 q else q
      { q with deltaCount := q.deltaCount + 1, pending := some ⟨data, deltaType, key⟩ }

/-- `queue_pending_delta_data`. -/
def queuePendingDeltaData (chunkSize : ℕ) (priorOutput : List Json) (data : Dict) (deltaType : String) (q : Queue) :
    Except Failure Queue := do
  let data := withFullOutputIndex priorOutput data
  let key ← getResponseDeltaKey data
  let q := enqueue data deltaType key q
  return if chunkSize ≤ q.deltaCount then flushPendingDeltaData chunkSize q else q

/-- `emit_response_completion_event`. -/
def emitResponseCompletionEvent (chunkSize : ℕ) (priorOutput : List Json) (q : Queue) (data : Dict) :
    Except Failure Queue := do
  let eventType ← typeOf data
  if endsWith eventType ".delta" then queuePendingDeltaData chunkSize priorOutput data eventType q
  else
    let q := flushPendingDeltaData 0 q
    return { q with emitted := q.emitted ++ [completionEventData (withFullOutputIndex priorOutput data)] }

def emitAll (chunkSize : ℕ) (priorOutput : List Json) (events : List Dict) : Except Failure (List Dict) := do
  let q ← events.foldlM (emitResponseCompletionEvent chunkSize priorOutput) .empty
  return (flushPendingDeltaData 0 q).emitted

def Joins (q : Queue) (data : Dict) : Prop :=
  ∀ pending ∈ q.pending, ∀ key key' : DeltaKey, pending.key = some key → getResponseDeltaKey data = .ok (some key') →
    key.eqv key' = true → (bothTexts pending.data data).isSome ∧ deltaTypeOf pending.data ≠ some "type"

/-- A final value of the field `response` has no fields that are not emitted. -/
def KeepsResponse (data : Dict) : Prop :=
  ∀ eventType, typeOf data = .ok eventType → isResponse eventType ".done" = true →
    deltaTypeOf data = some "response" → completionEventData data = data

def StepMeets (priorOutput : List Json) (q : Queue) (data : Dict) : Prop :=
  ∀ eventType, typeOf data = .ok eventType →
    if endsWith eventType ".delta" then Joins q (withFullOutputIndex priorOutput data)
    else KeepsResponse (withFullOutputIndex priorOutput data)

def RunMeets (chunkSize : ℕ) (priorOutput : List Json) : Queue → List Dict → Prop
  | _, [] => True
  | q, event :: events =>
    StepMeets priorOutput q event ∧
      ∀ q', emitResponseCompletionEvent chunkSize priorOutput q event = .ok q' →
        RunMeets chunkSize priorOutput q' events

/-! ## The reducer on what is emitted -/

theorem lookup_pick (keys : List String) (response : Dict) (h : key ∈ keys) :
    (pick keys response).lookup key = response.lookup key := by
  induction keys with
  | nil => cases h
  | cons k ks ih =>
    rw [pick, List.filterMap_cons]
    cases hvalue : response.lookup k with
    | some value =>
      simp only [Option.map_some]
      rw [Dict.lookup_cons]
      by_cases hk : key = k
      · rw [if_pos hk, hk, hvalue]
      · rw [if_neg hk]
        exact ih ((List.mem_cons.1 h).resolve_left hk)
    | none =>
      simp only [Option.map_none]
      rcases List.mem_cons.1 h with rfl | hks
      · -- a key that is listed again is missing again
        rw [hvalue]
        by_cases hagain : key ∈ ks
        · exact (ih hagain).trans hvalue
        rw [← Option.not_isSome_iff_eq_none, ← Dict.mem_keys_iff]
        intro hmem
        obtain ⟨field, hfield, rfl⟩ := List.mem_map.1 hmem
        obtain ⟨k', hk', hmap⟩ := List.mem_filterMap.1 hfield
        obtain ⟨value, -, rfl⟩ := Option.map_eq_some_iff.1 hmap
        exact hagain hk'
      · exact ih hks

def SameButResponse (a b : Dict) : Prop := ∀ field, field ≠ "response" → a.lookup field = b.lookup field

variable {field eventType : String} {data : Dict} {q : Queue} {output result middle : List Json}

section SameButResponse

variable {a b : Dict} (h : SameButResponse a b)

include h

theorem SameButResponse.get (hne : field ≠ "response") : Dict.get a field = Dict.get b field := by
  rw [Dict.get, Dict.get, h field hne]

theorem SameButResponse.indexOr (hne : field ≠ "response") (default : ℚ) :
    indexOr a field default = indexOr b field default := by
  rw [ResponseStream.indexOr, ResponseStream.indexOr, h field hne]

theorem SameButResponse.typeOf : typeOf a = typeOf b := by
  rw [ResponseStream.typeOf, ResponseStream.typeOf, h "type" (by decide)]

theorem SameButResponse.itemIndex (output : List Json) : itemIndex a output = itemIndex b output := by
  rw [ResponseStream.itemIndex, ResponseStream.itemIndex, h.indexOr (by decide)]

theorem SameButResponse.outputItemAdded (output : List Json) : outputItemAdded a output = outputItemAdded b output := by
  simp only [ResponseStream.outputItemAdded, h "item" (by decide), h.indexOr (show "output_index" ≠ "response" by decide)]

theorem SameButResponse.partAdded (field : String) (output : List Json) :
    partAdded field a output = partAdded field b output := by
  simp only [ResponseStream.partAdded, h "part" (by decide), h.itemIndex]

theorem SameButResponse.outputItemDone (output : List Json) : outputItemDone a output = outputItemDone b output := by
  simp only [ResponseStream.outputItemDone, h.get (show "item" ≠ "response" by decide),
    h.indexOr (show "output_index" ≠ "response" by decide)]

theorem SameButResponse.partDone (field : String) (hne : indexField ≠ "response")
    (output : List Json) : partDone field indexField a output = partDone field indexField b output := by
  simp only [ResponseStream.partDone, h.get (show "part" ≠ "response" by decide), h.itemIndex, h.indexOr hne]

/-- Only a final value of the field `response` itself reads the response. -/
theorem SameButResponse.done (hne : typeName ≠ "response") (output : List Json) :
    done typeName a output = done typeName b output := by
  have hfield : doneField typeName ≠ "response" := by
    rw [doneField]
    split
    · decide
    · split
      · decide
      · exact hne
  simp only [ResponseStream.done, h.partDone _ (show "content_index" ≠ "response" by decide),
    h.partDone _ (show "summary_index" ≠ "response" by decide), fieldDone, h.itemIndex, h _ hfield,
    h.indexOr (show "content_index" ≠ "response" by decide)]

end SameButResponse

theorem reduce_completionEventData (htype : typeOf data = .ok eventType) (hdelta : endsWith eventType ".delta" = false)
    (hkeeps : KeepsResponse data) (output : List Json) :
    reduce repr output (completionEventData data) = reduce repr output data := by
  by_cases hsame : completionEventData data = data
  · rw [hsame]
  rw [completionEventData] at hsame ⊢
  split at hsame
  · rename_i response hresponse
    set event := Dict.set data "response" (.obj (pick completionResponseFields response)) with hevent
    have hbut : SameButResponse event data := fun field hne => Dict.lookup_set_of_ne _ hne _
    have hlookup : data.lookup "response" = some (.obj response) := by
      rw [Dict.get] at hresponse
      cases hfound : data.lookup "response" with
      | none =>
        rw [hfound] at hresponse
        cases hresponse
      | some value =>
        rw [hfound, Option.getD_some] at hresponse
        rw [hresponse]
    have hpick : ∀ field ∈ completionResponseFields,
        (pick completionResponseFields response).lookup field = response.lookup field :=
      fun field hfield => lookup_pick _ _ hfield
    have hcompleted : completed event output = completed data output := by
      simp only [completed, hevent, Dict.lookup_set_self, hlookup, Option.getD_some, asDict, Dict.get, bind,
        Except.bind, hpick _ (show "output" ∈ completionResponseFields by decide),
        hpick _ (show "usage" ∈ completionResponseFields by decide),
        hpick _ (show "id" ∈ completionResponseFields by decide)]
      rfl
    have hfailed : failed event output = failed data output := by
      simp only [failed, hevent, Dict.lookup_set_self, hlookup, Option.getD_some, asDict, bind, Except.bind,
        hpick _ (show "error" ∈ completionResponseFields by decide)]
    have hdone : ∀ a typeName b rest, isResponse eventType ".done" = true →
        components eventType = a :: typeName :: b :: rest →
        done typeName event output = done typeName data output := by
      intro a typeName b rest hfinal hcomponents
      refine hbut.done ?_ output
      rintro rfl
      have hfield : deltaTypeOf data = some "response" := by simp only [deltaTypeOf, htype, hcomponents]
      have hkept := hkeeps eventType htype hfinal hfield
      rw [completionEventData, hresponse] at hkept
      exact hsame hkept
    rw [reduce, reduce, handle, handle, hbut.typeOf, htype]
    simp only [Except.bind, bind, isResponse, hdelta, Bool.and_false, Bool.false_eq_true, if_false,
      hbut.outputItemAdded, hbut.partAdded, hbut.outputItemDone, hcompleted, hfailed]
    by_cases herror : eventType = "error"
    · -- what is emitted with an error is no part of the output
      subst herror
      rfl
    · rcases hcomponents : components eventType with _ | ⟨a, _ | ⟨typeName, _ | ⟨b, rest⟩⟩⟩
      · simp only [if_neg herror]
      · simp only [if_neg herror]
      · simp only [if_neg herror]
      · by_cases hfinal : (startsWith eventType "response." && endsWith eventType ".done") = true
        · simp only [if_neg herror, hdone a typeName b rest hfinal hcomponents]
        · simp only [if_neg herror, if_neg hfinal]
  · exact absurd rfl hsame

/-! ## What is pending -/

def Queue.events (q : Queue) : List Dict := q.emitted ++ (q.pending.map Pending.data).toList

def Queue.Valid (q : Queue) : Prop :=
  ∀ pending ∈ q.pending, ∃ eventType, typeOf pending.data = .ok eventType ∧ endsWith eventType ".delta" = true ∧
    getResponseDeltaKey pending.data = .ok pending.key

theorem events_flush (threshold : ℕ) (q : Queue) : (flushPendingDeltaData threshold q).events = q.events := by
  rw [flushPendingDeltaData]
  split
  · rfl
  · rename_i pending hpending
    split
    · simp [Queue.events, hpending]
    · rfl

theorem valid_flush (h : q.Valid) : (flushPendingDeltaData threshold q).Valid := by
  rw [flushPendingDeltaData]
  split
  · exact h
  · split
    · intro pending hpending
      cases hpending
    · exact h

theorem emitted_flush_zero (q : Queue) : (flushPendingDeltaData 0 q).emitted = q.events := by
  rw [flushPendingDeltaData]
  split
  · rename_i hnone
    simp [Queue.events, hnone]
  · rename_i pending hpending
    rw [if_pos (Nat.zero_le _)]
    simp [Queue.events, hpending]

theorem reduceAll_concat (h : reduceAll repr output events = .ok middle)
    (h' : reduce repr middle event = .ok result) : reduceAll repr output (events ++ [event]) = .ok result := by
  rw [reduceAll, List.foldlM_append, bind_eq_ok]
  refine ⟨middle, h, ?_⟩
  rw [List.foldlM_cons, bind_eq_ok]
  exact ⟨result, h', rfl⟩

theorem reduceAll_concat_inv (h : reduceAll repr output (events ++ [event]) = .ok result) :
    ∃ middle, reduceAll repr output events = .ok middle ∧ reduce repr middle event = .ok result := by
  rw [reduceAll, List.foldlM_append, bind_eq_ok] at h
  obtain ⟨middle, hm, h⟩ := h
  rw [List.foldlM_cons, bind_eq_ok] at h
  obtain ⟨result', hr, hnil⟩ := h
  cases hnil
  exact ⟨middle, hm, hr⟩

theorem reduce_without_key (htype : typeOf data = .ok eventType) (hdelta : endsWith eventType ".delta" = true)
    (hkey : getResponseDeltaKey data = .ok none) (output : List Json) :
    reduce repr output data = .ok output := by
  rw [getResponseDeltaKey_delta htype hdelta] at hkey
  rw [reduce_delta htype hdelta]
  split at hkey
  · cases hkey
  · rename_i hresponse
    rw [if_neg hresponse]

theorem lookup_of_get (h : Dict.get data field = .str text) : data.lookup field = some (.str text) := by
  rw [Dict.get] at h
  cases hfound : data.lookup field with
  | none =>
    rw [hfound] at h
    cases h
  | some value =>
    rw [hfound, Option.getD_some] at h
    rw [h]

theorem bothTexts_eq_some (h : bothTexts a b = some (s, t)) : deltaOf a = .str s ∧ deltaOf b = .str t := by
  rw [bothTexts] at h
  split at h
  · rename_i s' t' ha hb
    cases h
    exact ⟨deltaOf_of_lookup (lookup_of_get ha), deltaOf_of_lookup (lookup_of_get hb)⟩
  · cases h

theorem reduceAll_enqueue (hvalid : q.Valid) (htype : typeOf data = .ok eventType)
    (hdelta : endsWith eventType ".delta" = true) (hkey : getResponseDeltaKey data = .ok key) (hjoins : Joins q data)
    (h : reduceAll repr output q.events = .ok middle) (h' : reduce repr middle data = .ok result) :
    (enqueue data eventType key q).Valid ∧ reduceAll repr output (enqueue data eventType key q).events = .ok result := by
  have hnew : ∀ n emitted, Queue.Valid { deltaCount := n, pending := some ⟨data, eventType, key⟩, emitted } := by
    rintro n emitted pending hpending
    cases hpending
    exact ⟨eventType, htype, hdelta, hkey⟩
  rw [enqueue]
  cases hpending : q.pending with
  | none =>
    refine ⟨hnew _ _, ?_⟩
    simp only [Queue.events, hpending, Option.map_none, Option.toList_none, List.append_nil] at h
    exact reduceAll_concat h h'
  | some pending =>
    obtain ⟨eventType₀, htype₀, hdelta₀, hkey₀⟩ := hvalid pending hpending
    have hevents : q.events = q.emitted ++ [pending.data] := by simp [Queue.events, hpending]
    rw [hevents] at h
    obtain ⟨start, hstart, hlast⟩ := reduceAll_concat_inv h
    -- without a key the pending delta had no effect
    have hvoid : pending.key = none → reduceAll repr output q.emitted = .ok middle := by
      intro hnone
      rw [hnone] at hkey₀
      rw [reduce_without_key htype₀ hdelta₀ hkey₀] at hlast
      cases hlast
      exact hstart
    dsimp only
    split
    · rename_i s t hsame htexts
      obtain ⟨hs, ht⟩ := bothTexts_eq_some htexts
      refine ⟨?_, ?_⟩
      · intro p hp
        cases hp
        exact ⟨eventType₀, (typeOf_set_delta _ _).trans htype₀, hdelta₀,
          (getResponseDeltaKey_set_delta _ _).trans hkey₀⟩
      refine reduceAll_concat hstart ?_
      cases hkey₁ : pending.key with
      | none =>
        rw [hkey₁] at hkey₀ hsame
        cases key with
        | some key => cases hsame
        | none =>
          rw [reduce_without_key htype₀ hdelta₀ hkey₀] at hlast
          rw [reduce_without_key htype hdelta hkey] at h'
          cases hlast
          cases h'
          exact reduce_without_key ((typeOf_set_delta _ _).trans htype₀) hdelta₀
            ((getResponseDeltaKey_set_delta _ _).trans hkey₀) _
      | some key₁ =>
        rw [hkey₁] at hkey₀ hsame
        cases key with
        | none => cases hsame
        | some key₂ =>
          have hne := (hjoins pending hpending key₁ key₂ hkey₁ hkey hsame).2
          exact reduce_joined htype₀ htype hdelta₀ hdelta hkey₀ hkey hsame hne hs ht hlast h'
    · rename_i same htexts hother
      refine ⟨?_, ?_⟩
      · split <;> exact hnew _ _
      split
      · -- what was pending has been emitted
        have hemitted := emitted_flush_zero q
        rw [hevents] at hemitted
        simp only [Queue.events, hemitted, Option.map_some, Option.toList_some]
        exact reduceAll_concat h h'
      rename_i hkept
      have hsame : keyEqv pending.key key = true := by simpa using fun heq => hkept (.inr heq)
      simp only [Queue.events, Option.map_some, Option.toList_some]
      cases hkey₁ : pending.key with
      | none => exact reduceAll_concat (hvoid hkey₁) h'
      | some key₁ =>
        rw [hkey₁] at hsame
        cases key with
        | none => cases hsame
        | some key₂ =>
          -- the condition leaves no delta of this key that is not joined
          exfalso
          obtain ⟨⟨s, t⟩, hst⟩ := Option.isSome_iff_exists.1 (hjoins pending hpending key₁ key₂ hkey₁ hkey hsame).1
          exact hother s t (by rw [hkey₁]; exact hsame) hst

/-! ## Runs -/

theorem typeOf_withFullOutputIndex (priorOutput : List Json) (data : Dict) :
    typeOf (withFullOutputIndex priorOutput data) = typeOf data := by
  have hset : ∀ field value, field ≠ "type" → typeOf (Dict.set data field value) = typeOf data := by
    intro field value hne
    rw [typeOf, typeOf, Dict.lookup_set_of_ne _ hne.symm]
  rw [withFullOutputIndex]
  split
  · rfl
  dsimp only
  split
  · exact hset _ _ (by decide)
  · exact hset _ _ (by decide)
  · rfl

/-- An event that the reducer takes has a type, and nothing else can stop the queue. -/
theorem emit_of_reduce (q : Queue) (h : reduce repr middle (withFullOutputIndex priorOutput data) = .ok result) :
    ∃ q', emitResponseCompletionEvent chunkSize priorOutput q data = .ok q' := by
  rw [reduce, bind_eq_ok] at h
  obtain ⟨_, hhandle, -⟩ := h
  rw [handle, bind_eq_ok] at hhandle
  obtain ⟨eventType, htype', -⟩ := hhandle
  have htype := (typeOf_withFullOutputIndex priorOutput data).symm.trans htype'
  rw [emitResponseCompletionEvent, htype]
  by_cases hdelta : endsWith eventType ".delta" = true
  · have hqueued : ∃ q', queuePendingDeltaData chunkSize priorOutput data eventType q = .ok q' := by
      simp only [queuePendingDeltaData, bind_eq_ok]
      exact ⟨_, _, getResponseDeltaKey_delta htype' hdelta, rfl⟩
    obtain ⟨q', hq'⟩ := hqueued
    exact ⟨q', (if_pos hdelta).trans hq'⟩
  · exact ⟨_, if_neg hdelta⟩

theorem reduceAll_emit (hvalid : q.Valid)
    (hmeets : StepMeets priorOutput q data) (hstep : emitResponseCompletionEvent chunkSize priorOutput q data = .ok q')
    (h : reduceAll repr output q.events = .ok middle)
    (h' : reduce repr middle (withFullOutputIndex priorOutput data) = .ok result) :
    q'.Valid ∧ reduceAll repr output q'.events = .ok result := by
  rw [emitResponseCompletionEvent, bind_eq_ok] at hstep
  obtain ⟨eventType, htype, hstep⟩ := hstep
  have hcondition := hmeets eventType htype
  have htype' := (typeOf_withFullOutputIndex priorOutput data).trans htype
  by_cases hdelta : endsWith eventType ".delta" = true
  · rw [if_pos hdelta] at hstep hcondition
    rw [queuePendingDeltaData, bind_eq_ok] at hstep
    obtain ⟨key, hkey, hstep⟩ := hstep
    cases hstep
    obtain ⟨hvalid', hreduce⟩ := reduceAll_enqueue hvalid htype' hdelta hkey hcondition h h'
    split
    · exact ⟨valid_flush hvalid', by rw [events_flush]; exact hreduce⟩
    · exact ⟨hvalid', hreduce⟩
  · rw [if_neg hdelta] at hstep hcondition
    cases hstep
    rw [← reduce_completionEventData htype' (Bool.eq_false_iff.2 hdelta) hcondition] at h'
    have hnone : (flushPendingDeltaData 0 q).pending = none := by
      rw [flushPendingDeltaData]
      split
      · assumption
      · rw [if_pos (Nat.zero_le _)]
    refine ⟨fun pending hpending => ?_, ?_⟩
    · rw [Option.mem_def] at hpending
      cases hnone.symm.trans hpending
    · rw [Queue.events, hnone, emitted_flush_zero, Option.map_none, Option.toList_none, List.append_nil]
      exact reduceAll_concat h h'

theorem reduceAll_run (hvalid : q.Valid) (hmeets : RunMeets chunkSize priorOutput q events)
    (h : reduceAll repr output q.events = .ok middle)
    (h' : reduceAll repr middle (events.map (withFullOutputIndex priorOutput)) = .ok result) :
    ∃ q', events.foldlM (emitResponseCompletionEvent chunkSize priorOutput) q = .ok q' ∧
      reduceAll repr output q'.events = .ok result := by
  induction events generalizing q middle with
  | nil =>
    cases h'
    exact ⟨q, rfl, h⟩
  | cons event events ih =>
    rw [List.map_cons, reduceAll, List.foldlM_cons, bind_eq_ok] at h'
    obtain ⟨middle₁, hreduce, h'⟩ := h'
    obtain ⟨q₁, hstep⟩ := emit_of_reduce q hreduce
    obtain ⟨hvalid₁, h₁⟩ := reduceAll_emit hvalid hmeets.1 hstep h hreduce
    obtain ⟨q', hrun, hq'⟩ := ih hvalid₁ (hmeets.2 q₁ hstep) h₁ h'
    exact ⟨q', by rw [List.foldlM_cons, bind_eq_ok]; exact ⟨q₁, hstep, hrun⟩, hq'⟩

/-- The queue emits, and what it emits reduces to the output of the events, in the first round the
provider's. -/
theorem batching_loses_nothing (repr : Json → String) (chunkSize : ℕ) (priorOutput : List Json)
    (events : List Dict) (output result : List Json) (hmeets : RunMeets chunkSize priorOutput .empty events)
    (h : reduceAll repr output (events.map (withFullOutputIndex priorOutput)) = .ok result) :
    ∃ emitted, emitAll chunkSize priorOutput events = .ok emitted ∧ reduceAll repr output emitted = .ok result ∧
      (priorOutput = [] → reduceAll repr output events = .ok result) := by
  have hvalid : Queue.empty.Valid := by
    intro pending hpending
    cases hpending
  obtain ⟨q, hrun, hq⟩ := reduceAll_run hvalid hmeets rfl h
  refine ⟨(flushPendingDeltaData 0 q).emitted, ?_, by rwa [emitted_flush_zero], ?_⟩
  · rw [emitAll, hrun]
    rfl
  · rintro rfl
    have hmap : events.map (withFullOutputIndex []) = events :=
      (List.map_congr_left fun event _ => withFullOutputIndex_nil event).trans (List.map_id _)
    rwa [hmap] at h

def textEvent (text : String) : Dict := [("type", .str "response.text.delta"), ("delta", .str text)]

def completedEvent (response : Dict) : Dict := [("type", .str "response.completed"), ("response", .obj response)]

def helloItem : Json :=
  .obj
    [("type", .str "message"), ("status", .str "in_progress"), ("role", .str "assistant"),
      ("content", .arr [.obj [("type", .str "text"), ("text", .str "Hello")]]), ("id", .null)]

theorem runMeets_hello : RunMeets 3 [] .empty
      [textEvent "He", textEvent "llo", completedEvent [("id", .str "r"), ("object", .str "response")]] := by
  have hdelta : ∀ text t, typeOf (textEvent text) = .ok t → endsWith t ".delta" = true := by
    intro text t ht
    cases ht
    decide
  refine ⟨fun t ht => ?_, fun q₁ hq₁ => ⟨fun t ht => ?_, fun q₂ hq₂ => ⟨fun t ht => ?_, fun _ _ => trivial⟩⟩⟩
  · rw [if_pos (hdelta _ t ht)]
    intro pending hpending
    cases hpending
  · rw [if_pos (hdelta _ t ht)]
    have hfirst : emitResponseCompletionEvent 3 [] .empty (textEvent "He") =
        .ok ⟨1, some ⟨textEvent "He", "response.text.delta",
          some ⟨"response.text.delta", .null, .null, .null, .null⟩⟩, []⟩ := by decide
    cases hfirst.symm.trans hq₁
    intro pending hpending _ _ _ _ _
    cases hpending
    exact ⟨by decide, by decide +kernel⟩
  · cases ht
    rw [if_neg (by decide)]
    intro _ _ _ hresponse
    exact absurd hresponse (by decide)

theorem batching_loses_nothing_hello : ∃ emitted,
    emitAll 3 [] [textEvent "He", textEvent "llo", completedEvent [("id", .str "r"), ("object", .str "response")]] =
        .ok emitted ∧
      reduceAll (fun _ => "") [] emitted = .ok [helloItem] ∧
      (([] : List Json) = [] →
        reduceAll (fun _ => "") []
          [textEvent "He", textEvent "llo", completedEvent [("id", .str "r"), ("object", .str "response")]] =
            .ok [helloItem]) :=
  batching_loses_nothing (fun _ => "") 3 [] _ [] _ runMeets_hello (by decide +kernel)

def audioDelta (field value : String) : Dict :=
  [("type", .str "response.audio.delta"), ("delta", .obj [(field, .str value)])]

def audioItem (audio : Dict) : Json :=
  .obj
    [("type", .str "message"), ("status", .str "in_progress"), ("role", .str "assistant"),
      ("content", .arr [.obj [("type", .str "text"), ("text", .str ""), ("audio", .obj audio)]]), ("id", .null)]

/-- Of two deltas with values that are no texts the first one is never emitted. -/
theorem first_value_is_lost : emitAll 2 [] [audioDelta "id" "a", audioDelta "data" "b"] = .ok [audioDelta "data" "b"] ∧
      reduceAll (fun _ => "") [] [audioDelta "id" "a", audioDelta "data" "b"] =
        .ok [audioItem [("id", .str "a"), ("data", .str "b")]] ∧
      reduceAll (fun _ => "") [] [audioDelta "data" "b"] = .ok [audioItem [("data", .str "b")]] ∧
      audioItem [("id", .str "a"), ("data", .str "b")] ≠ audioItem [("data", .str "b")] :=
  ⟨by decide, by decide +kernel, by decide +kernel, by decide +kernel⟩

end RyanAI.Chat.ResponseStream
