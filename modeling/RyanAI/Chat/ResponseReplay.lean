import RyanAI.Chat.ResponseMerge
import RyanAI.Lib.Terminated

/-!
# Resumed response streams

While a response is streamed, `tasks.py` keeps it in Redis for a browser that comes back: a line with a snapshot of the
output, and a line for every delta since. `load_response_stream` joins the deltas of one key that follow each other and
applies them to the snapshot. A delta is appended by a script that compares the size of what is stored with the one the
writer has recorded, zero when it does not know. Each call of Redis may be carried out any number of times, and its
reply may be lost.

Texts are lists over any type of characters; `JSONCodec.loads` and `dumps_bytes` are parameters.
-/

namespace RyanAI.Chat.ResponseStream

open Lib

variable {α : Type} {repr : Json → String}

/-! ## Loading -/

inductive LoadFailure where
  | valueError
  | keyError
  | raised (failure : Failure)
  deriving DecidableEq

def LoadFailure.lift {β : Type} : Except Failure β → Except LoadFailure β
  | .ok value => .ok value
  | .error failure => .error (.raised failure)

/-- `event['delta']`, where a text is needed. -/
def textOf (event : Dict) : Except LoadFailure String :=
  match event.lookup "delta" with
  | none => .error .keyError
  | some (.str text) => .ok text
  | some _ => .error (.raised .typeError)

/-- `{**first, 'delta': first['delta'] + ''.join(…)}` -/
def joinedDelta (first : Dict) (rest : List Dict) : Except LoadFailure Dict := do
  let text ← textOf first
  let texts ← rest.mapM textOf
  return Dict.set first "delta" (.str (text ++ String.join texts))

/-- `handle_responses_streaming_event(delta, snapshot['output'])` -/
def applyGroup (repr : Json → String) (snapshot first : Dict) (rest : List Dict) : Except LoadFailure Dict := do
  let delta ← joinedDelta first rest
  match snapshot.lookup "output" with
  | none => .error .keyError
  | some (.arr output) =>
    let output ← LoadFailure.lift (reduce repr output delta)
    return Dict.set snapshot "output" (.arr output)
  | some _ => .error (.raised .typeError)

/-- The loop over `groupby(deltas, …)`; the current group is `first` and `rest` under `key`. -/
def applyGroups (repr : Json → String) (snapshot first : Dict) (key : Option DeltaKey) (rest : List Dict) :
    List Json → Except LoadFailure Dict
  | [] => applyGroup repr snapshot first rest
  | value :: values => do
    let event ← LoadFailure.lift (asDict value)
    let key' ← LoadFailure.lift (getResponseDeltaKey event)
    if keyEqv key key' then applyGroups repr snapshot first key (rest ++ [event]) values
    else
      let snapshot ← applyGroup repr snapshot first rest
      applyGroups repr snapshot event key' [] values

def applyDeltas (repr : Json → String) (snapshot : Dict) : List Json → Except LoadFailure Dict
  | [] => .ok snapshot
  | value :: values => do
    let event ← LoadFailure.lift (asDict value)
    let key ← LoadFailure.lift (getResponseDeltaKey event)
    applyGroups repr snapshot event key [] values

/-- `dumps_bytes`, `JSONCodec.loads` and the end of a line. -/
structure Codec (α : Type) where
  dumps : Json → List α
  loads : List α → Option Json
  newline : α

/-- `JSONCodec.loads(line)`. -/
def loadLine (codec : Codec α) (line : List α) : Except LoadFailure Json :=
  match codec.loads line with
  | some value => .ok value
  | none => .error .valueError

/-- `load_response_stream`. -/
def loadResponseStream [DecidableEq α] (repr : Json → String) (codec : Codec α) (value : List α) :
    Except LoadFailure Dict := do
  let lines := value.splitOn codec.newline
  let values ← (lines.filter fun line => !line.isEmpty).mapM (loadLine codec)
  match values with
  | [] => .error .valueError
  | snapshot :: deltas =>
    let snapshot ← LoadFailure.lift (asDict snapshot)
    applyDeltas repr snapshot deltas

/-! ## Deltas that are joined -/

/-- An event with a type that ends in `.delta` and a text as its delta. -/
def IsTextDelta (event : Dict) : Prop :=
  (∃ eventType, typeOf event = .ok eventType ∧ endsWith eventType ".delta" = true) ∧
    ∃ text, event.lookup "delta" = some (.str text)

def SameKey (a b : Dict) : Prop :=
  ∃ key key', getResponseDeltaKey a = .ok key ∧ getResponseDeltaKey b = .ok key' ∧ keyEqv key key' = true

/-- No two deltas on the field `type` of one item follow each other. -/
def NoTypeRuns (events : List Dict) : Prop := events.IsChain fun a b => SameKey a b → deltaTypeOf a ≠ some "type"

theorem textOf_of_lookup (h : event.lookup "delta" = some (.str text)) : textOf event = .ok text := by
  rw [textOf, h]

variable {output result : List Json} {first snapshot : Dict} {rest events : List Dict} {codec : Codec α}

theorem reduce_group (hfirst : IsTextDelta first) (hrest : ∀ event ∈ rest, IsTextDelta event)
    (hkey : getResponseDeltaKey first = .ok key)
    (hsame : ∀ event ∈ rest, ∃ key', getResponseDeltaKey event = .ok key' ∧ keyEqv key key' = true)
    (htype : rest ≠ [] → deltaTypeOf first ≠ some "type") (h : reduceAll repr output (first :: rest) = .ok result) :
    ∃ delta, joinedDelta first rest = .ok delta ∧ reduce repr output delta = .ok result := by
  induction rest generalizing first with
  | nil =>
    obtain ⟨-, text, htext⟩ := hfirst
    refine ⟨Dict.set first "delta" (.str text), ?_, ?_⟩
    · rw [joinedDelta, textOf_of_lookup htext]
      show Except.ok (Dict.set first "delta" (.str (text ++ ""))) = _
      rw [String.append_empty]
    have hset : Dict.set first "delta" (.str text) = first := Dict.set_of_lookup htext
    rw [hset]
    rw [reduceAll, List.foldlM_cons, bind_eq_ok] at h
    obtain ⟨middle, hm, hnil⟩ := h
    cases hnil
    exact hm
  | cons second rest ih =>
    obtain ⟨⟨eventType, hty, hdelta⟩, s, hs⟩ := id hfirst
    obtain ⟨⟨eventType', hty', hdelta'⟩, t, ht⟩ := hrest second List.mem_cons_self
    obtain ⟨key', hkey', heqv⟩ := hsame second List.mem_cons_self
    rw [reduceAll, List.foldlM_cons, bind_eq_ok] at h
    obtain ⟨middle, hm, h⟩ := h
    rw [List.foldlM_cons, bind_eq_ok] at h
    obtain ⟨middle', hm', h⟩ := h
    have hne := htype (List.cons_ne_nil _ _)
    have hjoined := reduce_joined hty hty' hdelta hdelta' hkey hkey' heqv hne (deltaOf_of_lookup hs)
      (deltaOf_of_lookup ht) hm hm'
    have hset : IsTextDelta (Dict.set first "delta" (.str (s ++ t))) :=
      ⟨⟨eventType, (typeOf_set_delta _ _).trans hty, hdelta⟩, s ++ t, Dict.lookup_set_self _ _ _⟩
    obtain ⟨delta, hd, hr⟩ := ih hset
      (List.forall_mem_of_forall_mem_cons hrest)
      ((getResponseDeltaKey_set_delta _ _).trans hkey)
      (List.forall_mem_of_forall_mem_cons hsame)
      (fun _ => by rw [deltaTypeOf_set_delta]; exact hne)
      (by rw [reduceAll, List.foldlM_cons, bind_eq_ok]; exact ⟨middle', hjoined, h⟩)
    refine ⟨delta, ?_, hr⟩
    rw [← hd, joinedDelta, joinedDelta, textOf_of_lookup hs, textOf_of_lookup (Dict.lookup_set_self _ _ _),
      List.mapM_cons, textOf_of_lookup ht]
    simp only [Except.bind, bind, pure, Except.pure]
    cases rest.mapM textOf with
    | error e => rfl
    | ok texts =>
      simp only [Dict.set_set, String.join_cons, String.append_assoc]

theorem reduceAll_append (output : List Json) (events events' : List Dict) : reduceAll repr output (events ++ events') =
      (reduceAll repr output events >>= fun middle => reduceAll repr middle events') :=
  List.foldlM_append

section

variable (houtput : snapshot.lookup "output" = some (.arr output))

include houtput

theorem applyGroup_eq_ok (hdelta : joinedDelta first rest = .ok delta) (h : reduce repr output delta = .ok result) :
    applyGroup repr snapshot first rest = .ok (Dict.set snapshot "output" (.arr result)) := by
  rw [applyGroup, hdelta]
  simp only [Except.bind, bind, houtput, h, LoadFailure.lift]
  rfl

theorem applyGroups_eq_ok (hfirst : IsTextDelta first) (hrest : ∀ event ∈ rest, IsTextDelta event)
    (hevents : ∀ event ∈ events, IsTextDelta event) (hkey : getResponseDeltaKey first = .ok key)
    (hsame : ∀ event ∈ rest, ∃ key', getResponseDeltaKey event = .ok key' ∧ keyEqv key key' = true)
    (htype : rest ≠ [] → deltaTypeOf first ≠ some "type") (hruns : NoTypeRuns (first :: (rest ++ events)))
    (h : reduceAll repr output (first :: (rest ++ events)) = .ok result) :
    applyGroups repr snapshot first key rest (events.map .obj) = .ok (Dict.set snapshot "output" (.arr result)) := by
  induction events generalizing snapshot first key rest output with
  | nil =>
    rw [List.append_nil] at h
    obtain ⟨delta, hd, hr⟩ := reduce_group hfirst hrest hkey hsame htype h
    exact applyGroup_eq_ok houtput hd hr
  | cons event events ih =>
    obtain ⟨⟨eventType, hty, hdelta⟩, -⟩ := hevents event List.mem_cons_self
    have hlater : ∀ e ∈ events, IsTextDelta e := fun e he => hevents e (List.mem_cons_of_mem _ he)
    obtain ⟨key', hkey'⟩ : ∃ key', getResponseDeltaKey event = .ok key' := ⟨_, getResponseDeltaKey_delta hty hdelta⟩
    simp only [List.map_cons, applyGroups, asDict, Except.bind, bind, LoadFailure.lift, hkey']
    by_cases heqv : keyEqv key key' = true
    · rw [if_pos heqv]
      have hassoc : rest ++ event :: events = (rest ++ [event]) ++ events := by simp
      have hmem : ∀ e ∈ rest ++ [event], e ∈ rest ∨ e = event := by simp
      refine ih houtput hfirst ?_ hlater hkey ?_ ?_ (hassoc ▸ hruns) (hassoc ▸ h)
      · intro e he
        rcases hmem e he with hold | rfl
        · exact hrest e hold
        · exact hevents e List.mem_cons_self
      · intro e he
        rcases hmem e he with hold | rfl
        · exact hsame e hold
        · exact ⟨key', hkey', heqv⟩
      · intro _
        cases rest with
        | nil =>
          have hadjacent := (List.isChain_cons_cons.1 hruns).1
          exact hadjacent ⟨key, key', hkey, hkey', heqv⟩
        | cons e es => exact htype (List.cons_ne_nil _ _)
    · rw [if_neg heqv]
      rw [← List.cons_append, reduceAll_append, bind_eq_ok] at h
      obtain ⟨middle, hm, h⟩ := h
      obtain ⟨delta, hd, hr⟩ := reduce_group hfirst hrest hkey hsame htype hm
      rw [applyGroup_eq_ok houtput hd hr]
      have hnil : ∀ e ∈ ([] : List Dict), IsTextDelta e := by simp
      have hruns' : NoTypeRuns ((first :: rest) ++ event :: events) := hruns
      have hnext := ih (Dict.lookup_set_self snapshot "output" (.arr middle)) (hevents event List.mem_cons_self) hnil
        hlater hkey' (by simp) (fun hne => absurd rfl hne) (List.IsChain.right_of_append hruns') h
      rw [Dict.set_set] at hnext
      exact hnext

theorem applyDeltas_eq_ok (hevents : ∀ event ∈ events, IsTextDelta event) (hruns : NoTypeRuns events)
    (h : reduceAll repr output events = .ok result) :
    applyDeltas repr snapshot (events.map .obj) = .ok (Dict.set snapshot "output" (.arr result)) := by
  cases events with
  | nil =>
    cases h
    rw [List.map_nil, applyDeltas, Dict.set_of_lookup houtput]
  | cons event events =>
    obtain ⟨⟨eventType, hty, hdelta⟩, -⟩ := hevents event List.mem_cons_self
    obtain ⟨key, hkey⟩ : ∃ key, getResponseDeltaKey event = .ok key := ⟨_, getResponseDeltaKey_delta hty hdelta⟩
    simp only [List.map_cons, applyDeltas, asDict, Except.bind, bind, LoadFailure.lift, hkey]
    exact applyGroups_eq_ok houtput (hevents event List.mem_cons_self) (by simp)
      (List.forall_mem_of_forall_mem_cons hevents) hkey (by simp) (fun hne => absurd rfl hne) hruns h

end

structure Codec.Keeps (codec : Codec α) (value : Json) : Prop where
  loads_dumps : codec.loads (codec.dumps value) = some value
  one_line : codec.newline ∉ codec.dumps value
  nonempty : codec.dumps value ≠ []

/-- `dumps_bytes(data) + b'\n'` for each of the values. -/
def Codec.lines (codec : Codec α) (values : List Dict) : List α :=
  terminated codec.newline (values.map fun value => codec.dumps (.obj value))

theorem mapM_loadLine {values : List Dict} (h : ∀ value ∈ values, codec.Keeps (.obj value)) :
    (values.map fun value => codec.dumps (.obj value)).mapM (loadLine codec) = .ok (values.map .obj) := by
  induction values with
  | nil => rfl
  | cons value values ih =>
    rw [List.map_cons, List.mapM_cons, loadLine, (h value List.mem_cons_self).loads_dumps,
      ih fun v hv => h v (List.mem_cons_of_mem _ hv)]
    rfl

theorem splitOn_lines [DecidableEq α] (h : ∀ value ∈ values, codec.Keeps (.obj value)) :
    ((codec.lines values).splitOn codec.newline).filter (fun line => !line.isEmpty) =
      values.map fun value => codec.dumps (.obj value) := by
  rw [Codec.lines, splitOn_terminated]
  · rw [List.filter_append, List.filter_eq_self.2, List.filter_cons_of_neg (by simp), List.filter_nil, List.append_nil]
    intro line hline
    obtain ⟨value, hv, rfl⟩ := List.mem_map.1 hline
    simpa using (h value hv).nonempty
  · intro line hline
    obtain ⟨value, hv, rfl⟩ := List.mem_map.1 hline
    exact (h value hv).one_line

theorem loadResponseStream_lines [DecidableEq α] (hkeeps : ∀ value ∈ snapshot :: events, codec.Keeps (.obj value)) :
    loadResponseStream repr codec (codec.lines (snapshot :: events)) = applyDeltas repr snapshot (events.map .obj) := by
  rw [loadResponseStream]
  simp only [splitOn_lines hkeeps, mapM_loadLine hkeeps]
  rfl

/-! ## Writing -/

def snapshotData (chatId messageId : Json) (output : List Json) : Dict :=
  [("chat_id", chatId), ("message_id", messageId), ("output", .arr output)]

inductive Outcome where
  | lost (times : ℕ)
  | replied (before : ℕ)

/-- What is stored, and the writer's variables; `appended` are the deltas it was told succeeded
since `snapshot`. -/
structure Writer (α : Type) where
  stored : Option (List α)
  streamSize : ℕ
  snapshotSize : ℕ
  snapshot : Dict
  appended : List Dict

/-- The script of `append_response_stream`; an absent key has length zero. -/
def appendScript (size : ℕ) (delta : List α) (stored : Option (List α)) : Option (List α) × Bool :=
  if (stored.getD []).length ≠ size then (stored, false)
  else (some (stored.getD [] ++ delta), true)

def appendTimes (size : ℕ) (delta : List α) (stored : Option (List α)) : ℕ → Option (List α)
  | 0 => stored
  | times + 1 => (appendScript size delta (appendTimes size delta stored times)).1

/-- `append_response_stream`. -/
def appendResponseStream (outcome : Outcome) (size : ℕ) (delta : List α) (stored : Option (List α)) :
    Option (List α) × Bool :=
  match outcome with
  | .lost times => (appendTimes size delta stored times, false)
  | .replied before => appendScript size delta (appendTimes size delta stored before)

/-- `save_response_stream`; size zero asks for the snapshot again. -/
def saveResponseStream (codec : Codec α) (taskId chatId messageId : Json) (output : List Json) (outcome : Outcome)
    (stored : Option (List α)) : Option (List α) × ℕ :=
  if !taskId.truthy || !chatId.truthy || !messageId.truthy then (stored, 0)
  else
    let line := codec.lines [snapshotData chatId messageId output]
    match outcome with
    | .lost 0 => (stored, 0)
    | .lost (_ + 1) => (some line, 0)
    | .replied _ => (some line, line.length)

/-- `save_current_response_stream`. -/
def saveCurrentResponseStream (codec : Codec α) (taskId chatId messageId : Json) (output : List Json)
    (outcome : Outcome) (w : Writer α) : Writer α :=
  let (stored, size) := saveResponseStream codec taskId chatId messageId output outcome w.stored
  { stored, streamSize := size, snapshotSize := size, snapshot := snapshotData chatId messageId output, appended := [] }

/-- `save_response_delta`; `resets` tests for deltas that cannot be appended. -/
def saveResponseDelta (codec : Codec α) (delta : Dict) (resets : Bool) (outcome : Outcome) (w : Writer α) : Writer α :=
  if w.streamSize = 0 then w
  else if resets then { w with streamSize := 0 }
  else
    let line := codec.lines [delta]
    if w.streamSize + line.length ≤ w.snapshotSize * 2 then
      let (stored, told) := appendResponseStream outcome w.streamSize line w.stored
      if told then
        { w with stored, streamSize := w.streamSize + line.length, appended := w.appended ++ [delta] }
      else { w with stored, streamSize := 0 }
    else { w with streamSize := 0 }

inductive WriteStep where
  | save (taskId chatId messageId : Json) (output : List Json) (outcome : Outcome)
  | delta (delta : Dict) (resets : Bool) (outcome : Outcome)
  | reset
  | dropped

def writeStep (codec : Codec α) (w : Writer α) : WriteStep → Writer α
  | .save taskId chatId messageId output outcome =>
    saveCurrentResponseStream codec taskId chatId messageId output outcome w
  | .delta delta resets outcome => saveResponseDelta codec delta resets outcome w
  | .reset => { w with streamSize := 0 }
  | .dropped => { w with stored := none }

def initialWriter (stored : Option (List α)) : Writer α :=
  { stored, streamSize := 0, snapshotSize := 0, snapshot := [], appended := [] }

def runWriter (codec : Codec α) (stored : Option (List α)) (steps : List WriteStep) : Writer α :=
  steps.foldl (writeStep codec) (initialWriter stored)

/-! ## What is stored -/

def Writer.text (codec : Codec α) (w : Writer α) : List α := codec.lines (w.snapshot :: w.appended)

def Writer.Exact (codec : Codec α) (dropped : Prop) (w : Writer α) : Prop :=
  w.streamSize ≠ 0 →
    w.streamSize = (w.text codec).length ∧ (w.stored = some (w.text codec) ∨ (dropped ∧ w.stored = none))

theorem appendTimes_eq (hdelta : delta ≠ []) (stored : Option (List α)) (times : ℕ) :
    appendTimes size delta stored times = stored ∨ ((appendTimes size delta stored times).getD []).length ≠ size := by
  induction times with
  | zero => exact .inl rfl
  | succ times ih =>
    rw [appendTimes, appendScript]
    split
    · exact ih
    rename_i hsize
    right
    have hpos := List.length_pos_iff.2 hdelta
    rw [not_not] at hsize
    rw [Option.getD_some, List.length_append, hsize]
    omega

theorem appendResponseStream_told
    (hdelta : delta ≠ []) (h : (appendResponseStream outcome size delta stored).2 = true) :
    (stored.getD []).length = size ∧
      (appendResponseStream outcome size delta stored).1 = some (stored.getD [] ++ delta) := by
  cases outcome with
  | lost times => cases h
  | replied before =>
    rw [appendResponseStream, appendScript] at h ⊢
    split at h
    · cases h
    rename_i hsize
    rw [if_neg hsize]
    rw [not_not] at hsize
    rcases appendTimes_eq hdelta stored before with heq | hne
    · rw [heq] at hsize ⊢
      exact ⟨hsize, rfl⟩
    · exact absurd hsize hne

theorem lines_append (codec : Codec α) (values values' : List Dict) :
    codec.lines (values ++ values') = codec.lines values ++ codec.lines values' := by
  rw [Codec.lines, List.map_append, terminated_append]
  rfl

theorem lines_cons_ne_nil (codec : Codec α) (value : Dict) (values : List Dict) :
    codec.lines (value :: values) ≠ [] := by
  rw [Codec.lines, List.map_cons, terminated_cons]
  simp

theorem exact_writeStep {dropped : Prop} (h : w.Exact codec dropped) (step : WriteStep)
    (hdropped : step = .dropped → dropped) : (writeStep codec w step).Exact codec dropped := by
  cases step with
  | save taskId chatId messageId output outcome =>
    rw [writeStep, saveCurrentResponseStream, saveResponseStream]
    by_cases hids : (!taskId.truthy || !chatId.truthy || !messageId.truthy) = true
    · rw [if_pos hids]
      exact fun hne => absurd rfl hne
    rw [if_neg hids]
    rcases outcome with (_ | times) | before
    · exact fun hne => absurd rfl hne
    · exact fun hne => absurd rfl hne
    · exact fun _ => ⟨rfl, .inl rfl⟩
  | delta delta resets outcome =>
    rw [writeStep, saveResponseDelta]
    split
    · exact h
    rename_i hsize
    obtain ⟨hlength, hstored⟩ := h hsize
    split
    · exact fun hne => absurd rfl hne
    dsimp only
    split
    · split
      · rename_i htold
        obtain ⟨hold, hnew⟩ := appendResponseStream_told (lines_cons_ne_nil codec delta []) htold
        intro _
        -- a value that was dropped is empty, and the recorded size is not
        have hthere : w.stored = some (w.text codec) := by
          rcases hstored with hthere | ⟨-, hnone⟩
          · exact hthere
          · rw [hnone] at hold
            exact absurd hold.symm hsize
        have htext : codec.lines (w.snapshot :: (w.appended ++ [delta])) =
            w.text codec ++ codec.lines [delta] := by
          rw [← List.cons_append, lines_append]
          rfl
        refine ⟨?_, .inl ?_⟩
        · show w.streamSize + _ = (codec.lines (w.snapshot :: (w.appended ++ [delta]))).length
          rw [htext, List.length_append, hlength]
        · show _ = some (codec.lines (w.snapshot :: (w.appended ++ [delta])))
          rw [hnew, htext, hthere, Option.getD_some]
      · exact fun hne => absurd rfl hne
    · exact fun hne => absurd rfl hne
  | reset => exact fun hne => absurd rfl hne
  | dropped =>
    intro hsize
    exact ⟨(h hsize).1, .inr ⟨hdropped rfl, rfl⟩⟩

theorem exact_runWriter (codec : Codec α) (stored : Option (List α)) (steps : List WriteStep) :
    (runWriter codec stored steps).Exact codec (.dropped ∈ steps) := by
  induction steps using List.reverseRecOn with
  | nil => exact fun hne => absurd rfl hne
  | append_singleton steps step ih =>
    rw [runWriter, List.foldl_append, List.foldl_cons, List.foldl_nil]
    refine exact_writeStep ?_ step fun hstep => by simp [hstep]
    intro hsize
    obtain ⟨hlength, hstored | ⟨hdropped, hnone⟩⟩ := ih hsize
    · exact ⟨hlength, .inl hstored⟩
    · exact ⟨hlength, .inr ⟨List.mem_append_left _ hdropped, hnone⟩⟩

/-- A resumed stream holds what the deltas lead to, and under a recorded size the snapshot and each
delta once. -/
theorem resumed_streams_are_faithful [DecidableEq α] (repr : Json → String) (codec : Codec α) :
    (∀ (chatId messageId : Json) (output : List Json) (events : List Dict) (result : List Json),
      (∀ value ∈ snapshotData chatId messageId output :: events, codec.Keeps (.obj value)) →
      (∀ event ∈ events, IsTextDelta event) → NoTypeRuns events → reduceAll repr output events = .ok result →
      loadResponseStream repr codec (codec.lines (snapshotData chatId messageId output :: events)) =
        .ok (snapshotData chatId messageId result)) ∧
    ∀ (stored : Option (List α)) (steps : List WriteStep), (runWriter codec stored steps).streamSize ≠ 0 →
      (runWriter codec stored steps).stored = some ((runWriter codec stored steps).text codec) ∨
        (.dropped ∈ steps ∧ (runWriter codec stored steps).stored = none) := by
  constructor
  · intro chatId messageId output events result hkeeps hevents hruns h
    rw [loadResponseStream_lines hkeeps]
    exact applyDeltas_eq_ok rfl hevents hruns h
  · intro stored steps hsize
    exact (exact_runWriter codec stored steps hsize).2

def tableCodec (table : List (Json × String)) : Codec Char where
  dumps value := ((table.lookup value).getD "null").toList
  loads line := (table.find? fun entry => entry.2.toList = line).map Prod.fst
  newline := '\n'

def textDelta (eventType text : String) : Dict := [("type", .str eventType), ("delta", .str text)]

def greeting : List Dict := [textDelta "response.text.delta" "He", textDelta "response.text.delta" "llo"]

def greetingCodec : Codec Char :=
  tableCodec
    [(.obj (snapshotData (.str "chat") (.str "message") []),
        "\x7b\"chat_id\":\"chat\",\"message_id\":\"message\",\"output\":[]\x7d"),
      (.obj (textDelta "response.text.delta" "He"),
        "\x7b\"type\":\"response.text.delta\",\"delta\":\"He\"\x7d"),
      (.obj (textDelta "response.text.delta" "llo"),
        "\x7b\"type\":\"response.text.delta\",\"delta\":\"llo\"\x7d")]

def greetingItem : Json :=
  .obj
    [("type", .str "message"), ("status", .str "in_progress"), ("role", .str "assistant"),
      ("content", .arr [.obj [("type", .str "text"), ("text", .str "Hello")]]), ("id", .null)]

def greetingSteps : List WriteStep :=
  [.save (.str "t") (.str "chat") (.str "message") [] (.replied 0),
    .delta (textDelta "response.text.delta" "He") false (.replied 0)]

theorem resumed_streams_are_faithful_greeting : loadResponseStream (fun _ => "") greetingCodec
        (greetingCodec.lines (snapshotData (.str "chat") (.str "message") [] :: greeting)) =
      .ok (snapshotData (.str "chat") (.str "message") [greetingItem]) ∧
    ((runWriter greetingCodec none greetingSteps).stored =
        some ((runWriter greetingCodec none greetingSteps).text greetingCodec) ∨
      (.dropped ∈ greetingSteps ∧ (runWriter greetingCodec none greetingSteps).stored = none)) := by
  constructor
  · refine (resumed_streams_are_faithful (fun _ => "") greetingCodec).1 (.str "chat") (.str "message") [] greeting
      [greetingItem] ?_ ?_ ?_ (by decide +kernel)
    · intro value hvalue
      have hcases : value = snapshotData (.str "chat") (.str "message") [] ∨
          value = textDelta "response.text.delta" "He" ∨
          value = textDelta "response.text.delta" "llo" := by
        simpa [greeting] using hvalue
      rcases hcases with rfl | rfl | rfl
      · exact ⟨by decide +kernel, by decide +kernel, by decide +kernel⟩
      · exact ⟨by decide +kernel, by decide +kernel, by decide +kernel⟩
      · exact ⟨by decide +kernel, by decide +kernel, by decide +kernel⟩
    · intro event hevent
      have hcases : event = textDelta "response.text.delta" "He" ∨
          event = textDelta "response.text.delta" "llo" := by
        simpa [greeting] using hevent
      rcases hcases with rfl | rfl
      · exact ⟨⟨"response.text.delta", rfl, by decide⟩, "He", rfl⟩
      · exact ⟨⟨"response.text.delta", rfl, by decide⟩, "llo", rfl⟩
    · refine List.isChain_cons_cons.2 ⟨fun _ => by decide +kernel, List.isChain_singleton _⟩
  · exact (resumed_streams_are_faithful (fun _ => "") greetingCodec).2 none greetingSteps (by decide +kernel)

/-- The first delta makes a message of the item, and the second goes to its content. -/
def retyping : List Dict := [textDelta "response.type.delta" "age", textDelta "response.type.delta" "X"]

def retypingCodec : Codec Char :=
  tableCodec
    [(.obj (snapshotData (.str "c") (.str "m") [.obj [("type", .str "mess")]]),
        "\x7b\"chat_id\":\"c\",\"message_id\":\"m\",\"output\":[\x7b\"type\":\"mess\"\x7d]\x7d"),
      (.obj (textDelta "response.type.delta" "age"), "\x7b\"type\":\"response.type.delta\",\"delta\":\"age\"\x7d"),
      (.obj (textDelta "response.type.delta" "X"), "\x7b\"type\":\"response.type.delta\",\"delta\":\"X\"\x7d")]

def retyped : List Json :=
  [.obj [("type", .str "message"), ("content", .arr [.obj [("type", .str "textX"), ("text", .str "")]])]]

theorem keeps_retyping : ∀ value ∈ snapshotData (.str "c") (.str "m") [.obj [("type", .str "mess")]] :: retyping,
    retypingCodec.Keeps (.obj value) := by
  intro value hvalue
  have hcases : value = snapshotData (.str "c") (.str "m") [.obj [("type", .str "mess")]] ∨
      value = textDelta "response.type.delta" "age" ∨ value = textDelta "response.type.delta" "X" := by
    simpa [retyping] using hvalue
  rcases hcases with rfl | rfl | rfl <;> exact ⟨by decide +kernel, by decide +kernel, by decide +kernel⟩

/-- One by one the deltas are accepted, but joined they lead to another output. -/
theorem type_deltas_are_not_joined :
    (∀ value ∈ snapshotData (.str "c") (.str "m") [.obj [("type", .str "mess")]] :: retyping,
      retypingCodec.Keeps (.obj value)) ∧
    (∀ event ∈ retyping, IsTextDelta event) ∧
    reduceAll (fun _ => "") [.obj [("type", .str "mess")]] retyping = .ok retyped ∧
    loadResponseStream (fun _ => "") retypingCodec
        (retypingCodec.lines (snapshotData (.str "c") (.str "m") [.obj [("type", .str "mess")]] :: retyping)) =
      .ok (snapshotData (.str "c") (.str "m") [.obj [("type", .str "messageX")]]) ∧
    [.obj [("type", .str "messageX")]] ≠ retyped := by
  refine ⟨keeps_retyping, ?_, by decide +kernel, ?_, by decide +kernel⟩
  · intro event hevent
    have hcases : event = textDelta "response.type.delta" "age" ∨ event = textDelta "response.type.delta" "X" := by
      simpa [retyping] using hevent
    rcases hcases with rfl | rfl
    · exact ⟨⟨"response.type.delta", rfl, by decide⟩, "age", rfl⟩
    · exact ⟨⟨"response.type.delta", rfl, by decide⟩, "X", rfl⟩
  · rw [loadResponseStream_lines keeps_retyping]
    decide +kernel

end RyanAI.Chat.ResponseStream
