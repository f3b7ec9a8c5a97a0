import RyanAI.Credit.Coverage

/-!
# Charging a streamed response

`stream_wrapper` of `utils/session_pool.py` is an asynchronous generator: it passes every chunk on, then a usage
message, and the debit happens when the context of its `CreditDeduct` is left after that. `resume` runs it to the next
`yield`, `close` raises `GeneratorExit` at the one it is suspended at. A reader that has received the whole answer may
still close it at its last two `yield`s, and then nothing is charged.
-/

namespace RyanAI.Credit.Pricing

open RyanAI.Lib

/-! ## The generator -/

inductive Position where
  | created (chunks : List Response)
  | afterChunk (d : CreditDeduct) (rest : List Response)
  | afterUsage (d : CreditDeduct)
  | finished

/-- The generator, with what it gave to `Credits.add_credit_by_user_id`. -/
structure Generator where
  position : Position
  debits : List ℚ

/-- The arguments of a credit-aware `stream_wrapper`, and what surrounds it. -/
structure StreamCall where
  env : Env
  reader : Reader
  modelId : Json
  formData : Dict
  isEmbedding : Bool

namespace StreamCall

def start (_ : StreamCall) (chunks : List Response) : Generator := ⟨.created chunks, []⟩

/-- Up to the next `yield`; the usage message holds the price. -/
def advance (w : StreamCall) (d : CreditDeduct) (debits : List ℚ) : List Response → Generator
  | [] =>
    match d.totalPrice w.env with
    | .ok _ => ⟨.afterUsage d, debits⟩
    | .error _ => ⟨.finished, debits⟩
  | chunk :: rest => ⟨.afterChunk (d.run w.env.py w.reader chunk) rest, debits⟩

/-- Leave the context of the `CreditDeduct`. -/
def leave (w : StreamCall) (d : CreditDeduct) (debits : List ℚ) (raised : Bool) : Generator :=
  match d.exit w.env raised with
  | .ok (some amount) => ⟨.finished, debits ++ [amount]⟩
  | _ => ⟨.finished, debits⟩

def resume (w : StreamCall) (g : Generator) : Generator :=
  match g.position with
  | .created chunks =>
    match CreditDeduct.init w.env w.modelId w.formData true w.isEmbedding with
    | .ok d => w.advance d g.debits chunks
    | .error _ => ⟨.finished, g.debits⟩
  | .afterChunk d rest => w.advance d g.debits rest
  | .afterUsage d => w.leave d g.debits false
  | .finished => g

def close (w : StreamCall) (g : Generator) : Generator :=
  match g.position with
  | .created _ => ⟨.finished, g.debits⟩
  | .afterChunk d _ => w.leave d g.debits true
  | .afterUsage d => w.leave d g.debits true
  | .finished => g

/-- The reader asks `n` times and then closes the generator. -/
def readThenClose (w : StreamCall) (chunks : List Response) (n : Nat) : Generator :=
  w.close (w.resume^[n] (w.start chunks))

/-- The `CreditDeduct` after some chunks. -/
def runAll (w : StreamCall) (d : CreditDeduct) (chunks : List Response) : CreditDeduct :=
  chunks.foldl (CreditDeduct.run w.env.py w.reader) d

end StreamCall

/-! ## Chunks -/

def Response.text : Response → Option String
  | .dict _ => none
  | .bytes text => text
  | .str text => some text

def Response.isDone (r : Response) : Bool := r.text.any Pricing.isDone

def Response.isErrorChunk (py : Builtins) (r : Response) : Bool :=
  let content : Json := match r with
    | .dict fields => .obj fields
    | _ =>
      match r.text with
      | some text => cleanResponse py true text
      | none => .null
  match content with
  | .obj fields => (Dict.get fields "error").truthy
  | _ => false

theorem isErrorChunk_of_isDone {r : Response} (h : r.isDone = true) : r.isErrorChunk py = false := by
  cases r with
  | dict fields => cases h
  | bytes text =>
    cases text with
    | none => cases h
    | some text =>
      have hdone : Pricing.isDone text = true := h
      simp [Response.isErrorChunk, Response.text, cleanResponse, hdone, Dict.get, Json.truthy]
  | str text =>
    have hdone : Pricing.isDone text = true := h
    simp [Response.isErrorChunk, Response.text, cleanResponse, hdone, Dict.get, Json.truthy]

theorem isError_addUsage (d : CreditDeduct) (official : Bool) (usage : CompletionUsage) :
    (d.addUsage official usage).isError = d.isError := by
  rw [CreditDeduct.addUsage]
  split
  · rfl
  · split
    · rfl
    · split <;> rfl

variable {d : CreditDeduct}

theorem isError_read {response : Json}
    (h : ∀ fields, response = .obj fields → (Dict.get fields "error").truthy = false) :
    (d.read rd response).isError = d.isError := by
  unfold CreditDeduct.read
  split
  · rfl
  split
  · rename_i completion fields _ _
    rw [if_neg (by simp [h fields rfl])]
    split
    · exact isError_addUsage { d with remoteId := completion.id } _ _
    · rfl
  · rfl

theorem isError_run {chunk : Response}
    (hstream : d.isStream = true) (h : chunk.isErrorChunk py = false) : (d.run py rd chunk).isError = d.isError := by
  unfold CreditDeduct.run
  split
  · rfl
  cases chunk with
  | dict fields =>
    apply isError_read
    intro fields' hfields
    cases hfields
    exact h
  | bytes text =>
    cases text with
    | none => rfl
    | some text =>
      apply isError_read
      intro fields hfields
      -- in a stream the text is cleaned as `isErrorChunk` cleans it
      rw [hstream] at hfields
      simpa [Response.isErrorChunk, Response.text, hfields] using h
  | str text =>
    apply isError_read
    intro fields hfields
    rw [hstream] at hfields
    simpa [Response.isErrorChunk, Response.text, hfields] using h

theorem isError_runAll {w : StreamCall} {chunks : List Response}
    (hstream : d.isStream = true) (h : ∀ c ∈ chunks, c.isErrorChunk w.env.py = false) :
    (w.runAll d chunks).isError = d.isError := by
  induction chunks generalizing d with
  | nil => rfl
  | cons c rest ih =>
    have hc : (d.run w.env.py w.reader c).isError = d.isError := isError_run hstream (h c List.mem_cons_self)
    have hstream' : (d.run w.env.py w.reader c).isStream = true :=
      (sameRequest_run w.env.py w.reader d c).isStream.trans hstream
    have hrest : (w.runAll (d.run w.env.py w.reader c) rest).isError = _ :=
      ih hstream' fun c' hc' => h c' (List.mem_cons_of_mem c hc')
    exact hrest.trans hc

namespace StreamCall

variable {w : StreamCall} {d : CreditDeduct}

/-- Every read runs one chunk through the `CreditDeduct`. -/
theorem resume_iterate_afterChunk (d : CreditDeduct) (debits : List ℚ) (hn : n ≤ rest.length) :
    w.resume^[n] ⟨.afterChunk d rest, debits⟩ = ⟨.afterChunk (w.runAll d (rest.take n)) (rest.drop n), debits⟩ := by
  induction n generalizing d rest with
  | zero => simp [runAll]
  | succ n ih =>
    cases rest with
    | nil => simp at hn
    | cons c rest =>
      have hn' : n ≤ rest.length := by simpa using hn
      rw [Function.iterate_succ_apply]
      exact ih (d.run w.env.py w.reader c) hn'

theorem resume_iterate_finished (debits : List ℚ) (n : Nat) : w.resume^[n] ⟨.finished, debits⟩ = ⟨.finished, debits⟩ :=
  Function.iterate_fixed rfl n

section

variable (htotal : d.totalPrice w.env = .ok total)

include htotal

theorem resume_last (debits : List ℚ) : w.resume ⟨.afterChunk d [], debits⟩ = ⟨.afterUsage d, debits⟩ := by
  simp [resume, advance, htotal]

theorem resume_afterUsage (herror : d.isError = false) (debits : List ℚ) :
    w.resume ⟨.afterUsage d, debits⟩ = ⟨.finished, debits ++ [-total]⟩ := by
  have hexit : d.exit w.env false = .ok (some (-total)) := by
    simp only [CreditDeduct.exit, herror, Bool.or_self, Bool.false_eq_true, if_false, htotal]
    rfl
  simp [resume, leave, hexit]

/-- The debits of a generator that is closed `n` reads after its last chunk. -/
theorem debits_after_last (herror : d.isError = false) (n : Nat) :
    (w.close (w.resume^[n] ⟨.afterChunk d [], []⟩)).debits = if 2 ≤ n then [-total] else [] := by
  match n with
  | 0 => rfl
  | 1 =>
    rw [Function.iterate_one, resume_last htotal]
    rfl
  | n + 2 =>
    rw [Function.iterate_succ_apply, Function.iterate_succ_apply, resume_last htotal,
      resume_afterUsage htotal herror, resume_iterate_finished]
    simp [close]

end

end StreamCall

/-- A reader of the `[DONE]` line is charged once if and only if it asks for the item after the
usage message. -/
theorem charged_once_iff {w : StreamCall} {d : CreditDeduct} {lines : List Response} {last : Response}
    {total : ℚ} (hinit : CreditDeduct.init w.env w.modelId w.formData true w.isEmbedding = .ok d)
    (herror : ∀ c ∈ lines, c.isErrorChunk w.env.py = false) (hdone : last.isDone = true)
    (htotal : (w.runAll d (lines ++ [last])).totalPrice w.env = .ok total) {n : Nat}
    (hn : (lines ++ [last]).length ≤ n) :
    (w.readThenClose (lines ++ [last]) n).debits = [-total] ↔ (lines ++ [last]).length + 2 ≤ n := by
  have hstart : d.isStream = true ∧ d.isError = false := by
    simp only [CreditDeduct.init, bind_eq_ok] at hinit
    obtain ⟨price, -, hd⟩ := hinit
    cases hd
    exact ⟨rfl, rfl⟩
  have hclean : ∀ c ∈ lines ++ [last], c.isErrorChunk w.env.py = false := by
    intro c hc
    rcases List.mem_append.1 hc with hc | hc
    · exact herror c hc
    · rw [List.mem_singleton.1 hc]
      exact isErrorChunk_of_isDone hdone
  have hok : (w.runAll d (lines ++ [last])).isError = false := (isError_runAll hstart.1 hclean).trans hstart.2
  -- the first read enters the context, so the loop is followed from its first chunk on
  generalize hchunks : lines ++ [last] = chunks at *
  cases chunks with
  | nil => simp at hchunks
  | cons c rest =>
    obtain ⟨k, rfl⟩ : ∃ k, n = k + rest.length + 1 := ⟨n - rest.length - 1, by simp at hn; omega⟩
    have hrun : w.resume^[k + rest.length + 1] (w.start (c :: rest)) =
        w.resume^[k] ⟨.afterChunk (w.runAll d (c :: rest)) [], []⟩ := by
      rw [Function.iterate_succ_apply, Function.iterate_add_apply]
      have hfirst : w.resume (w.start (c :: rest)) =
          ⟨.afterChunk (d.run w.env.py w.reader c) rest, []⟩ := by
        simp [StreamCall.resume, StreamCall.start, hinit, StreamCall.advance]
      rw [hfirst, StreamCall.resume_iterate_afterChunk _ _ le_rfl, List.take_length, List.drop_length]
      rfl
    rw [StreamCall.readThenClose, hrun, StreamCall.debits_after_last htotal hok]
    simp only [List.length_cons]
    constructor
    · intro h
      by_contra hlt
      rw [if_neg (by omega)] at h
      cases h
    · intro h
      rw [if_pos (by omega)]

def sampleCall : StreamCall where
  env := { sampleEnv with models := [⟨"gpt-4o", none, some ⟨some 1, none⟩⟩] }
  reader := {
    validate := fun _ response =>
      match response with
      | .obj [("choices", .arr [.obj [("delta", .obj [("content", .str content)])]])] =>
        some ⟨.str "", none, some content⟩
      | _ => none
    encoder := fun _ => some fun text => if text = "" then 0 else 3
    messageTokens := fun _ _ => some 2 }
  modelId := .str "gpt-4o"
  formData := [("model", .str "gpt-4o"),
    ("messages", .arr [.obj [("role", .str "user"), ("content", .str "a cat")]])]
  isEmbedding := false

def sampleChunk : Response := .bytes (some "data: hi\n")

def sampleDone : Response := .bytes (some "data: [DONE]\n")

theorem charged_once_sample : (sampleCall.readThenClose ([sampleChunk] ++ [sampleDone]) 4).debits = [-1] :=
  (charged_once_iff rfl (by decide +kernel) (by decide +kernel) (by decide +kernel) (by decide)).2
    (by decide)

/-- A reader that closes earlier has the answer and is not charged. -/
theorem delivered_not_charged : sampleChunk.isErrorChunk sampleCall.env.py = false ∧ sampleDone.isDone = true ∧
      (∃ d, CreditDeduct.init sampleCall.env sampleCall.modelId sampleCall.formData true
          sampleCall.isEmbedding = .ok d ∧
        (sampleCall.runAll d [sampleChunk, sampleDone]).totalPrice sampleCall.env = .ok 1) ∧
      (sampleCall.readThenClose [sampleChunk, sampleDone] 2).debits = [] ∧
      (sampleCall.readThenClose [sampleChunk, sampleDone] 3).debits = [] := by
  refine ⟨by decide +kernel, by decide +kernel, ⟨_, rfl, ?_⟩, ?_, ?_⟩ <;> decide +kernel

end RyanAI.Credit.Pricing
