import RyanAI.Credit.StreamCharge

/-!
# The usage of a streamed response

`CreditDeduct.run` folds the chunks of a response into one usage record, in which counted and reported tokens are mixed.
`Reading` says what one response is for that record; `streamUsage` is the record that a list of readings stands for, and
`usage_foldl` says that the code arrives there: the last usage a provider reported, else what was counted, and nothing
at all until something was.
-/

namespace RyanAI.Credit.Pricing

open RyanAI.Lib

/-! ## Readings -/

/-- `_run` returns early, finds an error, raises, finds reported usage, or counts content. -/
inductive Reading where
  | skipped
  | failed
  | raised
  | reported (usage : CompletionUsage)
  | counted (content : Option String)

/-- The count of the request's messages; `none` if it raises. -/
def promptCount (rd : Reader) (d : CreditDeduct) : Option ℤ :=
  (rd.encoder d.modelId).bind fun encode => rd.messageTokens encode (Dict.get d.body "messages")

def contentCount (rd : Reader) (d : CreditDeduct) : Option String → ℤ
  | none => 0
  | some content =>
    match rd.encoder d.modelId with
    | some encode => encode (String.ofList (lstrip "<think>" content.toList))
    | none => 0

def readingOf (rd : Reader) (d : CreditDeduct) (response : Json) : Reading :=
  if !response.truthy then .skipped
  else
    match rd.validate d.isStream response, response with
    | some completion, .obj fields =>
      if (Dict.get fields "error").truthy then .failed
      else
        match completion.usage with
        | some usage => .reported usage
        | none => if (promptCount rd d).isSome then .counted completion.content else .raised
    | _, _ => .raised

def reading (py : Builtins) (rd : Reader) (d : CreditDeduct) (response : Response) : Reading :=
  if !(Dict.get d.body "messages").truthy then .raised
  else
    match response with
    | .dict fields => readingOf rd d (.obj fields)
    | .bytes (some text) => readingOf rd d (cleanResponse py d.isStream text)
    | .bytes none => .raised
    | .str text => readingOf rd d (cleanResponse py d.isStream text)

def Reading.usage? : Reading → Option CompletionUsage
  | .reported usage => some usage
  | _ => none

def Reading.content? : Reading → Option (Option String)
  | .counted content => some content
  | _ => none

def lastReported (ws : List Reading) : Option CompletionUsage := (ws.filterMap Reading.usage?).getLast?

def streamUsage (prompt : ℤ) (count : Option String → ℤ) (ws : List Reading) : CompletionUsage :=
  match lastReported ws with
  | some usage => usage
  | none =>
    match (ws.filterMap Reading.content?).map count with
    | [] => .none
    | counts => ⟨prompt, counts.sum, prompt + counts.sum, none, none⟩

/-! ## One response -/

structure SameCall (d d' : CreditDeduct) : Prop where
  isStream : d'.isStream = d.isStream
  modelId : d'.modelId = d.modelId
  body : d'.body = d.body

theorem SameCall.refl (d : CreditDeduct) : SameCall d d := ⟨rfl, rfl, rfl⟩

theorem SameCall.trans (h : SameCall d₁ d₂) (h' : SameCall d₂ d₃) : SameCall d₁ d₃ :=
  ⟨h'.isStream.trans h.isStream, h'.modelId.trans h.modelId, h'.body.trans h.body⟩

theorem sameCall_addUsage (d : CreditDeduct) (official : Bool) (usage : CompletionUsage) :
    SameCall d (d.addUsage official usage) := by
  unfold CreditDeduct.addUsage
  split
  · exact ⟨rfl, rfl, rfl⟩
  · split
    · exact .refl d
    · split <;> exact ⟨rfl, rfl, rfl⟩

variable {d d' : CreditDeduct} {rd : Reader} {w : Reading}

theorem SameCall.promptCount (h : SameCall d d') (rd : Reader) : promptCount rd d' = promptCount rd d := by
  rw [Pricing.promptCount, Pricing.promptCount, h.modelId, h.body]

theorem SameCall.contentCount (h : SameCall d d') (rd : Reader) : contentCount rd d' = contentCount rd d := by
  funext content
  cases content with
  | none => rfl
  | some content => simp only [Pricing.contentCount, h.modelId]

theorem SameCall.reading (h : SameCall d d') (py : Builtins) (rd : Reader) (response : Response) :
    reading py rd d' response = reading py rd d response := by
  simp only [Pricing.reading, readingOf, h.promptCount, h.body, h.isStream]

def countedUsage (rd : Reader) (d : CreditDeduct) (content : Option String) (prompt : ℤ) : CompletionUsage :=
  ⟨prompt, contentCount rd d content, prompt + contentCount rd d content, none, none⟩

def Cached (rd : Reader) (d : CreditDeduct) : Prop :=
  d.isOfficialUsage = false → d.usage.promptTokens ≠ 0 → promptCount rd d = some d.usage.promptTokens

structure Reads (rd : Reader) (d : CreditDeduct) (w : Reading) (d' : CreditDeduct) : Prop where
  call : SameCall d d'
  isError : d'.isError = (d.isError || w matches .failed)
  silent : w.usage? = none → w.content? = none → d'.usage = d.usage ∧ d'.isOfficialUsage = d.isOfficialUsage
  reported : ∀ usage, w = .reported usage → d'.usage = usage ∧ d'.isOfficialUsage = true
  counted : ∀ content, w = .counted content → ∃ prompt, promptCount rd d = some prompt ∧
    d'.isOfficialUsage = d.isOfficialUsage ∧
    d'.usage =
      if d.isOfficialUsage then d.usage
      else if d.isStream then
        { d.usage with
          promptTokens := prompt
          completionTokens := d.usage.completionTokens + contentCount rd d content
          totalTokens := prompt + (d.usage.completionTokens + contentCount rd d content) }
      else countedUsage rd d content prompt

theorem reads_of_eq (hcall : SameCall d d') (herror : d'.isError = d.isError)
    (husage : d'.usage = d.usage) (hofficial : d'.isOfficialUsage = d.isOfficialUsage)
    (hw : w = .skipped ∨ w = .raised) :
    Reads rd d w d' := by
  rcases hw with rfl | rfl <;> exact ⟨hcall, by simp [herror], fun _ _ => ⟨husage, hofficial⟩, by simp, by simp⟩

theorem calculateUsage_counted (husage : completion.usage = none) :
    calculateUsage rd d.usage d.modelId (Dict.get d.body "messages") completion =
      (if d.usage.promptTokens ≠ 0 ∧ (rd.encoder d.modelId).isSome then some d.usage.promptTokens
        else promptCount rd d).map fun prompt => (false, countedUsage rd d completion.content prompt) := by
  cases hencoder : rd.encoder d.modelId with
  | none => simp [calculateUsage, husage, promptCount, hencoder]
  | some encode =>
    cases hcontent : completion.content with
    | none =>
      by_cases hzero : d.usage.promptTokens = 0 <;>
        simp [calculateUsage, husage, hencoder, hcontent, promptCount, hzero, countedUsage,
          contentCount, Option.map_eq_bind]
    | some content =>
      by_cases hzero : d.usage.promptTokens = 0 <;>
        simp [calculateUsage, husage, hencoder, hcontent, promptCount, hzero, countedUsage,
          contentCount, Option.map_eq_bind]

theorem reads_counted (hprompt : promptCount rd d = some prompt) (id : Json) (content : Option String) :
    Reads rd d (.counted content) ({ d with remoteId := id }.addUsage false (countedUsage rd d content prompt)) := by
  have hid : SameCall d { d with remoteId := id } := ⟨rfl, rfl, rfl⟩
  refine ⟨hid.trans (sameCall_addUsage _ _ _), ?_, by simp [Reading.content?], by simp, ?_⟩
  · simp [isError_addUsage]
  intro content' hcontent
  obtain rfl : content = content' := Reading.counted.inj hcontent
  refine ⟨prompt, hprompt, ?_⟩
  unfold CreditDeduct.addUsage
  cases hofficial : d.isOfficialUsage with
  | true => simp
  | false => cases hstream : d.isStream <;> simp [countedUsage]

theorem reads_calculated (hcached : Cached rd d) (husage : completion.usage = none) : Reads rd d
      (if (promptCount rd d).isSome then .counted completion.content else .raised)
      (match calculateUsage rd d.usage d.modelId (Dict.get d.body "messages") completion with
        | some (official, usage) => { d with remoteId := completion.id }.addUsage official usage
        | none => { d with remoteId := completion.id }) := by
  rw [calculateUsage_counted husage]
  by_cases hofficial : d.isOfficialUsage = true
  · have hdropped : ∀ usage, { d with remoteId := completion.id }.addUsage false usage =
        { d with remoteId := completion.id } := by
      intro usage
      simp [CreditDeduct.addUsage, hofficial]
    -- Whatever is counted, or cannot be counted, the record stays.
    have hstays : Reads rd d
        (if (promptCount rd d).isSome then .counted completion.content else .raised)
        { d with remoteId := completion.id } := by
      cases hprompt : promptCount rd d with
      | none => exact reads_of_eq ⟨rfl, rfl, rfl⟩ rfl rfl rfl (.inr rfl)
      | some prompt =>
        have hreads := reads_counted hprompt completion.id completion.content
        rwa [hdropped] at hreads
    generalize (if d.usage.promptTokens ≠ 0 ∧ (rd.encoder d.modelId).isSome = true then
      some d.usage.promptTokens else promptCount rd d) = prompt
    cases prompt with
    | none => exact hstays
    | some prompt =>
      rw [Option.map_some]
      dsimp only
      rw [hdropped]
      exact hstays
  · have hcount : (if d.usage.promptTokens ≠ 0 ∧ (rd.encoder d.modelId).isSome = true then
        some d.usage.promptTokens else promptCount rd d) = promptCount rd d := by
      split_ifs with h
      · exact (hcached (by simpa using hofficial) h.1).symm
      · rfl
    rw [hcount]
    cases hprompt : promptCount rd d with
    | none => exact reads_of_eq ⟨rfl, rfl, rfl⟩ rfl rfl rfl (.inr rfl)
    | some prompt => exact reads_counted hprompt completion.id completion.content

theorem read_reads (hcached : Cached rd d) (response : Json) :
    Reads rd d (readingOf rd d response) (d.read rd response) := by
  have hsame : ∀ w, w = .skipped ∨ w = .raised → Reads rd d w d := fun w hw => reads_of_eq (.refl d) rfl rfl rfl hw
  unfold readingOf CreditDeduct.read
  split
  · exact hsame _ (.inl rfl)
  cases rd.validate d.isStream response with
  | none => exact hsame _ (.inr rfl)
  | some completion =>
    cases response with
    | obj fields =>
      dsimp only
      split
      · exact ⟨⟨rfl, rfl, rfl⟩, by simp, fun _ _ => ⟨rfl, rfl⟩, by simp, by simp⟩
      cases husage : completion.usage with
      | some usage =>
        simp only [calculateUsage, husage, CreditDeduct.addUsage, if_true]
        refine ⟨⟨rfl, rfl, rfl⟩, by simp, by simp [Reading.usage?], ?_, by simp⟩
        intro usage' husage'
        exact ⟨Reading.reported.inj husage', rfl⟩
      | none =>
        exact reads_calculated hcached husage
    | null | bool b | num q | str text | arr items => exact hsame _ (.inr rfl)

/-- One call of `run` does what its reading says. -/
theorem run_reads (hcached : Cached rd d) (response : Response) :
    Reads rd d (reading py rd d response) (d.run py rd response) := by
  unfold reading CreditDeduct.run
  split
  · exact reads_of_eq (.refl d) rfl rfl rfl (.inr rfl)
  split
  · exact read_reads hcached _
  · exact read_reads hcached _
  · exact reads_of_eq (.refl d) rfl rfl rfl (.inr rfl)
  · exact read_reads hcached _

section StreamUsage

variable (prompt : ℤ) (count : Option String → ℤ) (ws : List Reading)

theorem streamUsage_silent (husage : w.usage? = none) (hcontent : w.content? = none) :
    streamUsage prompt count (ws ++ [w]) = streamUsage prompt count ws := by
  simp [streamUsage, lastReported, List.filterMap_append, husage, hcontent]

theorem lastReported_append_of_none (h : w.usage? = none) : lastReported (ws ++ [w]) = lastReported ws := by
  simp [lastReported, List.filterMap_append, h]

theorem lastReported_append_reported (usage : CompletionUsage) :
    lastReported (ws ++ [.reported usage]) = some usage := by
  simp [lastReported, List.filterMap_append, Reading.usage?]

theorem streamUsage_reported (usage : CompletionUsage) :
    streamUsage prompt count (ws ++ [.reported usage]) = usage := by
  rw [streamUsage, lastReported_append_reported]

theorem streamUsage_counted (content : Option String) : streamUsage prompt count (ws ++ [.counted content]) =
      if (lastReported ws).isSome then streamUsage prompt count ws
      else
        { streamUsage prompt count ws with
          promptTokens := prompt
          completionTokens := (streamUsage prompt count ws).completionTokens + count content
          totalTokens := prompt + ((streamUsage prompt count ws).completionTokens + count content) } := by
  have hlast : lastReported (ws ++ [.counted content]) = lastReported ws := lastReported_append_of_none ws rfl
  have hcounts : ((ws ++ [Reading.counted content]).filterMap Reading.content?).map count =
      (ws.filterMap Reading.content?).map count ++ [count content] := by
    simp [List.filterMap_append, Reading.content?]
  unfold streamUsage
  rw [hlast, hcounts]
  cases lastReported ws with
  | some usage => rfl
  | none =>
    cases (ws.filterMap Reading.content?).map count with
    | nil => simp [CompletionUsage.none]
    | cons n counts => simp [add_assoc]

end StreamUsage

/-! ## The whole response -/

structure Fresh (d : CreditDeduct) : Prop where
  isError : d.isError = false
  usage : d.usage = .none
  isOfficialUsage : d.isOfficialUsage = false

theorem fresh_of_init (h : CreditDeduct.init env modelId body isStream isEmbedding = .ok d) :
    Fresh d ∧ d.isStream = isStream := by
  simp only [CreditDeduct.init, bind_eq_ok] at h
  obtain ⟨price, -, hd⟩ := h
  cases hd
  exact ⟨⟨rfl, rfl, rfl⟩, rfl⟩

theorem Fresh.cached (h : Fresh d) (rd : Reader) : Cached rd d := by
  intro _ hne
  rw [h.usage] at hne
  exact absurd rfl hne

/-- What the object knows after the responses `rs` of a stream. -/
structure Folded (py : Builtins) (rd : Reader) (d : CreditDeduct) (rs : List Response)
    (d' : CreditDeduct) : Prop where
  call : SameCall d d'
  cached : Cached rd d'
  official : d'.isOfficialUsage = (lastReported (rs.map (reading py rd d))).isSome
  usage : d'.usage = streamUsage ((promptCount rd d).getD 0) (contentCount rd d)
    (rs.map (reading py rd d))

section Run

variable {py : Builtins} {rd : Reader} {d d' : CreditDeduct} {rs : List Response}

theorem Folded.run (hstream : d.isStream = true) (h : Folded py rd d rs d') (r : Response) :
    Folded py rd d (rs ++ [r]) (d'.run py rd r) := by
  have hreads : Reads rd d' (reading py rd d' r) (d'.run py rd r) := run_reads h.cached r
  rw [h.call.reading] at hreads
  have hcall : SameCall d (d'.run py rd r) := h.call.trans hreads.call
  -- A reading that says nothing of the usage leaves all as it was.
  have hsilent : (reading py rd d r).usage? = none → (reading py rd d r).content? = none →
      Folded py rd d (rs ++ [r]) (d'.run py rd r) := by
    intro husage hcontent
    obtain ⟨hsame, hofficial⟩ := hreads.silent husage hcontent
    refine ⟨hcall, ?_, ?_, ?_⟩
    · intro hno hne
      rw [hofficial] at hno
      rw [hsame] at hne ⊢
      rw [hreads.call.promptCount]
      exact h.cached hno hne
    · rw [hofficial, h.official, List.map_append, List.map_singleton,
        lastReported_append_of_none _ husage]
    · rw [hsame, h.usage, List.map_append, List.map_singleton, streamUsage_silent _ _ _ husage hcontent]
  cases hw : reading py rd d r with
  | skipped | failed | raised => exact hsilent (by rw [hw]; rfl) (by rw [hw]; rfl)
  | reported usage =>
    obtain ⟨hsame, hofficial⟩ := hreads.reported usage hw
    refine ⟨hcall, ?_, ?_, ?_⟩
    · intro hno
      rw [hofficial] at hno
      cases hno
    · rw [hofficial, List.map_append, List.map_singleton, hw, lastReported_append_reported]
      rfl
    · rw [hsame, List.map_append, List.map_singleton, hw, streamUsage_reported]
  | counted content =>
    obtain ⟨prompt, hprompt, hofficial, hsame⟩ := hreads.counted content hw
    rw [h.call.promptCount] at hprompt
    rw [h.call.contentCount, h.call.isStream, if_pos hstream] at hsame
    refine ⟨hcall, ?_, ?_, ?_⟩
    · intro hno _
      rw [hofficial] at hno
      rw [hsame, hno, hcall.promptCount]
      exact hprompt
    · rw [hofficial, h.official, List.map_append, List.map_singleton, hw,
        lastReported_append_of_none _ rfl]
    · rw [hsame, List.map_append, List.map_singleton, hw, streamUsage_counted, h.official, h.usage,
        hprompt]
      rfl

theorem folded_foldl (hstream : d.isStream = true) (h : Fresh d) (rs : List Response) :
    Folded py rd d rs (rs.foldl (CreditDeduct.run py rd) d) := by
  induction rs using List.reverseRecOn with
  | nil =>
    refine ⟨.refl d, h.cached rd, ?_, ?_⟩
    · rw [List.foldl_nil, h.isOfficialUsage]
      rfl
    · rw [List.foldl_nil, h.usage]
      rfl
  | append_singleton rs r ih =>
    rw [List.foldl_append]
    exact ih.run hstream r

theorem promptCount_of_counted
    (h : reading py rd d r = .counted content) : ∃ prompt, promptCount rd d = some prompt := by
  have hof : ∀ response, readingOf rd d response = .counted content →
      ∃ prompt, promptCount rd d = some prompt := by
    intro response h
    unfold readingOf at h
    split at h
    · cases h
    split at h
    · split at h
      · cases h
      · split at h
        · cases h
        · split at h
          · rename_i hsome
            exact Option.isSome_iff_exists.1 hsome
          · cases h
    · cases h
  unfold reading at h
  split at h
  · cases h
  split at h
  · exact hof _ h
  · exact hof _ h
  · cases h
  · exact hof _ h

theorem reading_of_blank (h : isDone text = true ∨ cleanText text = []) (hr : r = .str text ∨ r = .bytes (some text)) :
    (reading py rd d r).usage? = none ∧ (reading py rd d r).content? = none := by
  have hclean : cleanResponse py d.isStream text = .obj [] := by
    unfold cleanResponse
    rcases h with h | h <;> simp [h]
  have hskipped : readingOf rd d (cleanResponse py d.isStream text) = .skipped := by
    rw [hclean]
    rfl
  unfold reading
  split
  · exact ⟨rfl, rfl⟩
  rcases hr with rfl | rfl
  · dsimp only
    rw [hskipped]
    exact ⟨rfl, rfl⟩
  · dsimp only
    rw [hskipped]
    exact ⟨rfl, rfl⟩

end Run

/-- The usage the provider reported last, else the count from the first counted chunk on; other
chunks change nothing. -/
theorem stream_usage {env : Env} {modelId : Json} {body : Dict} {isEmbedding : Bool}
    {d : CreditDeduct} (h : CreditDeduct.init env modelId body true isEmbedding = .ok d) (rd : Reader)
    (rs : List Response) :
    let d' := rs.foldl (CreditDeduct.run env.py rd) d
    let ws := rs.map (reading env.py rd d)
    let counts := (ws.filterMap Reading.content?).map (contentCount rd d)
    (∀ usage, lastReported ws = some usage → d'.usage = usage) ∧
    (lastReported ws = none → counts ≠ [] → ∃ prompt, promptCount rd d = some prompt ∧
      d'.usage = ⟨prompt, counts.sum, prompt + counts.sum, none, none⟩) ∧
    (lastReported ws = none → counts = [] → d'.usage = .none) ∧
    (∀ r, reading env.py rd d r = .failed ∨ reading env.py rd d r = .raised → (d'.run env.py rd r).usage = d'.usage) ∧
    ∀ text, isDone text = true ∨ cleanText text = [] →
      ∀ r, r = .str text ∨ r = .bytes (some text) → (d'.run env.py rd r).usage = d'.usage := by
  obtain ⟨hfresh, hstream⟩ := fresh_of_init h
  intro d' ws counts
  have hfold : Folded env.py rd d rs d' := folded_foldl hstream hfresh rs
  have hsilent : ∀ r, (reading env.py rd d r).usage? = none → (reading env.py rd d r).content? = none →
      (d'.run env.py rd r).usage = d'.usage := by
    intro r husage hcontent
    rw [← hfold.call.reading] at husage hcontent
    exact ((run_reads hfold.cached r).silent husage hcontent).1
  refine ⟨?_, ?_, ?_, ?_, ?_⟩
  · intro usage hlast
    rw [hfold.usage, streamUsage, hlast]
  · intro hlast hne
    have hcontents : ws.filterMap Reading.content? ≠ [] := fun hnil => hne (by simp [counts, hnil])
    obtain ⟨content, hcontent⟩ := List.exists_mem_of_ne_nil _ hcontents
    obtain ⟨w, hw, hwc⟩ := List.mem_filterMap.1 hcontent
    obtain ⟨r, -, rfl⟩ := List.mem_map.1 hw
    have hcounted : reading env.py rd d r = .counted content := by
      cases hr : reading env.py rd d r <;> simp_all [Reading.content?]
    obtain ⟨prompt, hprompt⟩ := promptCount_of_counted hcounted
    refine ⟨prompt, hprompt, ?_⟩
    rw [hfold.usage, streamUsage, hlast, hprompt]
    dsimp only
    split
    · rename_i hnil
      exact absurd hnil hne
    · rfl
  · intro hlast hnil
    rw [hfold.usage, streamUsage, hlast]
    rw [show (List.map (contentCount rd d) (List.filterMap Reading.content?
      (List.map (reading env.py rd d) rs))) = [] from hnil]
  · intro r hr
    rcases hr with hr | hr <;> exact hsilent r (by rw [hr]; rfl) (by rw [hr]; rfl)
  · intro text htext r hr
    have hblank : (reading env.py rd d r).usage? = none ∧ (reading env.py rd d r).content? = none :=
      reading_of_blank htext hr
    exact hsilent r hblank.1 hblank.2

theorem stream_usage_sample :
    ∃ d, CreditDeduct.init sampleCall.env sampleCall.modelId sampleCall.formData true false = .ok d ∧
      (sampleCall.runAll d [sampleChunk, sampleDone]).usage = ⟨2, 3, 5, none, none⟩ := by
  have hinit : CreditDeduct.init sampleCall.env sampleCall.modelId sampleCall.formData true false =
      .ok _ := rfl
  refine ⟨_, hinit, ?_⟩
  obtain ⟨prompt, hprompt, husage⟩ :=
    (stream_usage hinit sampleCall.reader [sampleChunk, sampleDone]).2.1 rfl (by decide)
  cases hprompt
  exact husage

/-- After a `[DONE]` line they are zero, and the messages count two. -/
theorem stream_usage_before_count :
    ∃ d, CreditDeduct.init sampleCall.env sampleCall.modelId sampleCall.formData true false = .ok d ∧
      lastReported ([sampleDone].map (reading sampleCall.env.py sampleCall.reader d)) = none ∧
      promptCount sampleCall.reader d = some 2 ∧
      (sampleCall.runAll d [sampleDone]).usage.promptTokens = 0 := by
  refine ⟨_, rfl, ?_, rfl, ?_⟩
  · rfl
  · rfl

end RyanAI.Credit.Pricing
