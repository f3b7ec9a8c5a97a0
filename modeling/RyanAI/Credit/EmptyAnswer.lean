import Mathlib.Algebra.Order.BigOperators.Group.List
import Mathlib.Data.List.TakeWhile
import RyanAI.Credit.UsageFold

/-!
# Answers that count as empty

`Calculator.calculate_usage` means to leave a leading think tag out of the count, but
`content.lstrip('<think>')` drops every leading character that occurs in the tag. A content made of
these letters only has no tokens, and an answer all of whose contents are such is taken for an empty
response, which costs nothing. `charged_iff` says exactly which answers are charged.
-/

namespace RyanAI.Credit.Pricing

open RyanAI.Lib

def withoutTag (content : String) : String :=
  if "<think>".toList.isPrefixOf content.toList then String.ofList (content.toList.drop 7) else content

def Outside (c : Char) : Prop := c ∉ "<think>".toList

def Tokenizer (encode : String → ℤ) : Prop := encode "" = 0 ∧ ∀ text, text ≠ "" → 1 ≤ encode text

def Charged (d : CreditDeduct) : Prop :=
  0 < d.usage.completionTokens ∧ d.isEmptyResponse = false ∧ d.costsNothing = false

def Counts (py : Builtins) (rd : Reader) (d : CreditDeduct) (r : Response) (content : String) : Prop :=
  reading py rd d r = .counted (some content)

/-- Nothing of a text is left by `lstrip` if its characters all are in the set. -/
theorem lstrip_eq_nil : lstrip chars text = [] ↔ ∀ c ∈ text, c ∈ chars.toList := by
  simp [lstrip, List.dropWhile_eq_nil_iff]

section Count

variable {py : Builtins} {rd : Reader} {d : CreditDeduct}

theorem contentCount_pos_iff (htokens : ∀ encode, rd.encoder d.modelId = some encode → Tokenizer encode)
    (hprompt : ∃ prompt, promptCount rd d = some prompt) (content : Option String) :
    0 ≤ contentCount rd d content ∧
      (0 < contentCount rd d content ↔ ∃ text, content = some text ∧ ∃ c ∈ text.toList, Outside c) := by
  cases content with
  | none => simp [contentCount]
  | some text =>
    obtain ⟨prompt, hprompt⟩ := hprompt
    obtain ⟨encode, hencoder, -⟩ := Option.bind_eq_some_iff.1 hprompt
    obtain ⟨hzero, hone⟩ := htokens encode hencoder
    simp only [contentCount, hencoder]
    by_cases hnil : lstrip "<think>" text.toList = []
    · rw [hnil, String.ofList_nil, hzero]
      refine ⟨le_rfl, iff_of_false (lt_irrefl 0) ?_⟩
      rintro ⟨text', htext, c, hc, hout⟩
      cases htext
      exact hout (lstrip_eq_nil.1 hnil c hc)
    · have hle := hone (String.ofList (lstrip "<think>" text.toList)) (by simpa using hnil)
      refine ⟨by omega, iff_of_true (by omega) ⟨text, rfl, ?_⟩⟩
      by_contra hall
      apply hnil
      apply lstrip_eq_nil.2
      intro c hc
      by_contra hout
      exact hall ⟨c, hc, hout⟩

theorem isError_foldl (h : Fresh d) {rs : List Response} (hmode : d.isStream = true ∨ rs.length ≤ 1) :
    (rs.foldl (CreditDeduct.run py rd) d).isError = true ↔ ∃ r ∈ rs, reading py rd d r = .failed := by
  have hread : ∀ (d' : CreditDeduct) (r : Response), Reads rd d' (reading py rd d' r) (d'.run py rd r) →
      SameCall d d' → ((d'.run py rd r).isError = true ↔ d'.isError = true ∨ reading py rd d r = .failed) := by
    intro d' r hreads hcall
    rw [hreads.isError, ← hcall.reading py rd r]
    cases reading py rd d' r <;> simp
  rcases hmode with hstream | hshort
  · induction rs using List.reverseRecOn with
    | nil => simp [h.isError]
    | append_singleton rs r ih =>
      have hfold : Folded py rd d rs (rs.foldl (CreditDeduct.run py rd) d) := folded_foldl hstream h rs
      rw [List.foldl_append, List.foldl_cons, List.foldl_nil, hread _ r (run_reads hfold.cached r) hfold.call]
      constructor
      · rintro (hbefore | hfailed)
        · obtain ⟨r', hr', hfailed⟩ := ih.1 hbefore
          exact ⟨r', List.mem_append_left _ hr', hfailed⟩
        · exact ⟨r, List.mem_append_right _ (List.mem_singleton_self r), hfailed⟩
      · rintro ⟨r', hr', hfailed⟩
        rcases List.mem_append.1 hr' with hr' | hr'
        · exact .inl (ih.2 ⟨r', hr', hfailed⟩)
        · rw [List.mem_singleton.1 hr'] at hfailed
          exact .inr hfailed
  · match rs, hshort with
    | [], _ => simp [h.isError]
    | [r], _ =>
      rw [List.foldl_cons, List.foldl_nil, hread d r (run_reads (h.cached rd) r) (.refl d)]
      simp [h.isError]

theorem completionTokens_foldl (h : Fresh d) {rs : List Response} (hmode : d.isStream = true ∨ rs.length ≤ 1)
    (hreport : ∀ r ∈ rs, ∀ usage, reading py rd d r ≠ .reported usage) :
    (rs.foldl (CreditDeduct.run py rd) d).usage.completionTokens =
      (((rs.map (reading py rd d)).filterMap Reading.content?).map (contentCount rd d)).sum := by
  have husages : (rs.map (reading py rd d)).filterMap Reading.usage? = [] := by
    rw [List.filterMap_eq_nil_iff]
    intro w hw
    obtain ⟨r, hr, rfl⟩ := List.mem_map.1 hw
    have := hreport r hr
    cases hw : reading py rd d r with
    | reported usage => exact absurd hw (this usage)
    | skipped | failed | raised | counted content => rfl
  rcases hmode with hstream | hshort
  · have hfold : Folded py rd d rs (rs.foldl (CreditDeduct.run py rd) d) := folded_foldl hstream h rs
    rw [hfold.usage, streamUsage, lastReported, husages, List.getLast?_nil]
    cases ((rs.map (reading py rd d)).filterMap Reading.content?).map (contentCount rd d) with
    | nil => rfl
    | cons n counts => rfl
  cases rs with
  | nil => simp [h.usage, CompletionUsage.none]
  | cons r rest =>
    obtain rfl : rest = [] := List.length_eq_zero_iff.1 (by simpa using hshort)
    have hreads : Reads rd d (reading py rd d r) (d.run py rd r) := run_reads (h.cached rd) r
    rw [List.foldl_cons, List.foldl_nil, List.map_singleton]
    cases hw : reading py rd d r with
    | skipped | failed | raised =>
      rw [(hreads.silent (by rw [hw]; rfl) (by rw [hw]; rfl)).1, h.usage]
      rfl
    | reported usage => exact absurd hw (hreport r (by simp) usage)
    | counted content =>
      obtain ⟨prompt, -, -, husage⟩ := hreads.counted content hw
      rw [husage, h.isOfficialUsage, h.usage]
      cases d.isStream <;> simp [countedUsage, CompletionUsage.none, Reading.content?]

end Count

theorem sum_pos_iff {ns : List ℤ} (h : ∀ n ∈ ns, 0 ≤ n) : 0 < ns.sum ↔ ∃ n ∈ ns, 0 < n := by
  induction ns with
  | nil => simp
  | cons n ns ih =>
    obtain ⟨hn, hns⟩ := List.forall_mem_cons.1 h
    have hsum : 0 ≤ ns.sum := List.sum_nonneg hns
    simp only [List.sum_cons, List.mem_cons, exists_eq_or_imp, ← ih hns]
    omega

/-- Charged exactly when it is no error and some counted content has a character that the think tag
has not. -/
theorem charged_iff {env : Env} {modelId : Json} {body : Dict} {isStream isEmbedding : Bool}
    {d : CreditDeduct} (h : CreditDeduct.init env modelId body isStream isEmbedding = .ok d)
    {rd : Reader} (htokens : ∀ encode, rd.encoder d.modelId = some encode → Tokenizer encode)
    {rs : List Response} (hmode : isStream = true ∨ rs.length ≤ 1)
    (hreport : ∀ r ∈ rs, ∀ usage, reading env.py rd d r ≠ .reported usage) :
    Charged (rs.foldl (CreditDeduct.run env.py rd) d) ↔
      (∃ r ∈ rs, ∃ text, Counts env.py rd d r text ∧ ∃ c ∈ text.toList, Outside c) ∧
        ∀ r ∈ rs, reading env.py rd d r ≠ .failed := by
  obtain ⟨hfresh, hstream⟩ := fresh_of_init h
  rw [← hstream] at hmode
  have herror := @isError_foldl env.py rd d hfresh _ hmode
  have hcount := completionTokens_foldl hfresh hmode hreport
  -- The count of every counted content is not negative, and positive by its characters.
  have hcontent : ∀ r content, reading env.py rd d r = .counted content →
      0 ≤ contentCount rd d content ∧ (0 < contentCount rd d content ↔
        ∃ text, content = some text ∧ ∃ c ∈ text.toList, Outside c) :=
    fun r content hr => contentCount_pos_iff htokens (promptCount_of_counted hr) content
  have hmem : ∀ content, content ∈ (rs.map (reading env.py rd d)).filterMap Reading.content? ↔
      ∃ r ∈ rs, reading env.py rd d r = .counted content := by
    intro content
    simp only [List.mem_filterMap, List.mem_map, exists_exists_and_eq_and]
    constructor
    · rintro ⟨r, hr, hc⟩
      refine ⟨r, hr, ?_⟩
      cases hw : reading env.py rd d r <;> simp_all [Reading.content?]
    · rintro ⟨r, hr, hc⟩
      exact ⟨r, hr, by rw [hc]; rfl⟩
  have hpos : 0 < (rs.foldl (CreditDeduct.run env.py rd) d).usage.completionTokens ↔
      ∃ r ∈ rs, ∃ text, Counts env.py rd d r text ∧ ∃ c ∈ text.toList, Outside c := by
    rw [hcount, sum_pos_iff]
    · simp only [List.mem_map, exists_exists_and_eq_and]
      constructor
      · rintro ⟨content, hc, hlt⟩
        obtain ⟨r, hr, hcounted⟩ := (hmem content).1 hc
        obtain ⟨text, rfl, hout⟩ := (hcontent r content hcounted).2.1 hlt
        exact ⟨r, hr, text, hcounted, hout⟩
      · rintro ⟨r, hr, text, hcounted, hout⟩
        exact ⟨some text, (hmem _).2 ⟨r, hr, hcounted⟩,
          (hcontent r _ hcounted).2.2 ⟨text, rfl, hout⟩⟩
    · intro n hn
      obtain ⟨content, hc, rfl⟩ := List.mem_map.1 hn
      obtain ⟨r, -, hcounted⟩ := (hmem content).1 hc
      exact (hcontent r content hcounted).1
  constructor
  · rintro ⟨hlt, -, hcost⟩
    refine ⟨hpos.1 hlt, fun r hr hfailed => ?_⟩
    have herr := herror.2 ⟨r, hr, hfailed⟩
    simp [CreditDeduct.costsNothing, herr] at hcost
  rintro ⟨hsome, hnone⟩
  have hlt := hpos.2 hsome
  have hempty : (rs.foldl (CreditDeduct.run env.py rd) d).isEmptyResponse = false := by
    simpa [CreditDeduct.isEmptyResponse] using hlt
  refine ⟨hlt, hempty, costsNothing_of_nonempty ?_ hempty⟩
  rw [← Bool.not_eq_true, herror]
  rintro ⟨r, hr, hfailed⟩
  exact hnone r hr hfailed

theorem charged_iff_sample :
    ∃ d, CreditDeduct.init sampleCall.env sampleCall.modelId sampleCall.formData true false = .ok d ∧
      Charged (sampleCall.runAll d [sampleChunk, sampleDone]) := by
  have hinit : CreditDeduct.init sampleCall.env sampleCall.modelId sampleCall.formData true false =
      .ok _ := rfl
  refine ⟨_, hinit, (charged_iff hinit ?_ (.inl rfl) ?_).2 ⟨?_, ?_⟩⟩
  · rintro encode hencode
    cases hencode
    exact ⟨rfl, fun text htext => by simp [htext]⟩
  · intro r hr usage hreading
    rcases List.mem_pair.1 hr with rfl | rfl <;> cases hreading
  · exact ⟨sampleChunk, by simp, "data: hi", rfl, 'd', by decide, by unfold Outside; decide⟩
  · intro r hr hreading
    rcases List.mem_pair.1 hr with rfl | rfl <;> cases hreading

def hiChunk : Response := .dict [("choices", .arr [.obj [("delta", .obj [("content", .str "hi")])]])]

/-- A priced call is not charged for "hi", which has no tokens. -/
theorem hi_is_free : withoutTag "hi" ≠ "" ∧ Tokenizer (fun text => if text = "" then 0 else 3) ∧
      ∃ d, CreditDeduct.init sampleCall.env sampleCall.modelId sampleCall.formData true false = .ok d ∧
        d.price.call = 1 ∧
        Counts sampleCall.env.py sampleCall.reader d hiChunk "hi" ∧
        (sampleCall.runAll d [hiChunk, sampleDone]).usage.completionTokens = 0 ∧
        (sampleCall.runAll d [hiChunk, sampleDone]).isEmptyResponse = true ∧
        (sampleCall.runAll d [hiChunk, sampleDone]).totalPrice sampleCall.env = .ok 0 := by
  refine ⟨by decide, ⟨rfl, fun text htext => by simp [htext]⟩, _, rfl, rfl, rfl, ?_, ?_, ?_⟩
  · decide
  · decide
  · rfl

end RyanAI.Credit.Pricing
