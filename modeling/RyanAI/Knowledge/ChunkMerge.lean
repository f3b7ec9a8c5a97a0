import Mathlib
import RyanAI.Knowledge.Chunks

/-!
# Merging chunks

`merge_docs_to_target_size` once more, with the chunks that each chunk of the result is made of (`Pipeline.groups`).
Whether two chunks belong together is decided by the first ones of two groups, and one without a file id goes with
every file. `merge_preserves_iff` says for which metadata two files never meet.
-/

namespace RyanAI.Knowledge

structure Group where
  first : Document
  rest : List Document := []
deriving DecidableEq

namespace Group

def docs (g : Group) : List Document := g.first :: g.rest

/-- The chunk that `merge_docs_to_target_size` makes of the group. -/
def joined (g : Group) : Document := ⟨"\n\n".intercalate (g.docs.map (·.pageContent)), g.first.metadata⟩

def append (g h : Group) : Group := ⟨g.first, g.rest ++ h.docs⟩

variable (g h : Group)

@[simp]
theorem docs_single (d : Document) : (⟨d, []⟩ : Group).docs = [d] := rfl

@[simp]
theorem joined_single (d : Document) : (⟨d, []⟩ : Group).joined = d := by simp [joined]

@[simp]
theorem docs_append : (g.append h).docs = g.docs ++ h.docs := rfl

@[simp]
theorem metadata_joined : g.joined.metadata = g.first.metadata := rfl

theorem text_append : (g.append h).joined.pageContent = g.joined.pageContent ++ "\n\n" ++ h.joined.pageContent := by
  simp only [joined, docs_append, List.map_append]
  exact String.intercalate_append_of_ne_nil (by simp [docs]) (by simp [docs])

theorem intercalate_joined (gs : List Group) : "\n\n".intercalate (gs.map (·.joined.pageContent)) =
      "\n\n".intercalate ((gs.flatMap docs).map (·.pageContent)) := by
  induction gs with
  | nil => rfl
  | cons g gs ih =>
    cases gs with
    | nil => simp [joined]
    | cons h gs =>
      have hne : ((h :: gs).flatMap docs).map (·.pageContent) ≠ [] := by simp [docs]
      have hall : ((g :: h :: gs).flatMap docs).map (·.pageContent) =
          g.docs.map (·.pageContent) ++ ((h :: gs).flatMap docs).map (·.pageContent) := by simp
      rw [List.map_cons, String.intercalate_cons_of_ne_nil (by simp), ih, hall,
        String.intercalate_append_of_ne_nil (by simp [docs]) hne]
      rfl

end Group

namespace Pipeline

variable (p : Pipeline)

/-- `_emit` on groups. -/
def emitGroup (result : List Group) (g : Group) : List Group :=
  match result.getLast? with
  | none => [g]
  | some prev =>
    if p.measure g.joined.pageContent < p.chunkMinSizeTarget ∧ canMergeChunks prev.joined g.joined = true ∧
        p.measure (prev.append g).joined.pageContent ≤ p.chunkSize then
      result.dropLast ++ [prev.append g]
    else result ++ [g]

def mergeGroups (result : List Group) (g : Group) : List Document → List Group
  | [] => p.emitGroup result g
  | next :: rest =>
    if canMergeChunks g.joined next = true ∧ p.measure g.joined.pageContent < p.chunkMinSizeTarget ∧
        p.measure (g.append ⟨next, []⟩).joined.pageContent ≤ p.chunkSize then
      mergeGroups result (g.append ⟨next, []⟩) rest
    else mergeGroups (p.emitGroup result g) ⟨next, []⟩ rest

/-- The groups that the chunks of `merge_docs_to_target_size` are made of. -/
def groups (chunks : List Document) : List Group :=
  if p.chunkMinSizeTarget ≤ 0 then chunks.map fun d => ⟨d, []⟩
  else
    match chunks with
    | [] => []
    | first :: rest => p.mergeGroups [] ⟨first, []⟩ rest

theorem emit_joined (result : List Group) (g : Group) :
    p.emit (result.map (·.joined)) g.joined.pageContent g.joined = (p.emitGroup result g).map (·.joined) := by
  rcases List.eq_nil_or_concat result with rfl | ⟨front, prev, rfl⟩
  · simp [emit, emitGroup, mergeBackward, Group.joined]
  · have happend : (⟨(prev.append g).joined.pageContent, prev.joined.metadata⟩ : Document) = (prev.append g).joined :=
      rfl
    have hsame : (⟨g.joined.pageContent, g.joined.metadata⟩ : Document) = g.joined := rfl
    simp only [emit, emitGroup, mergeBackward, List.concat_eq_append, List.map_append, List.map_cons, List.map_nil,
      List.getLast?_concat, List.dropLast_concat, ← Group.text_append, hsame, happend]
    by_cases hsmall : p.measure g.joined.pageContent < p.chunkMinSizeTarget
    · by_cases hmerge : canMergeChunks prev.joined g.joined = true
      · by_cases hfits : p.measure (prev.append g).joined.pageContent ≤ p.chunkSize
        · simp [hsmall, hmerge, hfits, not_lt.2 hfits]
        · simp [hsmall, hmerge, hfits, not_le.1 hfits]
      · simp [hsmall, hmerge]
    · simp [hsmall]

theorem canMergeChunks_congr (h : a.metadata = b.metadata) (c : Document) :
    canMergeChunks a c = canMergeChunks b c := by
  simp only [canMergeChunks, h]

theorem emit_congr (h : a.metadata = b.metadata) (result : List Document) (content : String) :
    p.emit result content a = p.emit result content b := by
  obtain ⟨_, m⟩ := a
  obtain ⟨_, m'⟩ := b
  obtain rfl : m = m' := h
  rfl

theorem mergeFrom_joined (hcurrent : current.metadata = g.first.metadata)
    (chunks : List Document) (result : List Group) :
    p.mergeFrom (result.map (·.joined)) current g.joined.pageContent chunks =
      (p.mergeGroups result g chunks).map (·.joined) := by
  induction chunks generalizing current g result with
  | nil =>
    rw [mergeGroups, ← p.emit_joined]
    exact p.emit_congr (hcurrent.trans g.metadata_joined.symm) _ _
  | cons next rest ih =>
    have htext : g.joined.pageContent ++ "\n\n" ++ next.pageContent = (g.append ⟨next, []⟩).joined.pageContent := by
      simp [Group.text_append]
    have hemit : p.emit (result.map (·.joined)) g.joined.pageContent current =
        (p.emitGroup result g).map (·.joined) := by
      rw [← p.emit_joined]
      exact p.emit_congr (hcurrent.trans g.metadata_joined.symm) _ _
    have hnext : next.pageContent = (⟨next, []⟩ : Group).joined.pageContent := by simp
    simp only [mergeFrom, mergeGroups, Bool.and_eq_true, decide_eq_true_eq, and_assoc, htext, hemit,
      canMergeChunks_congr (show current.metadata = g.joined.metadata from hcurrent)]
    split
    · exact ih (g := g.append ⟨next, []⟩) hcurrent _
    · rw [hnext]
      exact ih (g := ⟨next, []⟩) rfl _

theorem groups_joined (chunks : List Document) : p.mergeDocsToTargetSize chunks = (p.groups chunks).map (·.joined) := by
  simp only [mergeDocsToTargetSize, groups]
  split
  · simp [Function.comp_def]
  · cases chunks with
    | nil => rfl
    | cons first rest =>
      have h := p.mergeFrom_joined (g := ⟨first, []⟩) rfl rest []
      simpa using h

/-- What single chunks have, and groups that may be appended to each other keep, all groups have. -/
theorem mergeGroups_induction {P : Group → Prop} (hsingle : ∀ d, P ⟨d, []⟩)
    (happend : ∀ g h, P g → P h → canMergeChunks g.joined h.joined = true →
      p.measure (g.append h).joined.pageContent ≤ p.chunkSize → P (g.append h))
    (chunks : List Document) : ∀ g ∈ p.groups chunks, P g := by
  have hemit (result : List Group) (g : Group) (hresult : ∀ h ∈ result, P h) (hg : P g) :
      ∀ h ∈ p.emitGroup result g, P h := by
    rcases List.eq_nil_or_concat result with rfl | ⟨front, prev, rfl⟩
    · simpa [emitGroup] using hg
    · simp only [List.concat_eq_append, List.forall_mem_append, List.forall_mem_singleton] at hresult
      simp only [emitGroup, List.concat_eq_append, List.getLast?_concat, List.dropLast_concat]
      split
      · rename_i h
        simp only [List.forall_mem_append, List.forall_mem_singleton]
        exact ⟨hresult.1, happend prev g hresult.2 hg h.2.1 h.2.2⟩
      · simp only [List.forall_mem_append, List.forall_mem_singleton]
        exact ⟨hresult, hg⟩
  have hloop (rest : List Document) (result : List Group) (g : Group) (hresult : ∀ h ∈ result, P h) (hg : P g) :
      ∀ h ∈ p.mergeGroups result g rest, P h := by
    induction rest generalizing result g with
    | nil => exact hemit result g hresult hg
    | cons next rest ih =>
      simp only [mergeGroups]
      split
      · rename_i h
        exact ih _ _ hresult (happend g ⟨next, []⟩ hg (hsingle next) (by simpa using h.1) h.2.2)
      · exact ih _ _ (hemit result g hresult hg) (hsingle next)
  simp only [groups]
  split
  · simpa using fun d _ => hsingle d
  · cases chunks with
    | nil => simp
    | cons first rest => exact hloop rest [] _ (by simp) (hsingle first)

theorem emitGroup_docs (result : List Group) (g : Group) :
    (p.emitGroup result g).flatMap Group.docs = result.flatMap Group.docs ++ g.docs := by
  rcases List.eq_nil_or_concat result with rfl | ⟨front, prev, rfl⟩
  · simp [emitGroup]
  · simp only [emitGroup, List.concat_eq_append, List.getLast?_concat, List.dropLast_concat]
    split <;> simp

theorem mergeGroups_docs (chunks : List Document) (result : List Group) (g : Group) :
    (p.mergeGroups result g chunks).flatMap Group.docs = result.flatMap Group.docs ++ g.docs ++ chunks := by
  induction chunks generalizing result g with
  | nil => simp [mergeGroups, emitGroup_docs]
  | cons next rest ih =>
    simp only [mergeGroups]
    split <;> simp [ih, emitGroup_docs]

theorem groups_docs (chunks : List Document) : (p.groups chunks).flatMap Group.docs = chunks := by
  simp only [groups]
  split
  · simp [List.flatMap_map]
  · cases chunks with
    | nil => rfl
    | cons first rest => simp [mergeGroups_docs]

end Pipeline

/-! ## Files that do not meet -/

def OneFile (ms : List Metadata) : Prop := ∀ m ∈ ms, ∀ m' ∈ ms, ∀ x y, m.fileId = some x → m'.fileId = some y → x = y

/-- The claim about the merging of `chunks`, of which the groups are all. -/
structure Preserved (p : Pipeline) (chunks : List Document) : Prop where
  joined : p.mergeDocsToTargetSize chunks = (p.groups chunks).map (·.joined)
  docs : (p.groups chunks).flatMap Group.docs = chunks
  text : "\n\n".intercalate ((p.mergeDocsToTargetSize chunks).map (·.pageContent)) =
    "\n\n".intercalate (chunks.map (·.pageContent))
  size : ∀ g ∈ p.groups chunks, g.rest ≠ [] → p.measure g.joined.pageContent ≤ p.chunkSize
  source : ∀ g ∈ p.groups chunks, ∀ d ∈ g.docs, ∀ d' ∈ g.docs, d.metadata.source = d'.metadata.source
  file : ∀ g ∈ p.groups chunks, OneFile (g.docs.map (·.metadata))

/-- A chunk without a file id is merged with the one in front and with those behind it, up to another source. -/
def neighbours (front : List Metadata) (m : Metadata) (back : List Metadata) : List Metadata :=
  front.getLast?.toList.filter (·.source = m.source) ++ back.takeWhile (·.source = m.source)

def FilesApart (ms : List Metadata) : Prop :=
  ∀ front m back, ms = front ++ m :: back → m.fileId = none → OneFile (neighbours front m back)

theorem canMergeChunks_iff (a b : Document) : canMergeChunks a b = true ↔ a.metadata.source = b.metadata.source ∧
      ∀ x y, a.metadata.fileId = some x → b.metadata.fileId = some y → x = y := by
  simp only [canMergeChunks]
  split
  · simp_all
  · cases a.metadata.fileId <;> cases b.metadata.fileId <;> simp_all

/-- The chunks are of one source, and those in front of the first one without a file id of one file. -/
structure Group.Kept (g : Group) : Prop where
  source : ∀ d ∈ g.docs, d.metadata.source = g.first.metadata.source
  file : ∀ front back, g.docs = front ++ back → (∀ d ∈ front, d.metadata.fileId ≠ none) →
    ∀ d ∈ front, d.metadata.fileId = g.first.metadata.fileId

theorem Group.Kept.append {g h : Group} (hg : g.Kept) (hh : h.Kept)
    (hmerge : canMergeChunks g.joined h.joined = true) : (g.append h).Kept := by
  obtain ⟨hsource, hfile⟩ := (canMergeChunks_iff _ _).1 hmerge
  constructor
  · intro d hd
    rw [docs_append] at hd
    rcases List.mem_append.1 hd with hd | hd
    · exact hg.source d hd
    · exact (hh.source d hd).trans hsource.symm
  · intro front back hsplit hids d hd
    rw [docs_append] at hsplit
    rcases List.append_eq_append_iff.1 hsplit with ⟨c, rfl, hc⟩ | ⟨c, hc, -⟩
    · have hgd := hg.file g.docs [] (by simp) fun d hd => hids d (List.mem_append_left _ hd)
      rcases List.mem_append.1 hd with hd | hd
      · exact hgd d hd
      · -- the first chunk of `h` has an id, which is that of `g`
        have hhd := hh.file c back hc (fun d hd => hids d (List.mem_append_right _ hd)) d hd
        obtain ⟨x, hx⟩ := Option.ne_none_iff_exists'.1
          (hids g.first (List.mem_append_left _ List.mem_cons_self))
        obtain ⟨y, hy⟩ := Option.ne_none_iff_exists'.1 (hids d (List.mem_append_right _ hd))
        have hxy := hfile x y hx (hhd.symm.trans hy)
        exact hy.trans (hxy ▸ hx.symm)
    · exact hg.file front c hc hids d hd

theorem Group.Kept.oneFile {g : Group} (hg : g.Kept) (front back : List Metadata)
    (h : FilesApart (front ++ g.docs.map (·.metadata) ++ back)) : OneFile (g.docs.map (·.metadata)) := by
  have hsplit := List.takeWhile_append_dropWhile (p := fun d : Document => d.metadata.fileId.isSome) (l := g.docs)
  have hhead := List.head?_dropWhile_not (fun d : Document => d.metadata.fileId.isSome) g.docs
  have hids : ∀ d ∈ g.docs.takeWhile fun d => d.metadata.fileId.isSome, d.metadata.fileId ≠ none := fun d hd =>
    Option.isSome_iff_ne_none.1 (List.mem_takeWhile_imp (p := fun d : Document => d.metadata.fileId.isSome) hd)
  generalize g.docs.takeWhile (fun d => d.metadata.fileId.isSome) = pre at hsplit hids
  generalize g.docs.dropWhile (fun d => d.metadata.fileId.isSome) = post at hsplit hhead
  have hfile := hg.file pre post hsplit.symm hids
  simp only [OneFile, List.forall_mem_map]
  cases post with
  | nil =>
    rw [List.append_nil] at hsplit
    subst hsplit
    intro d hd d' hd' x y hx hy
    exact Option.some.inj (hx.symm.trans ((hfile d hd).trans ((hfile d' hd').symm.trans hy)))
  | cons m rest =>
    have hm : m.metadata.fileId = none := by simpa using hhead
    have hsource : ∀ d ∈ pre ++ m :: rest, d.metadata.source = m.metadata.source := by
      intro d hd
      rw [hsplit] at hd
      exact (hg.source d hd).trans (hg.source m (by simp [← hsplit])).symm
    have hone := h (front ++ pre.map (·.metadata)) m.metadata (rest.map (·.metadata) ++ back)
      (by simp [← hsplit]) hm
    -- the ids in front are that of the last chunk there, which is a neighbour as those behind are
    have hnear : ∀ d ∈ g.docs, ∀ x, d.metadata.fileId = some x →
        ∃ m' ∈ neighbours (front ++ pre.map (·.metadata)) m.metadata (rest.map (·.metadata) ++ back),
          m'.fileId = some x := by
      intro d hd x hx
      rw [← hsplit] at hd
      rcases List.mem_append.1 hd with hd | hd
      · rcases List.eq_nil_or_concat pre with rfl | ⟨init, last, rfl⟩
        · cases hd
        refine ⟨last.metadata, List.mem_append_left _ ?_, ?_⟩
        · simp [hsource last (by simp)]
        · exact (hfile last (by simp)).trans ((hfile d hd).symm.trans hx)
      · rcases List.mem_cons.1 hd with rfl | hd
        · rw [hm] at hx
          cases hx
        · refine ⟨d.metadata, List.mem_append_right _ ?_, hx⟩
          rw [List.takeWhile_append_of_pos]
          · exact List.mem_append_left _ (List.mem_map_of_mem hd)
          · simpa using fun c hc => hsource c (by simp [hc])
    intro d hd d' hd' x y hx hy
    obtain ⟨a, ha, hax⟩ := hnear d hd x hx
    obtain ⟨b, hb, hby⟩ := hnear d' hd' y hy
    exact hone a ha b hb x y hax hby

theorem preserved_of_filesApart {chunks : List Document}
    (h : FilesApart (chunks.map (·.metadata))) : Preserved p chunks := by
  have hkept := p.mergeGroups_induction (P := Group.Kept)
    (fun d => ⟨by simp, fun front back hsplit _ c hc => by
      have hmem : c ∈ [d] := by
        rw [← Group.docs_single, hsplit]
        exact List.mem_append_left _ hc
      rw [List.mem_singleton.1 hmem]⟩)
    (fun g h hg hh hmerge _ => hg.append hh hmerge) chunks
  refine ⟨p.groups_joined chunks, p.groups_docs chunks, ?_, ?_, ?_, ?_⟩
  · rw [p.groups_joined, List.map_map]
    refine (Group.intercalate_joined _).trans ?_
    rw [p.groups_docs]
  · exact p.mergeGroups_induction (by simp) (fun _ _ _ _ _ hfits _ => hfits) chunks
  · intro g hg d hd d' hd'
    exact ((hkept g hg).source d hd).trans ((hkept g hg).source d' hd').symm
  · intro g hg
    obtain ⟨front, back, hsplit⟩ := List.append_of_mem hg
    have hdocs := p.groups_docs chunks
    rw [hsplit, List.flatMap_append, List.flatMap_cons] at hdocs
    apply (hkept g hg).oneFile ((front.flatMap Group.docs).map (·.metadata)) ((back.flatMap Group.docs).map (·.metadata))
    rwa [← hdocs, List.map_append, List.map_append, ← List.append_assoc] at h

/-! ## Files that meet -/

section Blank

variable (p : Pipeline) {chunks : List Document}

theorem Pipeline.subset_emitGroup {result : List Group} {g g₀ : Group} (h : g₀ ∈ result ++ [g]) :
    ∃ g' ∈ p.emitGroup result g, g₀.docs ⊆ g'.docs := by
  rcases List.eq_nil_or_concat result with rfl | ⟨front, prev, rfl⟩
  · exact ⟨g₀, h, List.Subset.refl _⟩
  · simp only [emitGroup, List.concat_eq_append, List.getLast?_concat, List.dropLast_concat] at h ⊢
    split
    · simp only [List.append_assoc, List.mem_append, List.mem_singleton] at h
      rcases h with h | rfl | rfl
      · exact ⟨g₀, List.mem_append_left _ h, List.Subset.refl _⟩
      · exact ⟨g₀.append g, by simp, by simp⟩
      · exact ⟨prev.append g₀, by simp, by simp⟩
    · exact ⟨g₀, h, List.Subset.refl _⟩

theorem Pipeline.subset_mergeGroups (h : g₀ ∈ result ++ [g]) :
    ∃ g' ∈ p.mergeGroups result g chunks, g₀.docs ⊆ g'.docs := by
  induction chunks generalizing result g g₀ with
  | nil => exact p.subset_emitGroup h
  | cons next rest ih =>
    simp only [mergeGroups]
    split
    · rcases List.mem_append.1 h with h | h
      · exact ih (List.mem_append_left _ h)
      · obtain ⟨g', hg', hsub⟩ := @ih result (g.append ⟨next, []⟩) (g.append ⟨next, []⟩) (by simp)
        rw [List.mem_singleton.1 h]
        exact ⟨g', hg', List.Subset.trans (List.subset_append_left _ _) hsub⟩
    · obtain ⟨g₁, hg₁, hsub⟩ := p.subset_emitGroup h
      obtain ⟨g', hg', hsub'⟩ := ih (List.mem_append_left _ hg₁)
      exact ⟨g', hg', List.Subset.trans hsub hsub'⟩

def merging (measure : String → Int) (minSize maxSize : Int) : Pipeline :=
  ⟨true, minSize, maxSize, "", false, fun t => [t], fun t => [t], fun t => [t], fun t => [t], measure, id, false,
    true⟩

/-- A text is long enough if it has a `b`, and none is too long. -/
def blank : Pipeline := merging (fun t => if 'b' ∈ t.toList then 1 else 0) 1 1

theorem blank_measure_le (t : String) : blank.measure t ≤ blank.chunkSize := by
  simp only [blank, merging]
  split <;> simp

theorem blank_measure_lt (t : String) : blank.measure t < blank.chunkMinSizeTarget ↔ 'b' ∉ t.toList := by
  simp only [blank, merging]
  split <;> simp_all

theorem blank_skip (d next : Document) (hd : 'b' ∈ d.pageContent.toList) (result : List Group) :
    blank.mergeGroups result ⟨d, []⟩ (next :: chunks) = blank.mergeGroups (result ++ [⟨d, []⟩]) ⟨next, []⟩ chunks := by
  have hemit : blank.emitGroup result ⟨d, []⟩ = result ++ [⟨d, []⟩] := by
    simp only [Pipeline.emitGroup, Group.joined_single, blank_measure_lt, hd, not_true, false_and, if_false]
    cases hlast : result.getLast? with
    | none => simp [List.getLast?_eq_none_iff.1 hlast]
    | some prev => rfl
  simp [Pipeline.mergeGroups, blank_measure_lt, hd, hemit]

theorem blank_front (chunks front : List Document) (first last next : Document)
    (hfront : ∀ d ∈ first :: front, 'b' ∈ d.pageContent.toList) (hlast : (first :: front).getLast? = some last)
    (result : List Group) :
    ∃ done, blank.mergeGroups result ⟨first, []⟩ (front ++ next :: chunks) =
      blank.mergeGroups (done ++ [⟨last, []⟩]) ⟨next, []⟩ chunks := by
  induction front generalizing first result with
  | nil =>
    obtain rfl : first = last := by simpa using hlast
    exact ⟨result, blank_skip first next (hfront first List.mem_cons_self) result⟩
  | cons d front ih =>
    rw [List.getLast?_cons_cons] at hlast
    rw [List.cons_append, blank_skip first d (hfront first List.mem_cons_self)]
    exact ih d (List.forall_mem_of_forall_mem_cons hfront) hlast _

theorem blank_run (chunks run : List Document) (g : Group) (hid : g.first.metadata.fileId = none)
    (hg : 'b' ∉ g.joined.pageContent.toList)
    (hrun : ∀ d ∈ run, d.metadata.source = g.first.metadata.source ∧ d.pageContent = "") (result : List Group) :
    ∃ g', 'b' ∉ g'.joined.pageContent.toList ∧ g'.first = g.first ∧ g'.docs = g.docs ++ run ∧
      blank.mergeGroups result g (run ++ chunks) = blank.mergeGroups result g' chunks := by
  induction run generalizing g with
  | nil => exact ⟨g, hg, rfl, by simp, rfl⟩
  | cons next run ih =>
    have htext : 'b' ∉ (g.append ⟨next, []⟩).joined.pageContent.toList := by
      simp [Group.text_append, (hrun next List.mem_cons_self).2, hg]
    have hmerge : canMergeChunks g.joined next = true := (canMergeChunks_iff _ _).2
      ⟨(hrun next List.mem_cons_self).1.symm, fun x y hx => by simp [hid] at hx⟩
    obtain ⟨g', hg', hfirst, hdocs, heq⟩ := ih (g.append ⟨next, []⟩) hid htext
      fun d hd => hrun d (List.mem_cons_of_mem _ hd)
    refine ⟨g', hg', hfirst, by simp [hdocs], Eq.trans ?_ heq⟩
    simp [Pipeline.mergeGroups, hmerge, blank_measure_lt, hg, blank_measure_le]

/-- Where the run of blank chunks ends, it is put behind the chunk in front, if that is of the same source. -/
theorem blank_end (htail : ∀ d ∈ tail.head?, d.metadata.source ≠ g.first.metadata.source) (result : List Group) :
    ∀ g₀ ∈ blank.emitGroup result g,
    ∃ g' ∈ blank.mergeGroups result g tail, g₀.docs ⊆ g'.docs := by
  intro g₀ hg₀
  cases tail with
  | nil => exact ⟨g₀, hg₀, List.Subset.refl _⟩
  | cons next rest =>
    have hmerge : ¬canMergeChunks g.joined next = true := fun h =>
      htail next rfl ((canMergeChunks_iff _ _).1 h).1.symm
    simp only [Pipeline.mergeGroups, hmerge]
    exact blank.subset_mergeGroups (List.mem_append_left _ hg₀)

/-- The chunks in front are long enough, and the one without a file id and those behind are blank. -/
def blankDocs (front : List Metadata) (m : Metadata) (back : List Metadata) : List Document :=
  front.map (⟨"b", ·⟩) ++ ⟨"", m⟩ :: back.map (⟨"", ·⟩)

theorem neighbours_meet (front : List Metadata) (m : Metadata) (back : List Metadata) (hm : m.fileId = none) :
    ∃ g ∈ blank.groups (blankDocs front m back), neighbours front m back ⊆ g.docs.map (·.metadata) := by
  set behind := (back.takeWhile (·.source = m.source)).map fun m => (⟨"", m⟩ : Document) with hbehind
  set tail := (back.dropWhile (·.source = m.source)).map fun m => (⟨"", m⟩ : Document) with htail
  have hsplit : back.map (fun m => (⟨"", m⟩ : Document)) = behind ++ tail := by
    rw [hbehind, htail, ← List.map_append, List.takeWhile_append_dropWhile]
  have hmeta : behind.map (·.metadata) = back.takeWhile (·.source = m.source) := by simp [hbehind, Function.comp_def]
  have hrun : ∀ d ∈ behind, d.metadata.source = m.source ∧ d.pageContent = "" := by
    intro d hd
    obtain ⟨c, hc, rfl⟩ := List.mem_map.1 hd
    exact ⟨by simpa using List.mem_takeWhile_imp hc, rfl⟩
  have hother : ∀ d ∈ tail.head?, d.metadata.source ≠ m.source := by
    intro d hd
    have hhead := List.head?_dropWhile_not (fun c : Metadata => decide (c.source = m.source)) back
    rw [htail, List.head?_map] at hd
    obtain ⟨c, hc, rfl⟩ := Option.map_eq_some_iff.1 hd
    simpa [hc] using hhead
  have hgroups (result : List Group) : ∃ g', g'.first.metadata = m ∧ 'b' ∉ g'.joined.pageContent.toList ∧
      g'.docs = ⟨"", m⟩ :: behind ∧ ∀ g₀ ∈ blank.emitGroup result g', ∃ g ∈
        blank.mergeGroups result ⟨⟨"", m⟩, []⟩ (behind ++ tail), g₀.docs ⊆ g.docs := by
    obtain ⟨g', htext, hfirst, hdocs, heq⟩ := blank_run tail behind ⟨⟨"", m⟩, []⟩ hm (by simp) hrun result
    rw [heq]
    exact ⟨g', by rw [hfirst], htext, hdocs, blank_end (by simpa [hfirst] using hother) result⟩
  rw [blankDocs, hsplit]
  cases hfront : front.map fun m => (⟨"b", m⟩ : Document) with
  | nil =>
    obtain ⟨g', -, -, hdocs, hend⟩ := hgroups []
    obtain ⟨g, hg, hsub⟩ := hend g' (by simp [Pipeline.emitGroup])
    refine ⟨g, hg, fun c hc => List.map_subset _ hsub ?_⟩
    simp only [List.map_eq_nil_iff.1 hfront, neighbours, List.getLast?_nil, Option.toList_none, List.filter_nil,
      List.nil_append] at hc
    simp [hdocs, hmeta, hc]
  | cons first rest =>
    have hne : front ≠ [] := by
      rintro rfl
      cases hfront
    obtain ⟨l, hl⟩ := Option.isSome_iff_exists.1 (List.getLast?_isSome.2 hne)
    have hlast : (first :: rest).getLast? = some ⟨"b", l⟩ := by
      rw [← hfront, List.getLast?_map, hl]
      rfl
    obtain ⟨done, hdone⟩ := blank_front (behind ++ tail) rest first ⟨"b", l⟩ ⟨"", m⟩
      (by rw [← hfront]; simp) hlast []
    obtain ⟨g', hfirst, htext, hdocs, hend⟩ := hgroups (done ++ [⟨⟨"b", l⟩, []⟩])
    have hgroups : blank.groups (first :: rest ++ ⟨"", m⟩ :: (behind ++ tail)) =
        blank.mergeGroups (done ++ [⟨⟨"b", l⟩, []⟩]) ⟨⟨"", m⟩, []⟩ (behind ++ tail) := hdone
    rw [hgroups]
    by_cases hsource : l.source = m.source
    · have hmerge : canMergeChunks ⟨"b", l⟩ g'.joined = true :=
        (canMergeChunks_iff _ _).2 ⟨by simp [hfirst, hsource], fun x y _ hy => by simp [hfirst, hm] at hy⟩
      obtain ⟨g, hg, hsub⟩ := hend ((⟨⟨"b", l⟩, []⟩ : Group).append g') (by
        simp [Pipeline.emitGroup, blank_measure_lt, htext, hmerge, blank_measure_le])
      refine ⟨g, hg, fun c hc => List.map_subset _ hsub ?_⟩
      have hc' : c = l ∨ c ∈ back.takeWhile (·.source = m.source) := by simpa [neighbours, hl, hsource] using hc
      rcases hc' with rfl | hc'
      · simp
      · simp [hdocs, hmeta, hc']
    · obtain ⟨g₀, hg₀, hsub₀⟩ := @blank.subset_emitGroup (done ++ [⟨⟨"b", l⟩, []⟩]) g' g' (by simp)
      obtain ⟨g, hg, hsub⟩ := hend g₀ hg₀
      refine ⟨g, hg, fun c hc => List.map_subset _ (List.Subset.trans hsub₀ hsub) ?_⟩
      have hc' : c ∈ back.takeWhile (·.source = m.source) := by simpa [neighbours, hl, hsource] using hc
      simp [hdocs, hmeta, hc']

/-- Merging preserves text and boundaries, for all texts and sizes, exactly when the metadata keep files apart. -/
theorem merge_preserves_iff (ms : List Metadata) :
    (∀ (p : Pipeline) (chunks : List Document), chunks.map (·.metadata) = ms → 0 < p.chunkMinSizeTarget →
      Preserved p chunks) ↔ FilesApart ms := by
  constructor
  · rintro h front m back rfl hm c hc c' hc' x y hx hy
    obtain ⟨g, hg, hsub⟩ := neighbours_meet front m back hm
    have hpreserved := h blank (blankDocs front m back) (by simp [blankDocs, Function.comp_def]) Int.one_pos
    exact hpreserved.file g hg c (hsub hc) c' (hsub hc') x y hx hy
  · rintro h p chunks rfl -
    exact preserved_of_filesApart h

def mixed : List Document :=
  [⟨"a", none, none, none, some "s"⟩, ⟨"b", some "1", none, none, some "s"⟩, ⟨"c", some "2", none, none, some "s"⟩]

theorem two_files_in_one_chunk : ¬Preserved (merging (fun t => t.length) 100 1000) mixed := by
  intro h
  have hgroups : (merging (fun t => t.length) 100 1000).groups mixed = [⟨mixed.head (by decide), mixed.tail⟩] := by
    decide
  have hfile := h.file _ (by rw [hgroups]; exact List.mem_cons_self)
  exact absurd (hfile ⟨some "1", none, none, some "s"⟩ (by decide) ⟨some "2", none, none, some "s"⟩ (by decide) _ _ rfl
    rfl) (by decide)

end Blank

end RyanAI.Knowledge
