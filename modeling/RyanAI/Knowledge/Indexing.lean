import RyanAI.Knowledge.Chunks

/-!
# Indexing is all or nothing

The second half of `save_docs_to_vector_db` embeds and inserts the chunks in buffers, and takes back what it inserted
when a buffer fails. The answers of the embedding service and of the vector store are parameters.
-/

namespace RyanAI.Knowledge.Indexing

structure EmbeddingConfig where
  engine : String
  model : String

structure Entry (ι V : Type) where
  id : ι
  document : Document
  embeddingConfig : EmbeddingConfig
  vector : V

structure Settings where
  embeddingConfig : EmbeddingConfig
  /-- `rag.embedding_batch_size`, when it is an integer. -/
  embeddingBatchSize : Option ℤ
  /-- `RAG_EMBEDDING_BUFFER_SIZE`, which `env.py` makes positive. -/
  embeddingBufferSize : ℕ+
  embeddingTimeout : Option ℤ

def Settings.bufferSize (s : Settings) : ℕ :=
  match s.embeddingBatchSize with
  | some b =>
    if 0 < b then b.toNat * ((s.embeddingBufferSize + b.toNat - 1) / b.toNat) else s.embeddingBufferSize
  | none => s.embeddingBufferSize

theorem Settings.bufferSize_pos (s : Settings) : 0 < s.bufferSize := by
  have hpos := s.embeddingBufferSize.pos
  rw [bufferSize]
  split
  · split_ifs with hb
    · have hb' : 0 < _ := Int.pos_iff_toNat_pos.1 hb
      exact Nat.mul_pos hb' (Nat.div_pos (by omega) hb')
    · exact hpos
  · exact hpos

/-- The answers for the buffer that begins at a chunk; `embed` is `none` when it raises. -/
structure Services (ι V : Type) where
  uuid4 : ℕ → ι
  embed : ℕ → List String → Option (List V)
  timesOut : ℕ → ℤ → Bool
  elapsed : ℕ → ℤ
  /-- An `insert` that raises has stored the items with this property. -/
  insertFails : ℕ → Option (Entry ι V → Bool)

structure Progress (ι V : Type) where
  /-- `none` when the collection does not exist. -/
  collection : Option (List (Entry ι V))
  insertedIds : List ι
  embeddingTimeout : Option ℤ

inductive Failure where
  | value (message : String)
  | timeout
  | embedding
  | index
  | insert

variable {ι V : Type} (cfg : Settings) (svc : Services ι V) (texts : List String) (metadatas : List Metadata)

def bufferTexts (start : ℕ) : List String := (texts.drop start).take cfg.bufferSize

/-- `text.replace('\n', ' ')` of each text. -/
def oneLine (texts : List String) : List String :=
  texts.map fun text => String.ofList (text.toList.map fun c => if c = '\n' then ' ' else c)

def makeItem (start : ℕ) (embeddings : List V) (text : String × ℕ) : Option (Entry ι V) := do
  let vector ← embeddings[text.2]?
  let metadata ← metadatas[start + text.2]?
  some ⟨svc.uuid4 (start + text.2), ⟨text.1, metadata⟩, cfg.embeddingConfig, vector⟩

/-- One round of the loop; the second component is what it raises. -/
def indexBuffer (start : ℕ) (s : Progress ι V) : Progress ι V × Option Failure :=
  if s.embeddingTimeout.any (svc.timesOut start) then (s, some .timeout)
  else
    match svc.embed start (oneLine (bufferTexts cfg texts start)) with
    | none => (s, some .embedding)
    | some embeddings =>
      let embeddingTimeout := s.embeddingTimeout.map fun t => max (t - svc.elapsed start) 0
      match (bufferTexts cfg texts start).zipIdx.mapM (makeItem cfg svc metadatas start embeddings) with
      | none => ({ s with embeddingTimeout }, some .index)
      | some items =>
        let insertedIds := s.insertedIds ++ items.map Entry.id
        match svc.insertFails start with
        | none => (⟨some (s.collection.getD [] ++ items), insertedIds, embeddingTimeout⟩, none)
        | some stored =>
          (⟨some (s.collection.getD [] ++ items.filter stored), insertedIds, embeddingTimeout⟩, some .insert)

def indexBuffers : List ℕ → Progress ι V → Progress ι V × Option Failure
  | [], s => (s, none)
  | start :: rest, s =>
    match indexBuffer cfg svc texts metadatas start s with
    | (s', none) => indexBuffers rest s'
    | (s', some failure) => (s', some failure)

def rollback [DecidableEq ι] (add : Bool) (s : Progress ι V) : Option (List (Entry ι V)) :=
  if s.insertedIds = [] then s.collection
  else if add then s.collection.map fun entries => entries.filter (·.id ∉ s.insertedIds)
  else none

/-- `range(0, len(texts), buffer_size)`. -/
def starts : List ℕ := List.range' 0 ((texts.length + cfg.bufferSize - 1) / cfg.bufferSize) cfg.bufferSize

def chunksOf (p : Pipeline) (split : Bool) (docs : List Document) : Except String (List Document) :=
  if split then p.split docs else .ok docs

def sanitized (docs : List Document) : List String := docs.map fun doc => sanitizeTextForDb doc.pageContent

/-- `save_docs_to_vector_db`: the collection afterwards, and what is raised. -/
def saveDocsToVectorDb [DecidableEq ι] (p : Pipeline) (split add overwrite : Bool) (docs : List Document)
    (metadata : Option SaveMetadata) (collection : Option (List (Entry ι V))) :
    Option (List (Entry ι V)) × Option Failure :=
  if metadata.any fun given =>
      hasDuplicateContent ((collection.getD []).map Entry.document) given.hash given.fileId then
    (collection, some (.value duplicateContent))
  else
    match chunksOf p split docs with
    | .error message => (collection, some (.value message))
    | .ok [] => (collection, some (.value emptyContent))
    | .ok docs =>
      if collection.isSome && !overwrite && !add then (collection, none)
      else
        let kept := if overwrite then none else collection
        match indexBuffers cfg svc (sanitized docs) (docs.map fun doc => doc.metadata.update metadata)
            (starts cfg (sanitized docs)) ⟨kept, [], cfg.embeddingTimeout⟩ with
        | (s, none) => (s.collection, none)
        | (s, some failure) => (rollback add s, some failure)

/-- The entry of a chunk: its own text and metadata, and the vector answered for its place in its buffer. -/
structure IsEntryOf (i : ℕ) (entry : Entry ι V) : Prop where
  id : entry.id = svc.uuid4 i
  text : texts[i]? = some entry.document.pageContent
  metadata : metadatas[i]? = some entry.document.metadata
  embeddingConfig : entry.embeddingConfig = cfg.embeddingConfig
  vector : ∃ start idx embeddings, i = start + idx ∧ start = i / cfg.bufferSize * cfg.bufferSize ∧
    svc.embed start (oneLine (bufferTexts cfg texts start)) = some embeddings ∧ embeddings[idx]? = some entry.vector

/-- The loop has added the entries of the chunks before `start`. -/
def Added (old : List (Entry ι V)) (start : ℕ) (s : Progress ι V) : Prop :=
  ∃ added, s.collection.getD [] = old ++ added ∧ s.insertedIds = added.map Entry.id ∧
    added.length = min start texts.length ∧
    ∀ i entry, added[i]? = some entry → IsEntryOf cfg svc texts metadatas i entry

/-- What the collection holds besides its old entries has a new id that the call remembers. -/
structure Undoable (old : List (Entry ι V)) (s : Progress ι V) : Prop where
  held : ∃ extra, s.collection.getD [] = old ++ extra ∧ ∀ entry ∈ extra, entry.id ∈ s.insertedIds
  drawn : ∀ id ∈ s.insertedIds, ∃ n, id = svc.uuid4 n

variable {cfg svc texts metadatas} {old : List (Entry ι V)} {s s' : Progress ι V} {start : ℕ}

theorem Added.undoable (h : Added cfg svc texts metadatas old start s) : Undoable svc old s := by
  obtain ⟨added, hheld, hids, -, hentry⟩ := h
  refine ⟨⟨added, hheld, fun entry hmem => hids ▸ List.mem_map_of_mem hmem⟩, fun id hid => ?_⟩
  rw [hids, List.mem_map] at hid
  obtain ⟨entry, hmem, rfl⟩ := hid
  obtain ⟨i, hi⟩ := List.getElem?_of_mem hmem
  exact ⟨i, (hentry i entry hi).id⟩

theorem makeItem_eq_some (h : makeItem cfg svc metadatas start embeddings text = some entry) :
    entry.id = svc.uuid4 (start + text.2) ∧ entry.document.pageContent = text.1 ∧
      metadatas[start + text.2]? = some entry.document.metadata ∧ entry.embeddingConfig = cfg.embeddingConfig ∧
      embeddings[text.2]? = some entry.vector := by
  simp only [makeItem, Option.bind_eq_bind, Option.bind_eq_some_iff] at h
  obtain ⟨vector, hvector, metadata, hmetadata, h⟩ := h
  cases h
  exact ⟨rfl, rfl, hmetadata, rfl, hvector⟩

theorem getElem?_of_mapM {α β : Type} {f : α → Option β} {l : List α} {l' : List β} (h : l.mapM f = some l') :
    l'.length = l.length ∧ ∀ (j : ℕ) b, l'[j]? = some b → ∃ a, l[j]? = some a ∧ f a = some b := by
  induction l generalizing l' with
  | nil =>
    cases h
    exact ⟨rfl, fun j b hb => by simp at hb⟩
  | cons a rest ih =>
    simp only [List.mapM_cons, Option.bind_eq_bind, Option.bind_eq_some_iff] at h
    obtain ⟨b, hb, bs, hbs, h⟩ := h
    cases h
    obtain ⟨hlength, hrest⟩ := ih hbs
    refine ⟨congrArg (· + 1) hlength, fun j b' hj => ?_⟩
    cases j with
    | zero => exact ⟨a, rfl, hb.trans hj⟩
    | succ j => exact hrest j b' hj

/-- The items of a buffer are the entries of its chunks. -/
theorem items_of_buffer {embeddings : List V} {items : List (Entry ι V)} (hstart : cfg.bufferSize ∣ start)
    (hembed : svc.embed start (oneLine (bufferTexts cfg texts start)) = some embeddings)
    (h : (bufferTexts cfg texts start).zipIdx.mapM (makeItem cfg svc metadatas start embeddings) = some items) :
    items.length = min cfg.bufferSize (texts.length - start) ∧
      ∀ j entry, items[j]? = some entry → IsEntryOf cfg svc texts metadatas (start + j) entry := by
  obtain ⟨hlength, hitem⟩ := getElem?_of_mapM h
  refine ⟨by simpa [bufferTexts] using hlength, fun j entry hj => ?_⟩
  obtain ⟨text, htext, hmade⟩ := hitem j entry hj
  simp only [bufferTexts, List.getElem?_zipIdx, Nat.zero_add, Option.map_eq_some_iff, List.getElem?_take,
    List.getElem?_drop] at htext
  obtain ⟨chunk, hchunk, rfl⟩ := htext
  obtain ⟨hid, hcontent, hmetadata, hconfig, hvector⟩ := makeItem_eq_some hmade
  split_ifs at hchunk with hj'
  obtain ⟨q, rfl⟩ := hstart
  have hdiv : (cfg.bufferSize * q + j) / cfg.bufferSize = q := by
    rw [Nat.mul_add_div cfg.bufferSize_pos, Nat.div_eq_of_lt hj', Nat.add_zero]
  exact ⟨hid, hchunk.trans (congrArg some hcontent.symm), hmetadata, hconfig, _, j, embeddings, rfl,
    by rw [hdiv, Nat.mul_comm], hembed, hvector⟩

theorem added_of_indexBuffer (h : Added cfg svc texts metadatas old start s) (hstart : cfg.bufferSize ∣ start)
    (hlt : start < texts.length) (hround : indexBuffer cfg svc texts metadatas start s = (s', none)) :
    Added cfg svc texts metadatas old (start + cfg.bufferSize) s' := by
  obtain ⟨added, hheld, hids, hlength, hentry⟩ := h
  simp only [indexBuffer] at hround
  split_ifs at hround
  · cases hround
  split at hround
  · cases hround
  next embeddings hembed =>
    split at hround
    · cases hround
    next items hitems =>
      split at hround
      · cases hround
        obtain ⟨hlength', hentry'⟩ := items_of_buffer hstart hembed hitems
        refine ⟨added ++ items, by simp [hheld], by simp [hids], ?_, fun i entry hi => ?_⟩
        · rw [List.length_append, hlength, hlength']
          omega
        · rw [List.getElem?_append] at hi
          split_ifs at hi with hlt'
          · exact hentry i entry hi
          · have hnext := hentry' _ entry hi
            rwa [hlength, Nat.min_eq_left hlt.le, Nat.add_sub_cancel' (by omega)] at hnext
      · cases hround

theorem undoable_of_indexBuffer {failure : Failure} (h : Added cfg svc texts metadatas old start s)
    (hstart : cfg.bufferSize ∣ start)
    (hround : indexBuffer cfg svc texts metadatas start s = (s', some failure)) : Undoable svc old s' := by
  have hbefore := h.undoable
  simp only [indexBuffer] at hround
  split_ifs at hround
  · cases hround
    exact hbefore
  split at hround
  · cases hround
    exact hbefore
  next embeddings hembed =>
    split at hround
    · cases hround
      exact ⟨hbefore.held, hbefore.drawn⟩
    next items hitems =>
      split at hround
      · cases hround
      next stored hstored =>
        cases hround
        obtain ⟨extra, hheld, hextra⟩ := hbefore.held
        refine ⟨⟨extra ++ items.filter stored, by simp [hheld], fun entry hmem => ?_⟩, fun id hid => ?_⟩
        · rw [List.mem_append]
          exact (List.mem_append.1 hmem).imp (hextra entry) fun hmem =>
            List.mem_map_of_mem (List.mem_of_mem_filter hmem)
        · rcases List.mem_append.1 hid with hid | hid
          · exact hbefore.drawn id hid
          · obtain ⟨entry, hmem, rfl⟩ := List.mem_map.1 hid
            obtain ⟨j, hj⟩ := List.getElem?_of_mem hmem
            exact ⟨start + j, ((items_of_buffer hstart hembed hitems).2 j entry hj).id⟩

theorem indexBuffers_spec (n : ℕ) (h : Added cfg svc texts metadatas old start s) (hstart : cfg.bufferSize ∣ start)
    (hlast : start + n * cfg.bufferSize < texts.length + cfg.bufferSize) :
    match indexBuffers cfg svc texts metadatas (List.range' start n cfg.bufferSize) s with
    | (s', none) => Added cfg svc texts metadatas old (start + n * cfg.bufferSize) s'
    | (s', some _) => Undoable svc old s' := by
  induction n generalizing start s with
  | zero => simpa [indexBuffers] using h
  | succ n ih =>
    rw [Nat.succ_mul] at hlast
    rw [List.range'_succ, indexBuffers]
    cases hround : indexBuffer cfg svc texts metadatas start s with
    | mk s' raised =>
      cases raised with
      | some failure => exact undoable_of_indexBuffer h hstart hround
      | none =>
        have hnext := ih (added_of_indexBuffer h hstart (by omega) hround) (hstart.add (dvd_refl _)) (by omega)
        rwa [Nat.succ_mul, Nat.add_comm (n * _), ← Nat.add_assoc]

theorem rollback_of_undoable [DecidableEq ι] (h : Undoable svc old s)
    (hfresh : ∀ entry ∈ old, ∀ n, entry.id ≠ svc.uuid4 n) (hcall : add = true ∨ old = []) :
    (rollback add s).getD [] = old := by
  obtain ⟨⟨extra, hheld, hextra⟩, hdrawn⟩ := h
  have hold : old.filter (·.id ∉ s.insertedIds) = old := List.filter_eq_self.2 fun entry hmem =>
    decide_eq_true fun hid => (hdrawn _ hid).elim (hfresh entry hmem)
  have hnew : extra.filter (·.id ∉ s.insertedIds) = [] := List.filter_eq_nil_iff.2 fun entry hmem => by
    simpa using hextra entry hmem
  rw [rollback]
  split_ifs with hids hadd
  · simp only [hids, List.not_mem_nil, not_false_eq_true, decide_true, List.filter_true] at hnew
    rw [hheld, hnew, List.append_nil]
  · have hfilter : (s.collection.map fun entries => entries.filter (·.id ∉ s.insertedIds)).getD [] =
        (s.collection.getD []).filter (·.id ∉ s.insertedIds) := by
      cases s.collection <;> rfl
    rw [hfilter, hheld, List.filter_append, hold, hnew, List.append_nil]
  · exact (hcall.resolve_left hadd).symm

/-- A call that raises leaves the entries as they were, and one that returns has added one entry for each chunk. -/
theorem saveDocs_all_or_nothing [DecidableEq ι] (p : Pipeline) (split add overwrite : Bool) (docs : List Document)
    (metadata : Option SaveMetadata) (collection : Option (List (Entry ι V)))
    (hfresh : ∀ entry ∈ collection.getD [], ∀ n, entry.id ≠ svc.uuid4 n)
    (hcall : (add = true ∧ overwrite = false) ∨ collection = none) :
    match saveDocsToVectorDb cfg svc p split add overwrite docs metadata collection with
    | (collection', some _) => collection'.getD [] = collection.getD []
    | (collection', none) => ∃ chunks added, chunksOf p split docs = .ok chunks ∧
        collection'.getD [] = collection.getD [] ++ added ∧ added.length = chunks.length ∧
        ∀ i entry, added[i]? = some entry → IsEntryOf cfg svc (sanitized chunks)
          (chunks.map fun doc => doc.metadata.update metadata) i entry := by
  have hkept : (if overwrite then none else collection) = collection := by
    rcases hcall with ⟨-, rfl⟩ | rfl
    · rfl
    · exact ite_self _
  have hnot : (collection.isSome && !overwrite && !add) = false := by
    rcases hcall with ⟨rfl, -⟩ | rfl <;> simp
  simp only [saveDocsToVectorDb, hnot, hkept, Bool.false_eq_true, if_false]
  split_ifs
  · rfl
  cases hchunks : chunksOf p split docs with
  | error message => rfl
  | ok chunks =>
    cases chunks with
    | nil => rfl
    | cons first rest =>
    simp only
    generalize first :: rest = chunks
    have hlength : (sanitized chunks).length = chunks.length := List.length_map _
    have hstarted : Added cfg svc (sanitized chunks) (chunks.map fun doc => doc.metadata.update metadata)
        (collection.getD []) 0 ⟨collection, [], cfg.embeddingTimeout⟩ :=
      ⟨[], (List.append_nil _).symm, rfl, by simp, fun i entry hi => by simp at hi⟩
    have hcount := Nat.div_mul_le_self ((sanitized chunks).length + cfg.bufferSize - 1) cfg.bufferSize
    have hpos := cfg.bufferSize_pos
    have hrun := indexBuffers_spec (((sanitized chunks).length + cfg.bufferSize - 1) / cfg.bufferSize) hstarted
      (dvd_zero _) (by omega)
    rw [starts]
    revert hrun
    generalize indexBuffers cfg svc _ _ (List.range' 0 _ _) _ = result
    obtain ⟨s, raised⟩ := result
    cases raised with
    | some failure =>
      exact fun hundo => rollback_of_undoable hundo hfresh (hcall.imp And.left fun hnone => by rw [hnone]; rfl)
    | none =>
      rintro ⟨added, hheld, -, hadded, hentry⟩
      refine ⟨chunks, added, rfl, hheld, ?_, hentry⟩
      have hceil := Nat.lt_div_mul_add hpos (a := (sanitized chunks).length + cfg.bufferSize - 1)
      rw [hadded, ← hlength]
      omega

def samplePipeline : Pipeline :=
  ⟨false, 0, 1000, "", false, fun t => [t], fun t => [t], fun t => [t], fun t => [t], fun t => t.length, id, false,
    true⟩

/-- Buffers of one chunk; the second insert raises after it has stored its item. -/
def sampleServices : Services ℕ ℕ :=
  ⟨(· + 1), fun _ texts => some (texts.map String.length), fun _ _ => false, fun _ => 0,
    fun start => if start = 1 then some fun _ => true else none⟩

def sampleSettings : Settings := ⟨⟨"openai", "small"⟩, some 1, 1, none⟩

def sampleDocs : List Document := [⟨"a", ⟨none, none, none, none⟩⟩, ⟨"b", ⟨none, none, none, none⟩⟩]

def sampleOld : Entry ℕ ℕ := ⟨0, ⟨"old", ⟨none, none, none, none⟩⟩, ⟨"openai", "small"⟩, 3⟩

def sampleRun (overwrite : Bool) : Option (List (Entry ℕ ℕ)) × Option Failure :=
  saveDocsToVectorDb sampleSettings sampleServices samplePipeline true true overwrite sampleDocs none (some [sampleOld])

theorem saveDocs_all_or_nothing_sample : (sampleRun false).1.getD [] = [sampleOld] := by
  have hfresh : ∀ entry ∈ [sampleOld], ∀ n, entry.id ≠ sampleServices.uuid4 n := fun entry hmem n => by
    rw [List.mem_singleton.1 hmem]
    exact (Nat.succ_ne_zero n).symm
  exact @saveDocs_all_or_nothing ℕ ℕ sampleSettings sampleServices _ samplePipeline true true false sampleDocs none
    (some [sampleOld]) hfresh (.inl ⟨rfl, rfl⟩)

/-- With `overwrite` the collection is deleted first, and a failure does not bring its entries back. -/
theorem overwritten_entries_are_lost :
    (sampleRun true).2 = some .insert ∧ (sampleRun true).1.getD [] ≠ [sampleOld] := by
  refine ⟨rfl, ?_⟩
  have hempty : (sampleRun true).1.getD [] = [] := rfl
  rw [hempty]
  exact (List.cons_ne_nil _ _).symm

end RyanAI.Knowledge.Indexing
