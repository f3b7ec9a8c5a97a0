import RyanAI.Knowledge.Chunks
import RyanAI.Lib.OrderedMap

/-!
# The tables under a knowledge base

The rows of `knowledge`, `knowledge_directory`, `knowledge_file` and `file`, and the collections of the vector store:
one for each knowledge base, and `file-{id}` for each file. The operations are those of `models/knowledge.py` and
`models/files.py`. A traversal of the directories is given the number of rounds it may take; with fewer it has not
come back.
-/

namespace RyanAI.Knowledge

open RyanAI.Lib

/-- The keys of `file.data` that are read or written. -/
structure FileData where
  content : Option String
  status : Option String
  error : Option String
deriving DecidableEq

/-- A row of `file`. -/
structure FileRow where
  userId : String
  hash : Option String
  filename : String
  data : Option FileData
  updatedAt : Nat

/-- A row of `knowledge_file`, with knowledge base and file. -/
structure KnowledgeFile where
  directoryId : Option String
  userId : String

/-- A row of `knowledge_directory`. -/
structure Directory where
  knowledgeId : String
  parentId : Option String

/-- A row of `knowledge`. -/
structure KnowledgeRow where
  userId : String
  /-- `meta.source` is `external`. -/
  external : Bool

inductive CollectionName where
  | knowledge (id : String)
  | file (id : String)
deriving DecidableEq

structure World where
  knowledges : KeyedTable String KnowledgeRow
  directories : KeyedTable String Directory
  files : KeyedTable String FileRow
  /-- The key is that of the unique constraint, the knowledge base and the file. -/
  links : KeyedTable (String × String) KnowledgeFile
  vectors : CollectionName → List Document

namespace World

/-! ## `KnowledgeTable` -/

def children (w : World) (directoryId : String) : List String :=
  (w.directories.entries.filter fun entry => entry.2.parentId = some directoryId).map Prod.fst

/-- The loop over `directory_ids`, which grows while it is gone through. -/
def directoryIds (w : World) : ℕ → List String → Option (List String)
  | 0, _ => none
  | _ + 1, [] => some []
  | n + 1, id :: rest => (directoryIds w n (rest ++ w.children id)).map (id :: ·)

def getFilesByIdAndDirectoryId (w : World) (rounds : ℕ) (knowledgeId directoryId : String) :
    Option (List (String × FileRow)) :=
  (w.directoryIds rounds [directoryId]).map fun ids =>
    w.files.entries.filter fun entry => (w.links.get (knowledgeId, entry.1)).any fun link =>
      link.directoryId.any fun id => decide (id ∈ ids)

/-- `delete(KnowledgeFile).filter_by(directory_id=…)`. -/
def deleteFilesIn (w : World) (directoryId : String) : World :=
  { w with links := w.links.filter fun _ link => decide (link.directoryId ≠ some directoryId) }

/-- `_delete_files_in_subtree`. -/
def deleteFilesInSubtree : ℕ → String → World → Option World
  | 0, _, _ => none
  | n + 1, id, w => (w.children id).foldlM (fun w child => deleteFilesInSubtree n child w) (w.deleteFilesIn id)

/-! ## Directories below a directory -/

/-- The directory is `top` or below it. -/
def Below (w : World) : String → String → Prop := Relation.ReflTransGen fun a b => b ∈ w.children a

theorem below_iff {w : World} {top id : String} :
    w.Below top id ↔ id = top ∨ ∃ child ∈ w.children top, w.Below child id := by
  constructor
  · intro h
    rcases Relation.ReflTransGen.cases_head h with h | ⟨child, hchild, h⟩
    · exact .inl h.symm
    · exact .inr ⟨child, hchild, h⟩
  · rintro (rfl | ⟨child, hchild, h⟩)
    · exact .refl
    · exact .head hchild h

structure LinksOutside (dirs : Set String) (w w' : World) : Prop where
  knowledges : w'.knowledges = w.knowledges
  directories : w'.directories = w.directories
  files : w'.files = w.files
  vectors : w'.vectors = w.vectors
  links : ∀ key link, w'.links.get key = some link ↔
    w.links.get key = some link ∧ ∀ dir ∈ dirs, link.directoryId ≠ some dir

namespace LinksOutside

theorem refl (w : World) : LinksOutside ∅ w w := ⟨rfl, rfl, rfl, rfl, by simp⟩

theorem trans (h : LinksOutside dirs w w') (h' : LinksOutside dirs' w' w'') : LinksOutside (dirs ∪ dirs') w w'' where
  knowledges := h'.knowledges.trans h.knowledges
  directories := h'.directories.trans h.directories
  files := h'.files.trans h.files
  vectors := h'.vectors.trans h.vectors
  links := by
    intro key link
    rw [h'.links, h.links, and_assoc]
    apply and_congr_right
    intro _
    constructor
    · rintro ⟨hout, hout'⟩ dir (hdir | hdir)
      · exact hout dir hdir
      · exact hout' dir hdir
    · intro hout
      exact ⟨fun dir hdir => hout dir (.inl hdir), fun dir hdir => hout dir (.inr hdir)⟩

theorem deleteFilesIn (w : World) (dir : String) : LinksOutside {dir} w (w.deleteFilesIn dir) where
  knowledges := rfl
  directories := rfl
  files := rfl
  vectors := rfl
  links := by
    intro key link
    rw [World.deleteFilesIn, KeyedTable.get_filter, Option.filter_eq_some_iff]
    simp

theorem below_eq (h : LinksOutside dirs w w') : w'.Below = w.Below := by
  funext top
  rw [Below, Below]
  simp only [children, h.directories]

end LinksOutside

theorem linksOutside_deleteFilesInSubtree {top : String} {w w' : World}
    (h : deleteFilesInSubtree n top w = some w') : LinksOutside {id | w.Below top id} w w' := by
  induction n generalizing top w w' with
  | zero => cases h
  | succ n ih =>
    rw [deleteFilesInSubtree] at h
    -- the loop over the children, from any world with the same directories
    have hloop : ∀ (ids : List String) (v v' : World),
        ids.foldlM (fun w child => deleteFilesInSubtree n child w) v = some v' →
        LinksOutside {id | ∃ child ∈ ids, v.Below child id} v v' := by
      intro ids
      induction ids with
      | nil =>
        intro v v' hv
        cases hv
        convert LinksOutside.refl v
        simp
      | cons child rest ihrest =>
        intro v v' hv
        rw [List.foldlM_cons, Option.bind_eq_bind, Option.bind_eq_some_iff] at hv
        obtain ⟨u, hu, hv⟩ := hv
        have hchild := ih hu
        convert hchild.trans (ihrest u v' hv) using 1
        ext id
        simp [hchild.below_eq]
    have hfirst := LinksOutside.deleteFilesIn w top
    convert hfirst.trans (hloop _ _ _ h) using 1
    ext id
    simp only [Set.mem_ofPred_eq, Set.mem_union, Set.mem_singleton_iff, hfirst.below_eq]
    exact below_iff

end World

end RyanAI.Knowledge
