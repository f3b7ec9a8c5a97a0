import Mathlib.Tactic

/-!
# The chunks of a collection

`save_docs_to_vector_db` of `retrieval.py` turns documents into the items of a collection: it refuses a content that
another file has put there, splits the documents, and adds one item for each piece. With the markdown splitter the
pieces may be merged (`merge_docs_to_target_size`).
-/

namespace RyanAI.Knowledge

structure Metadata where
  fileId : Option String
  hash : Option String
  name : Option String
  source : Option String
deriving DecidableEq

/-- A `Document`, or an item of a collection without id and vector. -/
structure Document where
  pageContent : String
  metadata : Metadata
deriving DecidableEq

structure Pipeline where
  enableMarkdownHeaderTextSplitter : Bool
  chunkMinSizeTarget : Int
  chunkSize : Int
  textSplitter : String
  bypassEmbeddingAndRetrieval : Bool
  splitMarkdown : String → List String
  splitCharacters : String → List String
  splitTokens : String → List String
  splitTransformers : String → List String
  /-- `get_splitter_length_function`. -/
  measure : String → Int
  calculateSha256String : String → String
  /-- `ENABLE_KNOWLEDGE_FILE_RETENTION`. -/
  fileRetention : Bool
  /-- Whether the database enforces its foreign keys. -/
  foreignKeys : Bool

def emptyContent : String :=
  "The content provided is empty. Please ensure that there is text or data present before proceeding."

def duplicateContent : String := "Duplicate content detected. Please provide unique content to proceed."

def canMergeChunks (a b : Document) : Bool :=
  if a.metadata.source ≠ b.metadata.source then false
  else
    match a.metadata.fileId, b.metadata.fileId with
    | some x, some y => x == y
    | _, _ => true

namespace Pipeline

variable (p : Pipeline)

/-- `_merge_backward`: append to the last chunk, if that can be done. -/
def mergeBackward (result : List Document) (content : String) (chunk : Document) : Option (List Document) :=
  match result.getLast? with
  | none => none
  | some prev =>
    if !canMergeChunks prev chunk then none
    else
      let merged := prev.pageContent ++ "\n\n" ++ content
      if p.measure merged > p.chunkSize then none
      else some (result.dropLast ++ [⟨merged, prev.metadata⟩])

/-- `_emit`. -/
def emit (result : List Document) (content : String) (chunk : Document) : List Document :=
  if p.measure content < p.chunkMinSizeTarget then
    (p.mergeBackward result content chunk).getD (result ++ [⟨content, chunk.metadata⟩])
  else result ++ [⟨content, chunk.metadata⟩]

def mergeFrom (result : List Document) (current : Document) (content : String) : List Document → List Document
  | [] => p.emit result content current
  | next :: rest =>
    let merged := content ++ "\n\n" ++ next.pageContent
    if canMergeChunks current next && decide (p.measure content < p.chunkMinSizeTarget) &&
        decide (p.measure merged ≤ p.chunkSize) then
      mergeFrom result current merged rest
    else mergeFrom (p.emit result content current) next next.pageContent rest

def mergeDocsToTargetSize (chunks : List Document) : List Document :=
  if p.chunkMinSizeTarget ≤ 0 then chunks
  else
    match chunks with
    | [] => []
    | first :: rest => p.mergeFrom [] first first.pageContent rest

def pieces (f : String → List String) (doc : Document) : List Document :=
  (f doc.pageContent).map fun text => ⟨text, doc.metadata⟩

def splitHeaders (docs : List Document) : List Document :=
  if p.enableMarkdownHeaderTextSplitter then
    let docs := docs.flatMap (pieces p.splitMarkdown)
    if p.chunkMinSizeTarget > 0 then p.mergeDocsToTargetSize docs else docs
  else docs

/-- The text splitter; `none` where the name is not that of one. -/
def splitter : Option (String → List String) :=
  if p.textSplitter = "" ∨ p.textSplitter = "character" then some p.splitCharacters
  else if p.textSplitter = "token" then some p.splitTokens
  else if p.textSplitter = "token_transformers" then some p.splitTransformers
  else none

def split (docs : List Document) : Except String (List Document) :=
  match p.splitter with
  | some f => .ok ((p.splitHeaders docs).flatMap (pieces f))
  | none => .error "Invalid text splitter"

end Pipeline

/-- `sanitize_text_for_db`; a text has no surrogates. -/
def sanitizeTextForDb (text : String) : String := String.ofList (text.toList.filter (· ≠ Char.ofNat 0))

/-- The metadata given to `save_docs_to_vector_db`. -/
structure SaveMetadata where
  fileId : String
  name : String
  hash : String

/-- `{**doc.metadata, **metadata}`. -/
def Metadata.update (m : Metadata) : Option SaveMetadata → Metadata
  | none => m
  | some given => { m with fileId := some given.fileId, name := some given.name, hash := some given.hash }

/-- `has_duplicate_content`: the first item with the hash is not of this file. -/
def hasDuplicateContent (collection : List Document) (hash : String) (fileId : String) : Bool :=
  match collection.filter (·.metadata.hash = some hash) with
  | [] => false
  | existing :: _ => existing.metadata.fileId ≠ some fileId

end RyanAI.Knowledge
