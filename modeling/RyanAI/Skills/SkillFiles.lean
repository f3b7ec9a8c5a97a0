import Mathlib
import RyanAI.Lib.Base64
import RyanAI.Lib.Json
import RyanAI.Lib.Terminated

/-!
# The files of a skill and their archives

`utils/skill_files.py`: a skill is a list of files with a `SKILL.md` at its root. `zip_export` writes several skills
into one archive, each below a directory that is named after the frontmatter of its `SKILL.md` or after its id;
`parse_import` finds the directories again by their `SKILL.md` files.

Paths are lists of characters. An archive is the list of its entries. The YAML library is a parameter: what it makes of
a text, and what `bool`, `isinstance(…, str)` and `str` say of the objects that it builds. An import is an archive or a
Markdown file, as the name of the uploaded file says; imports of JSON are not part of the model.
-/

namespace RyanAI.Skills

open Lib

-- paths are looked up in lists throughout
local instance pathLawful : LawfulBEq (List Char) := inferInstance

def maxFileBytes : ℕ := 10 * 1024 * 1024

def maxSkillBytes : ℕ := 50 * 1024 * 1024

def maxImportBytes : ℕ := 200 * 1024 * 1024

def maxFiles : ℕ := 1000

/-- A `ValueError` of its own, `StopIteration`, or a library's. -/
inductive Failure where
  | valueError (message : String)
  | stopIteration
  | library
  deriving DecidableEq

/-- A file; its content is base64 if `encoding` says so. -/
structure File where
  path : List Char
  content : String
  base64 : Bool
  deriving DecidableEq

def skillMd : List Char := "SKILL.md".toList

/-- `validate_path`. -/
def validatePath (path : List Char) : Except Failure (List Char) :=
  if path = [] ∨ path.head? = some '/' ∨ '\\' ∈ path ∨ nul ∈ path ∨ ':' ∈ path then
    .error (.valueError "File paths must be relative POSIX paths")
  else if ∃ part ∈ path.splitOn '/', part = [] ∨ part = ['.'] ∨ part = ['.', '.'] then
    .error (.valueError "Invalid file path")
  else .ok path

/-- `file_bytes`. -/
def fileBytes (file : File) : Except Failure ByteArray :=
  if file.base64 then
    match Base64.decode file.content.toList with
    | some bytes => .ok ⟨bytes.toArray⟩
    | none => .error .library
  else .ok file.content.toUTF8

def base64File (path : List Char) (data : ByteArray) : File :=
  ⟨path, String.ofList (Base64.encode data.data.toList), true⟩

/-- `encode_file`. -/
def encodeFile (path : List Char) (data : ByteArray) : File :=
  match String.fromUTF8? data with
  | some content => if nul ∈ content.toList then base64File path data else ⟨path, content, false⟩
  | none => base64File path data

def byPath (files : List File) : List File :=
  files.foldl (fun found file => found.filter (fun f => f.path ≠ file.path) ++ [file]) []

def totalSize : List File → Except Failure ℕ
  | [] => .ok 0
  | file :: rest => do
    let bytes ← fileBytes file
    let total ← totalSize rest
    .ok (bytes.size + total)

def oldSize (previous : List File) (path : List Char) : Except Failure ℕ :=
  match previous.find? fun f => f.path = path with
  | some file => (fileBytes file).map ByteArray.size
  | none => .ok 0

/-- The loop of `validate_files`, which returns the total size. -/
def checkFiles (previous : List File) : List File → (paths : List (List Char)) → (total : ℕ) → Except Failure ℕ
  | [], _, total => .ok total
  | file :: rest, paths, total => do
    let path ← validatePath file.path
    if path ∈ paths then .error (.valueError ("Duplicate file: " ++ String.ofList path))
    else do
      let bytes ← fileBytes file
      let old ← oldSize previous path
      if max maxFileBytes old < bytes.size then
        .error (.valueError ("File exceeds 10 MiB: " ++ String.ofList path))
      else checkFiles previous rest (path :: paths) (total + bytes.size)

def parents : List Char → List (List Char)
  | [] => []
  | c :: cs =>
    let below := (parents cs).map (c :: ·)
    if c = '/' then [] :: below else below

def sortByPath (files : List File) : List File := files.insertionSort fun a b => a.path ≤ b.path

/-- `validate_files`. -/
def validateFiles (files previous : List File) : Except Failure (List File) := do
  let previous := byPath previous
  if max maxFiles previous.length < files.length then
    .error (.valueError "A skill may contain at most 1000 files")
  else do
    let total ← checkFiles previous files [] 0
    let old ← totalSize previous
    if max maxSkillBytes old < total then .error (.valueError "Skill exceeds 50 MiB")
    else
      match files.find? fun file => (parents file.path).any fun parent => parent ∈ files.map File.path with
      | some file => .error (.valueError ("A file is also used as a directory: " ++ String.ofList file.path))
      | none =>
        match files.find? fun file => file.path = skillMd with
        | some root =>
          if root.base64 then .error (.valueError "A skill requires a UTF-8 SKILL.md at its root")
          else .ok (sortByPath files)
        | none => .error (.valueError "A skill requires a UTF-8 SKILL.md at its root")

def lineEnd : List Char → Option (List Char)
  | '\r' :: '\n' :: rest => some rest
  | '\n' :: rest => some rest
  | _ => none

def skipBlanks (s : List Char) : List Char := s.dropWhile fun c => c = ' ' || c = '\t'

def closes (s : List Char) : Bool :=
  match lineEnd s with
  | some ('-' :: '-' :: '-' :: rest) => (lineEnd (skipBlanks rest)).isSome || skipBlanks rest = []
  | _ => false

def untilClosed : List Char → Option (List Char)
  | [] => none
  | c :: cs => if closes (c :: cs) then some [] else (untilClosed cs).map (c :: ·)

def frontmatterBlock : List Char → Option (List Char)
  | '-' :: '-' :: '-' :: rest => (lineEnd (skipBlanks rest)).bind untilClosed
  | _ => none

/-- `yaml.safe_load` returns a dictionary or something else, or raises. -/
inductive Loaded (Obj : Type) where
  | mapping (get : String → Option Obj)
  | other
  | yamlError
  | raised

/-- What is used of PyYAML. -/
structure Yaml (Obj : Type) where
  safeLoad : List Char → Loaded Obj
  truthy : Obj → Bool
  asText : Obj → Option String
  str : Obj → Except Failure String

variable {Obj : Type}

/-- `frontmatter`. -/
def frontmatter (yaml : Yaml Obj) (content : String) : Except Failure (String → Option Obj) :=
  match frontmatterBlock content.toList with
  | none => .ok fun _ => none
  | some block =>
    match yaml.safeLoad block with
    | .mapping get => .ok get
    | .other => .ok fun _ => none
    | .yamlError => .ok fun _ => none
    | .raised => .error .library

/-! ## Export -/

structure ZipEntry where
  filename : List Char
  mode : ℕ
  encrypted : Bool
  supported : Bool
  fileSize : ℕ
  data : ByteArray

structure ExportPackage where
  id : List Char
  files : List File

def lowerOrDigit (c : Char) : Bool := (97 ≤ c.toNat ∧ c.toNat ≤ 122) ∨ (48 ≤ c.toNat ∧ c.toNat ≤ 57)

/-- Words of lower-case letters and digits, with single hyphens between them. -/
def slugName (name : List Char) : Bool := (name.splitOn '-').all fun word => word ≠ [] && word.all lowerOrDigit

def exportRoot (yaml : Yaml Obj) (package : ExportPackage) : Except Failure (List Char) :=
  match package.files.find? fun file => file.path = skillMd with
  | none => .error .stopIteration
  | some rootFile => do
    let fm ← frontmatter yaml rootFile.content
    match (fm "name").bind yaml.asText with
    | some name => if slugName name.toList then .ok name.toList else .ok package.id
    | none => .ok package.id

/-- `archive.writestr` of a name and its bytes. -/
def writestr (filename : List Char) (data : ByteArray) : ZipEntry := ⟨filename, 0o600, false, true, data.size, data⟩

def exportFiles (root : List Char) : List File → Except Failure (List ZipEntry)
  | [] => .ok []
  | file :: rest => do
    let path ← validatePath file.path
    let data ← fileBytes file
    let entries ← exportFiles root rest
    .ok (writestr (root ++ '/' :: path) data :: entries)

/-- The loop of `zip_export`. -/
def exportPackages (yaml : Yaml Obj) : List ExportPackage → (roots : List (List Char)) → Except Failure (List ZipEntry)
  | [], _ => .ok []
  | package :: rest, roots => do
    let root ← exportRoot yaml package
    let root ← validatePath root
    if root ∈ roots then .error (.valueError "Selected skills have duplicate export directory names")
    else do
      let entries ← exportFiles root package.files
      let others ← exportPackages yaml rest (root :: roots)
      .ok (entries ++ others)

/-- `zip_export`. -/
def zipExport (yaml : Yaml Obj) (packages : List ExportPackage) : Except Failure (List ZipEntry) :=
  exportPackages yaml packages []

/-! ## Import -/

inductive Upload where
  | archive (size : ℕ) (entries : Option (List ZipEntry))
  | markdown (data : ByteArray)

/-- A link, a device or a pipe. -/
def special (mode : ℕ) : Bool := mode / 4096 % 16 ∉ [0, 8, 4]

structure Contents where
  entries : List (List Char × ByteArray)
  links : List (List Char)

def selectPath (directory : Option (List Char)) (path : List Char) : Option (List Char) :=
  match directory with
  | none => some path
  | some directory =>
    let path := (path.dropWhile (· ≠ '/')).drop 1
    if directory <+: path then some path else none

/-- One round of the loop over the members. -/
def readEntry (entry : ZipEntry) (path : List Char) (contents : Contents) (total : ℕ) : Except Failure Contents :=
  if path ∈ contents.entries.map Prod.fst then
    .error (.valueError ("Duplicate archive path: " ++ String.ofList path))
  else if maxFileBytes < entry.fileSize ∨ maxImportBytes < total + entry.fileSize ∨
      10000 ≤ contents.entries.length then
    .error (.valueError "Archive exceeds import limits")
  else if entry.encrypted then .error (.valueError "Encrypted skill archives are not supported")
  else if !entry.supported then .error (.valueError "Skill archive uses an unsupported compression method")
  else .ok { contents with entries := contents.entries ++ [(path, entry.data)] }

def readEntries (discoverSkills : Bool) (directory : Option (List Char)) : List ZipEntry → Contents → (total : ℕ) →
    Except Failure Contents
  | [], contents, _ => .ok contents
  | entry :: rest, contents, total => do
    let path ← validatePath (entry.filename.rdropWhile (· = '/'))
    if special entry.mode && !discoverSkills then
      .error (.valueError "Archives cannot contain links or special files")
    else if entry.filename.getLast? = some '/' then readEntries discoverSkills directory rest contents total
    else
      match selectPath directory path with
      | none => readEntries discoverSkills directory rest contents total
      | some path =>
        if special entry.mode then
          readEntries discoverSkills directory rest { contents with links := contents.links ++ [path] } total
        else do
          let contents ← readEntry entry path contents total
          readEntries discoverSkills directory rest contents (total + entry.fileSize)

def slashSkillMd : List Char := '/' :: skillMd

/-- The directories that hold a `SKILL.md`, with their slash. -/
def skillRoots (paths : List (List Char)) : List (List Char) :=
  if skillMd ∈ paths then [[]]
  else
    ((paths.filter fun path => slashSkillMd <:+ path).map fun path => path.take (path.length - skillMd.length)).insertionSort
      (· ≤ ·)

def topRoots (roots : List (List Char)) : List (List Char) :=
  roots.filter fun root => !roots.any fun parent => root ≠ parent && decide (parent <+: root)

def packageFiles (entries : List (List Char × ByteArray)) (root : List Char) : List File :=
  (entries.filter fun entry => root <+: entry.1).map fun entry => encodeFile (entry.1.drop root.length) entry.2

def archivePackages (discoverSkills : Bool) (directory : Option (List Char)) (entries : List ZipEntry) :
    Except Failure (List (List File)) := do
  let contents ← readEntries discoverSkills directory entries ⟨[], []⟩ 0
  let roots := skillRoots (contents.entries.map Prod.fst)
  if roots = [] then .error (.valueError "Archive contains no SKILL.md")
  else
    let roots := topRoots roots
    if ∃ path ∈ contents.links, ∃ root ∈ roots, root <+: path then
      .error (.valueError "Archives cannot contain links or special files")
    else if !discoverSkills ∧ ∃ entry ∈ contents.entries, ¬ ∃ root ∈ roots, root <+: entry.1 then
      .error (.valueError "Archive contains files outside skill directories")
    else .ok (roots.map (packageFiles contents.entries))

/-- `lower`, exact for the characters whose lower case has an ASCII character. -/
def lowerChars (c : Char) : List Char :=
  if c.toNat = 0x130 then ['i', Char.ofNat 0x307] else if c.toNat = 0x212A then ['k'] else [c.toLower]

def idChar (c : Char) : Bool := lowerOrDigit c || c = '_' || c = '-'

def replaceRuns : (inRun : Bool) → List Char → List Char
  | _, [] => []
  | inRun, c :: cs =>
    if idChar c then c :: replaceRuns false cs
    else if inRun then replaceRuns true cs
    else '-' :: replaceRuns true cs

def slugOf (name : String) : String :=
  let slug := ((replaceRuns false (name.toList.flatMap lowerChars)).dropWhile (· = '-')).rdropWhile (· = '-')
  if slug = [] then "imported-skill" else String.ofList slug

structure ImportedSkill (Obj : Type) where
  id : String
  name : String
  description : Option Obj
  files : List File

/-- `str(fm.get('name') or 'Imported skill')`. -/
def importedName (yaml : Yaml Obj) (name : Option Obj) : Except Failure String :=
  match name with
  | none => .ok "Imported skill"
  | some name => if yaml.truthy name then yaml.str name else .ok "Imported skill"

def importPackages (yaml : Yaml Obj) : List (List File) → (total : ℕ) → Except Failure (List (ImportedSkill Obj))
  | [], _ => .ok []
  | package :: rest, total => do
    let files ← validateFiles package []
    let size ← totalSize files
    if maxImportBytes < total + size then .error (.valueError "Import exceeds 200 MiB decoded")
    else
      match files.find? fun file => file.path = skillMd with
      | none => .error .stopIteration
      | some rootFile => do
        let fm ← frontmatter yaml rootFile.content
        let name ← importedName yaml (fm "name")
        let others ← importPackages yaml rest (total + size)
        .ok (⟨slugOf name, name, fm "description", files⟩ :: others)

/-- `parse_import`. -/
def parseImport (yaml : Yaml Obj) (upload : Upload) (discoverSkills : Bool) (directory : Option (List Char)) :
    Except Failure (List (ImportedSkill Obj)) :=
  match upload with
  | .archive size entries =>
    if maxImportBytes < size then .error (.valueError "Import exceeds 200 MiB")
    else
      match entries with
      | none => .error .library
      | some entries => do
        let packages ← archivePackages discoverSkills directory entries
        importPackages yaml packages 0
  | .markdown data =>
    if maxImportBytes < data.size then .error (.valueError "Import exceeds 200 MiB")
    else importPackages yaml [[encodeFile skillMd data]] 0

end RyanAI.Skills
