import RyanAI.Lib.Json
import RyanAI.Lib.NumericText
import RyanAI.Lib.OrderedMap
import RyanAI.Lib.Outline

/-!
# The pages of a note

`models/notes.py` keeps all pages of a note in one list, every subtree together and the parent first.
`normalizePages` establishes that, moves what older versions stored elsewhere into the pages, and derives `content` and
`search_text`. `applyPageOperation` and `updatePageContent` change the list and normalise it again.

A missing `parent_id` and `null` are one value, and so are missing counters and zero. The text of a content is missing
or a text. Attachment lists of older versions are read with HTML and Markdown libraries, a parameter (`LegacyFiles`).
-/

namespace RyanAI.Notes

open RyanAI.Lib

structure Content where
  md : Option String
  fields : Dict
  deriving DecidableEq

structure Page where
  id : String
  parent_id : Option String
  title : String
  content : Content
  versions : Json
  revision : ℤ
  generation : ℤ
  /-- `page.get('inherit_note_title', True)`. -/
  inherit_note_title : Bool
  /-- The attachment list of an older version. -/
  files : Option (List Json)
  deriving DecidableEq

/-- The column `data` of a note. -/
structure NoteData where
  /-- Empty where there is no such key. -/
  pages : List Page
  pages_revision : Option ℤ
  content : Option Content
  versions : Option Json
  files : Option (List Json)
  search_text : Option String
  /-- The other keys. -/
  extra : Dict
  deriving DecidableEq

/-- `ValueError`, and `NotePageConflict`, which is one. -/
inductive NoteError where
  | value (message : String)
  | conflict (message : String)
  deriving DecidableEq

structure LegacyFiles where
  /-- `f'data://{file.get("id")}'` occurs in the content or the versions. -/
  referenced : Content → Json → Json → Bool
  /-- The content and the versions after `migrate_page_files`, if it has changed them. -/
  migrate : Content → Json → List Json → Option (Content × Json)

def childrenOf (pages : List Page) (parent : Option String) : List Page :=
  pages.filter fun page => page.parent_id = parent

/-- `page['parent_id'] = None` for the default page. -/
def rootMain (page : Page) : Page := if page.id = "main" then { page with parent_id := none } else page

/-- `roots.sort(key=lambda page: page['id'] != 'main')`. -/
def mainFirst (roots : List Page) : List Page :=
  roots.filter (fun page => page.id = "main") ++ roots.filter fun page => page.id ≠ "main"

def explorePages (pages : List Page) : Option (List Page) :=
  Outline.explore Page.id (fun id => childrenOf pages (some id)) pages.length
    (mainFirst (childrenOf pages none)) []

def orderPages (pages : List Page) : Except NoteError (List Page) :=
  if ¬ (pages.map Page.id).Nodup then .error (.value "Page IDs must be unique")
  else
    let pages := pages.map rootMain
    if pages.any fun page => page.parent_id.any fun parent => parent ∉ pages.map Page.id then
      .error (.value "Parent page no longer exists")
    else
      let ordered := (explorePages pages).getD []
      if ordered.length ≠ pages.length then
        .error (.value "A page cannot be nested inside itself or its subpages")
      else .ok ordered

/-- `subtree_ids`. -/
def subtreeIds (pages : List Page) (page_id : String) : List String :=
  Outline.subtreeIds Page.id Page.parent_id pages page_id

/-- `page_paths`. -/
def pagePaths (pages : List Page) : OrderedMap String String :=
  pages.foldl (fun paths page =>
    let parent_path := page.parent_id.bind fun parent => OrderedMap.get parent paths
    OrderedMap.set page.id
      (match parent_path.filter (· ≠ "") with
        | some path => path ++ " / " ++ page.title
        | none => page.title) paths) []

/-! ## Normalising -/

/-- `{'json': None, 'html': '', 'md': ''}`. -/
def emptyContent : Content := ⟨some "", [("json", .null), ("html", .str "")]⟩

def newPage (id : String) (parent_id : Option String) (title : String) (content : Content) (versions : Json) : Page :=
  ⟨id, parent_id, title, content, versions, 0, 0, true, none⟩

/-- `note_title or 'Untitled'`. -/
def titleOrUntitled (note_title : Option String) : String := (note_title.filter (· ≠ "")).getD "Untitled"

def withMain (note_title : Option String) (data : NoteData) : List Page :=
  let pages :=
    if data.pages.isEmpty then
      [newPage "main" none (titleOrUntitled note_title)
        ((data.content.filter fun c => c.md.isSome || !c.fields.isEmpty).getD emptyContent)
        ((data.versions.filter Json.truthy).getD (.arr []))]
    else data.pages
  if pages.any fun page => page.id = "main" then pages
  else newPage "main" none (titleOrUntitled note_title) emptyContent (.arr []) :: pages

def inheritTitle (note_title : Option String) (page : Page) : Page :=
  if note_title.isSome && page.id = "main" && page.inherit_note_title then
    { page with title := titleOrUntitled note_title }
  else page

def isImage (file : Json) : Bool :=
  match file with
  | .obj fields => Dict.get fields "type" = .str "image"
  | _ => false

/-- Attachments go into the content; old lists go to the default page, their images to the pages
that refer to them. -/
def takeFiles (legacy : LegacyFiles) (noteFiles : List Json) (page : Page) : Page :=
  let files := page.files.getD <|
    if page.id = "main" then noteFiles
    else noteFiles.filter fun file => isImage file && legacy.referenced page.content page.versions file
  let page := { page with files := none }
  if files.isEmpty then page
  else
    match legacy.migrate page.content page.versions files with
    | none => page
    | some (content, versions) =>
      { page with content := content, versions := versions, generation := page.generation + 1 }

def pathOf (pages : List Page) (page : Page) : String := (OrderedMap.get page.id (pagePaths pages)).getD ""

def projectContent (pages : List Page) : Content :=
  match pages with
  | [page] => page.content
  | _ =>
    ⟨some ("\n\n".intercalate (pages.map fun page =>
        "## " ++ pathOf pages page ++ "\n\n" ++ page.content.md.getD "")),
      [("json", .null), ("html", .str "")]⟩

def projectSearchText (pages : List Page) : String :=
  "\n\n".intercalate (pages.map fun page => pathOf pages page ++ "\n" ++ page.content.md.getD "")

def normalizePages (legacy : LegacyFiles) (data : NoteData) (note_title : Option String) : Except NoteError NoteData :=
  match orderPages ((withMain note_title data).map (inheritTitle note_title)) with
  | .error e => .error e
  | .ok ordered =>
    let pages := ordered.map (takeFiles legacy (data.files.getD []))
    .ok
      { pages := pages
        pages_revision := some (data.pages_revision.getD 0)
        content := some (projectContent pages)
        versions := none
        files := none
        search_text := some (projectSearchText pages)
        extra := data.extra }

def getPage (legacy : LegacyFiles) (data : NoteData) (page_id : Option String) : Except NoteError Page := do
  let data ← normalizePages legacy data none
  match page_id with
  | none =>
    match data.pages with
    | [page] => .ok page
    | _ => .error (.conflict "Select a page before editing this note")
  | some id =>
    match data.pages.find? fun page => page.id = id with
    | some page => .ok page
    | none => .error (.conflict "Page no longer exists")

/-! ## Page operations -/

inductive Action where
  | create
  | rename
  | duplicate
  | reorder
  | move
  | delete
  deriving DecidableEq

structure PageOperation where
  action : Action
  page_id : Option String
  new_id : Option String
  parent_id : Option String
  before_id : Option String
  title : Option String
  order : Option (List String)
  revision : ℤ
  deriving DecidableEq

/-- `(operation.title or '').strip()`. -/
def strippedTitle (op : PageOperation) : String :=
  String.ofList (NumericText.strip NumericText.stripSpace (op.title.getD "").toList)

/-- `text.replace(word, '')`; `skip` counts what is left of an occurrence. -/
def removeWord (word : List Char) : ℕ → List Char → List Char
  | _, [] => []
  | skip + 1, _ :: rest => removeWord word skip rest
  | 0, c :: rest =>
    if word.isPrefixOf (c :: rest) then removeWord word (word.length - 1) rest
    else c :: removeWord word 0 rest

/-- `uuid.UUID(text)` succeeds: 32 digits up to hyphens, braces and URN. -/
def isUuid (text : String) : Bool :=
  let chars := removeWord "uuid:".toList 0 (removeWord "urn:".toList 0 text.toList)
  let digits := ((chars.dropWhile (· ∈ ['{', '}'])).rdropWhile (· ∈ ['{', '}'])).filter (· ≠ '-')
  digits.length = 32 && digits.all fun c => c.isDigit || c.toLower ∈ ['a', 'b', 'c', 'd', 'e', 'f']

/-- `page['title'][:193] + ' (Copy)'`. -/
def copyTitle (title : String) : String := String.ofList (title.toList.take 193) ++ " (Copy)"

def createPage (op : PageOperation) (new_id : String) (pages : List Page) : Except NoteError (List Page) :=
  if strippedTitle op = "" then .error (.value "Page title is required")
  else .ok (pages ++ [newPage new_id op.parent_id (strippedTitle op) emptyContent (.arr [])])

def reorderPages (op : PageOperation) (pages : List Page) : Except NoteError (List Page) :=
  let order := op.order.getD []
  let ids := pages.map Page.id
  if order.length ≠ pages.length ∨ (∃ id ∈ order, id ∉ ids) ∨ (∃ id ∈ ids, id ∉ order) then
    .error (.value "Order must contain each page exactly once")
  else if order.head? ≠ some "main" then .error (.value "The default page must stay first")
  else .ok (order.filterMap fun id => pages.find? fun page => page.id = id)

def renamePage (op : PageOperation) (page : Page) (pages : List Page) : Except NoteError (List Page) :=
  if strippedTitle op = "" then .error (.value "Page title is required")
  else
    .ok (pages.map fun p =>
      if p.id = page.id then
        { p with
          title := strippedTitle op
          inherit_note_title := if p.id = "main" then false else p.inherit_note_title }
      else p)

def movePage (op : PageOperation) (page : Page) (pages : List Page) : Except NoteError (List Page) :=
  if op.before_id = some "main" then .error (.value "The default page must stay first")
  else
    let branch_ids := subtreeIds pages page.id
    if op.parent_id.any (· ∈ branch_ids) then
      .error (.value "A page cannot be nested inside itself or its subpages")
    else if op.parent_id.any fun parent => parent ∉ pages.map Page.id then
      .error (.value "Parent page no longer exists")
    else
      let moved := fun p : Page => if p.id = page.id then { p with parent_id := op.parent_id } else p
      let branch := pages.filter fun p => p.id ∈ branch_ids
      let remaining := pages.filter fun p => p.id ∉ branch_ids
      match op.before_id with
      | none => .ok (remaining ++ branch.map moved)
      | some before_id =>
        if remaining.any fun p => p.id = before_id && p.parent_id = op.parent_id then
          .ok (remaining.takeWhile (fun p => p.id ≠ before_id) ++ branch.map moved ++
            remaining.dropWhile fun p => p.id ≠ before_id)
        else .error (.value "Move target must be a sibling in the destination")

def deletePage (page : Page) (pages : List Page) : Except NoteError (List Page) :=
  if pages.length = 1 then .error (.value "A note must have at least one page")
  else
    .ok ((pages.map fun p => if p.parent_id = some page.id then { p with parent_id := page.parent_id } else p).filter
      fun p => p.id ≠ page.id)

/-- The new id in the copied branch, `ids.get(id, id)`. -/
def copyId (uuid5 : String → String → String) (new_id page_id : String) (branch_ids : List String) (id : String) :
    String :=
  if id = page_id then new_id else if id ∈ branch_ids then uuid5 new_id id else id

def copyPage (rename : String → String) (page : Page) : Page :=
  { page with
    id := rename page.id
    parent_id := page.parent_id.map rename
    versions := .arr []
    revision := 0
    generation := 0 }

def duplicatePage (uuid5 : String → String → String) (new_id : String) (page : Page) (pages : List Page) :
    Except NoteError (List Page) :=
  let branch_ids := subtreeIds pages page.id
  let branch := pages.filter fun p => p.id ∈ branch_ids
  let copies := branch.map (copyPage (copyId uuid5 new_id page.id branch_ids))
  if copies.any fun copy => copy.id ∈ pages.map Page.id then .error (.value "A duplicated page ID already exists")
  else
    let copies := copies.modifyHead fun copy => { copy with title := copyTitle page.title }
    -- the copies go behind the last page of the branch
    let position := match branch.getLast? with
      | some last => pages.idxOf last + 1
      | none => 0
    .ok (pages.take position ++ copies ++ pages.drop position)

def operateOnPage (uuid5 : String → String → String) (op : PageOperation) (new_id : String) (page : Page)
    (pages : List Page) : Except NoteError (List Page) :=
  if page.id = "main" ∧ (op.action = .move ∨ op.action = .delete) then
    .error (.value "The default page cannot be moved or deleted")
  else
    match op.action with
    | .rename => renamePage op page pages
    | .move => movePage op page pages
    | .delete => deletePage page pages
    | .duplicate => duplicatePage uuid5 new_id page pages
    | .create | .reorder => .ok pages

def operate (uuid5 : String → String → String) (op : PageOperation) (pages : List Page) :
    Except NoteError (List Page) :=
  let new_id := op.new_id.getD ""
  match op.action with
  | .create => createPage op new_id pages
  | .reorder => reorderPages op pages
  | .rename | .duplicate | .move | .delete =>
    match pages.find? fun page => some page.id = op.page_id with
    | none => .error (.conflict "Page no longer exists")
    | some page => operateOnPage uuid5 op new_id page pages

/-- The operation makes a page whose id is its `new_id`. -/
def Action.makesPage (action : Action) : Bool := action = .create || action = .duplicate

def applyPageOperation (legacy : LegacyFiles) (uuid5 : String → String → String) (data : NoteData)
    (op : PageOperation) : Except NoteError NoteData := do
  let data ← normalizePages legacy data none
  if op.action.makesPage && (op.new_id.getD "") = "" then .error (.value "A new page ID is required")
  else if op.action.makesPage && !isUuid (op.new_id.getD "") then
    .error (.value "badly formed hexadecimal UUID string")
  else if op.action.makesPage && data.pages.any (fun page => some page.id = op.new_id) then .ok data
  else if some op.revision ≠ data.pages_revision then .error (.conflict "Pages changed. Refresh and try again")
  else
    match operate uuid5 op data.pages with
    | .error e => .error e
    | .ok pages =>
      normalizePages legacy
        { data with pages := pages, pages_revision := some (data.pages_revision.getD 0 + 1) } none

/-- The `data` of an update, as far as it is about one page. -/
structure PageChanges where
  content : Option Json
  versions : Option Json
  files : Option Json
  deriving DecidableEq

/-- `{'json': None, 'html': '', 'md': '', **content}`. -/
def contentOf (content : Json) : Except NoteError Content :=
  let isText := fun value : Option Json => match value with
    | none | some (.str _) => true
    | some _ => false
  match content with
  | .obj fields =>
    if isText (fields.lookup "md") && isText (fields.lookup "html") then
      let md := match fields.lookup "md" with
        | some (.str text) => text
        | _ => ""
      .ok ⟨some md, Dict.update [("json", .null), ("html", .str "")] (fields.filter fun entry => entry.1 ≠ "md")⟩
    else .error (.value "Page content must contain text markdown and HTML")
  | _ => .error (.value "Page content must contain text markdown and HTML")

def changedPage (changes : PageChanges) (generation : Option ℤ) (page : Page) : Except NoteError Page := do
  let page ← match changes.content with
    | none => Except.ok page
    | some content =>
      (contentOf content).map fun content =>
        { page with
          content := content
          revision := page.revision + 1
          -- a snapshot of a collaboration keeps its generation
          generation := if generation.isNone then page.generation + 1 else page.generation }
  .ok { page with versions := changes.versions.getD page.versions }

def updatePageContent (legacy : LegacyFiles) (data : NoteData) (page_id : Option String) (changes : PageChanges)
    (generation revision : Option ℤ) : Except NoteError NoteData := do
  let data ← normalizePages legacy data none
  let target ← getPage legacy data page_id
  match data.pages.find? fun page => page.id = target.id with
  | none => .error (.conflict "Page no longer exists")
  | some page =>
    if generation.any (· ≠ page.generation) then .error (.conflict "Page changed; reload before editing")
    else if revision.any (· ≠ page.revision) then
      .error (.conflict "Page content changed. Read it again before editing")
    else
      match changedPage changes generation page with
      | .error e => .error e
      | .ok changed =>
        if changes.files.isSome then .error (.value "Attach files through page content")
        else
          normalizePages legacy
            { data with pages := data.pages.map fun p => if p.id = page.id then changed else p } none

end RyanAI.Notes
