import RyanAI.Skills.SkillFiles

/-!
# Archives that are imported again

An export writes the files of a package below a directory without a slash in its name, and no two packages share it. So
the outermost directories with a `SKILL.md` are those of the packages (`topRoots_perm`), each holds the files of its
package in their order (`packageFiles_exported`), and a file keeps its bytes (`fileBytes_encodeFile`). What is exported
is imported again (`archive_round_trip`), unless the frontmatter of a `SKILL.md` names the skill by an object that `str`
raises on: the export never asks for its text.
-/

namespace RyanAI.Skills

open Lib

variable {Obj : Type} {yaml : Yaml Obj}

/-! ## Files and their bytes -/

theorem fromUTF8_toUTF8 (s : String) : String.fromUTF8? s.toUTF8 = some s := by
  simp only [String.fromUTF8?, Option.dite_none_right_eq_some, Option.some.injEq]
  exact ⟨s.isValidUTF8, rfl⟩

theorem toUTF8_of_fromUTF8 (h : String.fromUTF8? data = some s) : s.toUTF8 = data := by
  simp only [String.fromUTF8?, Option.dite_none_right_eq_some, Option.some.injEq] at h
  obtain ⟨-, rfl⟩ := h
  rfl

@[simp] theorem path_encodeFile (path : List Char) (data : ByteArray) : (encodeFile path data).path = path := by
  rw [encodeFile]
  split
  · split_ifs <;> rfl
  · rfl

theorem fileBytes_encodeFile (path : List Char) (data : ByteArray) : fileBytes (encodeFile path data) = .ok data := by
  have hbase64 : fileBytes (base64File path data) = .ok data := by
    rw [fileBytes, base64File, if_pos rfl, String.toList_ofList, Base64.decode_encode]
  rw [encodeFile]
  split
  · rename_i content hcontent
    split_ifs
    · exact hbase64
    · rw [fileBytes, if_neg Bool.false_ne_true, toUTF8_of_fromUTF8 hcontent]
  · exact hbase64

theorem encodeFile_of_text (path : List Char) (h : nul ∉ content.toList) :
    encodeFile path content.toUTF8 = ⟨path, content, false⟩ := by
  rw [encodeFile, fromUTF8_toUTF8]
  simp only [if_neg h]

def bytesOf (file : File) : ByteArray :=
  match fileBytes file with
  | .ok bytes => bytes
  | .error _ => ByteArray.empty

variable {file : File} {files : List File} {path root name a b : List Char} {total : ℕ} {paths : List (List Char)}
    {package : ExportPackage} {packages : List ExportPackage} {entries : List ZipEntry}

theorem bytesOf_eq (h : fileBytes file = .ok bytes) : bytesOf file = bytes := by
  rw [bytesOf, h]

@[simp] theorem bytesOf_encodeFile (path : List Char) (data : ByteArray) : bytesOf (encodeFile path data) = data :=
  bytesOf_eq (fileBytes_encodeFile path data)

def Readable (file : File) : Prop := fileBytes file = .ok (bytesOf file)

theorem readable_iff : Readable file ↔ ∃ bytes, fileBytes file = .ok bytes := by
  constructor
  · intro h
    exact ⟨_, h⟩
  · rintro ⟨bytes, h⟩
    rw [Readable, bytesOf_eq h, h]

theorem totalSize_of_readable (h : ∀ f ∈ files, Readable f) :
    totalSize files = .ok (files.map fun f => (bytesOf f).size).sum := by
  induction files with
  | nil => rfl
  | cons file rest ih =>
    have hfile : fileBytes file = .ok (bytesOf file) := h file List.mem_cons_self
    rw [totalSize, hfile, ih fun f hf => h f (List.mem_cons_of_mem _ hf)]
    rfl

/-- A relative path without empty, `.` and `..` parts. -/
structure PathOk (path : List Char) : Prop where
  ne_nil : path ≠ []
  head : path.head? ≠ some '/'
  chars : '\\' ∉ path ∧ nul ∉ path ∧ ':' ∉ path
  parts : ∀ part ∈ path.splitOn '/', part ≠ [] ∧ part ≠ ['.'] ∧ part ≠ ['.', '.']

theorem validatePath_eq_ok : validatePath path = .ok result ↔ PathOk path ∧ result = path := by
  rw [validatePath]
  split_ifs with hchars hparts
  · simp only [false_iff]
    rintro ⟨h, -⟩
    rcases hchars with hnil | hhead | hmem | hmem | hmem
    · exact h.ne_nil hnil
    · exact h.head hhead
    · exact h.chars.1 hmem
    · exact h.chars.2.1 hmem
    · exact h.chars.2.2 hmem
  · simp only [false_iff]
    rintro ⟨h, -⟩
    obtain ⟨part, hpart, hbad⟩ := hparts
    obtain ⟨hnil, hdot, hdots⟩ := h.parts part hpart
    rcases hbad with hbad | hbad | hbad
    · exact hnil hbad
    · exact hdot hbad
    · exact hdots hbad
  · push Not at hchars hparts
    constructor
    · intro h
      cases h
      exact ⟨⟨hchars.1, hchars.2.1, hchars.2.2, hparts⟩, rfl⟩
    · rintro ⟨-, rfl⟩
      rfl

theorem PathOk.below (hroot : PathOk root) (hpath : PathOk path) : PathOk (root ++ '/' :: path) where
  ne_nil := by simp
  head := by
    rw [List.head?_append_of_ne_nil _ hroot.ne_nil]
    exact hroot.head
  chars := by
    simp only [List.mem_append, List.mem_cons, not_or]
    exact ⟨⟨hroot.chars.1, by decide, hpath.chars.1⟩, ⟨hroot.chars.2.1, by decide, hpath.chars.2.1⟩,
      hroot.chars.2.2, by decide, hpath.chars.2.2⟩
  parts := by
    intro part hpart
    rw [List.splitOn_append_cons_self] at hpart
    rcases List.mem_append.1 hpart with hpart | hpart
    · exact hroot.parts part hpart
    · exact hpath.parts part hpart

theorem PathOk.getLast (h : PathOk path) : path.getLast? ≠ some '/' := by
  intro hlast
  obtain ⟨front, rfl⟩ := List.getLast?_eq_some_iff.1 hlast
  have hmem : ([] : List Char) ∈ (front ++ ['/']).splitOn '/' := by
    rw [List.splitOn_append_cons_self]
    exact List.mem_append_right _ (by simp)
  exact (h.parts [] hmem).1 rfl

/-- What `validate_files` requires of the files of a new skill. -/
structure Accepted (files : List File) : Prop where
  count : files.length ≤ maxFiles
  paths : ∀ f ∈ files, PathOk f.path
  nodup : (files.map File.path).Nodup
  readable : ∀ f ∈ files, Readable f
  size : ∀ f ∈ files, (bytesOf f).size ≤ maxFileBytes
  total : (files.map fun f => (bytesOf f).size).sum ≤ maxSkillBytes
  noDirectory : ∀ f ∈ files, ∀ parent ∈ parents f.path, parent ∉ files.map File.path
  root : ∃ f ∈ files, f.path = skillMd ∧ f.base64 = false

theorem checkFiles_eq_ok : checkFiles [] files paths total = .ok result ↔
      (∀ f ∈ files, PathOk f.path ∧ Readable f ∧ (bytesOf f).size ≤ maxFileBytes ∧ f.path ∉ paths) ∧
        (files.map File.path).Nodup ∧ result = total + (files.map fun f => (bytesOf f).size).sum := by
  induction files generalizing paths total with
  | nil =>
    constructor
    · intro h
      cases h
      simp
    · rintro ⟨-, -, rfl⟩
      simp [checkFiles]
  | cons file rest ih =>
    rw [checkFiles, bind_eq_ok]
    simp only [validatePath_eq_ok, List.forall_mem_cons, List.map_cons, List.nodup_cons, List.sum_cons]
    constructor
    · rintro ⟨path, ⟨hpath, rfl⟩, h⟩
      split_ifs at h with hseen
      obtain ⟨bytes, hbytes, h⟩ := bind_eq_ok.1 h
      obtain ⟨old, hold, h⟩ := bind_eq_ok.1 h
      have hold' : old = 0 := by
        cases hold
        rfl
      split_ifs at h with hlarge
      obtain ⟨hrest, hnodup, rfl⟩ := ih.1 h
      rw [hold', Nat.max_eq_left (Nat.zero_le _), not_lt, ← bytesOf_eq hbytes] at hlarge
      refine ⟨⟨⟨hpath, readable_iff.2 ⟨bytes, hbytes⟩, hlarge, hseen⟩, fun f hf => ?_⟩, ⟨?_, hnodup⟩, ?_⟩
      · obtain ⟨h₁, h₂, h₃, h₄⟩ := hrest f hf
        exact ⟨h₁, h₂, h₃, fun hmem => h₄ (List.mem_cons_of_mem _ hmem)⟩
      · intro hmem
        obtain ⟨f, hf, heq⟩ := List.mem_map.1 hmem
        exact (hrest f hf).2.2.2 (heq ▸ List.mem_cons_self)
      · rw [bytesOf_eq hbytes, Nat.add_assoc]
    · rintro ⟨⟨⟨hpath, hreadable, hsize, hnew⟩, hrest⟩, ⟨hfresh, hnodup⟩, rfl⟩
      refine ⟨file.path, ⟨hpath, rfl⟩, ?_⟩
      rw [if_neg hnew]
      have hbytes : fileBytes file = .ok (bytesOf file) := hreadable
      refine bind_eq_ok.2 ⟨bytesOf file, hbytes, bind_eq_ok.2 ⟨0, rfl, ?_⟩⟩
      rw [Nat.max_eq_left (Nat.zero_le _), if_neg (not_lt.2 hsize)]
      refine ih.2 ⟨fun f hf => ?_, hnodup, by rw [Nat.add_assoc]⟩
      obtain ⟨h₁, h₂, h₃, h₄⟩ := hrest f hf
      refine ⟨h₁, h₂, h₃, fun hmem => ?_⟩
      rcases List.mem_cons.1 hmem with heq | hmem
      · exact hfresh (heq ▸ List.mem_map_of_mem hf)
      · exact h₄ hmem

theorem find_path (hnodup : (files.map File.path).Nodup) (hfile : file ∈ files) :
    files.find? (fun f => f.path = file.path) = some file := by
  cases hfind : files.find? fun f => f.path = file.path with
  | none =>
    rw [List.find?_eq_none] at hfind
    exact absurd (by simp) (hfind file hfile)
  | some found =>
    have hpath : found.path = file.path := by simpa using List.find?_some hfind
    exact congrArg some (List.inj_on_of_nodup_map hnodup (List.mem_of_find?_eq_some hfind) hfile hpath)

theorem validateFiles_eq_ok : validateFiles files [] = .ok result ↔ Accepted files ∧ result = sortByPath files := by
  have hprevious : byPath [] = [] := rfl
  have hold : totalSize [] = .ok 0 := rfl
  simp only [validateFiles, hprevious, List.length_nil, Nat.max_eq_left (Nat.zero_le _)]
  constructor
  · intro h
    split_ifs at h with hcount
    obtain ⟨total, htotal, h⟩ := bind_eq_ok.1 h
    obtain ⟨old, hold', h⟩ := bind_eq_ok.1 h
    rw [hold] at hold'
    cases hold'
    obtain ⟨hfiles, hnodup, rfl⟩ := checkFiles_eq_ok.1 htotal
    split_ifs at h with hlarge
    rw [Nat.max_eq_left (Nat.zero_le _), not_lt, Nat.zero_add] at hlarge
    split at h
    · cases h
    rename_i hdirectories
    split at h
    · rename_i root hroot
      split_ifs at h with hbase64
      cases h
      refine ⟨?_, rfl⟩
      exact
        { count := not_lt.1 hcount
          paths := fun f hf => (hfiles f hf).1
          nodup := hnodup
          readable := fun f hf => (hfiles f hf).2.1
          size := fun f hf => (hfiles f hf).2.2.1
          total := hlarge
          noDirectory := fun f hf parent hparent hmem =>
            List.find?_eq_none.1 hdirectories f hf (List.any_eq_true.2 ⟨parent, hparent, by simpa using hmem⟩)
          root := ⟨root, List.mem_of_find?_eq_some hroot, by simpa using List.find?_some hroot, by simpa using hbase64⟩ }
    · cases h
  · rintro ⟨h, rfl⟩
    rw [if_neg (not_lt.2 h.count)]
    have hcheck : checkFiles [] files [] 0 = .ok (0 + (files.map fun f => (bytesOf f).size).sum) :=
      checkFiles_eq_ok.2 ⟨fun f hf => ⟨h.paths f hf, h.readable f hf, h.size f hf, List.not_mem_nil⟩, h.nodup, rfl⟩
    refine bind_eq_ok.2 ⟨_, hcheck, bind_eq_ok.2 ⟨0, hold, ?_⟩⟩
    rw [Nat.max_eq_left (Nat.zero_le _), Nat.zero_add, if_neg (not_lt.2 h.total)]
    have hdirectories : files.find? (fun file => (parents file.path).any fun parent => parent ∈ files.map File.path) =
        none := by
      rw [List.find?_eq_none]
      intro f hf hany
      obtain ⟨parent, hparent, hmem⟩ := List.any_eq_true.1 hany
      exact h.noDirectory f hf parent hparent (by simpa using hmem)
    obtain ⟨root, hroot, hpath, hbase64⟩ := h.root
    have hfind := find_path h.nodup hroot
    rw [hpath] at hfind
    simp only [hdirectories, hfind, hbase64, Bool.false_eq_true, if_false]

def reencode (files : List File) : List File := files.map fun f => encodeFile f.path (bytesOf f)

theorem map_path_reencode (files : List File) : (reencode files).map File.path = files.map File.path := by
  simp [reencode]

/-- Accepted files stay so, if `SKILL.md` is text without NUL. -/
theorem Accepted.reencode (h : Accepted files) (hnul : ∀ f ∈ files, f.path = skillMd → nul ∉ f.content.toList) :
    Accepted (reencode files) where
  count := by simpa [Skills.reencode] using h.count
  paths := by
    intro f hf
    obtain ⟨g, hg, rfl⟩ := List.mem_map.1 hf
    simpa using h.paths g hg
  nodup := by
    rw [map_path_reencode]
    exact h.nodup
  readable := by
    intro f hf
    obtain ⟨g, hg, rfl⟩ := List.mem_map.1 hf
    exact readable_iff.2 ⟨_, fileBytes_encodeFile _ _⟩
  size := by
    intro f hf
    obtain ⟨g, hg, rfl⟩ := List.mem_map.1 hf
    simpa using h.size g hg
  total := by simpa [Skills.reencode, Function.comp_def] using h.total
  noDirectory := by
    intro f hf parent hparent
    obtain ⟨g, hg, rfl⟩ := List.mem_map.1 hf
    rw [map_path_reencode]
    exact h.noDirectory g hg parent (by simpa using hparent)
  root := by
    obtain ⟨root, hroot, hpath, hbase64⟩ := h.root
    refine ⟨_, List.mem_map_of_mem hroot, by simpa using hpath, ?_⟩
    have hbytes : bytesOf root = root.content.toUTF8 := bytesOf_eq (by rw [fileBytes, if_neg (by simp [hbase64])])
    rw [hbytes, encodeFile_of_text root.path (hnul root hroot hpath)]

/-! ## What an export writes -/

def filesBelow (placed : List Char × List File) : List (List Char × ByteArray) :=
  placed.2.map fun f => (placed.1 ++ '/' :: f.path, bytesOf f)

def entryOf (file : List Char × ByteArray) : ZipEntry := writestr file.1 file.2

theorem exportFiles_eq (hpaths : ∀ f ∈ files, PathOk f.path) (hreadable : ∀ f ∈ files, Readable f) :
    exportFiles root files = .ok ((filesBelow (root, files)).map entryOf) := by
  induction files with
  | nil => rfl
  | cons file rest ih =>
    have hpath := validatePath_eq_ok.2 ⟨hpaths file List.mem_cons_self, rfl⟩
    have hbytes : fileBytes file = .ok (bytesOf file) := hreadable file List.mem_cons_self
    rw [exportFiles, hpath, hbytes, ih (List.forall_mem_of_forall_mem_cons hpaths)
      fun f hf => hreadable f (List.mem_cons_of_mem _ hf)]
    rfl

def SlugId (id : List Char) : Prop := id ≠ [] ∧ ∀ c ∈ id, idChar c = true

theorem slash_not_idChar : idChar '/' = false := by decide

theorem idChar_of_slugName (h : slugName name = true) : ∀ c ∈ name, idChar c = true := by
  have hwords : ∀ word ∈ name.splitOn '-', ∀ c ∈ word, lowerOrDigit c = true := by
    intro word hword c hc
    have hall := List.all_eq_true.1 h word hword
    simp only [Bool.and_eq_true] at hall
    exact List.all_eq_true.1 hall.2 c hc
  clear h
  induction name with
  | nil =>
    intro c hc
    cases hc
  | cons d rest ih =>
    rw [List.splitOn_cons_eq_if_modifyHead] at hwords
    by_cases hd : d = '-'
    · simp only [hd, beq_self_eq_true, if_true, List.forall_mem_cons] at hwords
      intro c hc
      rcases List.mem_cons.1 hc with rfl | hc
      · rw [hd]
        decide
      · exact ih hwords.2 c hc
    · simp only [beq_iff_eq, hd, if_false] at hwords
      obtain ⟨word, words, hsplit⟩ := List.exists_cons_of_ne_nil (List.splitOn_ne_nil '-' rest)
      rw [hsplit, List.modifyHead_cons, List.forall_mem_cons] at hwords
      have hrest := ih (by
        rw [hsplit, List.forall_mem_cons]
        exact ⟨fun c hc => hwords.1 c (List.mem_cons_of_mem _ hc), hwords.2⟩)
      intro c hc
      rcases List.mem_cons.1 hc with rfl | hc
      · rw [idChar, hwords.1 c List.mem_cons_self]
        rfl
      · exact hrest c hc

theorem slash_notMem {s : List Char} (h : ∀ c ∈ s, idChar c = true) : '/' ∉ s := by
  intro hmem
  have hslash := h '/' hmem
  rw [slash_not_idChar] at hslash
  cases hslash

theorem slash_notMem_exportRoot (hid : SlugId package.id) (h : exportRoot yaml package = .ok root) : '/' ∉ root := by
  rw [exportRoot] at h
  split at h
  · cases h
  obtain ⟨fm, -, h⟩ := bind_eq_ok.1 h
  split at h
  · split_ifs at h with hname
    · cases h
      exact slash_notMem (idChar_of_slugName hname)
    · cases h
      exact slash_notMem hid.2
  · cases h
    exact slash_notMem hid.2

structure Placement (packages : List ExportPackage) (placed : List (List Char × List File)) : Prop where
  files : placed.map Prod.snd = packages.map ExportPackage.files
  nodup : (placed.map Prod.fst).Nodup
  roots : ∀ p ∈ placed, PathOk p.1 ∧ '/' ∉ p.1

theorem exportPackages_placed (hid : ∀ p ∈ packages, SlugId p.id)
    (hfiles : ∀ p ∈ packages, Accepted p.files) (h : exportPackages yaml packages seen = .ok entries) :
    ∃ placed, Placement packages placed ∧ (∀ p ∈ placed, p.1 ∉ seen) ∧
      entries = (placed.flatMap filesBelow).map entryOf := by
  induction packages generalizing seen entries with
  | nil =>
    cases h
    exact ⟨[], ⟨rfl, List.nodup_nil, by simp⟩, by simp, rfl⟩
  | cons package rest ih =>
    have haccepted := hfiles package List.mem_cons_self
    rw [exportPackages, bind_eq_ok] at h
    obtain ⟨root, hroot, h₁⟩ := h
    obtain ⟨root', hvalid, h₂⟩ := bind_eq_ok.1 h₁
    obtain ⟨hpath, rfl⟩ := validatePath_eq_ok.1 hvalid
    split_ifs at h₂ with hseen
    obtain ⟨below, hbelow, h₃⟩ := bind_eq_ok.1 h₂
    obtain ⟨others, hothers, h₄⟩ := bind_eq_ok.1 h₃
    rw [exportFiles_eq haccepted.paths haccepted.readable] at hbelow
    cases hbelow
    cases h₄
    obtain ⟨placed, hplaced, hfresh, rfl⟩ := ih (List.forall_mem_of_forall_mem_cons hid)
      (List.forall_mem_of_forall_mem_cons hfiles) hothers
    refine ⟨(root', package.files) :: placed, ⟨?_, ?_, ?_⟩, ?_, by simp⟩
    · rw [List.map_cons, List.map_cons, hplaced.files]
    · rw [List.map_cons, List.nodup_cons]
      refine ⟨?_, hplaced.nodup⟩
      intro hmem
      obtain ⟨p, hp, heq⟩ := List.mem_map.1 hmem
      exact hfresh p hp (heq ▸ List.mem_cons_self)
    · intro p hp
      rcases List.mem_cons.1 hp with rfl | hp
      · exact ⟨hpath, slash_notMem_exportRoot (hid package List.mem_cons_self) hroot⟩
      · exact hplaced.roots p hp
    · intro p hp
      rcases List.mem_cons.1 hp with rfl | hp
      · exact hseen
      · exact fun hmem => hfresh p hp (List.mem_cons_of_mem _ hmem)

theorem exportPackages_frontmatter (h : exportPackages yaml packages seen = .ok entries) :
    ∀ p ∈ packages, ∃ rootFile fm, p.files.find? (fun f => f.path = skillMd) = some rootFile ∧
      frontmatter yaml rootFile.content = .ok fm := by
  induction packages generalizing seen entries with
  | nil =>
    intro p hp
    cases hp
  | cons package rest ih =>
    rw [exportPackages, bind_eq_ok] at h
    obtain ⟨root, hroot, h₁⟩ := h
    obtain ⟨root', -, h₂⟩ := bind_eq_ok.1 h₁
    split_ifs at h₂
    obtain ⟨_, -, h₃⟩ := bind_eq_ok.1 h₂
    obtain ⟨others, hothers, -⟩ := bind_eq_ok.1 h₃
    intro p hp
    rcases List.mem_cons.1 hp with rfl | hp
    · rw [exportRoot] at hroot
      split at hroot
      · cases hroot
      · rename_i rootFile hfind
        obtain ⟨fm, hfm, -⟩ := bind_eq_ok.1 hroot
        exact ⟨rootFile, fm, hfind, hfm⟩
    · exact ih hothers p hp

/-! ## What an import reads -/

theorem readEntries_written (hpaths : ∀ e ∈ written, PathOk e.1) (hnodup : (written.map Prod.fst).Nodup)
    (hfresh : ∀ e ∈ written, e.1 ∉ contents.entries.map Prod.fst) (hsize : ∀ e ∈ written, e.2.size ≤ maxFileBytes)
    (htotal : total + (written.map fun e => e.2.size).sum ≤ maxImportBytes)
    (hcount : contents.entries.length + written.length ≤ 10000) :
    readEntries false none (written.map entryOf) contents total =
      .ok { contents with entries := contents.entries ++ written } := by
  induction written generalizing contents total with
  | nil => simp [readEntries]
  | cons entry rest ih =>
    obtain ⟨path, data⟩ := entry
    simp only [List.forall_mem_cons] at hpaths hfresh hsize
    simp only [List.map_cons, List.nodup_cons, List.sum_cons, List.length_cons] at hnodup htotal hcount
    have hlast := hpaths.1.getLast
    have hstrip : path.rdropWhile (· = '/') = path := by
      rw [List.rdropWhile_eq_self_iff]
      intro hne hslash
      apply hlast
      rw [List.getLast?_eq_getLast_of_ne_nil hne]
      simpa using hslash
    have hvalid := validatePath_eq_ok.2 ⟨hpaths.1, rfl⟩
    have hmode : special 0o600 = false := by decide
    have hread : readEntry (entryOf (path, data)) path contents total =
        .ok { contents with entries := contents.entries ++ [(path, data)] } := by
      rw [readEntry, if_neg hfresh.1, if_neg]
      · rfl
      · simp only [entryOf, writestr, not_or, not_lt, not_le]
        exact ⟨hsize.1, by omega, by omega⟩
    have hrest : readEntries false none (rest.map entryOf)
        { contents with entries := contents.entries ++ [(path, data)] } (total + data.size) =
        .ok { contents with entries := contents.entries ++ [(path, data)] ++ rest } := ih hpaths.2 hnodup.2
      (by
        intro e he hmem
        simp only [List.map_append, List.mem_append, List.map_cons, List.map_nil, List.mem_singleton] at hmem
        rcases hmem with hmem | heq
        · exact hfresh.2 e he hmem
        · exact hnodup.1 (heq ▸ List.mem_map_of_mem he))
      hsize.2 (by omega) (by simp; omega)
    have hname : (entryOf (path, data)).filename = path := rfl
    have hentry : special (entryOf (path, data)).mode = false := hmode
    rw [List.map_cons, readEntries, hname, hstrip, hvalid]
    refine bind_eq_ok.2 ⟨path, rfl, ?_⟩
    simp only [hentry, Bool.false_and, Bool.false_eq_true, if_false, if_neg hlast, selectPath]
    refine bind_eq_ok.2 ⟨_, hread, ?_⟩
    have hsizeOf : (entryOf (path, data)).fileSize = data.size := rfl
    rw [hsizeOf, hrest]
    simp

theorem cut_first_slash (ha : '/' ∉ a) (hb : '/' ∉ b) (h : a ++ '/' :: x = b ++ '/' :: y) : a = b ∧ x = y := by
  rcases List.append_eq_append_iff.1 h with ⟨c, hbc, hx⟩ | ⟨c, hac, hy⟩
  · cases c with
    | nil => simp_all
    | cons d c =>
      cases hx
      exact absurd (by simp [hbc]) hb
  · cases c with
    | nil => simp_all
    | cons d c =>
      cases hy
      exact absurd (by simp [hac]) ha

def rootDir (root : List Char) : List Char := root ++ ['/']

theorem rootDir_append (root path : List Char) : rootDir root ++ path = root ++ '/' :: path := by
  simp [rootDir]

theorem rootDir_inj (h : rootDir a = rootDir b) : a = b := List.append_cancel_right h

theorem rootDir_prefix_iff (ha : '/' ∉ a) (hb : '/' ∉ b) : rootDir a <+: b ++ '/' :: path ↔ a = b := by
  constructor
  · rintro ⟨rest, h⟩
    rw [rootDir_append] at h
    exact (cut_first_slash ha hb h).1
  · rintro rfl
    exact ⟨path, rootDir_append a path⟩

section Placed

variable {packages : List ExportPackage} {placed : List (List Char × List File)}

theorem nodup_paths (hplaced : Placement packages placed) (hfiles : ∀ p ∈ placed, (p.2.map File.path).Nodup) :
    ((placed.flatMap filesBelow).map Prod.fst).Nodup := by
  have hpaths : ∀ p : List Char × List File,
      (filesBelow p).map Prod.fst = (p.2.map File.path).map fun path => p.1 ++ '/' :: path := by
    intro p
    simp [filesBelow]
  rw [List.map_flatMap, List.nodup_flatMap]
  constructor
  · intro p hp
    rw [hpaths]
    exact (hfiles p hp).map fun x y h => (List.cons.inj (List.append_cancel_left h)).2
  -- a path that is below two directories would make them equal
  have hne := List.pairwise_map.1 hplaced.nodup
  refine hne.imp_of_mem ?_
  intro p q hp hq hpq path hpath hpath'
  simp only [hpaths] at hpath hpath'
  obtain ⟨x, -, hx⟩ := List.mem_map.1 hpath
  obtain ⟨y, -, hy⟩ := List.mem_map.1 hpath'
  exact hpq (cut_first_slash (hplaced.roots p hp).2 (hplaced.roots q hq).2 (hx.trans hy.symm)).1

theorem rootDir_prefix_of_cut (hroot : '/' ∉ root)
    (h : root ++ '/' :: path = front ++ '/' :: back) : rootDir root <+: rootDir front := by
  rcases List.append_eq_append_iff.1 h with ⟨c, hfront, hpath⟩ | ⟨c, hroot', hback⟩
  · cases c with
    | nil => simp [hfront]
    | cons d c =>
      obtain ⟨rfl, -⟩ := List.cons.inj hpath
      exact ⟨c ++ ['/'], by simp [rootDir, hfront]⟩
  · cases c with
    | nil => simp [hroot']
    | cons d c =>
      obtain ⟨rfl, -⟩ := List.cons.inj hback
      exact absurd (by simp [hroot']) hroot

theorem take_skillMd (front : List Char) :
    (front ++ slashSkillMd).take ((front ++ slashSkillMd).length - skillMd.length) = rootDir front := by
  have hlength : (front ++ slashSkillMd).length - skillMd.length = (rootDir front).length := by
    simp only [slashSkillMd, rootDir, List.length_append, List.length_cons, List.length_nil]
    omega
  have hsplit : front ++ slashSkillMd = rootDir front ++ skillMd := by
    rw [rootDir_append]
    rfl
  rw [hlength, hsplit, List.take_left]

/-- The directories with a `SKILL.md` are those of its files. -/
theorem mem_skillRoots (hmd : skillMd ∉ paths) :
    root ∈ skillRoots paths ↔ ∃ front, front ++ slashSkillMd ∈ paths ∧ root = rootDir front := by
  rw [skillRoots, if_neg hmd, List.mem_insertionSort, List.mem_map]
  constructor
  · rintro ⟨path, hpath, rfl⟩
    obtain ⟨hmem, hsuffix⟩ := List.mem_filter.1 hpath
    obtain ⟨front, rfl⟩ := of_decide_eq_true hsuffix
    exact ⟨front, hmem, take_skillMd front⟩
  · rintro ⟨front, hmem, rfl⟩
    exact ⟨front ++ slashSkillMd, List.mem_filter.2 ⟨hmem, decide_eq_true (List.suffix_append _ _)⟩, take_skillMd front⟩

theorem nodup_skillRoots (hmd : skillMd ∉ paths) (hpaths : paths.Nodup) : (skillRoots paths).Nodup := by
  rw [skillRoots, if_neg hmd, (List.perm_insertionSort _ _).nodup_iff]
  refine List.Nodup.map_on ?_ (hpaths.filter _)
  intro x hx y hy hxy
  obtain ⟨front, rfl⟩ := of_decide_eq_true (List.mem_filter.1 hx).2
  obtain ⟨front', rfl⟩ := of_decide_eq_true (List.mem_filter.1 hy).2
  rw [take_skillMd, take_skillMd] at hxy
  rw [rootDir_inj hxy]

theorem skillMd_notMem (placed : List (List Char × List File)) :
    skillMd ∉ (placed.flatMap filesBelow).map Prod.fst := by
  intro hmem
  obtain ⟨e, he, heq⟩ := List.mem_map.1 hmem
  obtain ⟨p, -, hfile⟩ := List.mem_flatMap.1 he
  obtain ⟨f, -, rfl⟩ := List.mem_map.1 hfile
  have hslash : '/' ∈ skillMd := by
    rw [← heq]
    simp
  exact absurd hslash (by decide)

/-- The outermost directories with a `SKILL.md` are those of the packages. -/
theorem topRoots_perm (hplaced : Placement packages placed) (hfiles : ∀ p ∈ placed, (p.2.map File.path).Nodup)
    (hroot : ∀ p ∈ placed, ∃ f ∈ p.2, f.path = skillMd) :
    (topRoots (skillRoots ((placed.flatMap filesBelow).map Prod.fst))).Perm (placed.map fun p => rootDir p.1) := by
  set paths := (placed.flatMap filesBelow).map Prod.fst with hpaths
  have hmd : skillMd ∉ paths := skillMd_notMem placed
  -- every directory with a `SKILL.md` is below the one of a package, which has one itself
  have habove : ∀ {root}, root ∈ skillRoots paths → ∃ p ∈ placed, rootDir p.1 <+: root := by
    intro root hmem
    obtain ⟨front, hfront, rfl⟩ := (mem_skillRoots hmd).1 hmem
    obtain ⟨e, he, heq⟩ := List.mem_map.1 hfront
    obtain ⟨p, hp, hfile⟩ := List.mem_flatMap.1 he
    obtain ⟨f, -, rfl⟩ := List.mem_map.1 hfile
    exact ⟨p, hp, rootDir_prefix_of_cut (hplaced.roots p hp).2 heq⟩
  have hown : ∀ p ∈ placed, rootDir p.1 ∈ skillRoots paths := by
    intro p hp
    obtain ⟨f, hf, hpath⟩ := hroot p hp
    refine (mem_skillRoots hmd).2 ⟨p.1, ?_, rfl⟩
    rw [hpaths]
    refine List.mem_map.2 ⟨(p.1 ++ '/' :: f.path, bytesOf f), ?_, by rw [hpath]; rfl⟩
    exact List.mem_flatMap.2 ⟨p, hp, List.mem_map_of_mem hf⟩
  have hnodup : (placed.map fun p => rootDir p.1).Nodup := by
    have hmap := hplaced.nodup.map (f := rootDir) fun a b => rootDir_inj
    rwa [List.map_map] at hmap
  refine (List.perm_ext_iff_of_nodup ((nodup_skillRoots hmd (nodup_paths hplaced hfiles)).filter _) hnodup).2 ?_
  intro root
  simp only [List.mem_filter, Bool.not_eq_true', List.any_eq_false, Bool.and_eq_true, decide_eq_true_eq, List.mem_map]
  constructor
  · rintro ⟨hmem, houter⟩
    obtain ⟨p, hp, hprefix⟩ := habove hmem
    refine ⟨p, hp, ?_⟩
    by_contra hne
    exact houter (rootDir p.1) (hown p hp) ⟨fun heq => hne heq.symm, hprefix⟩
  · rintro ⟨p, hp, rfl⟩
    refine ⟨hown p hp, ?_⟩
    rintro parent hparent ⟨hne, hprefix⟩
    obtain ⟨q, hq, hq'⟩ := habove hparent
    have hqp : q.1 = p.1 := (rootDir_prefix_iff (hplaced.roots q hq).2 (hplaced.roots p hp).2).1
      (show rootDir q.1 <+: p.1 ++ '/' :: [] from hq'.trans hprefix)
    rw [hqp] at hq'
    exact hne (hq'.eq_of_length_le hprefix.length_le)

theorem flatMap_own {α : Type} {g : List Char × List File → List α}
    (hnodup : (placed.map Prod.fst).Nodup) (hp : p ∈ placed) :
    placed.flatMap (fun q => if q.1 = p.1 then g q else []) = g p := by
  induction placed with
  | nil => cases hp
  | cons q rest ih =>
    rw [List.map_cons, List.nodup_cons] at hnodup
    rw [List.flatMap_cons]
    rcases List.mem_cons.1 hp with rfl | hp
    · have hrest : rest.flatMap (fun r => if r.1 = p.1 then g r else []) = [] := by
        rw [List.flatMap_eq_nil_iff]
        intro r hr
        refine if_neg fun heq => hnodup.1 ?_
        exact heq ▸ List.mem_map_of_mem hr
      rw [if_pos rfl, hrest, List.append_nil]
    · have hne : q.1 ≠ p.1 := by
        intro heq
        exact hnodup.1 (heq ▸ List.mem_map_of_mem hp)
      rw [if_neg hne, List.nil_append, ih hnodup.2 hp]

theorem packageFiles_exported (hplaced : Placement packages placed) (hp : p ∈ placed) :
    packageFiles (placed.flatMap filesBelow) (rootDir p.1) = reencode p.2 := by
  have hfilter : ∀ q ∈ placed, (filesBelow q).filter (fun e => rootDir p.1 <+: e.1) =
      if q.1 = p.1 then filesBelow q else [] := by
    intro q hq
    split_ifs with heq
    · refine List.filter_eq_self.2 ?_
      intro e he
      obtain ⟨f, -, rfl⟩ := List.mem_map.1 he
      exact decide_eq_true ((rootDir_prefix_iff (hplaced.roots p hp).2 (hplaced.roots q hq).2).2 heq.symm)
    · refine List.filter_eq_nil_iff.2 ?_
      intro e he hprefix
      obtain ⟨f, -, rfl⟩ := List.mem_map.1 he
      exact heq ((rootDir_prefix_iff (hplaced.roots p hp).2 (hplaced.roots q hq).2).1
        (of_decide_eq_true hprefix)).symm
  rw [packageFiles, List.filter_flatMap, List.flatMap_congr hfilter, flatMap_own hplaced.nodup hp, filesBelow, reencode,
    List.map_map]
  refine List.map_congr_left ?_
  intro f hf
  have hdrop : (p.1 ++ '/' :: f.path).drop (rootDir p.1).length = f.path := by
    rw [← rootDir_append, List.drop_left]
  simp only [Function.comp_apply, hdrop]

theorem archivePackages_exported (hplaced : Placement packages placed) (hne : packages ≠ [])
    (hfiles : ∀ p ∈ packages, Accepted p.files)
    (htotal : ((placed.flatMap filesBelow).map fun e => e.2.size).sum ≤ maxImportBytes)
    (hcount : (placed.flatMap filesBelow).length ≤ 10000) :
    ∃ packs, archivePackages false none ((placed.flatMap filesBelow).map entryOf) = .ok packs ∧
      packs.Perm (packages.map fun p => reencode p.files) := by
  have haccepted : ∀ p ∈ placed, Accepted p.2 := by
    intro p hp
    have hmem : p.2 ∈ packages.map ExportPackage.files := hplaced.files ▸ List.mem_map_of_mem hp
    obtain ⟨package, hpackage, heq⟩ := List.mem_map.1 hmem
    exact heq ▸ hfiles package hpackage
  have hnodup := nodup_paths hplaced fun p hp => (haccepted p hp).nodup
  have hpaths : ∀ e ∈ placed.flatMap filesBelow, PathOk e.1 ∧ e.2.size ≤ maxFileBytes := by
    intro e he
    obtain ⟨p, hp, hfile⟩ := List.mem_flatMap.1 he
    obtain ⟨f, hf, rfl⟩ := List.mem_map.1 hfile
    exact ⟨(hplaced.roots p hp).1.below ((haccepted p hp).paths f hf), (haccepted p hp).size f hf⟩
  have hread : readEntries false none ((placed.flatMap filesBelow).map entryOf) ⟨[], []⟩ 0 =
      .ok ⟨[] ++ placed.flatMap filesBelow, []⟩ := readEntries_written (fun e he => (hpaths e he).1) hnodup
    (fun e _ => List.not_mem_nil) (fun e he => (hpaths e he).2) (by simpa using htotal) (by simpa using hcount)
  rw [List.nil_append] at hread
  have hperm := topRoots_perm hplaced (fun p hp => (haccepted p hp).nodup) fun p hp => by
    obtain ⟨f, hf, hpath, -⟩ := (haccepted p hp).root
    exact ⟨f, hf, hpath⟩
  set entries := placed.flatMap filesBelow with hentries
  set roots := skillRoots (entries.map Prod.fst) with hroots
  have hplacedNe : placed ≠ [] := by
    rintro rfl
    have hnil := hplaced.files
    rw [List.map_nil, eq_comm, List.map_eq_nil_iff] at hnil
    exact hne hnil
  have hrootsNe : roots ≠ [] := by
    intro hnil
    rw [hnil] at hperm
    exact hplacedNe (List.map_eq_nil_iff.1 hperm.nil_eq.symm)
  have hcovered : ¬ ∃ entry ∈ entries, ¬ ∃ root ∈ topRoots roots, root <+: entry.1 := by
    rintro ⟨e, he, hout⟩
    obtain ⟨p, hp, hfile⟩ := List.mem_flatMap.1 he
    obtain ⟨f, -, rfl⟩ := List.mem_map.1 hfile
    refine hout ⟨rootDir p.1, hperm.mem_iff.2 (List.mem_map_of_mem hp), ?_⟩
    exact ⟨f.path, rootDir_append p.1 f.path⟩
  refine ⟨(topRoots roots).map (packageFiles entries), ?_, ?_⟩
  · refine bind_eq_ok.2 ⟨_, hread, ?_⟩
    rw [← hroots, if_neg hrootsNe]
    simp only [List.not_mem_nil, false_and, exists_false, if_false, Bool.not_false, hcovered, and_false]
  calc
    (topRoots roots).map (packageFiles entries) |>.Perm
        ((placed.map fun p => rootDir p.1).map (packageFiles entries)) := hperm.map _
    _ = placed.map fun p => reencode p.2 := by
        rw [List.map_map]
        exact List.map_congr_left fun p hp => packageFiles_exported hplaced hp
    _ = packages.map fun p => reencode p.files := by
        have hmap := congrArg (List.map reencode) hplaced.files
        rwa [List.map_map, List.map_map] at hmap

end Placed

/-- `str` has a text for the name of the skill. -/
def NameHasText (yaml : Yaml Obj) (content : String) : Prop :=
  ∀ fm, frontmatter yaml content = .ok fm → ∀ name, fm "name" = some name → yaml.truthy name = true →
    ∃ s, yaml.str name = .ok s

theorem importedName_isOk {name : Option Obj} : (∃ s, importedName yaml name = .ok s) ↔
      ∀ o, name = some o → yaml.truthy o = true → ∃ s, yaml.str o = .ok s := by
  cases name with
  | none => simp [importedName]
  | some o =>
    by_cases htruthy : yaml.truthy o = true <;> simp [importedName, htruthy]

theorem sortByPath_perm (files : List File) : (sortByPath files).Perm files := List.perm_insertionSort _ _

/-- Files that are accepted, with the text of their `SKILL.md`. -/
structure HasRoot (files : List File) (content : String) : Prop where
  accepted : Accepted files
  root : ∃ f ∈ files, f.path = skillMd ∧ f.content = content

theorem importPackages_cons (h : HasRoot files content) {fm : String → Option Obj}
    (hfm : frontmatter yaml content = .ok fm)
    (htotal : total + (files.map fun f => (bytesOf f).size).sum ≤ maxImportBytes) :
    importPackages yaml (files :: rest) total = (do
      let name ← importedName yaml (fm "name")
      let others ← importPackages yaml rest (total + (files.map fun f => (bytesOf f).size).sum)
      .ok (⟨slugOf name, name, fm "description", sortByPath files⟩ :: others)) := by
  have hperm := sortByPath_perm files
  have hvalid : validateFiles files [] = .ok (sortByPath files) := validateFiles_eq_ok.2 ⟨h.accepted, rfl⟩
  have hsize : totalSize (sortByPath files) = .ok (files.map fun f => (bytesOf f).size).sum := by
    rw [totalSize_of_readable fun f hf => h.accepted.readable f (hperm.mem_iff.1 hf), (hperm.map _).sum_eq]
  obtain ⟨root, hroot, hpath, hcontent⟩ := h.root
  have hfind := find_path ((hperm.map File.path).nodup_iff.2 h.accepted.nodup) (hperm.mem_iff.2 hroot)
  rw [hpath] at hfind
  rw [← hcontent] at hfm
  rw [importPackages, hvalid, ok_bind, hsize, ok_bind, if_neg (not_lt.2 htotal)]
  simp only [hfind, hfm, ok_bind]

theorem importPackages_isOk
    (h : List.Forall₂ HasRoot packs contents) (hfm : ∀ content ∈ contents, ∃ fm, frontmatter yaml content = .ok fm)
    (htotal : total + (packs.map fun files => (files.map fun f => (bytesOf f).size).sum).sum ≤ maxImportBytes) :
    (∃ result, importPackages yaml packs total = .ok result) ↔ ∀ content ∈ contents, NameHasText yaml content := by
  induction h generalizing total with
  | nil => simp [importPackages]
  | @cons files content packs contents hhead _ ih =>
    rw [List.map_cons, List.sum_cons] at htotal
    obtain ⟨fm, hcontent⟩ := hfm content List.mem_cons_self
    have hname : NameHasText yaml content ↔ ∃ s, importedName yaml (fm "name") = .ok s := by
      rw [importedName_isOk]
      constructor
      · intro h
        exact h fm hcontent
      · intro h fm' hfm'
        rw [hcontent] at hfm'
        cases hfm'
        exact h
    have hrest : (∃ result, importPackages yaml packs (total + (files.map fun f => (bytesOf f).size).sum) =
        .ok result) ↔ ∀ content ∈ contents, NameHasText yaml content :=
      ih (List.forall_mem_of_forall_mem_cons hfm) (by omega)
    rw [importPackages_cons hhead hcontent (by omega), List.forall_mem_cons, hname, ← hrest]
    simp only [bind_eq_ok]
    constructor
    · rintro ⟨_, name, hname, others, hothers, -⟩
      exact ⟨⟨name, hname⟩, others, hothers⟩
    · rintro ⟨⟨name, hname⟩, others, hothers⟩
      exact ⟨_, name, hname, others, hothers, rfl⟩

theorem importPackages_files (h : importPackages yaml packs total = .ok result) :
    List.Forall₂ (fun files skill => skill.files = sortByPath files) packs result := by
  induction packs generalizing total result with
  | nil =>
    cases h
    exact .nil
  | cons files rest ih =>
    rw [importPackages, bind_eq_ok] at h
    obtain ⟨sorted, hvalid, h₁⟩ := h
    obtain ⟨size, -, h₂⟩ := bind_eq_ok.1 h₁
    split_ifs at h₂
    split at h₂
    · cases h₂
    obtain ⟨fm, -, h₃⟩ := bind_eq_ok.1 h₂
    obtain ⟨name, -, h₄⟩ := bind_eq_ok.1 h₃
    obtain ⟨others, hothers, h₅⟩ := bind_eq_ok.1 h₄
    cases h₅
    exact .cons (validateFiles_eq_ok.1 hvalid).2 (ih hothers)

/-! ## The round trip -/

/-- The text of the `SKILL.md` at the root. -/
def skillContent (package : ExportPackage) : String :=
  ((package.files.find? fun f => f.path = skillMd).map File.content).getD ""

def totalBytes (files : List File) : ℕ := (files.map fun f => (bytesOf f).size).sum

/-- The ids are slugs, `validate_files` accepts the files, no `SKILL.md` has a NUL, and all is
within the limits of an import. -/
structure Exportable (packages : List ExportPackage) : Prop where
  ne_nil : packages ≠ []
  id : ∀ p ∈ packages, SlugId p.id
  files : ∀ p ∈ packages, ∃ files, validateFiles p.files [] = .ok files
  nul : ∀ p ∈ packages, ∀ f ∈ p.files, f.path = skillMd → nul ∉ f.content.toList
  size : (packages.map fun p => totalBytes p.files).sum ≤ maxImportBytes
  count : (packages.map fun p => p.files.length).sum ≤ 10000

def SameFiles (package : ExportPackage) (skill : ImportedSkill Obj) : Prop :=
  (skill.files.map fun f => (f.path, fileBytes f)).Perm (package.files.map fun f => (f.path, fileBytes f))

def SamePackages (packages : List ExportPackage) (skills : List (ImportedSkill Obj)) : Prop :=
  ∃ order, order.Perm packages ∧ List.Forall₂ SameFiles order skills

theorem Exportable.accepted (h : Exportable packages) : ∀ p ∈ packages, Accepted p.files := by
  intro p hp
  obtain ⟨files, hfiles⟩ := h.files p hp
  exact (validateFiles_eq_ok.1 hfiles).1

theorem totalBytes_filesBelow (placed : List (List Char × List File)) :
    ((placed.flatMap filesBelow).map fun e => e.2.size).sum = ((placed.map Prod.snd).map totalBytes).sum := by
  induction placed with
  | nil => rfl
  | cons p rest ih =>
    rw [List.flatMap_cons, List.map_append, List.sum_append, ih, List.map_cons, List.map_cons, List.sum_cons, filesBelow,
      List.map_map, totalBytes]
    rfl

theorem length_filesBelow (placed : List (List Char × List File)) :
    (placed.flatMap filesBelow).length = ((placed.map Prod.snd).map List.length).sum := by
  induction placed with
  | nil => rfl
  | cons p rest ih =>
    rw [List.flatMap_cons, List.length_append, ih, List.map_cons, List.map_cons, List.sum_cons, filesBelow,
      List.length_map]

theorem totalBytes_reencode (files : List File) : totalBytes (reencode files) = totalBytes files := by
  simp [totalBytes, reencode, Function.comp_def]

theorem skillContent_eq (h : Accepted package.files) (hf : f ∈ package.files) (hpath : f.path = skillMd) :
    skillContent package = f.content := by
  have hfind := find_path h.nodup hf
  rw [hpath] at hfind
  rw [skillContent, hfind]
  rfl

/-- The text of a `SKILL.md` survives. -/
theorem hasRoot_reencode (h : Accepted package.files)
    (hnul : ∀ f ∈ package.files, f.path = skillMd → nul ∉ f.content.toList) :
    HasRoot (reencode package.files) (skillContent package) := by
  refine ⟨h.reencode hnul, ?_⟩
  obtain ⟨root, hroot, hpath, hbase64⟩ := h.root
  have hbytes : bytesOf root = root.content.toUTF8 := bytesOf_eq (by rw [fileBytes, if_neg (by simp [hbase64])])
  refine ⟨_, List.mem_map_of_mem hroot, by simpa using hpath, ?_⟩
  rw [hbytes, encodeFile_of_text root.path (hnul root hroot hpath), skillContent_eq h hroot hpath]

theorem sameFiles_reencode (h : Accepted package.files)
    (hskill : skill.files = sortByPath (reencode package.files)) : SameFiles package skill := by
  rw [SameFiles, hskill]
  refine ((sortByPath_perm _).map _).trans (List.Perm.of_eq ?_)
  rw [reencode, List.map_map]
  refine List.map_congr_left ?_
  intro f hf
  have hbytes : fileBytes f = .ok (bytesOf f) := h.readable f hf
  simp only [Function.comp_apply, path_encodeFile, fileBytes_encodeFile, hbytes]

theorem parseImport_exported (h : Exportable packages) (hexport : zipExport yaml packages = .ok entries)
    (hsize : size ≤ maxImportBytes) :
    (∃ result, parseImport yaml (.archive size (some entries)) false none = .ok result ∧
      SamePackages packages result) ↔ ∀ p ∈ packages, NameHasText yaml (skillContent p) := by
  obtain ⟨placed, hplaced, -, rfl⟩ := exportPackages_placed h.id h.accepted hexport
  have hbytes : ((placed.flatMap filesBelow).map fun e => e.2.size).sum ≤ maxImportBytes := by
    have hlimit := h.size
    rwa [totalBytes_filesBelow, hplaced.files, List.map_map]
  have hcount : (placed.flatMap filesBelow).length ≤ 10000 := by
    have hlimit := h.count
    rwa [length_filesBelow, hplaced.files, List.map_map]
  obtain ⟨packs, hpacks, hperm⟩ := archivePackages_exported hplaced h.ne_nil h.accepted hbytes hcount
  -- the packages in the order in which they are found
  have hcomp : Relation.Comp (List.Forall₂ fun files (p : ExportPackage) => files = reencode p.files) List.Perm packs
      packages := by
    refine List.perm_comp_forall₂ hperm ?_
    rw [List.forall₂_map_left_iff]
    exact List.forall₂_same.2 fun p _ => rfl
  obtain ⟨order, hfound, horder⟩ := hcomp
  obtain rfl : packs = order.map fun p => reencode p.files := by
    rw [← List.forall₂_eq_eq_eq, List.forall₂_map_right_iff]
    exact hfound
  have haccepted : ∀ p ∈ order, Accepted p.files := fun p hp => h.accepted p (horder.mem_iff.1 hp)
  have hroots : List.Forall₂ HasRoot (order.map fun p => reencode p.files) (order.map skillContent) := by
    rw [List.forall₂_map_left_iff, List.forall₂_map_right_iff]
    exact List.forall₂_same.2 fun p hp => hasRoot_reencode (haccepted p hp) (h.nul p (horder.mem_iff.1 hp))
  have hfm : ∀ content ∈ order.map skillContent, ∃ fm, frontmatter yaml content = .ok fm := by
    intro content hcontent
    obtain ⟨p, hp, rfl⟩ := List.mem_map.1 hcontent
    obtain ⟨root, fm, hfind, hfm⟩ := exportPackages_frontmatter hexport p (horder.mem_iff.1 hp)
    refine ⟨fm, ?_⟩
    rw [skillContent, hfind]
    exact hfm
  have htotal : 0 + ((order.map fun p => reencode p.files).map fun files =>
      (files.map fun f => (bytesOf f).size).sum).sum ≤ maxImportBytes := by
    have hsame : ((order.map fun p => reencode p.files).map fun files => (files.map fun f => (bytesOf f).size).sum) =
        order.map fun p => totalBytes p.files := by
      rw [List.map_map]
      exact List.map_congr_left fun p _ => totalBytes_reencode p.files
    rw [hsame, (horder.map _).sum_eq, Nat.zero_add]
    exact h.size
  have himport := importPackages_isOk hroots hfm htotal
  have hnames : (∀ content ∈ order.map skillContent, NameHasText yaml content) ↔
      ∀ p ∈ packages, NameHasText yaml (skillContent p) := by
    rw [List.forall_mem_map]
    exact ⟨fun hall p hp => hall p (horder.mem_iff.2 hp), fun hall p hp => hall p (horder.mem_iff.1 hp)⟩
  rw [← hnames, ← himport]
  simp only [parseImport, if_neg (not_lt.2 hsize), hpacks, ok_bind]
  constructor
  · rintro ⟨result, hresult, -⟩
    exact ⟨result, hresult⟩
  rintro ⟨result, hresult⟩
  refine ⟨result, hresult, order, horder, ?_⟩
  have hfiles := importPackages_files hresult
  rw [List.forall₂_map_left_iff] at hfiles
  refine ((List.forall₂_and_left _ _).2 ⟨haccepted, hfiles⟩).imp ?_
  intro p skill hp
  exact sameFiles_reencode hp.1 hp.2

/-- Exactly if `str` has a text for each name, the same packages are imported again. -/
theorem archive_round_trip (yaml : Yaml Obj) (packages : List ExportPackage) (entries : List ZipEntry) (size : ℕ)
    (h : Exportable packages) (hexport : zipExport yaml packages = .ok entries) (hsize : size ≤ maxImportBytes) :
    (∃ result, parseImport yaml (.archive size (some entries)) false none = .ok result ∧
      SamePackages packages result) ↔ ∀ p ∈ packages, NameHasText yaml (skillContent p) :=
  parseImport_exported h hexport hsize

/-! ## Names in YAML -/

inductive PyValue where
  | int (n : ℕ)
  | text (s : String)
  deriving DecidableEq

def hexValue (c : Char) : Option ℕ :=
  if 48 ≤ c.toNat ∧ c.toNat ≤ 57 then some (c.toNat - 48)
  else if 97 ≤ c.toNat ∧ c.toNat ≤ 102 then some (c.toNat - 87)
  else none

def hexNumber : List Char → (sofar : ℕ) → Option ℕ
  | [], n => some n
  | c :: cs, n => (hexValue c).bind fun d => hexNumber cs (n * 16 + d)

/-- A mapping from `name` to a hexadecimal number or to a text. -/
def nameLine (block : List Char) : Loaded PyValue :=
  match block with
  | 'n' :: 'a' :: 'm' :: 'e' :: ':' :: ' ' :: '0' :: 'x' :: digits =>
    match hexNumber digits 0 with
    | some n => .mapping fun key => if key = "name" then some (.int n) else none
    | none => .other
  | 'n' :: 'a' :: 'm' :: 'e' :: ':' :: ' ' :: name =>
    .mapping fun key => if key = "name" then some (.text (String.ofList name)) else none
  | _ => .other

def tooManyDigits : Failure := .valueError "Exceeds the limit (4300 digits) for integer string conversion"

@[irreducible] def digitLimit : ℕ := 10 ^ 4300

def pyYaml : Yaml PyValue where
  safeLoad := nameLine
  truthy
    | .int n => n ≠ 0
    | .text s => s ≠ ""
  asText
    | .int _ => none
    | .text s => some s
  str
    | .int n => if digitLimit ≤ n then .error tooManyDigits else .ok (toString n)
    | .text s => .ok s

def beforeName : List Char := "---\nname: ".toList

def afterName : List Char := "\n---\nUse it.\n".toList

/-- A `SKILL.md` with the given name. -/
def namedSkill (name : List Char) : String := String.ofList (beforeName ++ (name ++ afterName))

/-- A `SKILL.md` in its own directory, and a file that is not text. -/
def demo : ExportPackage where
  id := "demo".toList
  files :=
    [⟨skillMd, namedSkill "demo-skill".toList, false⟩, ⟨"notes/SKILL.md".toList, "nested", false⟩,
      ⟨"data.bin".toList, "AP8=", true⟩]

theorem slugId_demo : SlugId "demo".toList := ⟨by decide, List.all_eq_true.1 (by decide)⟩

theorem exists_of_isOk {ε α : Type} {x : Except ε α} (h : x.isOk = true) : ∃ a, x = .ok a := by
  cases x with
  | ok a => exact ⟨a, rfl⟩
  | error e => cases h

theorem exportable_demo : Exportable [demo] where
  ne_nil := by simp
  id := by
    rintro p (_ | ⟨_, ⟨⟩⟩)
    exact slugId_demo
  files := by
    rintro p (_ | ⟨_, ⟨⟩⟩)
    exact exists_of_isOk (by decide)
  nul := by decide
  size := by decide
  count := by decide

theorem archive_round_trip_demo : ∃ entries, zipExport pyYaml [demo] = .ok entries ∧
      ∃ result, parseImport pyYaml (.archive 700 (some entries)) false none = .ok result ∧
        SamePackages [demo] result := by
  obtain ⟨entries, hexport⟩ : ∃ entries, zipExport pyYaml [demo] = .ok entries := exists_of_isOk (by decide)
  have hname : NameHasText pyYaml (skillContent demo) := by
    intro fm hfm name hname _
    have hread : (frontmatter pyYaml (skillContent demo)).toOption.bind (fun fm => fm "name") =
        some (.text "demo-skill") := by decide
    rw [hfm] at hread
    obtain rfl : name = .text "demo-skill" := by
      rw [← Option.some_inj, ← hname]
      exact hread
    exact ⟨_, rfl⟩
  exact ⟨entries, hexport, (archive_round_trip pyYaml [demo] entries 700 exportable_demo hexport (by decide)).2
    (by simpa using hname)⟩

/-! ## A name that has no text -/

theorem closes_of_ne (hn : c ≠ '\n') (hr : c ≠ '\r') : closes (c :: cs) = false := by
  have hline : lineEnd (c :: cs) = none := by
    rw [lineEnd]
    · exact fun _ h => hr (List.cons.inj h).1
    · exact fun _ h => hn (List.cons.inj h).1
  rw [closes, hline]

theorem untilClosed_name (h : ∀ c ∈ name, c ≠ '\n' ∧ c ≠ '\r') : untilClosed (name ++ afterName) = some name := by
  induction name with
  | nil => decide
  | cons c cs ih =>
    obtain ⟨hn, hr⟩ := h c List.mem_cons_self
    rw [List.cons_append, untilClosed, closes_of_ne hn hr, if_neg Bool.false_ne_true,
      ih fun d hd => h d (List.mem_cons_of_mem _ hd), Option.map_some]

theorem skipBlanks_newline (rest : List Char) : skipBlanks ('\n' :: rest) = '\n' :: rest := by
  rw [skipBlanks, List.dropWhile_cons_of_neg (by decide)]

theorem frontmatterBlock_cons (rest : List Char) :
    frontmatterBlock ('-' :: '-' :: '-' :: '\n' :: rest) = untilClosed rest := by
  rw [frontmatterBlock, skipBlanks_newline, lineEnd, Option.bind_some]

theorem toList_namedSkill (name : List Char) : (namedSkill name).toList = beforeName ++ (name ++ afterName) := by
  rw [namedSkill, String.toList_ofList]

theorem frontmatterBlock_namedSkill (h : ∀ c ∈ name, c ≠ '\n' ∧ c ≠ '\r') :
    frontmatterBlock (namedSkill name).toList = some ("name: ".toList ++ name) := by
  have hkey : ∀ c ∈ "name: ".toList, c ≠ '\n' ∧ c ≠ '\r' := by simp
  have hline : ∀ c ∈ "name: ".toList ++ name, c ≠ '\n' ∧ c ≠ '\r' := by
    intro c hc
    rcases List.mem_append.1 hc with hc | hc
    · exact hkey c hc
    · exact h c hc
  have hfront : beforeName = '-' :: '-' :: '-' :: '\n' :: "name: ".toList := by decide
  rw [toList_namedSkill, hfront, List.cons_append, List.cons_append, List.cons_append, List.cons_append,
    ← List.append_assoc, frontmatterBlock_cons, untilClosed_name hline]

theorem hexNumber_replicate (k n : ℕ) : hexNumber (List.replicate k 'f') n = some ((n + 1) * 16 ^ k - 1) := by
  induction k generalizing n with
  | zero => simp [hexNumber]
  | succ k ih =>
    have hf : hexValue 'f' = some 15 := by decide
    rw [List.replicate_succ, hexNumber, hf, Option.bind_some, ih]
    congr 2
    ring

def numberMapping (n : ℕ) (key : String) : Option PyValue := if key = "name" then some (.int n) else none

theorem nameLine_number (h : hexNumber digits 0 = some n) :
    nameLine ("name: ".toList ++ '0' :: 'x' :: digits) = .mapping (numberMapping n) := by
  have hcons : "name: ".toList ++ '0' :: 'x' :: digits =
      'n' :: 'a' :: 'm' :: 'e' :: ':' :: ' ' :: '0' :: 'x' :: digits := by simp
  rw [hcons, nameLine, h]
  rfl

theorem size_ofList (l : List Char) : (String.ofList l).toUTF8.size ≤ 4 * l.length := by
  induction l with
  | nil => simp
  | cons c cs ih =>
    have hsplit : String.ofList (c :: cs) = String.singleton c ++ String.ofList cs := by
      rw [← String.toList_inj]
      simp
    have hc : (String.singleton c).utf8ByteSize ≤ 4 := by simp [Char.utf8Size_le_four]
    rw [hsplit, List.length_cons]
    simp only [String.toUTF8_eq_toByteArray, String.size_toByteArray, String.utf8ByteSize_append] at *
    omega

theorem fileBytes_text (path : List Char) (content : String) : fileBytes ⟨path, content, false⟩ = .ok content.toUTF8 :=
  rfl

/-- A package with nothing but a named `SKILL.md`. -/
def named (name : List Char) : ExportPackage := ⟨"demo".toList, [⟨skillMd, namedSkill name, false⟩]⟩

section Named

variable {name : List Char}

theorem size_named (hlength : name.length ≤ 10000) : (bytesOf ⟨skillMd, namedSkill name, false⟩).size ≤ 50000 := by
  have hfront : beforeName.length = 10 := by decide
  have hback : afterName.length = 13 := by decide
  have hlist := size_ofList (beforeName ++ (name ++ afterName))
  rw [List.length_append, List.length_append, hfront, hback] at hlist
  rw [bytesOf_eq (fileBytes_text skillMd (namedSkill name)), namedSkill]
  omega

theorem accepted_named (hlength : name.length ≤ 10000) : Accepted (named name).files := by
  have hsize := size_named hlength
  have hvalid : validatePath skillMd = .ok skillMd := by decide
  have hparents : parents skillMd = [] := by decide
  exact
    { count := by simp [named, maxFiles]
      paths := by simpa [named] using (validatePath_eq_ok.1 hvalid).1
      nodup := by simp [named]
      readable := by simpa [named] using readable_iff.2 ⟨_, fileBytes_text _ _⟩
      size := by
        simp only [named, List.mem_singleton, forall_eq]
        exact hsize.trans (by decide)
      total := by
        simp only [named, List.map_cons, List.map_nil, List.sum_cons, List.sum_nil, Nat.add_zero]
        exact hsize.trans (by decide)
      noDirectory := by simp [named, hparents]
      root := by simp [named] }

theorem exportable_named (hlength : name.length ≤ 10000) (hnul : nul ∉ name) : Exportable [named name] where
  ne_nil := by simp
  id := by
    intro p hp
    rw [List.mem_singleton.1 hp]
    exact slugId_demo
  files := by
    intro p hp
    rw [List.mem_singleton.1 hp]
    exact ⟨_, validateFiles_eq_ok.2 ⟨accepted_named hlength, rfl⟩⟩
  nul := by
    intro p hp f hf _ hmem
    have hfront : nul ∉ beforeName := by decide
    have hback : nul ∉ afterName := by decide
    rw [List.mem_singleton.1 hp] at hf
    have hcontent : f.content = namedSkill name := congrArg File.content (List.mem_singleton.1 hf)
    rw [hcontent, toList_namedSkill, List.mem_append, List.mem_append] at hmem
    rcases hmem with hmem | hmem | hmem
    · exact hfront hmem
    · exact hnul hmem
    · exact hback hmem
  size := by
    have hsize := size_named hlength
    simp only [totalBytes, named, List.map_cons, List.map_nil, List.sum_cons, List.sum_nil, Nat.add_zero]
    exact hsize.trans (by decide)
  count := by simp [named]

theorem skillContent_named (name : List Char) : skillContent (named name) = namedSkill name := by
  simp [skillContent, named]

end Named

def hugeNumber : ℕ := (0 + 1) * 16 ^ 3600 - 1

theorem digitLimit_le_hugeNumber : digitLimit ≤ hugeNumber := by decide +kernel

theorem digitLimit_pos : 0 < digitLimit := by
  unfold digitLimit
  exact Nat.pow_pos (by decide)

theorem exists_huge_name : ∃ (name : List Char) (n : ℕ), name.length ≤ 10000 ∧
    (∀ c ∈ name, c ≠ '\n' ∧ c ≠ '\r' ∧ c ≠ nul) ∧
      nameLine ("name: ".toList ++ name) = .mapping (numberMapping n) ∧ digitLimit ≤ n := by
  refine ⟨'0' :: 'x' :: List.replicate 3600 'f', hugeNumber, ?_, ?_, nameLine_number (hexNumber_replicate 3600 0),
    digitLimit_le_hugeNumber⟩
  · rw [List.length_cons, List.length_cons, List.length_replicate]
    decide
  · intro c hc
    rw [List.mem_cons, List.mem_cons, List.mem_replicate] at hc
    rcases hc with rfl | rfl | ⟨-, rfl⟩ <;> decide

/-- The export does not ask for the text of the name, the import does. -/
theorem huge_name_is_not_imported :
    ¬ ∀ (yaml : Yaml PyValue) (packages : List ExportPackage) (entries : List ZipEntry) (size : ℕ),
      Exportable packages → zipExport yaml packages = .ok entries → size ≤ maxImportBytes →
        ∃ result, parseImport yaml (.archive size (some entries)) false none = .ok result ∧
          SamePackages packages result := by
  intro h
  obtain ⟨name, n, hlength, hchars, hload, hlarge⟩ := exists_huge_name
  have hfm : frontmatter pyYaml (namedSkill name) = .ok (numberMapping n) := by
    rw [frontmatter, frontmatterBlock_namedSkill fun c hc => ⟨(hchars c hc).1, (hchars c hc).2.1⟩]
    simp only [pyYaml, hload]
  have hexportable := exportable_named hlength fun hmem => (hchars nul hmem).2.2 rfl
  obtain ⟨entries, hexport⟩ : ∃ entries, zipExport pyYaml [named name] = .ok entries := by
    have haccepted := accepted_named hlength
    have hfind : (named name).files.find? (fun f => f.path = skillMd) = some ⟨skillMd, namedSkill name, false⟩ := by
      simp [named]
    have hroot : exportRoot pyYaml (named name) = .ok "demo".toList := by
      rw [exportRoot, hfind]
      exact bind_eq_ok.2 ⟨_, hfm, rfl⟩
    have hvalid : validatePath "demo".toList = .ok "demo".toList := by decide
    rw [zipExport, exportPackages, hroot, ok_bind, hvalid, ok_bind, if_neg List.not_mem_nil,
      exportFiles_eq haccepted.paths haccepted.readable, ok_bind]
    exact ⟨_, rfl⟩
  have hname := (parseImport_exported hexportable hexport (show 50000 ≤ maxImportBytes by decide)).1
    (h pyYaml [named name] entries 50000 hexportable hexport (by decide)) (named name) (List.mem_singleton.2 rfl)
  rw [skillContent_named] at hname
  have htruthy : pyYaml.truthy (.int n) = true := by
    have hne : n ≠ 0 := by
      rintro rfl
      exact absurd hlarge (Nat.not_le.2 digitLimit_pos)
    simp [pyYaml, hne]
  obtain ⟨s, hs⟩ := hname (numberMapping n) hfm (.int n) rfl htruthy
  have hstr : pyYaml.str (.int n) = .error tooManyDigits := if_pos hlarge
  rw [hstr] at hs
  cases hs

end RyanAI.Skills
