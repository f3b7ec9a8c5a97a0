import RyanAI.Lib.OrderedMap
import RyanAI.Skills.SkillFiles

/-!
# Operations on the files of a skill

`apply_operations` of `utils/skill_files.py` keeps the files in a dictionary under their paths and validates them at the
end; between two operations a file may well be a directory of another. `Effect` says what one operation does.
-/

namespace RyanAI.Skills

open Lib

local instance operationPathLawful : LawfulBEq (List Char) := inferInstance

abbrev Files := KeyedTable (List Char) File

inductive Op where
  | put
  | move
  | delete
  deriving DecidableEq

structure SkillFileOperation where
  op : Op
  path : List Char
  content : Option String
  base64 : Bool
  destination : Option (List Char)

/-- `p == path or p.startswith(path + '/')`. -/
def atOrBelow (path p : List Char) : Bool := p = path || (path ++ ['/']).isPrefixOf p

/-- `destination + p[len(path):]`. -/
def target (path destination p : List Char) : List Char := destination ++ p.drop path.length

theorem atOrBelow_iff : atOrBelow path p = true ↔ p = path ∨ ∃ rest, p = path ++ '/' :: rest := by
  simp only [atOrBelow, Bool.or_eq_true, decide_eq_true_eq, List.isPrefixOf_iff_prefix, List.prefix_iff_exists_eq_append,
    List.append_assoc, List.singleton_append]

theorem path_prefix (h : atOrBelow path p = true) : path ++ p.drop path.length = p := by
  rcases atOrBelow_iff.1 h with rfl | ⟨rest, rfl⟩ <;> simp

theorem target_inj (hp : atOrBelow path p = true) (hp' : atOrBelow path p' = true)
    (h : target path destination p = target path destination p') : p = p' := by
  rw [← path_prefix hp, ← path_prefix hp', List.append_cancel_left h]

def moved (path destination : List Char) (result : Files) : Files where
  entries := (result.entries.filter fun entry => atOrBelow path entry.1).map fun entry =>
    (target path destination entry.1, { entry.2 with path := target path destination entry.1 })
  distinct := by
    rw [OrderedMap.Distinct, OrderedMap.keys, List.map_map]
    refine List.Nodup.map_on (fun a ha b hb heq => ?_) (List.Nodup.of_map Prod.fst (result.distinct.sublist
      (List.filter_sublist.map Prod.fst)))
    rw [List.mem_filter] at ha hb
    exact List.inj_on_of_nodup_map result.distinct ha.1 hb.1 (target_inj ha.2 hb.2 heq)

def applyOperation (result : Files) (operation : SkillFileOperation) : Except Failure Files := do
  let path ← validatePath operation.path
  if operation.op = .put then
    match operation.content with
    | none => .error (.valueError "put requires content")
    | some content => .ok (result.set path ⟨path, content, operation.base64⟩)
  else if path = skillMd then .error (.valueError "SKILL.md cannot be moved or deleted")
  else
    let matched := result.keys.filter (atOrBelow path)
    if matched = [] then .error (.valueError ("File or directory not found: " ++ String.ofList path))
    else
      let left := result.filter fun p _ => p ∉ matched
      if operation.op = .move then do
        let destination ← validatePath (operation.destination.getD [])
        if (path ++ ['/']).isPrefixOf destination then
          .error (.valueError "Cannot move a directory into itself")
        else if (moved path destination result).keys.any fun p => p ∈ result.keys && p ∉ matched then
          .error (.valueError "Move would overwrite an existing file")
        else .ok (left.update (moved path destination result))
      else .ok left

/-- `{f['path']: dict(f) for f in files}`. -/
def tableOf (files : List File) : Files := files.foldl (fun acc f => acc.set f.path f) KeyedTable.empty

def applyOperations (files : List File) (operations : List SkillFileOperation) : Except Failure (List File) := do
  let result ← operations.foldlM applyOperation (tableOf files)
  validateFiles (result.entries.map Prod.snd) files

/-! ## One operation -/

/-- A move takes the files at or below its path to their targets and leaves the others. -/
structure Moved (result : Files) (path destination : List Char) (result' : Files) : Prop where
  files : ∀ p f, atOrBelow path p → result.get p = some f →
    result'.get (target path destination p) = some { f with path := target path destination p }
  injective : ∀ p p', atOrBelow path p → atOrBelow path p' → target path destination p = target path destination p' →
    p = p'
  others : ∀ p f, ¬atOrBelow path p → result.get p = some f → result'.get p = some f
  all : ∀ q f', result'.get q = some f' → (¬atOrBelow path q ∧ result.get q = some f') ∨
    ∃ p f, atOrBelow path p ∧ result.get p = some f ∧ q = target path destination p

def Effect (result : Files) (operation : SkillFileOperation) (result' : Files) : Prop :=
  match operation.op with
  | .put => ∃ content, operation.content = some content ∧ ∀ q, result'.get q =
      if q = operation.path then some ⟨operation.path, content, operation.base64⟩ else result.get q
  | .move => ∃ destination, operation.destination = some destination ∧ Moved result operation.path destination result'
  | .delete => ∀ q, result'.get q = if atOrBelow operation.path q then none else result.get q

variable {result result' : Files} {path destination q : List Char}

theorem get_moved : (moved path destination result).get q = some f' ↔
    ∃ p f, atOrBelow path p ∧ result.get p = some f ∧ q = target path destination p ∧ f' = { f with path := q } := by
  rw [KeyedTable.get_eq_some]
  simp only [moved, List.mem_map, List.mem_filter, Prod.mk.injEq]
  constructor
  · rintro ⟨⟨p, f⟩, ⟨hmem, hbelow⟩, rfl, rfl⟩
    exact ⟨p, f, hbelow, KeyedTable.get_eq_some.2 hmem, rfl, rfl⟩
  · rintro ⟨p, f, hbelow, hget, rfl, rfl⟩
    exact ⟨(p, f), ⟨KeyedTable.get_eq_some.1 hget, hbelow⟩, rfl, rfl⟩

/-- What is left without the files at or below the path. -/
theorem get_left (result : Files) (path q : List Char) :
    (result.filter fun p _ => p ∉ result.keys.filter (atOrBelow path)).get q =
      if atOrBelow path q then none else result.get q := by
  rw [KeyedTable.get_filter]
  cases hget : result.get q with
  | none => simp
  | some f =>
    have hkey : q ∈ result.keys := KeyedTable.mem_keys.2 (by rw [hget, Option.isSome_some])
    by_cases hbelow : atOrBelow path q = true <;> simp [hkey, hbelow]

theorem moved_spec (hfree : ∀ p ∈ (moved path destination result).keys, p ∈ result.keys → atOrBelow path p) :
    Moved result path destination ((result.filter fun p _ => p ∉ result.keys.filter (atOrBelow path)).update
      (moved path destination result)) where
  files p f hbelow hget := by
    rw [KeyedTable.get_update, get_moved.2 ⟨p, f, hbelow, hget, rfl, rfl⟩, Option.some_or]
  injective _ _ := target_inj
  others p f hnot hget := by
    have hnone : (moved path destination result).get p = none := by
      by_contra hsome
      have hkey := KeyedTable.mem_keys.2 (Option.isSome_iff_ne_none.2 hsome)
      exact hnot (hfree p hkey (KeyedTable.mem_keys.2 (by rw [hget, Option.isSome_some])))
    rw [KeyedTable.get_update, hnone, Option.none_or, get_left, if_neg hnot, hget]
  all q f' hget := by
    rw [KeyedTable.get_update, get_left] at hget
    cases hmoved : (moved path destination result).get q with
    | some _ =>
      obtain ⟨p, f, hbelow, hp, rfl, -⟩ := get_moved.1 hmoved
      exact .inr ⟨p, f, hbelow, hp, rfl⟩
    | none =>
      rw [hmoved, Option.none_or] at hget
      split at hget
      · cases hget
      · exact .inl ⟨‹_›, hget⟩

theorem validatePath_ok (h : validatePath path = .ok path') : path' = path := by
  rw [validatePath] at h
  split_ifs at h
  cases h
  rfl

theorem effect_of_applyOperation (h : applyOperation result operation = .ok result') :
    Effect result operation result' := by
  obtain ⟨path, hpath, h⟩ := bind_eq_ok.1 h
  cases validatePath_ok hpath
  rw [Effect]
  cases hop : operation.op with
  | put =>
    rw [hop, if_pos rfl] at h
    cases hcontent : operation.content with
    | none =>
      rw [hcontent] at h
      cases h
    | some content =>
      rw [hcontent] at h
      cases h
      exact ⟨content, rfl, fun q => KeyedTable.get_set _ _ _ _⟩
  | move =>
    rw [hop, if_neg (by decide)] at h
    split at h
    · cases h
    simp only at h
    split at h
    · cases h
    rw [if_pos trivial] at h
    obtain ⟨destination, hdestination, h⟩ := bind_eq_ok.1 h
    cases validatePath_ok hdestination
    split_ifs at h with hinside hover
    cases h
    cases hgiven : operation.destination with
    | none =>
      rw [hgiven] at hdestination
      cases hdestination
    | some destination =>
      rw [hgiven, Option.getD_some] at hover
      refine ⟨destination, rfl, moved_spec fun p hp hkey => ?_⟩
      by_contra hnot
      exact hover (List.any_eq_true.2 ⟨p, hp, by simp [hkey, hnot]⟩)
  | delete =>
    rw [hop, if_neg (by decide)] at h
    split at h
    · cases h
    simp only at h
    split at h
    · cases h
    rw [if_neg (by decide)] at h
    cases h
    exact get_left result operation.path

/-! ## A list of operations -/

inductive Run : Files → List SkillFileOperation → Files → Prop where
  | nil (result : Files) : Run result [] result
  | cons {result next last : Files} {operation : SkillFileOperation} {operations : List SkillFileOperation}
      (effect : Effect result operation next) (rest : Run next operations last) :
      Run result (operation :: operations) last

def Keyed (result : Files) : Prop := ∀ p f, result.get p = some f → f.path = p

theorem Keyed.applyOperation (hkeyed : Keyed result)
    (h : applyOperation result operation = .ok result') : Keyed result' := by
  have heffect := effect_of_applyOperation h
  intro q f hget
  rw [Effect] at heffect
  split at heffect
  · obtain ⟨content, -, hput⟩ := heffect
    rw [hput] at hget
    split at hget
    · cases hget
      exact Eq.symm ‹_›
    · exact hkeyed q f hget
  · obtain ⟨destination, -, hmoved⟩ := heffect
    rcases hmoved.all q f hget with ⟨-, hold⟩ | ⟨p, f', hbelow, hold, rfl⟩
    · exact hkeyed q f hold
    · rw [hmoved.files p f' hbelow hold] at hget
      cases hget
      rfl
  · rw [heffect] at hget
    split at hget
    · cases hget
    · exact hkeyed q f hget

theorem run_of_foldlM (operations : List SkillFileOperation) (result : Files) (hkeyed : Keyed result)
    (h : operations.foldlM applyOperation result = .ok result') : Run result operations result' ∧ Keyed result' := by
  induction operations generalizing result with
  | nil =>
    cases h
    exact ⟨.nil _, hkeyed⟩
  | cons operation operations ih =>
    rw [List.foldlM_cons] at h
    obtain ⟨next, hnext, h⟩ := bind_eq_ok.1 h
    obtain ⟨hrest, hlast⟩ := ih next (hkeyed.applyOperation hnext) h
    exact ⟨.cons (effect_of_applyOperation hnext) hrest, hlast⟩

theorem keyed_tableOf (files : List File) : Keyed (tableOf files) := by
  have hfold : ∀ acc : Files, Keyed acc → Keyed (files.foldl (fun acc f => acc.set f.path f) acc) := by
    induction files with
    | nil => exact fun _ h => h
    | cons file rest ih =>
      refine fun acc h => ih _ fun p f hget => ?_
      rw [KeyedTable.get_set] at hget
      split at hget
      · cases hget
        exact Eq.symm ‹_›
      · exact h p f hget
  exact hfold _ nofun

/-- The files of a skill: unique sorted paths, no file used as a directory, a `SKILL.md` that is text. -/
structure Valid (files : List File) : Prop where
  sorted : (files.map File.path).Pairwise (· < ·)
  noDirectory : ∀ f ∈ files, ∀ parent ∈ parents f.path, parent ∉ files.map File.path
  root : ∃ f ∈ files, f.path = skillMd ∧ f.base64 = false

theorem nodup_of_checkFiles (h : checkFiles previous files paths total = .ok size) :
    (files.map File.path).Nodup ∧ ∀ f ∈ files, f.path ∉ paths := by
  induction files generalizing paths total with
  | nil => simp
  | cons file rest ih =>
    obtain ⟨path, hpath, h⟩ := bind_eq_ok.1 h
    cases validatePath_ok hpath
    split_ifs at h with hseen
    obtain ⟨bytes, -, h⟩ := bind_eq_ok.1 h
    obtain ⟨old, -, h⟩ := bind_eq_ok.1 h
    split_ifs at h with hlarge
    obtain ⟨hnodup, hfresh⟩ := ih h
    refine ⟨List.nodup_cons.2 ⟨fun hmem => ?_, hnodup⟩, ?_⟩
    · obtain ⟨f, hf, heq⟩ := List.mem_map.1 hmem
      exact hfresh f hf (heq ▸ List.mem_cons_self)
    · rw [List.forall_mem_cons]
      exact ⟨hseen, fun f hf hmem => hfresh f hf (List.mem_cons_of_mem _ hmem)⟩

theorem valid_of_validateFiles (h : validateFiles files previous = .ok out) : Valid out ∧ out.Perm files := by
  rw [validateFiles] at h
  split_ifs at h with hcount
  obtain ⟨total, htotal, h⟩ := bind_eq_ok.1 h
  obtain ⟨old, -, h⟩ := bind_eq_ok.1 h
  split_ifs at h with hlarge
  split at h
  · cases h
  rename_i hdirectories
  split at h
  · rename_i root hroot
    split_ifs at h with hbase64
    cases h
    have hperm : (sortByPath files).Perm files := List.perm_insertionSort _ _
    refine ⟨⟨?_, fun f hf parent hparent hmem => ?_, root, hperm.mem_iff.2 (List.mem_of_find?_eq_some hroot),
      by simpa using List.find?_some hroot, by simpa using hbase64⟩, hperm⟩
    · have hnodup : ((sortByPath files).map File.path).Nodup :=
        (hperm.map File.path).nodup_iff.2 (nodup_of_checkFiles htotal).1
      have hsorted : (sortByPath files).Pairwise fun a b => a.path ≤ b.path := List.pairwise_insertionSort _ _
      exact ((List.pairwise_map.2 hsorted).and hnodup).imp fun hle => lt_of_le_of_ne hle.1 hle.2
    · refine List.find?_eq_none.1 hdirectories f (hperm.mem_iff.1 hf) (List.any_eq_true.2 ⟨parent, hparent, ?_⟩)
      simpa using (hperm.map File.path).mem_iff.1 hmem
  · cases h

/-- Operations that do not raise run one after the other, each with its effect, and leave the files of a skill. -/
theorem applyOperations_spec (files : List File) (operations : List SkillFileOperation) :
    match applyOperations files operations with
    | .error _ => True
    | .ok out => Valid out ∧ ∃ last, Run (tableOf files) operations last ∧ ∀ f, f ∈ out ↔ last.get f.path = some f := by
  cases h : applyOperations files operations with
  | error e => trivial
  | ok out =>
    obtain ⟨last, hlast, hvalid⟩ := bind_eq_ok.1 h
    obtain ⟨hout, hperm⟩ := valid_of_validateFiles hvalid
    obtain ⟨hrun, hkeyed⟩ := run_of_foldlM operations (tableOf files) (keyed_tableOf files) hlast
    refine ⟨hout, last, hrun, fun f => ?_⟩
    rw [hperm.mem_iff, List.mem_map, KeyedTable.get_eq_some]
    constructor
    · rintro ⟨⟨p, f⟩, hmem, rfl⟩
      rwa [hkeyed p f (KeyedTable.get_eq_some.2 hmem)]
    · exact fun hmem => ⟨_, hmem, rfl⟩

end RyanAI.Skills
