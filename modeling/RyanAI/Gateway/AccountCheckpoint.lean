import RyanAI.Lib.Base64
import RyanAI.Lib.JsonParse
import RyanAI.Lib.Utf8

/-!
# Account checkpoints

`shard-manager.ts` moves an account between hosts: `collectAccountCheckpoint` puts the two files of the account into one
JSON document, leaving out absent ones, and `restoreAccountCheckpoint` checks and writes the entries one by one into
another state directory, a function from relative paths to contents. `checkpoint_restores_iff` says when the target ends
up with the files of the source, and when a restore that throws leaves the target as it was.
-/

namespace RyanAI.Gateway.Checkpoint

open RyanAI.Lib
open RyanAI.Lib.JsonText (Value)

abbrev Bytes := List UInt8

abbrev Directory := String → Option Bytes

def maxAccountCheckpointBytes : ℕ := 1024 * 1024

structure AccountCheckpoint where
  payload : Bytes
  sha256 : String

inductive Thrown where
  | error (message : String)
  | typeError
  | syntaxError
  deriving DecidableEq

def tooLarge : Thrown := .error "account_checkpoint_too_large"

def keyChar (c : Char) : Bool := c.isAlpha || c.isDigit || c = '.' || c = '_' || c = ':' || c = '@' || c = '-'

/-- `/^[A-Za-z0-9._:@-]{1,512}$/`. -/
def accountKeyOk (accountKey : String) : Bool :=
  accountKey.toList.all keyChar && 1 ≤ accountKey.toList.length && accountKey.toList.length ≤ 512

def checkpointPaths (accountKey : String) : List String :=
  if accountKeyOk accountKey then
    ["openclaw-weixin/accounts/" ++ accountKey ++ ".sync.json",
      "credentials/openclaw-weixin-" ++ accountKey ++ "-allowFrom.json"]
  else []

def collectFiles (stateDir : Directory) : List String → (total : ℕ) → Except Thrown (List (String × Bytes))
  | [], _ => .ok []
  | path :: rest, total =>
    match stateDir path with
    | none => collectFiles stateDir rest total
    | some content =>
      if maxAccountCheckpointBytes < total + content.length then .error tooLarge
      else do
        let files ← collectFiles stateDir rest (total + content.length)
        return (path, content) :: files

/-- One element of `files`. -/
def fileEntry (file : String × Bytes) : Value :=
  .obj [("path", .str file.1), ("base64", .str (String.ofList (Base64.encode file.2)))]

/-- `CheckpointDocument`. -/
def checkpointDocument (files : List (String × Bytes)) : Value :=
  .obj [("version", .num 1), ("files", .arr (files.map fileEntry))]

def payloadOf (files : List (String × Bytes)) : Bytes := Utf8.encode (JsonParse.stringify (checkpointDocument files))

/-- `collectAccountCheckpoint`. -/
def collectAccountCheckpoint (sha256Hex : Bytes → String) (stateDir : Directory) (accountKey : String) :
    Except Thrown (Option AccountCheckpoint) := do
  let files ← collectFiles stateDir (checkpointPaths accountKey) 0
  if files = [] then return none
  else
    let payload := payloadOf files
    if maxAccountCheckpointBytes < payload.length then throw tooLarge
    else return some ⟨payload, sha256Hex payload⟩

def allowedEntry (allowed : List String) : Json → Option (String × String)
  | .obj fields =>
    match fields.lookup "path", fields.lookup "base64" with
    | some (.str path), some (.str base64) => if path ∈ allowed then some (path, base64) else none
    | _, _ => none
  | _ => none

def writeFile (stateDir : Directory) (path : String) (content : Bytes) : Directory := Function.update stateDir path content

def restoreFiles (allowed : List String) : List Json → (total : ℕ) → Directory → Except Thrown Unit × Directory
  | [], _, stateDir => (.ok (), stateDir)
  | file :: rest, total, stateDir =>
    match allowedEntry allowed file with
    | none => (.error (.error "invalid_account_checkpoint_path"), stateDir)
    | some (path, base64) =>
      let content := Base64.lenient base64.toList
      if maxAccountCheckpointBytes < total + content.length then (.error tooLarge, stateDir)
      else restoreFiles allowed rest (total + content.length) (writeFile stateDir path content)

def documentFiles (payload : Bytes) : Except Thrown (List Json) :=
  if maxAccountCheckpointBytes < payload.length then .error tooLarge
  else
    match JsonParse.parse (Utf8.decode payload) with
    | none => .error .syntaxError
    | some .null => .error .typeError
    | some (.obj fields) =>
      match fields.lookup "version", fields.lookup "files" with
      | some (.num q), some (.arr files) => if q = 1 then .ok files else .error (.error "invalid_account_checkpoint")
      | _, _ => .error (.error "invalid_account_checkpoint")
    | some _ => .error (.error "invalid_account_checkpoint")

/-- `restoreAccountCheckpoint`, with the directory that it leaves. -/
def restoreAccountCheckpoint (stateDir : Directory) (accountKey : String) (payload : Bytes) :
    Except Thrown Unit × Directory :=
  match documentFiles payload with
  | .error e => (.error e, stateDir)
  | .ok files => restoreFiles (checkpointPaths accountKey) files 0 stateDir

/-! ## What a restore writes -/

def accepted (allowed : List String) : List Json → (total : ℕ) → List (String × Bytes)
  | [], _ => []
  | file :: rest, total =>
    match allowedEntry allowed file with
    | none => []
    | some (path, base64) =>
      let content := Base64.lenient base64.toList
      if maxAccountCheckpointBytes < total + content.length then []
      else (path, content) :: accepted allowed rest (total + content.length)

def writeFiles (files : List (String × Bytes)) (stateDir : Directory) : Directory :=
  files.foldl (fun dir file => writeFile dir file.1 file.2) stateDir

theorem restoreFiles_snd (allowed : List String) (files : List Json) (total : ℕ) (stateDir : Directory) :
    (restoreFiles allowed files total stateDir).2 = writeFiles (accepted allowed files total) stateDir := by
  induction files generalizing total stateDir with
  | nil => rfl
  | cons file rest ih =>
    rw [restoreFiles, accepted]
    cases hentry : allowedEntry allowed file with
    | none => rfl
    | some entry =>
      dsimp only
      split
      · rfl
      · exact ih _ _

def lastWrite (files : List (String × Bytes)) (path : String) : Option Bytes := files.reverse.lookup path

theorem writeFiles_apply (files : List (String × Bytes)) (stateDir : Directory) (path : String) :
    writeFiles files stateDir path = (lastWrite files path).or (stateDir path) := by
  induction files generalizing stateDir with
  | nil => rfl
  | cons file rest ih =>
    have hcons : writeFiles (file :: rest) stateDir = writeFiles rest (writeFile stateDir file.1 file.2) := rfl
    rw [hcons, ih, lastWrite, lastWrite, List.reverse_cons, List.lookup_append, Option.or_assoc]
    congr 1
    rw [writeFile]
    by_cases hpath : path = file.1
    · rw [hpath, Function.update_self]
      simp [List.lookup]
    · have hne : (path == file.1) = false := by simpa using hpath
      rw [Function.update_of_ne hpath]
      simp [List.lookup, hne]

def written (accountKey : String) (payload : Bytes) : List (String × Bytes) :=
  match documentFiles payload with
  | .error _ => []
  | .ok files => accepted (checkpointPaths accountKey) files 0

theorem restoreAccountCheckpoint_snd (stateDir : Directory) (accountKey : String) (payload : Bytes) :
    (restoreAccountCheckpoint stateDir accountKey payload).2 = writeFiles (written accountKey payload) stateDir := by
  rw [restoreAccountCheckpoint, written]
  cases documentFiles payload with
  | error e => rfl
  | ok files => exact restoreFiles_snd _ files 0 stateDir

def Repeats (stateDir : Directory) (accountKey : String) (payload : Bytes) : Prop :=
  ∀ path content, lastWrite (written accountKey payload) path = some content → stateDir path = some content

theorem unchanged_iff (stateDir : Directory) (accountKey : String) (payload : Bytes) :
    (restoreAccountCheckpoint stateDir accountKey payload).2 = stateDir ↔ Repeats stateDir accountKey payload := by
  rw [restoreAccountCheckpoint_snd]
  constructor
  · intro h path content hwrite
    have hpath := congrFun h path
    rw [writeFiles_apply, hwrite] at hpath
    exact hpath.symm
  · intro h
    funext path
    rw [writeFiles_apply]
    cases hwrite : lastWrite (written accountKey payload) path with
    | none => rfl
    | some content => exact (h path content hwrite).symm

/-! ## A collected payload -/

def Fits (files : List (String × Bytes)) (total : ℕ) : Prop :=
  total + (files.map fun file => file.2.length).sum ≤ maxAccountCheckpointBytes

variable {files : List (String × Bytes)}

theorem collectFiles_ok
    (htotal : total ≤ maxAccountCheckpointBytes) (h : collectFiles stateDir paths total = .ok files) :
    (∀ path content, (path, content) ∈ files ↔ path ∈ paths ∧ stateDir path = some content) ∧ Fits files total := by
  induction paths generalizing total files with
  | nil =>
    cases h
    exact ⟨by simp, by simpa [Fits] using htotal⟩
  | cons first rest ih =>
    rw [collectFiles] at h
    cases hread : stateDir first with
    | none =>
      rw [hread] at h
      obtain ⟨hmem, hfits⟩ := ih htotal h
      refine ⟨fun path content => ?_, hfits⟩
      rw [hmem, List.mem_cons]
      constructor
      · exact fun hpath => ⟨.inr hpath.1, hpath.2⟩
      · rintro ⟨rfl | hpath, hcontent⟩
        · rw [hread] at hcontent
          cases hcontent
        · exact ⟨hpath, hcontent⟩
    | some content =>
      rw [hread] at h
      dsimp only at h
      split at h
      · cases h
      obtain ⟨others, hothers, h⟩ := bind_eq_ok.1 h
      cases h
      obtain ⟨hmem, hfits⟩ := ih (by omega) hothers
      refine ⟨fun path content' => ?_, ?_⟩
      · rw [List.mem_cons, hmem, List.mem_cons, Prod.mk.injEq]
        constructor
        · rintro (⟨rfl, rfl⟩ | hpath)
          · exact ⟨.inl rfl, hread⟩
          · exact ⟨.inr hpath.1, hpath.2⟩
        · rintro ⟨rfl | hpath, hcontent⟩
          · rw [hread] at hcontent
            exact .inl ⟨rfl, (Option.some.inj hcontent).symm⟩
          · exact .inr ⟨hpath, hcontent⟩
      · simp only [Fits, List.map_cons, List.sum_cons] at hfits ⊢
        omega

def entryJson (file : String × Bytes) : Json :=
  .obj [("path", .str file.1), ("base64", .str (String.ofList (Base64.encode file.2)))]

theorem json_fileEntry (file : String × Bytes) : JsonParse.json (fileEntry file) = entryJson file := by
  simp [fileEntry, JsonParse.json, JsonParse.jsonFields, entryJson, Dict.update, Dict.set]

theorem jsons_fileEntry (files : List (String × Bytes)) : JsonParse.jsons (files.map fileEntry) = files.map entryJson := by
  induction files with
  | nil => rfl
  | cons file rest ih => rw [List.map_cons, JsonParse.jsons, json_fileEntry, ih, List.map_cons]

theorem roundDouble_one : NumericText.roundDouble ((1 : ℕ) : ℚ) = 1 := by
  have hsmall := NumericText.roundDouble_of_small (n := 1) (by decide) (by norm_num)
  simpa using hsmall

theorem documentFiles_payloadOf (h : (payloadOf files).length ≤ maxAccountCheckpointBytes) :
    documentFiles (payloadOf files) = .ok (files.map entryJson) := by
  have hjson : JsonParse.json (checkpointDocument files) =
      .obj [("version", .num 1), ("files", .arr (files.map entryJson))] := by
    simp only [checkpointDocument, JsonParse.json, JsonParse.jsonFields, jsons_fileEntry, roundDouble_one]
    rfl
  have hparse : JsonParse.parse (Utf8.decode (payloadOf files)) =
      some (.obj [("version", .num 1), ("files", .arr (files.map entryJson))]) := by
    rw [payloadOf, Utf8.decode_encode, JsonParse.parse_stringify, hjson]
  rw [documentFiles, if_neg (by omega), hparse]
  simp [List.lookup]

theorem restoreFiles_entries {allowed : List String} {total : ℕ} (hallowed : ∀ file ∈ files, file.1 ∈ allowed)
    (hfits : Fits files total) (stateDir : Directory) :
    restoreFiles allowed (files.map entryJson) total stateDir = (.ok (), writeFiles files stateDir) := by
  induction files generalizing total stateDir with
  | nil => rfl
  | cons file rest ih =>
    have hentry : allowedEntry allowed (entryJson file) =
        some (file.1, String.ofList (Base64.encode file.2)) := by
      simp [allowedEntry, entryJson, List.lookup, hallowed file List.mem_cons_self]
    simp only [Fits, List.map_cons, List.sum_cons] at hfits
    rw [List.map_cons, restoreFiles, hentry]
    simp only [String.toList_ofList, Base64.lenient_encode]
    rw [if_neg (by omega), ih (List.forall_mem_of_forall_mem_cons hallowed) (by simp only [Fits]; omega)]
    rfl

theorem lastWrite_of_source {source : Directory} {paths : List String}
    (hmem : ∀ path content, (path, content) ∈ files ↔ path ∈ paths ∧ source path = some content) {path : String}
    (hpath : path ∈ paths) : lastWrite files path = source path := by
  cases hwrite : lastWrite files path with
  | some content =>
    obtain ⟨front, back, hsplit, -⟩ := List.lookup_eq_some_iff.1 hwrite
    have hin : (path, content) ∈ files := by
      rw [← List.mem_reverse, hsplit]
      simp
    exact ((hmem path content).1 hin).2.symm
  | none =>
    cases hsource : source path with
    | none => rfl
    | some content =>
      have hin := (hmem path content).2 ⟨hpath, hsource⟩
      have hnot := List.lookup_eq_none_iff.1 hwrite (path, content) (List.mem_reverse.2 hin)
      simp at hnot

theorem restore_collected {sha256Hex : Bytes → String} {accountKey : String}
    {checkpoint : AccountCheckpoint} (h : collectAccountCheckpoint sha256Hex source accountKey = .ok (some checkpoint))
    (target : Directory) :
    let r := restoreAccountCheckpoint target accountKey checkpoint.payload
    r.1 = .ok () ∧ ∀ path ∈ checkpointPaths accountKey, r.2 path = (source path).or (target path) := by
  obtain ⟨files, hfiles, h⟩ := bind_eq_ok.1 h
  obtain ⟨hmem, hfits⟩ := collectFiles_ok (Nat.zero_le _) hfiles
  split at h
  · cases h
  dsimp only at h
  split at h
  · cases h
  rename_i hsize
  cases h
  have hdocument := @documentFiles_payloadOf files (by omega)
  have hrestore := @restoreFiles_entries files (checkpointPaths accountKey) _
    (fun file hfile => ((hmem file.1 file.2).1 hfile).1) hfits target
  simp only [restoreAccountCheckpoint, hdocument, hrestore, true_and]
  intro path hpath
  rw [writeFiles_apply, lastWrite_of_source hmem hpath]

def Covers (source target : Directory) (accountKey : String) : Prop :=
  ∀ path ∈ checkpointPaths accountKey, source path = none → target path = none

/-- A restore is exact if and only if the target has no other file, and a failed one has no effect
if and only if the entries before repeat what the files hold. -/
theorem checkpoint_restores_iff (sha256Hex : Bytes → String) (accountKey : String) (source target : Directory) :
    (∀ checkpoint, collectAccountCheckpoint sha256Hex source accountKey = .ok (some checkpoint) →
      let r := restoreAccountCheckpoint target accountKey checkpoint.payload
      (r.1 = .ok () ∧ ∀ path ∈ checkpointPaths accountKey, r.2 path = source path) ↔ Covers source target accountKey) ∧
      ∀ payload, (restoreAccountCheckpoint target accountKey payload).1 ≠ .ok () →
        ((restoreAccountCheckpoint target accountKey payload).2 = target ↔ Repeats target accountKey payload) := by
  refine ⟨fun checkpoint hcollect => ?_, fun payload _ => unchanged_iff target accountKey payload⟩
  obtain ⟨hok, hfiles⟩ := restore_collected hcollect target
  constructor
  · rintro ⟨-, hsame⟩ path hpath hsource
    have hfile := hsame path hpath
    rw [hfiles path hpath, hsource] at hfile
    exact hfile
  · intro hcovers
    refine ⟨hok, fun path hpath => ?_⟩
    rw [hfiles path hpath]
    cases hsource : source path with
    | none => exact hcovers path hpath hsource
    | some content => rfl

def syncPath : String := "openclaw-weixin/accounts/wx.sync.json"

def allowFromPath : String := "credentials/openclaw-weixin-wx-allowFrom.json"

theorem checkpointPaths_wx : checkpointPaths "wx" = [syncPath, allowFromPath] := by decide

def onlyFile (path : String) : Directory := fun p => if p = path then some [123, 125] else none

def escapingFiles : List (String × Bytes) := [(syncPath, [42]), ("../escape", [])]

set_option maxRecDepth 8000 in
theorem length_escaping : (payloadOf escapingFiles).length ≤ 1024 := by decide

set_option maxRecDepth 8000 in
theorem length_synced : (payloadOf [(syncPath, [123, 125])]).length ≤ 1024 := by decide

theorem collect_synced : collectAccountCheckpoint (fun _ => "") (onlyFile syncPath) "wx" =
    .ok (some ⟨payloadOf [(syncPath, [123, 125])], ""⟩) := by
  have hlength := length_synced
  have hfiles : collectFiles (onlyFile syncPath) (checkpointPaths "wx") 0 = .ok [(syncPath, [123, 125])] := by
    rw [checkpointPaths_wx]
    rfl
  rw [collectAccountCheckpoint, hfiles, ok_bind, if_neg (List.cons_ne_nil _ _)]
  rw [if_neg (by rw [maxAccountCheckpointBytes]; omega)]
  rfl

theorem checkpoint_restores_empty :
    let r := restoreAccountCheckpoint (fun _ => none) "wx" (payloadOf [(syncPath, [123, 125])])
    r.1 = .ok () ∧ ∀ path ∈ checkpointPaths "wx", r.2 path = onlyFile syncPath path :=
  ((checkpoint_restores_iff (fun _ => "") "wx" (onlyFile syncPath) fun _ => none).1 _ collect_synced).2
    fun _ _ _ => rfl

/-- A foreign file stays, and a bad document is restored in part. -/
theorem checkpoint_leaves_stale_and_partial :
    (∃ checkpoint, collectAccountCheckpoint (fun _ => "") (onlyFile syncPath) "wx" = .ok (some checkpoint) ∧
      (restoreAccountCheckpoint (onlyFile allowFromPath) "wx" checkpoint.payload).2 allowFromPath ≠
        onlyFile syncPath allowFromPath) ∧
      ∃ payload, (restoreAccountCheckpoint (fun _ => none) "wx" payload).1 ≠ .ok () ∧
        (restoreAccountCheckpoint (fun _ => none) "wx" payload).2 syncPath ≠ none := by
  refine ⟨⟨_, collect_synced, ?_⟩, payloadOf escapingFiles, ?_⟩
  · have hpath : allowFromPath ∈ checkpointPaths "wx" := by
      rw [checkpointPaths_wx]
      exact List.mem_cons_of_mem _ List.mem_cons_self
    rw [(restore_collected collect_synced (onlyFile allowFromPath)).2 allowFromPath hpath]
    decide
  · have hlength := length_escaping
    have hdocument := @documentFiles_payloadOf escapingFiles (by rw [maxAccountCheckpointBytes]; omega)
    rw [restoreAccountCheckpoint, hdocument]
    decide

end RyanAI.Gateway.Checkpoint
