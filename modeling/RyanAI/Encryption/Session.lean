import RyanAI.Encryption.OpenMls

/-!
# Sessions of temporary encrypted chats

`crypto/encryption/src/lib.rs`. A `Session` belongs to one client of one chat; it has a group from `create`
or `join` on. Every method returns the session after it, and `none` where it fails: all errors are one text.

Whoever has the participation `host` admits and removes members. The others take its commits through
`process`, which compares every identity in them with the roster that the server supplies.
-/

namespace RyanAI.Encryption

/-- `MAX_PACKET`. -/
def maxPacket : ℕ := 1024 * 1024

/-- `require`. -/
def require (ok : Prop) [Decidable ok] : Option Unit := if ok then some () else none

structure Session (mls : OpenMls) where
  provider : mls.Provider
  leaf : Leaf mls.Credential
  id : Identity
  host : String
  group : Option mls.Group

/-- What `process` returns. -/
inductive Received where
  | application (sender : Identity) (text : String)
  | proposal
  | commit
  deriving DecidableEq

section Checks

variable (mls : OpenMls)

def decode (text : String) : Option Bytes := do
  require (text.utf8ByteSize ≤ maxPacket * 4 / 3 + 4)
  let bytes ← mls.base64_decode text
  require (bytes.length ≤ maxPacket)
  return bytes

/-- A leaf of the chat of `context` that the roster binds. -/
def check (leaf : Leaf mls.Credential) (context : Identity) (roster : List Binding) : Option Identity := do
  let id ← mls.identity leaf.credential
  require (id.channel = context.channel ∧ id.session = context.session)
  require (∃ b ∈ roster, b.identity = id ∧ b.key = mls.base64_encode leaf.signature_key)
  return id

def checkBinding (context : Identity) (seen : List String × List String) (b : Binding) :
    Option (List String × List String) := do
  require (b.identity.channel = context.channel ∧ b.identity.session = context.session ∧
    b.identity.user ∉ seen.1 ∧ b.identity.participation ∉ seen.2)
  let key ← decode mls b.key
  require (key.length = 32)
  return (b.identity.user :: seen.1, b.identity.participation :: seen.2)

def roster (value : String) (context : Identity) : Option (List Binding) := do
  let roster ← mls.parse_bindings value
  require (roster ≠ [] ∧ roster.length ≤ 128)
  let _ ← roster.foldlM (checkBinding mls context) ([], [])
  return roster

/-- `group.members().any(|m| identity(&m.credential).is_ok_and(…))` -/
def hasUser (g : mls.Group) (user : String) : Bool :=
  (mls.members g).any fun m => (mls.identity m.leaf.credential).any fun i => i.user = user

def checkMember (context : Identity) (roster : List Binding) (users : List String) (m : Member mls.Credential) :
    Option (List String) := do
  let id ← check mls m.leaf context roster
  require (id.user ∉ users)
  return id.user :: users

/-- `identity(&m.credential).is_ok_and(|i| i.participation == participation)`. -/
def hasParticipation (participation : String) (m : Member mls.Credential) : Bool :=
  (mls.identity m.leaf.credential).any fun i => i.participation = participation

def checkProposal (context : Identity) (host : String) (roster : List Binding) (g : mls.Group)
    (added_users : List String) (p : mls.Queued) : Option (List String) :=
  match mls.proposal p with
  | .add leaf => do
    let id ← check mls leaf context roster
    require (id.user ∉ added_users ∧ ¬ hasUser mls g id.user)
    return id.user :: added_users
  | .remove removed => do
    let m ← mls.member_at g removed
    let id ← mls.identity m.leaf.credential
    require (id.participation ≠ host ∧ ¬ ∃ b ∈ roster, b.identity = id)
    return added_users
  | .update leaf =>
    match mls.proposal_sender p with
    | .member idx => do
      let old ← mls.member_at g idx
      let id ← check mls leaf context roster
      let oldId ← mls.identity old.leaf.credential
      require (id = oldId)
      return added_users
    | .other => none
  | .other => none

def checkPath (context : Identity) (roster : List Binding) (sender : Identity) :
    Option (Leaf mls.Credential) → Option Unit
  | some leaf => require (check mls leaf context roster = some sender)
  | none => some ()

def checkCommit (context : Identity) (host : String) (roster : List Binding) (g : mls.Group) (sender : Identity)
    (c : mls.Staged) : Option Unit := do
  require (sender.participation = host)
  checkPath mls context roster sender (mls.update_path_leaf_node c)
  let _ ← (mls.queued_proposals c).foldlM (checkProposal mls context host roster g) []
  -- the removed members exist and are distinct, so nothing is subtracted from less
  require ((mls.members g).length + (mls.adds c).length - (mls.removes c).length ≤ 128)

def checkSender (context : Identity) (roster : List Binding) (g : mls.Group) (processed : mls.Processed)
    (expected : String) : Option Identity :=
  match mls.sender processed with
  | .member index => do
    let member ← mls.member_at g index
    let sender ← check mls ⟨mls.credential processed, member.leaf.signature_key⟩ context roster
    require (sender.participation = expected)
    return sender
  | .other => none

def checkUpdate (context : Identity) (roster : List Binding) (sender : Identity) (p : mls.Queued) : Option Unit :=
  match mls.proposal p with
  | .update leaf => do
    let id ← check mls leaf context roster
    require (id = sender)
  | _ => none

end Checks

namespace Session

variable {mls : OpenMls}

/-- `Session::new`, with the signature key that was made for it. -/
def new (provider : mls.Provider) (signature_key : Bytes) (identity_json host : String) : Option (Session mls) := do
  let id ← mls.parse_identity identity_json
  require ((∀ s ∈ [id.channel, id.session, id.user, id.participation], s ≠ "" ∧ s.utf8ByteSize ≤ 128) ∧ host ≠ "")
  let credential ← mls.basic id
  return ⟨provider, ⟨credential, signature_key⟩, id, host, none⟩

def after (s : Session mls) (provider : mls.Provider) (g : mls.Group) : Session mls :=
  { s with provider := provider, group := some g }

def keyPackage (s : Session mls) : Session mls × Option String :=
  match s.group with
  | some _ => (s, none)
  | none =>
    let (provider, kp) := mls.key_package s.provider s.leaf
    ({ s with provider := provider }, kp.bind mls.encode)

def create (s : Session mls) : Session mls × Option Unit :=
  if s.group.isNone ∧ s.id.participation = s.host then
    match mls.build s.provider s.id.session.toUTF8.toList s.leaf with
    | (provider, some g) => (s.after provider g, some ())
    | (provider, none) => ({ s with provider := provider }, none)
  else (s, none)

/-- The checks of `join` after the welcome has been read. -/
def checkGroup (s : Session mls) (roster : List Binding) (g : mls.Group) : Option Unit := do
  require (mls.group_id g = s.id.session.toUTF8.toList ∧ mls.suite g = true)
  let _ ← (mls.members g).foldlM (checkMember mls s.id roster) []
  require ((mls.members g).any (hasParticipation mls s.host) = true)

def join (s : Session mls) (welcome bindings : String) : Session mls × Option Unit :=
  if s.group.isNone ∧ s.id.participation ≠ s.host then
    match roster mls bindings s.id, (decode mls welcome).bind mls.welcome with
    | some roster, some welcome =>
      match mls.into_group s.provider welcome with
      | (provider, some g) =>
        if (s.checkGroup roster g).isSome then (s.after provider g, some ())
        else ({ s with provider := provider }, none)
      | (provider, none) => ({ s with provider := provider }, none)
    | _, _ => (s, none)
  else (s, none)

def finish {α : Type} (s : Session mls) (staged : mls.Provider × mls.Group × Option α) (out : α → Option String) :
    Session mls × Option String :=
  let (provider, g, result) := staged
  match result.bind out with
  | none => (s.after provider g, none)
  | some text =>
    let (provider, g, merged) := mls.merge_pending_commit provider g
    (s.after provider g, merged.map fun _ => text)

/-- The group and the key package of `add`. -/
def checkAdd (s : Session mls) (key_package expected bindings : String) : Option (mls.Group × mls.KeyPackage) := do
  require (s.id.participation = s.host)
  let roster ← roster mls bindings s.id
  let kp ← (decode mls key_package).bind mls.validate
  let id ← check mls (mls.key_package_leaf kp) s.id roster
  require (id.participation = expected)
  let g ← s.group
  require ((mls.members g).length < 128 ∧ ¬ hasUser mls g id.user)
  return (g, kp)

/-- `json!({"commit": …, "welcome": …})`. -/
def commitAndWelcome (out : mls.Out × mls.Out) : Option String := do
  let commit ← mls.encode out.1
  let welcome ← mls.encode out.2
  return "\x7b\"commit\":\"" ++ commit ++ "\",\"welcome\":\"" ++ welcome ++ "\"\x7d"

def add (s : Session mls) (key_package expected bindings : String) : Session mls × Option String :=
  match s.checkAdd key_package expected bindings with
  | none => (s, none)
  | some (g, kp) => s.finish (mls.add_members s.provider g kp) commitAndWelcome

/-- The group and the member of `remove`. -/
def checkRemove (s : Session mls) (participation bindings : String) : Option (mls.Group × Member mls.Credential) := do
  require (s.id.participation = s.host ∧ participation ≠ s.host)
  let roster ← roster mls bindings s.id
  require (¬ ∃ b ∈ roster, b.identity.participation = participation)
  let g ← s.group
  let m ← (mls.members g).find? (hasParticipation mls participation)
  return (g, m)

def remove (s : Session mls) (participation bindings : String) : Session mls × Option String :=
  match s.checkRemove participation bindings with
  | none => (s, none)
  | some (g, m) => s.finish (mls.remove_members s.provider g m.index) mls.encode

def update (s : Session mls) : Session mls × Option String :=
  match s.group with
  | none => (s, none)
  | some g =>
    if s.id.participation = s.host then s.finish (mls.self_update s.provider g) mls.encode
    else
      let (provider, g, result) := mls.propose_self_update s.provider g
      (s.after provider g, result.bind mls.encode)

def commitUpdates (s : Session mls) : Session mls × Option String :=
  match s.group with
  | none => (s, none)
  | some g =>
    if s.id.participation = s.host then s.finish (mls.commit_to_pending_proposals s.provider g) mls.encode
    else (s, none)

def encrypt (s : Session mls) (text : String) : Session mls × Option String :=
  match s.group with
  | none => (s, none)
  | some g =>
    if text.utf8ByteSize ≤ 100 * 1024 then
      let (provider, g, result) := mls.create_message s.provider g text
      (s.after provider g, result.bind mls.encode)
    else (s, none)

/-- What `process` does with the content of a message that it accepts. -/
def receive (s : Session mls) (g : mls.Group) (roster : List Binding) (sender : Identity) :
    Content mls.Queued mls.Staged → Session mls × Option Received
  | .application bytes =>
    (s, if bytes.length ≤ 100 * 1024 then (mls.utf8_decode bytes).map (.application sender) else none)
  | .proposal p =>
    match checkUpdate mls s.id roster sender p with
    | none => (s, none)
    | some _ =>
      let (provider, g, stored) := mls.store_pending_proposal s.provider g p
      (s.after provider g, stored.map fun _ => .proposal)
  | .commit c =>
    match checkCommit mls s.id s.host roster g sender c with
    | none => (s, none)
    | some _ =>
      let (provider, g, merged) := mls.merge_staged_commit s.provider g c
      (s.after provider g, merged.map fun _ => .commit)
  | .other => (s, none)

/-- The roster, the group and the message of `process`. -/
def checkPacket (s : Session mls) (packet bindings : String) : Option (List Binding × mls.Group × mls.Message) := do
  let roster ← roster mls bindings s.id
  let g ← s.group
  let message ← (decode mls packet).bind mls.message
  return (roster, g, message)

def process (s : Session mls) (packet expected bindings : String) : Session mls × Option Received :=
  match s.checkPacket packet bindings with
  | none => (s, none)
  | some (roster, g, message) =>
    let (provider, g, result) := mls.process_message s.provider g message
    let s := s.after provider g
    match result with
    | none => (s, none)
    | some processed =>
      match checkSender mls s.id roster g processed expected with
      | none => (s, none)
      | some sender => s.receive g roster sender (mls.content processed)

end Session

end RyanAI.Encryption
