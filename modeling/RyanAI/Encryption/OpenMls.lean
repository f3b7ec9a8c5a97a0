import Mathlib.Data.List.Nodup
import Mathlib.Data.List.Perm.Subperm
import Mathlib.Tactic

/-!
# What the session uses of OpenMLS

The crates that `crypto/encryption/src/lib.rs` calls are not part of the repository, so they are a parameter, `OpenMls`.
A call returns the provider and the group after it, and `none` where it fails. `OpenMls.Documented` lists what is relied
on: membership changes only when a commit is merged, and then exactly by its proposals (`Applied`). A commit of this
client carries proposals of the store and those of the call; the store is empty after a merge.
-/

namespace RyanAI.Encryption

abbrev Bytes := List UInt8

structure Leaf (Credential : Type) where
  credential : Credential
  signature_key : Bytes
  deriving DecidableEq

structure Member (Credential : Type) where
  index : ℕ
  leaf : Leaf Credential
  deriving DecidableEq

inductive Proposal (Credential : Type) where
  | add (leaf : Leaf Credential)
  | remove (index : ℕ)
  | update (leaf : Leaf Credential)
  | other

namespace Proposal

variable {Credential : Type}

def added : Proposal Credential → Option (Leaf Credential)
  | .add leaf => some leaf
  | _ => none

def removed : Proposal Credential → Option ℕ
  | .remove index => some index
  | _ => none

def updated : Proposal Credential → Option (Leaf Credential)
  | .update leaf => some leaf
  | _ => none

end Proposal

inductive Sender where
  | member (index : ℕ)
  | other
  deriving DecidableEq

/-- `ProcessedMessageContent`. -/
inductive Content (Queued Staged : Type) where
  | application (bytes : Bytes)
  | proposal (p : Queued)
  | commit (c : Staged)
  | other

structure Identity where
  channel : String
  session : String
  user : String
  participation : String
  deriving DecidableEq

structure Binding where
  identity : Identity
  key : String
  deriving DecidableEq

structure OpenMls where
  Provider : Type
  Group : Type
  Credential : Type
  KeyPackage : Type
  Welcome : Type
  Message : Type
  Processed : Type
  Queued : Type
  Staged : Type
  /-- What is sent to the others. -/
  Out : Type
  -- texts
  parse_bindings : String → Option (List Binding)
  parse_identity : String → Option Identity
  base64_decode : String → Option Bytes
  base64_encode : Bytes → String
  utf8_decode : Bytes → Option String
  encode : Out → Option String
  -- credentials
  basic : Identity → Option Credential
  identity : Credential → Option Identity
  -- groups
  members : Group → List (Member Credential)
  member_at : Group → ℕ → Option (Member Credential)
  group_id : Group → Bytes
  /-- The ciphersuite of the group is the one of the sessions. -/
  suite : Group → Bool
  pending_proposals : Group → List Queued
  pending_commit : Group → Option Staged
  own_leaf_index : Group → ℕ
  -- messages
  key_package_leaf : KeyPackage → Leaf Credential
  sender : Processed → Sender
  credential : Processed → Credential
  content : Processed → Content Queued Staged
  proposal : Queued → Proposal Credential
  proposal_sender : Queued → Sender
  queued_proposals : Staged → List Queued
  update_path_leaf_node : Staged → Option (Leaf Credential)
  /-- The leaf whose path is updated. -/
  committer : Staged → ℕ
  welcome : Bytes → Option Welcome
  message : Bytes → Option Message
  validate : Bytes → Option KeyPackage
  -- calls
  key_package : Provider → Leaf Credential → Provider × Option Out
  build : Provider → Bytes → Leaf Credential → Provider × Option Group
  into_group : Provider → Welcome → Provider × Option Group
  add_members : Provider → Group → KeyPackage → Provider × Group × Option (Out × Out)
  remove_members : Provider → Group → ℕ → Provider × Group × Option Out
  self_update : Provider → Group → Provider × Group × Option Out
  propose_self_update : Provider → Group → Provider × Group × Option Out
  commit_to_pending_proposals : Provider → Group → Provider × Group × Option Out
  create_message : Provider → Group → String → Provider × Group × Option Out
  process_message : Provider → Group → Message → Provider × Group × Option Processed
  store_pending_proposal : Provider → Group → Queued → Provider × Group × Option Unit
  merge_pending_commit : Provider → Group → Provider × Group × Option Unit
  merge_staged_commit : Provider → Group → Staged → Provider × Group × Option Unit

namespace OpenMls

variable (mls : OpenMls)

/-! ## Commits -/

def view (p : mls.Queued) : Proposal mls.Credential × Sender := (mls.proposal p, mls.proposal_sender p)

/-- `add_proposals`. -/
def adds (c : mls.Staged) : List (Leaf mls.Credential) :=
  ((mls.queued_proposals c).map mls.view).filterMap fun v => v.1.added

/-- `remove_proposals`. -/
def removes (c : mls.Staged) : List ℕ := ((mls.queued_proposals c).map mls.view).filterMap fun v => v.1.removed

/-- The new leaves that the member at `index` has proposed for itself. -/
def updates (c : mls.Staged) (index : ℕ) : List (Leaf mls.Credential) :=
  ((mls.queued_proposals c).map mls.view).filterMap fun v => if v.2 = .member index then v.1.updated else none

def newLeaf (c : mls.Staged) (m : Member mls.Credential) : Leaf mls.Credential :=
  if m.index = mls.committer c then (mls.update_path_leaf_node c).getD m.leaf
  else (mls.updates c m.index).getLast?.getD m.leaf

def Applied (c : mls.Staged) (before after : List (Member mls.Credential)) : Prop :=
  ∃ added : List (Member mls.Credential), added.map Member.leaf = mls.adds c ∧
    after.Perm ((before.filter fun m => m.index ∉ mls.removes c).map (fun m => ⟨m.index, mls.newLeaf c m⟩) ++ added)

def Keeps (g g' : mls.Group) : Prop :=
  mls.members g' = mls.members g ∧ mls.pending_proposals g' ⊆ mls.pending_proposals g

def Stages (g g' : mls.Group) (inline : List (Proposal mls.Credential)) : Prop :=
  ∃ c, mls.pending_commit g' = some c ∧
    ((mls.queued_proposals c).map mls.view).Subperm
      ((mls.pending_proposals g).map mls.view ++ inline.map fun p => (p, .member (mls.own_leaf_index g))) ∧
    ∀ leaf, mls.update_path_leaf_node c = some leaf → ∀ m ∈ mls.members g, m.index = mls.committer c →
      leaf.credential = m.leaf.credential

def Merges (c : mls.Staged) (g g' : mls.Group) (merged : Bool) : Prop :=
  if merged = true then mls.Applied c (mls.members g) (mls.members g') ∧ mls.pending_proposals g' = []
  else mls.Keeps g g'

structure Documented : Prop where
  identity_basic : ∀ id cred, mls.basic id = some cred → mls.identity cred = some id
  index_nodup : ∀ g, ((mls.members g).map Member.index).Nodup
  member_at_eq : ∀ g i, mls.member_at g i = (mls.members g).find? fun m => m.index = i
  build : ∀ p gid leaf p' g, mls.build p gid leaf = (p', some g) →
    (∃ i, mls.members g = [⟨i, leaf⟩]) ∧ mls.pending_proposals g = []
  -- calls that leave the members
  add_members : ∀ p g kp, mls.Keeps g (mls.add_members p g kp).2.1
  remove_members : ∀ p g i, mls.Keeps g (mls.remove_members p g i).2.1
  self_update : ∀ p g, mls.Keeps g (mls.self_update p g).2.1
  propose_self_update : ∀ p g, mls.members (mls.propose_self_update p g).2.1 = mls.members g
  commit_to_pending_proposals : ∀ p g, mls.Keeps g (mls.commit_to_pending_proposals p g).2.1
  create_message : ∀ p g text, mls.Keeps g (mls.create_message p g text).2.1
  process_message : ∀ p g msg, mls.Keeps g (mls.process_message p g msg).2.1
  store_pending_proposal : ∀ p g q, mls.members (mls.store_pending_proposal p g q).2.1 = mls.members g ∧
    ∀ q' ∈ mls.pending_proposals (mls.store_pending_proposal p g q).2.1, q' = q ∨ q' ∈ mls.pending_proposals g
  -- commits of this client
  add_stages : ∀ p g kp, (mls.add_members p g kp).2.2.isSome →
    mls.Stages g (mls.add_members p g kp).2.1 [.add (mls.key_package_leaf kp)]
  remove_stages : ∀ p g i, (mls.remove_members p g i).2.2.isSome →
    mls.Stages g (mls.remove_members p g i).2.1 [.remove i]
  update_stages : ∀ p g, (mls.self_update p g).2.2.isSome → mls.Stages g (mls.self_update p g).2.1 []
  commit_stages : ∀ p g, (mls.commit_to_pending_proposals p g).2.2.isSome →
    mls.Stages g (mls.commit_to_pending_proposals p g).2.1 []
  merge_pending : ∀ p g c, mls.pending_commit g = some c →
    mls.Merges c g (mls.merge_pending_commit p g).2.1 (mls.merge_pending_commit p g).2.2.isSome
  -- messages of other members
  sender_credential : ∀ p g msg processed i m, (mls.process_message p g msg).2.2 = some processed →
    mls.sender processed = .member i → mls.member_at g i = some m → mls.credential processed = m.leaf.credential
  sender_proposal : ∀ p g msg processed q, (mls.process_message p g msg).2.2 = some processed →
    mls.content processed = .proposal q → mls.proposal_sender q = mls.sender processed
  sender_commit : ∀ p g msg processed c, (mls.process_message p g msg).2.2 = some processed →
    mls.content processed = .commit c → mls.sender processed = .member (mls.committer c) ∨ mls.sender processed = .other
  removes_nodup : ∀ p g msg processed c, (mls.process_message p g msg).2.2 = some processed →
    mls.content processed = .commit c → (mls.removes c).Nodup
  merge_staged : ∀ p g c, mls.Merges c g (mls.merge_staged_commit p g c).2.1
    (mls.merge_staged_commit p g c).2.2.isSome

end OpenMls

end RyanAI.Encryption
