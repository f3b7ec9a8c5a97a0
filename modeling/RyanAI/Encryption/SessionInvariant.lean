import RyanAI.Encryption.Session
import RyanAI.Lib.Base64
import RyanAI.Lib.Machine

/-!
# The membership of a session

`Good` holds of the members of a group in every state of a session. What a merged commit needs for that is
the same whoever has made it (`Good.applied`); for a commit of another member `process` checks it, and a
commit of this client, which is the host then, has one proposal of its own and updates that were checked when
they were stored (`PendingOk`).
-/

namespace RyanAI.Encryption

open RyanAI.Lib

variable {mls : OpenMls}

theorem require_eq_some {ok : Prop} [Decidable ok] : require ok = some u ↔ ok := by
  unfold require
  split <;> simp [*]

variable {context id sender : Identity} {leaf : Leaf mls.Credential} {bindings : List Binding} {c : mls.Staged}
    {host : String} {g g' : mls.Group} {m : Member mls.Credential} {i : ℕ} {users users' : List String}
    {s : Session mls}

theorem check_eq_some {roster : List Binding} (h : check mls leaf context roster = some id) :
    mls.identity leaf.credential = some id ∧ id.channel = context.channel ∧ id.session = context.session ∧
      ∃ b ∈ roster, b.identity = id ∧ b.key = mls.base64_encode leaf.signature_key := by
  simp only [check, Option.bind_eq_bind, Option.bind_eq_some_iff, require_eq_some] at h
  obtain ⟨id', hid, -, hcontext, -, hroster, h⟩ := h
  cases h
  exact ⟨hid, hcontext.1, hcontext.2, hroster⟩

theorem roster_eq_some (h : roster mls value context = some bindings) : bindings.length ≤ 128 := by
  simp only [roster, Option.bind_eq_bind, Option.bind_eq_some_iff, require_eq_some] at h
  obtain ⟨bindings', -, -, hlength, -, -, h⟩ := h
  cases h
  exact hlength.2

variable (mls) in
def userOf (leaf : Leaf mls.Credential) : Option String := (mls.identity leaf.credential).map Identity.user

variable (mls) in
def Belongs (id : Identity) (leaf : Leaf mls.Credential) : Prop :=
  ∃ i, mls.identity leaf.credential = some i ∧ i.channel = id.channel ∧ i.session = id.session

variable (mls) in
/-- Distinct users of the chat of `id`, at most 128, with the host. -/
structure Good (id : Identity) (host : String) (members : List (Member mls.Credential)) : Prop where
  belongs : ∀ m ∈ members, Belongs mls id m.leaf
  users : (members.map fun m => userOf mls m.leaf).Nodup
  size : members.length ≤ 128
  host : ∃ m ∈ members, hasParticipation mls host m = true

variable (mls) in
structure Allowed (id : Identity) (host : String) (members : List (Member mls.Credential)) (c : mls.Staged) : Prop where
  kept : ∀ m ∈ members, mls.identity (mls.newLeaf c m).credential = mls.identity m.leaf.credential
  removed : ∀ m ∈ members, m.index ∈ mls.removes c → hasParticipation mls host m = false
  added : ∀ leaf ∈ mls.adds c, Belongs mls id leaf
  users : ((members.map fun m => userOf mls m.leaf) ++ (mls.adds c).map (userOf mls)).Nodup
  size : (members.filter fun m => m.index ∉ mls.removes c).length + (mls.adds c).length ≤ 128

theorem Good.applied (h : Good mls id host before)
    (hc : Allowed mls id host before c) (happlied : mls.Applied c before after) : Good mls id host after := by
  obtain ⟨added, hadded, hperm⟩ := happlied
  have hkept : ∀ m ∈ before.filter (fun m => m.index ∉ mls.removes c), m ∈ before :=
    fun m hm => List.mem_of_mem_filter hm
  refine ⟨fun m hm => ?_, ?_, ?_, ?_⟩
  · rcases List.mem_append.1 (hperm.mem_iff.1 hm) with hm | hm
    · obtain ⟨old, hold, rfl⟩ := List.mem_map.1 hm
      obtain ⟨i, hi, hcontext⟩ := h.belongs old (hkept old hold)
      exact ⟨i, (hc.kept old (hkept old hold)).trans hi, hcontext⟩
    · exact hc.added m.leaf (hadded ▸ List.mem_map_of_mem hm)
  · rw [(hperm.map _).nodup_iff, List.map_append, List.map_map]
    have hold : (before.filter fun m => m.index ∉ mls.removes c).map
        ((fun m : Member mls.Credential => userOf mls m.leaf) ∘
          fun m : Member mls.Credential => (⟨m.index, mls.newLeaf c m⟩ : Member mls.Credential)) =
        (before.filter fun m => m.index ∉ mls.removes c).map fun m => userOf mls m.leaf :=
      List.map_congr_left fun m hm => by
        rw [Function.comp_apply, userOf, userOf, hc.kept m (hkept m hm)]
    have hnew : (added.map fun m => userOf mls m.leaf) = (mls.adds c).map (userOf mls) := by
      rw [← hadded, List.map_map]
      rfl
    rw [hold, hnew]
    exact hc.users.sublist ((List.filter_sublist.map _).append_right _)
  · rw [hperm.length_eq, List.length_append, List.length_map]
    have hlength : added.length = (mls.adds c).length := by rw [← hadded, List.length_map]
    rw [hlength]
    exact hc.size
  · obtain ⟨m, hm, hhost⟩ := h.host
    have hstays : m.index ∉ mls.removes c := by
      intro hin
      rw [hc.removed m hm hin] at hhost
      cases hhost
    refine ⟨⟨m.index, mls.newLeaf c m⟩, hperm.mem_iff.2 (List.mem_append_left _ ?_), ?_⟩
    · exact List.mem_map_of_mem (List.mem_filter.2 ⟨hm, by simpa using hstays⟩)
    · rw [hasParticipation, hc.kept m hm]
      exact hhost

/-! ## Commits of other members -/

section Documented

variable (hmls : mls.Documented)
include hmls

theorem member_at_of_mem (h : m ∈ mls.members g) : mls.member_at g m.index = some m := by
  rw [hmls.member_at_eq]
  cases hf : (mls.members g).find? fun m' => m'.index = m.index with
  | none =>
    have hnone := List.find?_eq_none.1 hf m h
    simp at hnone
  | some m' =>
    have hindex : m'.index = m.index := by simpa using List.find?_some hf
    rw [List.inj_on_of_nodup_map (hmls.index_nodup g) (List.mem_of_find?_eq_some hf) h hindex]

theorem mem_of_member_at (h : mls.member_at g i = some m) : m ∈ mls.members g ∧ m.index = i := by
  rw [hmls.member_at_eq] at h
  exact ⟨List.mem_of_find?_eq_some h, by simpa using List.find?_some h⟩

/-- A proposal of a commit that has passed `checkProposal`. -/
def Checked (mls : OpenMls) (context : Identity) (host : String) (g : mls.Group) (p : mls.Queued) : Prop :=
  match mls.proposal p with
  | .add leaf => Belongs mls context leaf
  | .remove index => ∃ m, mls.member_at g index = some m ∧ hasParticipation mls host m = false
  | .update leaf => ∃ i m, mls.proposal_sender p = .member i ∧ mls.member_at g i = some m ∧
      mls.identity leaf.credential = mls.identity m.leaf.credential
  | .other => False

omit hmls in
theorem hasUser_iff : hasUser mls g user = true ↔ some user ∈ (mls.members g).map fun m => userOf mls m.leaf := by
  simp only [hasUser, List.any_eq_true, Option.any_eq_true, decide_eq_true_eq, List.mem_map, userOf,
    Option.map_eq_some_iff]

omit hmls in
theorem checkProposal_spec (h : checkProposal mls context host bindings g users p = some users') :
    Checked mls context host g p ∧
      match (mls.proposal p).added with
      | none => users' = users
      | some leaf => ∃ user, userOf mls leaf = some user ∧ users' = user :: users ∧ user ∉ users ∧
          some user ∉ (mls.members g).map fun m => userOf mls m.leaf := by
  unfold checkProposal at h
  unfold Checked
  cases hp : mls.proposal p with
  | add leaf =>
    rw [hp] at h
    simp only [Option.bind_eq_bind, Option.bind_eq_some_iff, require_eq_some] at h
    obtain ⟨id, hid, -, ⟨hfresh, hnew⟩, h⟩ := h
    cases h
    obtain ⟨hidentity, hchannel, hsession, -⟩ := check_eq_some hid
    refine ⟨⟨id, hidentity, hchannel, hsession⟩, id.user, ?_, rfl, hfresh, fun hin => hnew (hasUser_iff.2 hin)⟩
    rw [userOf, hidentity]
    rfl
  | remove index =>
    rw [hp] at h
    simp only [Option.bind_eq_bind, Option.bind_eq_some_iff, require_eq_some] at h
    obtain ⟨m, hm, id, hid, -, ⟨hhost, -⟩, h⟩ := h
    refine ⟨⟨m, hm, ?_⟩, (Option.some.inj h).symm⟩
    rw [hasParticipation, hid]
    simpa using hhost
  | update leaf =>
    rw [hp] at h
    cases hs : mls.proposal_sender p with
    | member i =>
      rw [hs] at h
      simp only [Option.bind_eq_bind, Option.bind_eq_some_iff, require_eq_some] at h
      obtain ⟨old, hold, id, hid, oldId, holdId, -, heq, h⟩ := h
      refine ⟨⟨i, old, rfl, hold, ?_⟩, (Option.some.inj h).symm⟩
      rw [(check_eq_some hid).1, holdId, heq]
    | other =>
      rw [hs] at h
      cases h
  | other =>
    rw [hp] at h
    cases h

omit hmls in
theorem checkProposals_spec {ps : List mls.Queued}
    (h : ps.foldlM (checkProposal mls context host bindings g) users = some users') (hnodup : users.Nodup) :
    (∀ p ∈ ps, Checked mls context host g p) ∧
      (((ps.map mls.view).filterMap fun v => v.1.added).map (userOf mls)).Nodup ∧
      ∀ leaf ∈ (ps.map mls.view).filterMap (fun v => v.1.added), ∃ user, userOf mls leaf = some user ∧ user ∉ users ∧
        some user ∉ (mls.members g).map fun m => userOf mls m.leaf := by
  induction ps generalizing users with
  | nil => simp
  | cons p ps ih =>
    rw [List.foldlM_cons] at h
    obtain ⟨users₁, hp, htail⟩ := Option.bind_eq_some_iff.1 h
    obtain ⟨hchecked, hadded⟩ := checkProposal_spec hp
    rw [List.map_cons]
    cases hadd : (mls.proposal p).added with
    | none =>
      rw [hadd] at hadded
      obtain rfl : users₁ = users := hadded
      obtain ⟨hrest, hnodup', hfresh⟩ := ih htail hnodup
      have hview : ((mls.view p :: ps.map mls.view).filterMap fun v => v.1.added) =
          (ps.map mls.view).filterMap fun v => v.1.added := List.filterMap_cons_none hadd
      rw [hview]
      exact ⟨List.forall_mem_cons.2 ⟨hchecked, hrest⟩, hnodup', hfresh⟩
    | some leaf =>
      rw [hadd] at hadded
      obtain ⟨user, huser, rfl, hnew, hmember⟩ := hadded
      obtain ⟨hrest, hnodup', hfresh⟩ := ih htail (List.nodup_cons.2 ⟨hnew, hnodup⟩)
      have hview : ((mls.view p :: ps.map mls.view).filterMap fun v => v.1.added) =
          leaf :: (ps.map mls.view).filterMap fun v => v.1.added := List.filterMap_cons_some hadd
      rw [hview]
      refine ⟨List.forall_mem_cons.2 ⟨hchecked, hrest⟩, ?_, ?_⟩
      · rw [List.map_cons, List.nodup_cons]
        refine ⟨fun hin => ?_, hnodup'⟩
        obtain ⟨leaf', hleaf', heq⟩ := List.mem_map.1 hin
        obtain ⟨user', huser', hnot, -⟩ := hfresh leaf' hleaf'
        obtain rfl := Option.some.inj (huser'.symm.trans (heq.trans huser))
        exact hnot List.mem_cons_self
      · intro leaf' hleaf'
        rcases List.mem_cons.1 hleaf' with rfl | hleaf'
        · exact ⟨user, huser, hnew, hmember⟩
        · obtain ⟨user', huser', hnot, hmember'⟩ := hfresh leaf' hleaf'
          exact ⟨user', huser', fun hin => hnot (List.mem_cons_of_mem _ hin), hmember'⟩

omit hmls in
theorem mem_updates (h : leaf ∈ mls.updates c i) :
    ∃ p ∈ mls.queued_proposals c, mls.proposal p = .update leaf ∧ mls.proposal_sender p = .member i := by
  obtain ⟨v, hv, hleaf⟩ := List.mem_filterMap.1 h
  obtain ⟨p, hp, rfl⟩ := List.mem_map.1 hv
  split at hleaf
  · rename_i hsender
    refine ⟨p, hp, ?_, hsender⟩
    have hupdated : (mls.proposal p).updated = some leaf := hleaf
    cases hproposal : mls.proposal p with
    | update leaf' =>
      rw [hproposal] at hupdated
      rw [Option.some.inj hupdated]
    | _ =>
      rw [hproposal] at hupdated
      cases hupdated
  · cases hleaf

omit hmls in
theorem mem_removes (h : i ∈ mls.removes c) : ∃ p ∈ mls.queued_proposals c, mls.proposal p = .remove i := by
  obtain ⟨v, hv, hi⟩ := List.mem_filterMap.1 h
  obtain ⟨p, hp, rfl⟩ := List.mem_map.1 hv
  refine ⟨p, hp, ?_⟩
  have hremoved : (mls.proposal p).removed = some i := hi
  cases hproposal : mls.proposal p with
  | remove index =>
    rw [hproposal] at hremoved
    rw [Option.some.inj hremoved]
  | _ =>
    rw [hproposal] at hremoved
    cases hremoved

omit hmls in
theorem mem_adds (h : leaf ∈ mls.adds c) : ∃ p ∈ mls.queued_proposals c, mls.proposal p = .add leaf := by
  obtain ⟨v, hv, hleaf⟩ := List.mem_filterMap.1 h
  obtain ⟨p, hp, rfl⟩ := List.mem_map.1 hv
  refine ⟨p, hp, ?_⟩
  have hadded : (mls.proposal p).added = some leaf := hleaf
  cases hproposal : mls.proposal p with
  | add leaf' =>
    rw [hproposal] at hadded
    rw [Option.some.inj hadded]
  | _ =>
    rw [hproposal] at hadded
    cases hadded

theorem length_filter_removes (hnodup : (mls.removes c).Nodup)
    (hexist : ∀ i ∈ mls.removes c, ∃ m, mls.member_at g i = some m) :
    ((mls.members g).filter fun m => m.index ∉ mls.removes c).length + (mls.removes c).length =
      (mls.members g).length := by
  have hgone : (((mls.members g).filter fun m => m.index ∈ mls.removes c).map Member.index).Perm (mls.removes c) := by
    refine (List.perm_ext_iff_of_nodup ((hmls.index_nodup g).sublist (List.filter_sublist.map _)) hnodup).2 ?_
    intro i
    simp only [List.mem_map, List.mem_filter, decide_eq_true_eq]
    constructor
    · rintro ⟨m, ⟨-, hm⟩, rfl⟩
      exact hm
    · intro hi
      obtain ⟨m, hm⟩ := hexist i hi
      obtain ⟨hmem, rfl⟩ := mem_of_member_at hmls hm
      exact ⟨m, ⟨hmem, hi⟩, rfl⟩
  have hlength := hgone.length_eq
  rw [List.length_map] at hlength
  have hsplit := List.length_eq_length_filter_add (l := mls.members g) fun m => decide (m.index ∈ mls.removes c)
  simp only [decide_not] at hsplit ⊢
  omega

/-- A commit that `process` accepts is allowed. -/
theorem allowed_of_checkCommit (hcheck : checkCommit mls context host bindings g sender c = some ())
    (hm : mls.member_at g (mls.committer c) = some m) (hsender : mls.identity m.leaf.credential = some sender)
    (hnodup : (mls.removes c).Nodup) (hgood : Good mls context host (mls.members g)) :
    Allowed mls context host (mls.members g) c := by
  simp only [checkCommit, Option.bind_eq_bind, Option.bind_eq_some_iff, require_eq_some] at hcheck
  obtain ⟨-, -, _, hpath, users, hproposals, hsize⟩ := hcheck
  obtain ⟨hchecked, hunique, hfresh⟩ := checkProposals_spec hproposals List.nodup_nil
  have hremoved : ∀ i ∈ mls.removes c, ∃ m, mls.member_at g i = some m ∧ hasParticipation mls host m = false := by
    intro i hi
    obtain ⟨p, hp, hproposal⟩ := mem_removes hi
    have h := hchecked p hp
    rw [Checked, hproposal] at h
    exact h
  refine ⟨fun m' hm' => ?_, fun m' hm' hin => ?_, fun leaf hleaf => ?_, ?_, ?_⟩
  · rw [OpenMls.newLeaf]
    split
    · -- the path has the identity of the sender
      rename_i hindex
      rw [← hindex, member_at_of_mem hmls hm'] at hm
      cases hm
      cases hleaf : mls.update_path_leaf_node c with
      | none => rfl
      | some leaf =>
        rw [hleaf] at hpath
        have hsame := check_eq_some (require_eq_some.1 hpath)
        rw [Option.getD_some, hsame.1, hsender]
    · cases hlast : (mls.updates c m'.index).getLast? with
      | none => rfl
      | some leaf =>
        obtain ⟨p, hp, hproposal, hfrom⟩ := mem_updates (List.mem_of_getLast? hlast)
        have h := hchecked p hp
        rw [Checked, hproposal] at h
        obtain ⟨i, old, hi, hold, hsame⟩ := h
        obtain rfl := Sender.member.inj (hfrom.symm.trans hi)
        rw [member_at_of_mem hmls hm'] at hold
        rw [Option.getD_some, hsame, Option.some.inj hold]
  · obtain ⟨old, hold, hhost⟩ := hremoved m'.index hin
    rw [member_at_of_mem hmls hm'] at hold
    rwa [Option.some.inj hold]
  · obtain ⟨p, hp, hproposal⟩ := mem_adds hleaf
    have h := hchecked p hp
    rw [Checked, hproposal] at h
    exact h
  · refine List.nodup_append.2 ⟨hgood.users, hunique, fun user huser user' huser' => ?_⟩
    obtain ⟨leaf, hleaf, rfl⟩ := List.mem_map.1 huser'
    obtain ⟨name, hname, -, hnot⟩ := hfresh leaf hleaf
    rw [hname]
    exact fun he => hnot (he ▸ huser)
  · have hlength := length_filter_removes hmls hnodup fun i hi => (hremoved i hi).imp fun _ h => h.1
    omega

/-- Every stored proposal is an update that keeps the identity of its sender. -/
def PendingOk (mls : OpenMls) (g : mls.Group) : Prop :=
  ∀ p ∈ mls.pending_proposals g, ∃ leaf i, mls.view p = (.update leaf, .member i) ∧
    ∀ m ∈ mls.members g, m.index = i → mls.identity leaf.credential = mls.identity m.leaf.credential

omit hmls in
theorem PendingOk.keeps (h : PendingOk mls g) (hkeeps : mls.Keeps g g') : PendingOk mls g' := by
  intro p hp
  rw [hkeeps.1]
  exact h p (hkeeps.2 hp)

omit hmls in
theorem allowed_of_stages {inline : List (Proposal mls.Credential)} (hpending : PendingOk mls g)
    (hproposals : ((mls.queued_proposals c).map mls.view).Subperm
      ((mls.pending_proposals g).map mls.view ++ inline.map fun p => (p, .member (mls.own_leaf_index g))))
    (hpath : ∀ leaf, mls.update_path_leaf_node c = some leaf → ∀ m ∈ mls.members g, m.index = mls.committer c →
      leaf.credential = m.leaf.credential) (hupdate : inline.filterMap Proposal.updated = [])
    (hremove : ∀ i ∈ inline.filterMap Proposal.removed, ∀ m ∈ mls.members g, m.index = i →
      hasParticipation mls host m = false) (hadd : ∀ leaf ∈ inline.filterMap Proposal.added, Belongs mls id leaf)
    (husers : (((mls.members g).map fun m => userOf mls m.leaf) ++
      (inline.filterMap Proposal.added).map (userOf mls)).Nodup)
    (hsize : (mls.members g).length + (inline.filterMap Proposal.added).length ≤ 128) :
    Allowed mls id host (mls.members g) c := by
  -- the stored proposals are updates
  have hviews : ∀ v ∈ (mls.queued_proposals c).map mls.view,
      (∃ leaf i, v = (.update leaf, .member i) ∧
        ∀ m ∈ mls.members g, m.index = i → mls.identity leaf.credential = mls.identity m.leaf.credential) ∨
      ∃ p ∈ inline, v.1 = p := by
    intro v hv
    rcases List.mem_append.1 (hproposals.subset hv) with hv | hv
    · obtain ⟨p, hp, rfl⟩ := List.mem_map.1 hv
      exact Or.inl (hpending p hp)
    · obtain ⟨p, hp, rfl⟩ := List.mem_map.1 hv
      exact Or.inr ⟨p, hp, rfl⟩
  have hadds : (mls.adds c).Subperm (inline.filterMap Proposal.added) := by
    obtain ⟨l, hperm, hsub⟩ := hproposals
    have hnone : ((mls.pending_proposals g).map mls.view).filterMap (fun v => v.1.added) = [] := by
      rw [List.filterMap_eq_nil_iff]
      intro v hv
      obtain ⟨p, hp, rfl⟩ := List.mem_map.1 hv
      obtain ⟨leaf, i, hview, -⟩ := hpending p hp
      rw [hview]
      rfl
    have hall := hsub.filterMap fun v => v.1.added
    rw [List.filterMap_append, hnone, List.nil_append, List.filterMap_map] at hall
    exact ⟨_, hperm.filterMap _, hall⟩
  refine ⟨fun m hm => ?_, fun m hm hin => ?_, fun leaf hleaf => hadd leaf (hadds.subset hleaf), ?_, ?_⟩
  · rw [OpenMls.newLeaf]
    split
    · rename_i hindex
      cases hleaf : mls.update_path_leaf_node c with
      | none => rfl
      | some leaf => rw [Option.getD_some, hpath leaf hleaf m hm hindex]
    cases hlast : (mls.updates c m.index).getLast? with
    | none => rfl
    | some leaf =>
      obtain ⟨p, hp, hproposal, hfrom⟩ := mem_updates (List.mem_of_getLast? hlast)
      have hview : mls.view p = (.update leaf, .member m.index) := by rw [OpenMls.view, hproposal, hfrom]
      rcases hviews _ (List.mem_map_of_mem hp) with ⟨leaf', i, heq, hsame⟩ | ⟨q, hq, heq⟩
      · obtain ⟨hl, hi⟩ := Prod.mk.inj (hview.symm.trans heq)
        rw [Option.getD_some, Proposal.update.inj hl]
        exact hsame m hm (Sender.member.inj hi)
      · rw [hview] at heq
        have hupdated : leaf ∈ inline.filterMap Proposal.updated := List.mem_filterMap.2 ⟨q, hq, heq ▸ rfl⟩
        rw [hupdate] at hupdated
        cases hupdated
  · obtain ⟨p, hp, hproposal⟩ := mem_removes hin
    have hview : (mls.view p).1 = .remove m.index := hproposal
    rcases hviews _ (List.mem_map_of_mem hp) with ⟨leaf', i, heq, -⟩ | ⟨q, hq, heq⟩
    · rw [heq] at hview
      cases hview
    · exact hremove m.index (List.mem_filterMap.2 ⟨q, hq, by rw [← heq, hview]; rfl⟩) m hm rfl
  · obtain ⟨l, hperm, hsub⟩ := hadds
    refine (((hperm.map (userOf mls)).append_left _).nodup_iff).1 ?_
    exact husers.sublist ((hsub.map (userOf mls)).append_left _)
  · have hfilter := List.length_filter_le (fun m => decide (m.index ∉ mls.removes c)) (mls.members g)
    have hlength := hadds.length_le
    omega

omit hmls in
theorem checkMembers_spec {ms : List (Member mls.Credential)}
    (h : ms.foldlM (checkMember mls context bindings) users = some users') (hnodup : users.Nodup) :
    (ms.map fun m => userOf mls m.leaf).Nodup ∧
      ∀ m ∈ ms, ∃ i, check mls m.leaf context bindings = some i ∧ i.user ∉ users := by
  induction ms generalizing users with
  | nil => simp
  | cons m ms ih =>
    rw [List.foldlM_cons] at h
    obtain ⟨users₁, hm, htail⟩ := Option.bind_eq_some_iff.1 h
    simp only [checkMember, Option.bind_eq_bind, Option.bind_eq_some_iff, require_eq_some] at hm
    obtain ⟨i, hi, -, hnew, hm⟩ := hm
    cases hm
    obtain ⟨hrest, hfresh⟩ := ih htail (List.nodup_cons.2 ⟨hnew, hnodup⟩)
    have huser : userOf mls m.leaf = some i.user := by
      rw [userOf, (check_eq_some hi).1]
      rfl
    refine ⟨List.nodup_cons.2 ⟨fun hin => ?_, hrest⟩, List.forall_mem_cons.2 ⟨⟨i, hi, hnew⟩, fun m' hm' => ?_⟩⟩
    · obtain ⟨m', hm', heq⟩ := List.mem_map.1 hin
      obtain ⟨i', hi', hnot⟩ := hfresh m' hm'
      have hsame : userOf mls m'.leaf = some i.user := Eq.trans heq huser
      rw [userOf, (check_eq_some hi').1] at hsame
      exact hnot (List.mem_cons.2 (Or.inl (Option.some.inj hsame)))
    · obtain ⟨i', hi', hnot⟩ := hfresh m' hm'
      exact ⟨i', hi', fun hin => hnot (List.mem_cons_of_mem _ hin)⟩

omit hmls in
theorem good_of_checkGroup (hlength : bindings.length ≤ 128) (h : s.checkGroup bindings g = some ()) :
    Good mls s.id s.host (mls.members g) := by
  simp only [Session.checkGroup, Option.bind_eq_bind, Option.bind_eq_some_iff, require_eq_some] at h
  obtain ⟨-, -, users, hmembers, hhost⟩ := h
  obtain ⟨hnodup, hchecked⟩ := checkMembers_spec hmembers List.nodup_nil
  refine ⟨fun m hm => ?_, hnodup, ?_, by simpa using hhost⟩
  · obtain ⟨i, hi, -⟩ := hchecked m hm
    obtain ⟨hidentity, hchannel, hsession, -⟩ := check_eq_some hi
    exact ⟨i, hidentity, hchannel, hsession⟩
  have hsub : ((mls.members g).map fun m => userOf mls m.leaf) ⊆ bindings.map fun b => some b.identity.user := by
    intro user huser
    obtain ⟨m, hm, rfl⟩ := List.mem_map.1 huser
    obtain ⟨i, hi, -⟩ := hchecked m hm
    obtain ⟨hidentity, -, -, b, hb, rfl, -⟩ := check_eq_some hi
    rw [userOf, hidentity]
    exact List.mem_map.2 ⟨b, hb, rfl⟩
  have hle := (hnodup.subperm hsub).length_le
  rw [List.length_map, List.length_map] at hle
  exact hle.trans hlength

/-! ## One operation -/

def Session.membership (s : Session mls) : Option (List (Member mls.Credential)) := s.group.map mls.members

structure Session.Good (s : Session mls) : Prop where
  members : ∀ g, s.group = some g → Encryption.Good mls s.id s.host (mls.members g)
  pending : ∀ g, s.group = some g → s.id.participation = s.host → PendingOk mls g
  own : mls.identity s.leaf.credential = some s.id

structure Sound (s s' : Session mls) (ok : Bool) : Prop where
  id : s'.id = s.id
  host : s'.host = s.host
  good : s'.Good
  failed : ok = false → s'.membership = s.membership

omit hmls in
theorem Sound.refl (h : s.Good) (ok : Bool) : Sound s s ok := ⟨rfl, rfl, h, fun _ => rfl⟩

omit hmls in
theorem Sound.provider (h : s.Good) (provider : mls.Provider) (ok : Bool) :
    Sound s { s with provider := provider } ok :=
  ⟨rfl, rfl, ⟨h.members, h.pending, h.own⟩, fun _ => rfl⟩

omit hmls in
theorem Sound.members (h : s.Good) (hg : s.group = some g) (hmembers : mls.members g' = mls.members g)
    (hpending : s.id.participation = s.host → PendingOk mls g') (provider : mls.Provider) (ok : Bool) :
    Sound s (s.after provider g') ok := by
  refine ⟨rfl, rfl, ⟨fun g₁ hg₁ => ?_, fun g₁ hg₁ hhost => ?_, h.own⟩, fun _ => ?_⟩
  · cases hg₁
    rw [hmembers]
    exact h.members g hg
  · cases hg₁
    exact hpending hhost
  · simp only [Session.membership, Session.after, hg, Option.map_some, hmembers]

omit hmls in
theorem Sound.keeps (h : s.Good) (hg : s.group = some g) (hkeeps : mls.Keeps g g') (provider : mls.Provider) (ok : Bool) :
    Sound s (s.after provider g') ok :=
  .members h hg hkeeps.1 (fun hhost => (h.pending g hg hhost).keeps hkeeps) provider ok

omit hmls in
theorem Sound.merges (h : s.Good) (hg : s.group = some g) (hc : Allowed mls s.id s.host (mls.members g) c)
    (hmerges : mls.Merges c g g' merged) (provider : mls.Provider) : Sound s (s.after provider g') merged := by
  cases merged with
  | false => exact .keeps h hg hmerges provider false
  | true =>
    obtain ⟨happlied, hempty⟩ := hmerges
    refine ⟨rfl, rfl, ⟨fun g₁ hg₁ => ?_, fun g₁ hg₁ _ => ?_, h.own⟩, fun hfalse => by cases hfalse⟩
    · cases hg₁
      exact (h.members g hg).applied hc happlied
    · cases hg₁
      rw [PendingOk, hempty]
      exact fun p hp => by cases hp

omit hmls in
theorem Sound.trans (h₁ : Sound s s₁ false) (h₂ : Sound s₁ s₂ ok) : Sound s s₂ ok :=
  ⟨h₂.id.trans h₁.id, h₂.host.trans h₁.host, h₂.good, fun h => (h₂.failed h).trans (h₁.failed rfl)⟩

section

variable (h : s.Good)

include h

theorem sound_finish {α : Type} (hhost : s.id.participation = s.host) (hg : s.group = some g)
    {staged : mls.Provider × mls.Group × Option α} {out : α → Option String} {inline : List (Proposal mls.Credential)}
    (hkeeps : mls.Keeps g staged.2.1) (hstages : staged.2.2.isSome = true → mls.Stages g staged.2.1 inline)
    (hupdate : inline.filterMap Proposal.updated = [])
    (hremove : ∀ i ∈ inline.filterMap Proposal.removed, ∀ m ∈ mls.members g, m.index = i →
      hasParticipation mls s.host m = false) (hadd : ∀ leaf ∈ inline.filterMap Proposal.added, Belongs mls s.id leaf)
    (husers : (((mls.members g).map fun m => userOf mls m.leaf) ++
      (inline.filterMap Proposal.added).map (userOf mls)).Nodup)
    (hsize : (mls.members g).length + (inline.filterMap Proposal.added).length ≤ 128) :
    Sound s (s.finish staged out).1 (s.finish staged out).2.isSome := by
  obtain ⟨provider, g₁, result⟩ := staged
  have hfirst : Sound s (s.after provider g₁) false := .keeps h hg hkeeps provider false
  rw [Session.finish]
  cases hout : result.bind out with
  | none => exact hfirst
  | some text =>
    have hsome : result.isSome = true := by
      cases result with
      | none => cases hout
      | some _ => rfl
    obtain ⟨c, hc, hproposals, hpath⟩ := hstages hsome
    have hallowed := allowed_of_stages (h.pending g hg hhost) hproposals hpath hupdate hremove hadd husers hsize
    rw [← hkeeps.1] at hallowed
    have hmerges := hmls.merge_pending provider g₁ c hc
    rw [Option.isSome_map]
    exact hfirst.trans (.merges hfirst.good rfl hallowed hmerges _)

omit hmls in
theorem sound_keyPackage : Sound s s.keyPackage.1 s.keyPackage.2.isSome := by
  rw [Session.keyPackage]
  split
  · exact .refl h _
  · exact .provider h _ _

theorem sound_create : Sound s s.create.1 s.create.2.isSome := by
  rw [Session.create]
  split
  · rename_i hcond
    split
    · rename_i provider g hbuild
      obtain ⟨⟨i, hmembers⟩, hpending⟩ := hmls.build _ _ _ _ _ hbuild
      refine ⟨rfl, rfl, ⟨fun g₁ hg₁ => ?_, fun g₁ hg₁ _ => ?_, h.own⟩, fun hfalse => by cases hfalse⟩
      · cases hg₁
        rw [hmembers]
        refine ⟨fun m hm => ?_, List.nodup_singleton _, by simp, ⟨i, s.leaf⟩, List.mem_singleton_self _, ?_⟩
        · rw [List.mem_singleton.1 hm]
          exact ⟨s.id, h.own, rfl, rfl⟩
        · rw [hasParticipation, h.own]
          exact decide_eq_true hcond.2
      · cases hg₁
        rw [PendingOk, hpending]
        exact fun p hp => by cases hp
    · exact .provider h _ _
  · exact .refl h _

omit hmls in
theorem sound_join (welcome bindings : String) :
    Sound s (s.join welcome bindings).1 (s.join welcome bindings).2.isSome := by
  rw [Session.join]
  split
  · rename_i hcond
    split
    · rename_i roster _ hroster _
      split
      · split
        · rename_i g _ hcheck
          obtain ⟨_, hcheck⟩ := Option.isSome_iff_exists.1 hcheck
          refine ⟨rfl, rfl, ⟨fun g₁ hg₁ => ?_, fun g₁ _ hhost => absurd hhost hcond.2, h.own⟩,
            fun hfalse => by cases hfalse⟩
          cases hg₁
          exact good_of_checkGroup (roster_eq_some hroster) hcheck
        · exact .provider h _ _
      · exact .provider h _ _
    · exact .refl h _
  · exact .refl h _

theorem sound_add (key_package expected bindings : String) :
    Sound s (s.add key_package expected bindings).1 (s.add key_package expected bindings).2.isSome := by
  rw [Session.add]
  split
  · exact .refl h _
  rename_i g kp hcheck
  simp only [Session.checkAdd, Option.bind_eq_bind, Option.bind_eq_some_iff, require_eq_some] at hcheck
  obtain ⟨-, hhost, bindings', -, kp', -, id, hid, -, -, g', hg, -, ⟨hsize, huser⟩, hcheck⟩ := hcheck
  obtain ⟨rfl, rfl⟩ := Prod.mk.inj (Option.some.inj hcheck)
  obtain ⟨hidentity, hchannel, hsession, -⟩ := check_eq_some hid
  refine sound_finish hmls h hhost hg (hmls.add_members _ _ _) (hmls.add_stages _ _ _) rfl
    (fun i hi => by cases hi) (fun leaf hleaf => ?_) ?_ ?_
  · rw [List.mem_singleton.1 hleaf]
    exact ⟨id, hidentity, hchannel, hsession⟩
  · refine List.nodup_append.2 ⟨(h.members _ hg).users, List.nodup_singleton _, fun user hin user' huser' => ?_⟩
    rw [List.mem_singleton.1 huser']
    intro he
    have hname : userOf mls (mls.key_package_leaf kp') = some id.user := by
      rw [userOf, hidentity]
      rfl
    exact huser (hasUser_iff.2 (hname ▸ he ▸ hin))
  · exact hsize

theorem sound_remove (participation bindings : String) :
    Sound s (s.remove participation bindings).1 (s.remove participation bindings).2.isSome := by
  rw [Session.remove]
  split
  · exact .refl h _
  rename_i g m hcheck
  simp only [Session.checkRemove, Option.bind_eq_bind, Option.bind_eq_some_iff, require_eq_some] at hcheck
  obtain ⟨-, ⟨hhost, hother⟩, bindings', -, -, -, g', hg, m', hfind, hcheck⟩ := hcheck
  cases hcheck
  have hm := List.mem_of_find?_eq_some hfind
  have hgood := h.members _ hg
  refine sound_finish hmls h hhost hg (hmls.remove_members _ _ _) (hmls.remove_stages _ _ _) rfl
    (fun i hi m₁ hm₁ hindex => ?_) (fun leaf hleaf => by cases hleaf) ?_ hgood.size
  · rw [List.mem_singleton.1 hi] at hindex
    obtain rfl := List.inj_on_of_nodup_map (hmls.index_nodup _) hm₁ hm hindex
    -- the member has another participation than the host
    obtain ⟨i, hi, -⟩ := hgood.belongs m₁ hm₁
    have hp := List.find?_some hfind
    rw [hasParticipation, hi, Option.any_some, decide_eq_true_eq] at hp
    rw [hasParticipation, hi, Option.any_some, decide_eq_false_iff_not, hp]
    exact hother
  · rw [List.filterMap_cons_none rfl, List.filterMap_nil, List.map_nil, List.append_nil]
    exact hgood.users

theorem sound_update : Sound s s.update.1 s.update.2.isSome := by
  rw [Session.update]
  split
  · exact .refl h _
  rename_i g hg
  split
  · rename_i hhost
    have hgood := h.members _ hg
    refine sound_finish hmls h hhost hg (hmls.self_update _ _) (hmls.update_stages _ _) rfl
      (fun i hi => by cases hi) (fun leaf hleaf => by cases hleaf) ?_ hgood.size
    simpa using hgood.users
  · rename_i hhost
    exact .members h hg (hmls.propose_self_update _ _) (fun he => absurd he hhost) _ _

theorem sound_commitUpdates : Sound s s.commitUpdates.1 s.commitUpdates.2.isSome := by
  rw [Session.commitUpdates]
  split
  · exact .refl h _
  rename_i g hg
  split
  · rename_i hhost
    have hgood := h.members _ hg
    refine sound_finish hmls h hhost hg (hmls.commit_to_pending_proposals _ _) (hmls.commit_stages _ _) rfl
      (fun i hi => by cases hi) (fun leaf hleaf => by cases hleaf) ?_ hgood.size
    simpa using hgood.users
  · exact .refl h _

theorem sound_encrypt (text : String) : Sound s (s.encrypt text).1 (s.encrypt text).2.isSome := by
  rw [Session.encrypt]
  split
  · exact .refl h _
  · rename_i g hg
    split
    · exact .keeps h hg (hmls.create_message _ _ _) _ _
    · exact .refl h _

end

omit hmls in
theorem checkSender_spec (h : checkSender mls context bindings g processed expected = some sender) :
    ∃ i m, mls.sender processed = .member i ∧ mls.member_at g i = some m ∧
      mls.identity (mls.credential processed) = some sender := by
  unfold checkSender at h
  split at h
  · rename_i i hi
    simp only [Option.bind_eq_bind, Option.bind_eq_some_iff, require_eq_some] at h
    obtain ⟨m, hm, id, hid, -, -, h⟩ := h
    cases h
    exact ⟨i, m, hi, hm, (check_eq_some hid).1⟩
  · cases h

omit hmls in
theorem checkUpdate_spec (h : checkUpdate mls context bindings sender p = some ()) :
    ∃ leaf, mls.proposal p = .update leaf ∧ mls.identity leaf.credential = some sender := by
  unfold checkUpdate at h
  split at h
  · rename_i leaf hleaf
    simp only [Option.bind_eq_bind, Option.bind_eq_some_iff, require_eq_some] at h
    obtain ⟨id, hid, rfl⟩ := h
    exact ⟨leaf, hleaf, (check_eq_some hid).1⟩
  · cases h

/-- The packet is a commit of the member that is the host. -/
def CommitOfHost (s : Session mls) (packet : String) : Prop :=
  ∃ g message processed c i m sender, s.group = some g ∧ (decode mls packet).bind mls.message = some message ∧
    (mls.process_message s.provider g message).2.2 = some processed ∧ mls.content processed = .commit c ∧
    mls.sender processed = .member i ∧ mls.member_at g i = some m ∧
    mls.identity m.leaf.credential = some sender ∧ sender.participation = s.host

theorem receive_cases (h : s.Good) (hg : s.group = some g) (hm : mls.member_at g i = some m)
    (hsender : mls.identity m.leaf.credential = some sender) (content : Content mls.Queued mls.Staged)
    (hproposal : ∀ p, content = .proposal p → mls.proposal_sender p = .member i)
    (hcommit : ∀ c, content = .commit c → mls.committer c = i ∧ (mls.removes c).Nodup) (bindings : List Binding) :
    (∀ ok, Sound s (s.receive g bindings sender content).1 ok) ∨
      (∃ c, content = .commit c) ∧ sender.participation = s.host ∧
        Sound s (s.receive g bindings sender content).1 (s.receive g bindings sender content).2.isSome := by
  unfold Session.receive
  cases content with
  | application bytes => exact Or.inl (.refl h)
  | other => exact Or.inl (.refl h)
  | proposal p =>
    left
    dsimp only
    cases hcheck : checkUpdate mls s.id bindings sender p with
    | none => exact .refl h
    | some _ =>
      obtain ⟨leaf, hleaf, hidentity⟩ := checkUpdate_spec hcheck
      obtain ⟨hmembers, hstored⟩ := hmls.store_pending_proposal s.provider g p
      refine fun ok => .members h hg hmembers (fun hhost q hq => ?_) _ _
      rw [hmembers]
      rcases hstored q hq with rfl | hq
      · refine ⟨leaf, i, by rw [OpenMls.view, hleaf, hproposal q rfl], fun m' hm' hindex => ?_⟩
        rw [← hindex, member_at_of_mem hmls hm'] at hm
        rw [hidentity, Option.some.inj hm, hsender]
      · exact h.pending g hg hhost q hq
  | commit c =>
    dsimp only
    cases hcheck : checkCommit mls s.id s.host bindings g sender c with
    | none => exact Or.inl (.refl h)
    | some _ =>
      right
      obtain ⟨hcommitter, hnodup⟩ := hcommit c rfl
      have hhost : sender.participation = s.host := by
        simp only [checkCommit, Option.bind_eq_bind, Option.bind_eq_some_iff, require_eq_some] at hcheck
        obtain ⟨-, hhost, -⟩ := hcheck
        exact hhost
      have hallowed := allowed_of_checkCommit hmls hcheck (hcommitter ▸ hm) hsender hnodup (h.members g hg)
      refine ⟨⟨c, rfl⟩, hhost, ?_⟩
      dsimp only
      rw [Option.isSome_map]
      exact .merges h hg hallowed (hmls.merge_staged _ _ _) _

theorem process_cases (h : s.Good) (packet expected bindings : String) :
    (∀ ok, Sound s (s.process packet expected bindings).1 ok) ∨
      CommitOfHost s packet ∧
        Sound s (s.process packet expected bindings).1 (s.process packet expected bindings).2.isSome := by
  rw [Session.process]
  split
  · exact Or.inl (.refl h)
  rename_i bindings' g message hpacket
  obtain ⟨hg, hmessage⟩ : s.group = some g ∧ (decode mls packet).bind mls.message = some message := by
    simp only [Session.checkPacket, Option.bind_eq_bind, Option.bind_eq_some_iff] at hpacket
    obtain ⟨_, -, g', hg, message', hmessage, hpacket⟩ := hpacket
    obtain ⟨-, hpacket⟩ := Prod.mk.inj (Option.some.inj hpacket)
    obtain ⟨rfl, rfl⟩ := Prod.mk.inj hpacket
    exact ⟨hg, Option.bind_eq_some_iff.2 hmessage⟩
  have hkeeps := hmls.process_message s.provider g message
  generalize hcall : mls.process_message s.provider g message = call at hkeeps ⊢
  obtain ⟨provider, g₁, result⟩ := call
  have hfirst : ∀ ok, Sound s (s.after provider g₁) ok := .keeps h hg hkeeps provider
  cases result with
  | none => exact Or.inl hfirst
  | some processed =>
    dsimp only
    split
    · exact Or.inl hfirst
    rename_i sender hsender
    obtain ⟨i, m, hi, hm, hidentity⟩ := checkSender_spec hsender
    have hresult : (mls.process_message s.provider g message).2.2 = some processed := by rw [hcall]
    -- the members are the same as before the message
    have hm' : mls.member_at g i = some m := by rwa [hmls.member_at_eq, ← hkeeps.1, ← hmls.member_at_eq]
    rw [hmls.sender_credential _ _ _ _ _ _ hresult hi hm'] at hidentity
    have hproposal : ∀ p, mls.content processed = .proposal p → mls.proposal_sender p = .member i :=
      fun p hp => (hmls.sender_proposal _ _ _ _ _ hresult hp).trans hi
    have hcommit : ∀ c, mls.content processed = .commit c → mls.committer c = i ∧ (mls.removes c).Nodup := by
      intro c hc
      refine ⟨?_, hmls.removes_nodup _ _ _ _ _ hresult hc⟩
      rcases hmls.sender_commit _ _ _ _ _ hresult hc with hs | hs
      · exact Sender.member.inj (hs.symm.trans hi)
      · rw [hs] at hi
        cases hi
    have hcases := receive_cases hmls (hfirst true).good rfl hm hidentity _ hproposal hcommit bindings'
    rcases hcases with hquiet | ⟨⟨c, hc⟩, hhost, hsound⟩
    · exact Or.inl fun ok => (hfirst false).trans (hquiet ok)
    · exact Or.inr ⟨⟨g, message, processed, c, i, m, sender, hg, hmessage, hresult, hc, hi, hm', hidentity, hhost⟩,
        (hfirst false).trans hsound⟩

end Documented

/-! ## Every sequence of operations -/

inductive Operation where
  | keyPackage
  | create
  | join (welcome bindings : String)
  | add (key_package expected bindings : String)
  | remove (participation bindings : String)
  | update
  | commitUpdates
  | encrypt (text : String)
  | process (packet expected bindings : String)

def Session.perform (s : Session mls) : Operation → Session mls × Bool
  | .keyPackage => (s.keyPackage.1, s.keyPackage.2.isSome)
  | .create => (s.create.1, s.create.2.isSome)
  | .join welcome bindings => ((s.join welcome bindings).1, (s.join welcome bindings).2.isSome)
  | .add key_package expected bindings =>
    ((s.add key_package expected bindings).1, (s.add key_package expected bindings).2.isSome)
  | .remove participation bindings => ((s.remove participation bindings).1, (s.remove participation bindings).2.isSome)
  | .update => (s.update.1, s.update.2.isSome)
  | .commitUpdates => (s.commitUpdates.1, s.commitUpdates.2.isSome)
  | .encrypt text => ((s.encrypt text).1, (s.encrypt text).2.isSome)
  | .process packet expected bindings =>
    ((s.process packet expected bindings).1, (s.process packet expected bindings).2.isSome)

theorem sound_perform (hmls : mls.Documented) (h : s.Good) (op : Operation) :
    Sound s (s.perform op).1 (s.perform op).2 := by
  cases op with
  | keyPackage => exact sound_keyPackage h
  | create => exact sound_create hmls h
  | join welcome bindings => exact sound_join h welcome bindings
  | add key_package expected bindings => exact sound_add hmls h key_package expected bindings
  | remove participation bindings => exact sound_remove hmls h participation bindings
  | update => exact sound_update hmls h
  | commitUpdates => exact sound_commitUpdates hmls h
  | encrypt text => exact sound_encrypt hmls h text
  | process packet expected bindings =>
    rcases process_cases hmls h packet expected bindings with hquiet | ⟨-, hsound⟩
    · exact hquiet _
    · exact hsound

theorem good_of_new (hmls : mls.Documented)
    (h : Session.new provider signature_key identity_json host = some s) : s.Good := by
  simp only [Session.new, Option.bind_eq_bind, Option.bind_eq_some_iff, require_eq_some] at h
  obtain ⟨id, -, -, -, credential, hcredential, h⟩ := h
  cases h
  refine ⟨fun g hg => ?_, fun g hg => ?_, hmls.identity_basic id credential hcredential⟩
  · cases hg
  · cases hg

variable (mls) in
def step (s : Session mls) (op : Operation) : Option (Session mls) := some (s.perform op).1

/-- Members stay good in every state, and only operations that succeed and the host's commits change
them. -/
theorem membership_stays_good (hmls : mls.Documented) {provider : mls.Provider} {signature_key : Bytes}
    {identity_json host : String} {start : Session mls}
    (hnew : Session.new provider signature_key identity_json host = some start) {ops : List Operation}
    {s : Session mls} (hrun : Machine.AnyRun (step mls) start ops s) :
    s.id = start.id ∧ s.host = start.host ∧
      (∀ g, s.group = some g → Good mls s.id s.host (mls.members g)) ∧
      (∀ op, (s.perform op).2 = false → (s.perform op).1.membership = s.membership) ∧
      ∀ packet expected bindings,
        (s.perform (.process packet expected bindings)).1.membership ≠ s.membership →
          CommitOfHost s packet := by
  obtain ⟨hid, hhost, hgood⟩ := hrun.invariant (I := fun s => s.id = start.id ∧ s.host = start.host ∧ s.Good)
    (fun s op s' hs _ hstep => by
      obtain ⟨hid, hhost, hgood⟩ := hs
      cases hstep
      have hsound := sound_perform hmls hgood op
      exact ⟨hsound.id.trans hid, hsound.host.trans hhost, hsound.good⟩)
    ⟨rfl, rfl, good_of_new hmls hnew⟩
  refine ⟨hid, hhost, hgood.members, fun op => (sound_perform hmls hgood op).failed, ?_⟩
  intro packet expected bindings hne
  rcases process_cases hmls hgood packet expected bindings with hquiet | ⟨hcommit, -⟩
  · exact absurd ((hquiet false).failed rfl) hne
  · exact hcommit

/-! ## A chat of three -/

structure SampleGroup where
  members : List (Member Identity)
  nodup : (members.map Member.index).Nodup
  pending_commit : Option (Option (Proposal Identity))

/-- The members after a commit of the proposal; a commit without one renews a key only. -/
def sampleApply (members : List (Member Identity)) : Option (Proposal Identity) → List (Member Identity)
  | some (.add leaf) => members ++ [⟨(members.map Member.index).sum + 1, leaf⟩]
  | some (.remove index) => members.filter fun m => m.index ≠ index
  | _ => members

theorem index_sampleApply_nodup (members : List (Member Identity)) (c : Option (Proposal Identity))
    (h : (members.map Member.index).Nodup) : ((sampleApply members c).map Member.index).Nodup := by
  unfold sampleApply
  split
  · rw [List.map_append]
    refine List.nodup_append.2 ⟨h, List.nodup_singleton _, fun i hi j hj hij => ?_⟩
    -- the new index is above all others
    have hle := List.single_le_sum (fun _ _ => Nat.zero_le _) i hi
    have hnew := List.mem_singleton.1 hj
    change j = (members.map Member.index).sum + 1 at hnew
    omega
  · exact h.sublist (List.filter_sublist.map _)
  · exact h

def SampleGroup.stage (g : SampleGroup) (c : Option (Proposal Identity)) : SampleGroup :=
  { g with pending_commit := some c }

def SampleGroup.merge (g : SampleGroup) (c : Option (Proposal Identity)) : SampleGroup :=
  ⟨sampleApply g.members c, index_sampleApply_nodup _ c g.nodup, none⟩

def sampleIdentity : ℕ → Identity
  | 0 => ⟨"c", "s", "u0", "p0"⟩
  | 1 => ⟨"c", "s", "u1", "p1"⟩
  | _ => ⟨"c", "s", "u2", "p2"⟩

def sampleLeaf (n : ℕ) : Leaf Identity := ⟨sampleIdentity n, List.replicate 32 (UInt8.ofNat n)⟩

def sampleBinding (n : ℕ) : Binding := ⟨sampleIdentity n, String.ofList (Base64.encode (sampleLeaf n).signature_key)⟩

/-- Three clients, each with one key package. Every message is a commit of the member 0. -/
def sampleMls : OpenMls where
  Provider := Unit
  Group := SampleGroup
  Credential := Identity
  KeyPackage := Leaf Identity
  Welcome := Unit
  Message := Option (Proposal Identity)
  Processed := Option (Proposal Identity) × Identity
  Queued := Proposal Identity
  Staged := Option (Proposal Identity)
  Out := Unit
  parse_bindings text :=
    if text = "pair" then some [sampleBinding 0, sampleBinding 1]
    else if text = "all" then some [sampleBinding 0, sampleBinding 1, sampleBinding 2]
    else none
  parse_identity text :=
    if text = "host" then some (sampleIdentity 0) else if text = "guest" then some (sampleIdentity 1) else none
  base64_decode text := Base64.decode text.toList
  base64_encode bytes := String.ofList (Base64.encode bytes)
  utf8_decode _ := none
  encode _ := some "out"
  basic := some
  identity := some
  members := SampleGroup.members
  member_at g i := g.members.find? fun m => m.index = i
  group_id _ := "s".toUTF8.toList
  suite _ := true
  pending_proposals _ := []
  pending_commit := SampleGroup.pending_commit
  own_leaf_index _ := 0
  key_package_leaf leaf := leaf
  sender _ := .member 0
  credential := Prod.snd
  content processed := .commit processed.1
  proposal p := p
  proposal_sender _ := .member 0
  queued_proposals c := c.toList
  update_path_leaf_node _ := none
  committer _ := 0
  welcome _ := some ()
  message bytes := if bytes = [3] then some (some (.add (sampleLeaf 2)))
    else if bytes = [4] then some (some (.remove 2)) else none
  validate bytes := if bytes = [1] then some (sampleLeaf 1) else if bytes = [2] then some (sampleLeaf 2) else none
  key_package _ _ := ((), some ())
  build _ _ leaf := ((), some ⟨[⟨0, leaf⟩], List.nodup_singleton _, none⟩)
  into_group _ _ := ((), some ⟨[⟨0, sampleLeaf 0⟩, ⟨1, sampleLeaf 1⟩], by decide, none⟩)
  add_members _ g leaf := ((), g.stage (some (.add leaf)), some ((), ()))
  remove_members _ g index := ((), g.stage (some (.remove index)), some ())
  self_update _ g := ((), g.stage none, some ())
  propose_self_update _ g := ((), g, some ())
  commit_to_pending_proposals _ g := ((), g.stage none, some ())
  create_message _ g _ := ((), g, some ())
  process_message _ g message :=
    ((), g, (g.members.find? fun m => m.index = 0).map fun m => (message, m.leaf.credential))
  store_pending_proposal _ g _ := ((), g, none)
  merge_pending_commit _ g :=
    match g.pending_commit with
    | some c => ((), g.merge c, some ())
    | none => ((), g, none)
  merge_staged_commit _ g c := ((), g.merge c, some ())

theorem sample_newLeaf (c : Option (Proposal Identity)) (m : Member Identity) : sampleMls.newLeaf c m = m.leaf := by
  unfold OpenMls.newLeaf
  split
  · rfl
  · rename_i hindex
    have hnone : sampleMls.updates c m.index = [] := by
      refine List.filterMap_eq_nil_iff.2 fun v hv => ?_
      obtain ⟨p, -, rfl⟩ := List.mem_map.1 hv
      exact if_neg fun hsender => hindex (Sender.member.inj hsender).symm
    rw [hnone]
    rfl

theorem sample_applied_of (added : List (Member Identity)) {members : List (Member Identity)}
    {c : Option (Proposal Identity)} (hadds : added.map Member.leaf = sampleMls.adds c)
    (hafter : sampleApply members c = (members.filter fun m => m.index ∉ sampleMls.removes c) ++ added) :
    sampleMls.Applied c members (sampleApply members c) := by
  have hkept : ∀ l : List (Member Identity), l.map (fun m => ⟨m.index, sampleMls.newLeaf c m⟩) = l := by
    intro l
    simp [sample_newLeaf]
  exact ⟨added, hadds, .of_eq (hafter.trans (congrArg (· ++ added) (hkept _).symm))⟩

theorem sample_applied (members : List (Member Identity)) (c : Option (Proposal Identity)) :
    sampleMls.Applied c members (sampleApply members c) := by
  cases c with
  | none => exact sample_applied_of [] rfl (by simp [sampleApply, OpenMls.removes, sampleMls])
  | some p =>
    have hremoves : sampleMls.removes (some p) = p.removed.toList := by
      cases p <;> rfl
    cases p with
    | add leaf =>
      exact sample_applied_of [⟨(members.map Member.index).sum + 1, leaf⟩] rfl
        (by simp [sampleApply, hremoves, Proposal.removed])
    | remove index => exact sample_applied_of [] rfl (by simp [sampleApply, hremoves, Proposal.removed])
    | update | other => exact sample_applied_of [] rfl (by simp [sampleApply, hremoves, Proposal.removed])

theorem keeps_refl (g : mls.Group) : mls.Keeps g g := ⟨rfl, fun _ hp => hp⟩

theorem sampleMls_documented : sampleMls.Documented where
  identity_basic _ _ h := h.symm
  index_nodup := SampleGroup.nodup
  member_at_eq _ _ := rfl
  build _ _ leaf _ g h := by
    obtain ⟨-, hg⟩ := Prod.mk.inj h
    cases hg
    exact ⟨⟨0, rfl⟩, rfl⟩
  add_members _ _ _ := ⟨rfl, fun _ hp => hp⟩
  remove_members _ _ _ := ⟨rfl, fun _ hp => hp⟩
  self_update _ _ := ⟨rfl, fun _ hp => hp⟩
  propose_self_update _ _ := rfl
  commit_to_pending_proposals _ _ := ⟨rfl, fun _ hp => hp⟩
  create_message _ g _ := keeps_refl g
  process_message _ g _ := keeps_refl g
  store_pending_proposal _ _ _ := ⟨rfl, fun _ hq => Or.inr hq⟩
  add_stages _ _ leaf _ := ⟨some (.add leaf), rfl, List.Subperm.refl _, fun _ h => by cases h⟩
  remove_stages _ _ index _ := ⟨some (.remove index), rfl, List.Subperm.refl _, fun _ h => by cases h⟩
  update_stages _ _ _ := ⟨none, rfl, List.Subperm.refl _, fun _ h => by cases h⟩
  commit_stages _ _ _ := ⟨none, rfl, List.Subperm.refl _, fun _ h => by cases h⟩
  merge_pending _ g c hc := by
    obtain ⟨members, hnodup, commit⟩ := g
    obtain rfl : commit = some c := hc
    exact ⟨sample_applied members c, rfl⟩
  sender_credential _ g message processed i m h hi hm := by
    obtain rfl : 0 = i := Sender.member.inj hi
    obtain ⟨m', hm', rfl⟩ := Option.map_eq_some_iff.1 h
    rw [Option.some.inj (hm'.symm.trans hm)]
    rfl
  sender_proposal _ _ _ _ _ _ h := by cases h
  sender_commit _ _ _ _ _ _ _ := Or.inl rfl
  removes_nodup _ _ _ _ c _ _ := by
    cases c with
    | none => exact List.nodup_nil
    | some p =>
      cases p with
      | remove index => exact List.nodup_singleton index
      | add | update | other => exact List.nodup_nil
  merge_staged _ g c := ⟨sample_applied g.members c, rfl⟩

def sampleHost : Session sampleMls := ⟨(), sampleLeaf 0, sampleIdentity 0, "p0", none⟩

def sampleGuest : Session sampleMls := ⟨(), sampleLeaf 1, sampleIdentity 1, "p0", none⟩

/-- The host admits two members, renews its key and removes one of them; a guest follows these commits. -/
theorem membership_stays_good_three :
    (∃ s, Machine.exec (step sampleMls) sampleHost
        [.create, .add "AQ==" "p1" "pair", .add "Ag==" "p2" "all", .update, .remove "p2" "pair"] = some s ∧
      s.membership = some [⟨0, sampleLeaf 0⟩, ⟨1, sampleLeaf 1⟩] ∧
      ∀ g, s.group = some g → Good sampleMls s.id s.host (sampleMls.members g)) ∧
    ∃ s, Machine.exec (step sampleMls) sampleGuest [.join "BQ==" "pair", .process "Aw==" "p0" "all"] = some s ∧
      s.membership = some [⟨0, sampleLeaf 0⟩, ⟨1, sampleLeaf 1⟩, ⟨2, sampleLeaf 2⟩] ∧
      (s.perform (.process "BA==" "p0" "pair")).1.membership = some [⟨0, sampleLeaf 0⟩, ⟨1, sampleLeaf 1⟩] ∧
      CommitOfHost s "BA==" := by
  have hhost : Session.new () (List.replicate 32 0) "host" "p0" = some sampleHost := rfl
  have hguest : Session.new () (List.replicate 32 1) "guest" "p0" = some sampleGuest := rfl
  have hadmits : (Machine.exec (step sampleMls) sampleHost
      [.create, .add "AQ==" "p1" "pair", .add "Ag==" "p2" "all", .update, .remove "p2" "pair"]).map
        (fun s => (s.membership : Option (List (Member Identity)))) = some (some [⟨0, sampleLeaf 0⟩, ⟨1, sampleLeaf 1⟩]) := by
    decide +kernel
  have hfollows : (Machine.exec (step sampleMls) sampleGuest [.join "BQ==" "pair", .process "Aw==" "p0" "all"]).map
      (fun s => ((s.membership, (s.perform (.process "BA==" "p0" "pair")).1.membership) :
        Option (List (Member Identity)) × Option (List (Member Identity)))) = some (some [⟨0, sampleLeaf 0⟩, ⟨1, sampleLeaf 1⟩, ⟨2, sampleLeaf 2⟩],
          some [⟨0, sampleLeaf 0⟩, ⟨1, sampleLeaf 1⟩]) := by
    decide +kernel
  obtain ⟨s, hexec, hmembership⟩ := Option.map_eq_some_iff.1 hadmits
  obtain ⟨s', hexec', hmemberships⟩ := Option.map_eq_some_iff.1 hfollows
  obtain ⟨hbefore, hafter⟩ := Prod.mk.inj hmemberships
  obtain ⟨-, -, hgood, -⟩ := membership_stays_good sampleMls_documented hhost (Machine.anyRun_of_exec hexec)
  obtain ⟨-, -, -, -, hcommit⟩ := membership_stays_good sampleMls_documented hguest (Machine.anyRun_of_exec hexec')
  refine ⟨⟨s, hexec, hmembership, hgood⟩, s', hexec', hbefore, hafter, hcommit "BA==" "p0" "pair" ?_⟩
  rw [hbefore, hafter]
  intro hsame
  cases hsame

end RyanAI.Encryption
