import RyanAI.Chat.DeleteMessage
import RyanAI.Chat.StoresAgree

/-!
# Repairing the current message

`_repair_chat_current_id` lists every message at its parent and then shows the end of the last branch below the current
message, or the latest message without children where there is no current one. It changes nothing but lists of children
and the id to show, so that a second repair finds the lists complete and a current message without children.
-/

namespace RyanAI.Chat

open RyanAI.Lib

/-- Own ids, roles and times, parents without a cycle, and true children. -/
structure Branching (messages : Messages) : Prop where
  id : ∀ id message, messages.get id = some message → Message.field "id" message = .str id ∧ id ≠ ""
  role : ∀ id message, messages.get id = some message → hasRole message = true
  timestamp : ∀ id message, messages.get id = some message →
    ∃ time : ℚ, 0 ≤ time ∧ Message.field "timestamp" message = .num time
  parent : ∀ id message, messages.get id = some message → Message.field "parentId" message = .null ∨
    ∃ p, Message.field "parentId" message = .str p ∧ (messages.get p).isSome
  items : ∀ id message, messages.get id = some message →
    ∀ item ∈ Message.childItems message, ∃ c, item = .str c ∧ parentAt messages c = some id
  acyclic : ∀ id, ¬ Relation.TransGen (fun c p => parentAt messages c = some p) id id

/-- No message has an output on which the repair raises. -/
structure Repairable (messages : Messages) : Prop extends Branching messages where
  output : ∀ id message, messages.get id = some message → Message.outputRaises message = false

variable {messages : Messages} {id p c : String}

theorem get_addChild (parentId : Option String) (childId q : String) :
    (addChildIdToParent messages parentId childId).get q =
      if parentId = some q ∧ q ≠ "" then (messages.get q).map fun m =>
        if Json.str childId ∈ Message.childItems m then m
        else Message.setChildren (Message.childItems m ++ [.str childId]) m
      else messages.get q := by
  cases parentId with
  | none => simp [addChildIdToParent]
  | some p =>
    by_cases hp : p = ""
    · subst hp
      rw [if_neg (by rintro ⟨⟨⟩, hne⟩; exact hne rfl)]
      simp [addChildIdToParent]
    · simp only [addChildIdToParent, if_neg hp]
      by_cases hq : p = q
      · subst hq
        rw [if_pos ⟨rfl, hp⟩]
        cases hget : messages.get p with
        | none => simp [hget]
        | some parent =>
          simp only [Option.map_some]
          split <;> simp [hget]
      · rw [if_neg (by simp [hq])]
        cases messages.get p with
        | none => rfl
        | some parent =>
          simp only
          split
          · rfl
          · rw [KeyedTable.get_set, if_neg (Ne.symm hq)]

theorem get_foldl_addChild (entries : List (String × Message)) (acc : Messages) (q : String) :
    (((entries.foldl (fun acc entry => addChildIdToParent acc (Message.parent entry.2) entry.1) acc).get q).isSome =
      (acc.get q).isSome) ∧
    ∀ item, (∃ m, (entries.foldl (fun acc entry => addChildIdToParent acc (Message.parent entry.2) entry.1) acc).get q =
        some m ∧ item ∈ Message.childItems m) ↔
      (∃ m, acc.get q = some m ∧ item ∈ Message.childItems m) ∨
        (acc.get q).isSome ∧ q ≠ "" ∧ ∃ entry ∈ entries, Message.parent entry.2 = some q ∧ item = .str entry.1 := by
  induction entries generalizing acc with
  | nil => simp
  | cons entry rest ih =>
    obtain ⟨hsome, hitem⟩ := ih (addChildIdToParent acc (Message.parent entry.2) entry.1)
    rw [List.foldl_cons]
    have hstep := @get_addChild acc (Message.parent entry.2) entry.1 q
    by_cases hq : Message.parent entry.2 = some q ∧ q ≠ ""
    · rw [if_pos hq] at hstep
      rw [hsome, hstep, Option.isSome_map]
      refine ⟨rfl, fun item => (hitem item).trans ?_⟩
      rw [hstep]
      cases hget : acc.get q with
      | none => simp
      | some m =>
        simp only [Option.map_some, Option.some.injEq, exists_eq_left', Option.isSome_some, true_and, List.mem_cons,
          exists_eq_or_imp, hq.1, hq.2, not_false_eq_true, ne_eq]
        by_cases hlisted : Json.str entry.1 ∈ Message.childItems m
        · rw [if_pos hlisted]
          constructor
          · rintro (h | h)
            · exact .inl h
            · exact .inr (.inr h)
          · rintro (h | rfl | h)
            · exact .inl h
            · exact .inl hlisted
            · exact .inr h
        · rw [if_neg hlisted, Message.childItems_setChildren, List.mem_append, List.mem_singleton, or_assoc]
    · rw [if_neg hq] at hstep
      rw [hsome, hstep]
      refine ⟨rfl, fun item => (hitem item).trans ?_⟩
      rw [hstep]
      simp only [List.mem_cons, exists_eq_or_imp]
      constructor
      · rintro (h | ⟨h, hne, h'⟩)
        · exact .inl h
        · exact .inr ⟨h, hne, .inr h'⟩
      · rintro (h | ⟨h, hne, ⟨hparent, -⟩ | h'⟩)
        · exact .inl h
        · exact absurd ⟨hparent, hne⟩ hq
        · exact .inr ⟨h, hne, h'⟩

theorem parentAt_listAtParents : parentAt (listAtParents messages) c = parentAt messages c :=
  (sameAt_listAtParents messages c).parent

def AllListed (messages : Messages) : Prop := ∀ c p, parentAt messages c = some p → c ∈ childrenAt messages p

theorem mem_childrenAt_iff : c ∈ childrenAt messages p ↔
    ∃ m, messages.get p = some m ∧ Json.str c ∈ Message.childItems m := by
  cases hget : messages.get p <;> simp [childrenAt, hget, Message.mem_children]

namespace Repairable

variable (h : Repairable messages)

include h

theorem isSome_parent (hp : parentAt messages c = some p) : (messages.get p).isSome ∧ p ≠ "" := by
  obtain ⟨message, hget, hparent⟩ := Option.bind_eq_some_iff.1 hp
  have hsome : (messages.get p).isSome := by
    rcases h.parent c message hget with hnull | ⟨p', htext, hsome⟩
    · rw [Message.parent, hnull] at hparent
      cases hparent
    · rw [Message.parent, htext] at hparent
      cases hparent
      exact hsome
  obtain ⟨other, hother⟩ := Option.isSome_iff_exists.1 hsome
  exact ⟨hsome, (h.id p other hother).2⟩

theorem listAtParents : Repairable (listAtParents messages) ∧ AllListed (listAtParents messages) := by
  have hsame (id : String) (message : Message) (hget : (Chat.listAtParents messages).get id = some message) :
      ∃ m, messages.get id = some m ∧ SameBut message m := by
    have hat := sameAt_listAtParents messages id
    rw [hget] at hat
    exact hat.of_some
  have hspec := get_foldl_addChild messages.entries messages
  refine ⟨⟨⟨fun id message hget => ?_, fun id message hget => ?_, fun id message hget => ?_, fun id message hget => ?_,
    fun id message hget item hitem => ?_, ?_⟩, fun id message hget => ?_⟩, fun c p hp => ?_⟩
  · obtain ⟨m, hm, hbut⟩ := hsame id message hget
    rw [hbut.field (by decide)]
    exact h.id id m hm
  · obtain ⟨m, hm, hbut⟩ := hsame id message hget
    rw [hasRole, hbut.field (by decide)]
    exact h.role id m hm
  · obtain ⟨m, hm, hbut⟩ := hsame id message hget
    rw [hbut.field (by decide)]
    exact h.timestamp id m hm
  · obtain ⟨m, hm, hbut⟩ := hsame id message hget
    rw [hbut.field (by decide)]
    simp only [(sameAt_listAtParents messages _).isSome]
    exact h.parent id m hm
  · rw [Chat.listAtParents] at hget
    rcases ((hspec id).2 item).1 ⟨message, hget, hitem⟩ with ⟨m, hm, hmem⟩ | ⟨-, -, entry, hentry, hparent, rfl⟩
    · obtain ⟨c, rfl, hc⟩ := h.items id m hm item hmem
      exact ⟨c, rfl, parentAt_listAtParents.trans hc⟩
    · refine ⟨entry.1, rfl, parentAt_listAtParents.trans ?_⟩
      rw [parentAt_of_get (KeyedTable.get_eq_some.2 hentry), hparent]
  · simp only [parentAt_listAtParents]
    exact h.acyclic
  · obtain ⟨m, hm, hbut⟩ := hsame id message hget
    rw [Message.outputRaises, hbut.field (by decide), ← Message.outputRaises]
    exact h.output id m hm
  · rw [parentAt_listAtParents] at hp
    obtain ⟨hsome, hne⟩ := h.isSome_parent hp
    obtain ⟨m, hm, hparent⟩ := Option.bind_eq_some_iff.1 hp
    exact mem_childrenAt_iff.2 (((hspec p).2 _).2
      (.inr ⟨hsome, hne, (c, m), KeyedTable.get_eq_some.1 hm, hparent, rfl⟩))

theorem listAtParents_eq (hlisted : AllListed messages) : Chat.listAtParents messages = messages := by
  have hfold : ∀ entries ⊆ messages.entries,
      entries.foldl (fun acc entry => addChildIdToParent acc (Message.parent entry.2) entry.1) messages = messages := by
    intro entries
    induction entries with
    | nil => exact fun _ => rfl
    | cons entry rest ih =>
      intro hsub
      have hget := KeyedTable.get_eq_some.2 (hsub List.mem_cons_self)
      have hstep : addChildIdToParent messages (Message.parent entry.2) entry.1 = messages := by
        cases hparent : Message.parent entry.2 with
        | none => rfl
        | some p =>
          have hp := (parentAt_of_get hget).trans hparent
          obtain ⟨m, hm, hmem⟩ := mem_childrenAt_iff.1 (hlisted _ _ hp)
          simp only [addChildIdToParent, if_neg (h.isSome_parent hp).2, hm, if_pos hmem]
      rw [List.foldl_cons, hstep]
      exact ih fun e he => hsub (List.mem_cons_of_mem _ he)
  exact hfold _ (List.Subset.refl _)

theorem parentAt_of_mem_childrenAt (hc : c ∈ childrenAt messages p) : parentAt messages c = some p := by
  obtain ⟨m, hm, hmem⟩ := mem_childrenAt_iff.1 hc
  obtain ⟨c', heq, hp⟩ := h.items p m hm _ hmem
  cases heq
  exact hp

theorem childItems_eq_nil {m : Message} (hm : messages.get id = some m)
    (hnil : childrenAt messages id = []) : Message.childItems m = [] := by
  rw [List.eq_nil_iff_forall_not_mem]
  intro item hitem
  obtain ⟨c, rfl, -⟩ := h.items id m hm item hitem
  have hc : c ∈ childrenAt messages id := mem_childrenAt_iff.2 ⟨m, hm, hitem⟩
  rw [hnil] at hc
  cases hc

/-- The induction is on the number of rounds; the ids seen are above `id`, so that no child of it was seen. -/
theorem lastDescendantId_of_seen (n : ℕ) (seen : List String) (id : String)
    (hid : (messages.get id).isSome) (hnodup : seen.Nodup) (hsub : seen ⊆ messages.keys)
    (hn : messages.keys.length + 1 ≤ n + seen.length)
    (hseen : ∀ v ∈ seen, Relation.TransGen (fun p c => parentAt messages c = some p) v id) :
    childrenAt messages (lastDescendantId messages n seen id) = [] ∧
      Relation.ReflTransGen (fun p c => parentAt messages c = some p) id (lastDescendantId messages n seen id) := by
  have hacyclic : ∀ x, ¬Relation.TransGen (fun p c => parentAt messages c = some p) x x := fun x hcycle =>
    h.acyclic x (Relation.transGen_swap.1 hcycle)
  induction n generalizing seen id with
  | zero =>
    have hle := (hnodup.subperm hsub).length_le
    omega
  | succ n ih =>
    obtain ⟨message, hget⟩ := Option.isSome_iff_exists.1 hid
    have hfresh : id ∉ seen := fun hmem => hacyclic id (hseen id hmem)
    have hchildren : Message.children message = childrenAt messages id := by simp [childrenAt, hget]
    have hchild : ∀ c ∈ childrenAt messages id, (decide (c ∉ id :: seen) &&
        ((messages.get c).any fun child => decide (Message.field "id" child = .str c) && hasRole child &&
          decide (Message.field "parentId" child = .str id))) = true := by
      intro c hc
      have hparent := h.parentAt_of_mem_childrenAt hc
      obtain ⟨child, hgetc, htext⟩ := Option.bind_eq_some_iff.1 hparent
      have hfield : Message.field "parentId" child = .str id := by
        rcases h.parent c child hgetc with hnull | ⟨p, hp, -⟩
        · rw [Message.parent, hnull] at htext
          cases htext
        · rw [Message.parent, hp] at htext
          cases htext
          exact hp
      have hnot : c ∉ id :: seen := by
        rintro hmem
        rcases List.mem_cons.1 hmem with rfl | hmem
        · exact hacyclic c (.single hparent)
        · exact hacyclic c ((hseen c hmem).tail hparent)
      simp [hgetc, (h.id c child hgetc).1, h.role c child hgetc, hfield, hnot]
    simp only [lastDescendantId, hget, if_neg hfresh, hchildren]
    rcases List.eq_nil_or_concat (childrenAt messages id) with hnil | ⟨front, last, hlast⟩
    · simp [hnil, Relation.ReflTransGen.refl]
    · have hmem : last ∈ childrenAt messages id := by simp [hlast]
      have hparent := h.parentAt_of_mem_childrenAt hmem
      obtain ⟨child, hgetc, -⟩ := Option.bind_eq_some_iff.1 hparent
      have hne := (h.id last child hgetc).2
      have hfind := hchild last hmem
      rw [hlast]
      simp only [List.concat_eq_append, List.reverse_append, List.reverse_singleton, List.singleton_append,
        List.find?_cons, hfind, Option.filter_some, hne, ne_eq, not_false_eq_true, decide_true, if_true]
      obtain ⟨hend, hreach⟩ := ih (id :: seen) last (by simp [hgetc]) (List.nodup_cons.2 ⟨hfresh, hnodup⟩)
        (List.cons_subset.2 ⟨KeyedTable.mem_keys.2 hid, hsub⟩) (by rw [List.length_cons]; omega) (by
          intro v hv
          rcases List.mem_cons.1 hv with rfl | hv
          · exact .single hparent
          · exact (hseen v hv).tail hparent)
      exact ⟨hend, .head hparent hreach⟩

theorem lastDescendantId_spec (hid : (messages.get id).isSome) :
    childrenAt messages (lastDescendantId messages (messages.keys.length + 1) [] id) = [] ∧
      Relation.ReflTransGen (fun p c => parentAt messages c = some p) id
        (lastDescendantId messages (messages.keys.length + 1) [] id) :=
  h.lastDescendantId_of_seen _ [] id hid List.nodup_nil (List.nil_subset _) (by simp) (by simp)

end Repairable

/-- A message without children. -/
def Leaf (messages : Messages) (id : String) : Prop := (messages.get id).isSome ∧ childrenAt messages id = []

theorem foldlM_invariant {α β : Type} {f : β → α → Option β} {P : β → Prop} (l : List α)
    (h : ∀ a ∈ l, ∀ b, P b → ∃ b', f b a = some b' ∧ P b') (b : β) (hb : P b) :
    ∃ b', l.foldlM f b = some b' ∧ P b' := by
  induction l generalizing b with
  | nil => exact ⟨b, rfl, hb⟩
  | cons a l ih =>
    obtain ⟨b₁, hf, hb₁⟩ := h a List.mem_cons_self b hb
    rw [List.foldlM_cons, hf]
    exact ih (List.forall_mem_of_forall_mem_cons h) b₁ hb₁

section

variable (h : Repairable messages)

include h

theorem Repairable.leaf_lastDescendantId (hid : (messages.get id).isSome) :
    Leaf messages (lastDescendantId messages (messages.keys.length + 1) [] id) := by
  obtain ⟨hend, hreach⟩ := h.lastDescendantId_spec hid
  refine ⟨?_, hend⟩
  rcases hreach.cases_tail with heq | ⟨_, -, hp⟩
  · rwa [heq]
  · exact isSome_of_parentAt hp

theorem Repairable.latestLeaf (hleaf : Leaf messages id) :
    ∃ leaf time, Chat.latestLeaf messages = some (some (leaf, time)) ∧ Leaf messages leaf := by
  have hstep : ∀ entry ∈ messages.entries, ∀ best : Option (String × ℚ),
      (∀ b ∈ best, 0 ≤ b.2 ∧ Leaf messages b.1) → ∃ best',
        (if !hasRole entry.2 || !(Message.childItems entry.2).isEmpty then some best
          else (Json.orElse (Message.field "timestamp" entry.2) (.num 0)).number.map fun timestamp =>
            if (best.map Prod.snd).getD (-1) < timestamp then some (entry.1, timestamp) else best) = some best' ∧
        (∀ b ∈ best', 0 ≤ b.2 ∧ Leaf messages b.1) ∧
        (best.isSome ∨ Message.childItems entry.2 = [] → best'.isSome) := by
    intro entry hentry best hbest
    have hget := KeyedTable.get_eq_some.2 hentry
    obtain ⟨time, hpos, htime⟩ := h.timestamp _ _ hget
    have hnumber : (Json.orElse (Message.field "timestamp" entry.2) (.num 0)).number = some time := by
      rw [htime, Json.orElse]
      split
      · rfl
      · rename_i hzero
        simp only [Json.truthy, decide_eq_true_eq, ne_eq, not_not] at hzero
        rw [hzero]
        rfl
    rw [hnumber, h.role _ _ hget]
    by_cases hnil : Message.childItems entry.2 = []
    · have hnew : Leaf messages entry.1 := ⟨by simp [hget], by simp [childrenAt, hget, Message.children, hnil]⟩
      simp only [hnil, List.isEmpty_nil, Bool.not_true, Bool.or_false, Bool.false_eq_true, if_false, Option.map_some]
      refine ⟨_, rfl, ?_, ?_⟩
      · split
        · rintro b ⟨⟩
          exact ⟨hpos, hnew⟩
        · exact hbest
      · cases best with
        | none => simp [lt_of_lt_of_le (by norm_num : (-1 : ℚ) < 0) hpos]
        | some b =>
          intro _
          split <;> rfl
    · have hempty : (Message.childItems entry.2).isEmpty = false := by simpa using hnil
      refine ⟨best, by simp [hempty], hbest, fun hsome => hsome.resolve_right hnil⟩
  obtain ⟨message, hget⟩ := Option.isSome_iff_exists.1 hleaf.1
  obtain ⟨front, back, hsplit⟩ := List.append_of_mem (KeyedTable.get_eq_some.1 hget)
  rw [Chat.latestLeaf, hsplit, List.foldlM_append]
  obtain ⟨b₁, hfront, hb₁⟩ := foldlM_invariant front
    (P := fun best : Option (String × ℚ) => ∀ b ∈ best, 0 ≤ b.2 ∧ Leaf messages b.1)
    (fun entry hentry best hbest => by
      obtain ⟨best', heq, hbest', -⟩ := hstep entry (by simp [hsplit, hentry]) best hbest
      exact ⟨best', heq, hbest'⟩) none (fun b hb => by cases hb)
  obtain ⟨b₂, hmid, hb₂, hsome⟩ := hstep (id, message) (by simp [hsplit]) b₁ hb₁
  obtain ⟨b₃, hback, hb₃, hsome₃⟩ := foldlM_invariant back
    (P := fun best : Option (String × ℚ) => (∀ b ∈ best, 0 ≤ b.2 ∧ Leaf messages b.1) ∧ best.isSome)
    (fun entry hentry best hbest => by
      obtain ⟨best', heq, hbest', hsome'⟩ := hstep entry (by simp [hsplit, hentry]) best hbest.1
      exact ⟨best', heq, hbest', hsome' (.inl hbest.2)⟩) b₂
    ⟨hb₂, hsome (.inr (h.childItems_eq_nil hget hleaf.2))⟩
  obtain ⟨⟨leaf, time⟩, rfl⟩ := Option.isSome_iff_exists.1 hsome₃
  refine ⟨leaf, time, ?_, (hb₃ _ rfl).2⟩
  rw [hfront, Option.bind_eq_bind, Option.bind_some, List.foldlM_cons, hmid, Option.bind_eq_bind, Option.bind_some]
  exact hback

theorem Repairable.lastDescendantId_leaf (hlisted : AllListed messages)
    (hleaf : Leaf messages id) : lastDescendantId messages (messages.keys.length + 1) [] id = id := by
  rcases (h.lastDescendantId_spec hleaf.1).2.cases_head with heq | ⟨c, hp, -⟩
  · exact heq.symm
  · have hc := hlisted c id hp
    rw [hleaf.2] at hc
    cases hc

/-- With complete lists, the end of the branch below the current message is shown, or the latest leaf. -/
theorem Repairable.repair_listed (hlisted : AllListed messages) (hid : (messages.get id).isSome)
    (currentId : Option String) : ∃ leaf, repairChatCurrentId ⟨messages, currentId⟩ = some ⟨messages, some leaf⟩ ∧
      Leaf messages leaf ∧ repairChatCurrentId ⟨messages, some leaf⟩ = some ⟨messages, some leaf⟩ ∧
      ∀ current message, currentId = some current → messages.get current = some message →
        isBadLeaf messages message = false →
          Relation.ReflTransGen (fun p c => parentAt messages c = some p) current leaf := by
  have hfix := h.listAtParents_eq hlisted
  obtain ⟨latest, time, hlatest, hleaf⟩ := h.latestLeaf (h.leaf_lastDescendantId hid)
  have hbranch (current : String) (message : Message) (hget : messages.get current = some message)
      (hbad : isBadLeaf messages message = false) : repairChatCurrentId ⟨messages, some current⟩ =
        some ⟨messages, some (lastDescendantId messages (messages.keys.length + 1) [] current)⟩ := by
    have hid : (Message.field "id" message).truthy = true := by
      simp [(h.id current message hget).1, (h.id current message hget).2, Json.truthy]
    simp [repairChatCurrentId, hfix, hget, hid, h.role current message hget, h.output current message hget, hbad,
      Option.filter_some]
  have hother (currentId : Option String) (hnone : ∀ current message, currentId = some current →
      messages.get current = some message → isBadLeaf messages message = true) :
      repairChatCurrentId ⟨messages, currentId⟩ = some ⟨messages, some latest⟩ := by
    obtain ⟨other, hother⟩ := Option.isSome_iff_exists.1 hleaf.1
    have hne := (h.id latest other hother).2
    cases currentId with
    | none => simp [repairChatCurrentId, hfix, hlatest, hne, Option.filter_some]
    | some current =>
      cases hget : messages.get current with
      | none => simp [repairChatCurrentId, hfix, hlatest, hne, hget, Option.filter_some]
      | some message =>
        simp [repairChatCurrentId, hfix, hlatest, hne, hget, h.output current message hget,
          hnone current message rfl hget, Option.filter_some]
  have hagain (leaf : String) (message : Message) (hl : Leaf messages leaf) (hget : messages.get leaf = some message)
      (hbad : isBadLeaf messages message = false) :
      repairChatCurrentId ⟨messages, some leaf⟩ = some ⟨messages, some leaf⟩ := by
    rw [hbranch leaf message hget hbad, h.lastDescendantId_leaf hlisted hl]
  by_cases hgood : ∃ current message, currentId = some current ∧ messages.get current = some message ∧
      isBadLeaf messages message = false
  · obtain ⟨current, message, rfl, hget, hbad⟩ := hgood
    have hsome : (messages.get current).isSome := by rw [hget, Option.isSome_some]
    have hl := h.leaf_lastDescendantId hsome
    obtain ⟨-, hreach⟩ := h.lastDescendantId_spec hsome
    refine ⟨_, hbranch current message hget hbad, hl, ?_, ?_⟩
    · -- below the current message it has a parent, so it is no bad leaf
      obtain ⟨last, hlast⟩ := Option.isSome_iff_exists.1 hl.1
      refine hagain _ last hl hlast ?_
      rcases hreach.cases_tail with heq | ⟨p, -, hp⟩
      · rw [heq, hget] at hlast
        rwa [← Option.some.inj hlast]
      · rw [parentAt_of_get hlast] at hp
        have hfield : Message.field "parentId" last ≠ .null := by
          intro hnull
          rw [Message.parent, hnull] at hp
          cases hp
        simp [isBadLeaf, hfield]
    · rintro _ _ ⟨⟩ - -
      exact hreach
  · have hbad : ∀ current message, currentId = some current → messages.get current = some message →
        isBadLeaf messages message = true := fun current message hcurrent hget =>
      Bool.not_eq_false _ ▸ fun hfalse => hgood ⟨current, message, hcurrent, hget, hfalse⟩
    refine ⟨latest, hother currentId hbad, hleaf, ?_, fun current message hcurrent hget hfalse =>
      absurd ⟨current, message, hcurrent, hget, hfalse⟩ hgood⟩
    obtain ⟨message, hget⟩ := Option.isSome_iff_exists.1 hleaf.1
    cases hmessage : isBadLeaf messages message with
    | false => exact hagain latest message hleaf hget hmessage
    | true =>
      refine hother (some latest) ?_
      rintro _ _ ⟨⟩ hget'
      rw [hget] at hget'
      rwa [← Option.some.inj hget']

end

theorem isBadLeaf_listAtParents {message message' : Message} (h : SameBut message' message) :
    isBadLeaf (listAtParents messages) message' = isBadLeaf messages message := by
  have hkeys : (listAtParents messages).keys.length = messages.keys.length := by
    refine ((List.perm_ext_iff_of_nodup (KeyedTable.nodup_keys _) (KeyedTable.nodup_keys _)).2 fun id => ?_).length_eq
    rw [KeyedTable.mem_keys, KeyedTable.mem_keys, (sameAt_listAtParents messages id).isSome]
  have hrole : outputRole message' = outputRole message := by
    unfold outputRole
    rw [h.field (by decide)]
  have hparent : Message.field "parentId" message' = Message.field "parentId" message := h.field (by decide)
  have htime : Message.field "timestamp" message' = Message.field "timestamp" message := h.field (by decide)
  rw [isBadLeaf, isBadLeaf, hrole, hparent, htime, hkeys]

/-- A repair lists every message at its parent and shows a leaf, below the old current message if that is no bad leaf;
a second repair changes nothing. -/
theorem repairChatCurrentId_of_repairable {history : History} (h : Repairable history.messages)
    (hne : history.messages.keys ≠ []) :
    ∃ repaired leaf, repairChatCurrentId history = some repaired ∧
      (∀ id, SameAt (repaired.messages.get id) (history.messages.get id)) ∧
      AllListed repaired.messages ∧ repaired.currentId = some leaf ∧ Leaf repaired.messages leaf ∧
      (∀ current message, history.currentId = some current → history.messages.get current = some message →
        isBadLeaf history.messages message = false →
          Relation.ReflTransGen (fun p c => parentAt repaired.messages c = some p) current leaf) ∧
      repairChatCurrentId repaired = some repaired := by
  obtain ⟨hrepairable, hlisted⟩ := h.listAtParents
  obtain ⟨id, hid⟩ := List.exists_mem_of_ne_nil _ hne
  have hsome : ((listAtParents history.messages).get id).isSome := by
    rw [(sameAt_listAtParents history.messages id).isSome]
    exact KeyedTable.mem_keys.1 hid
  obtain ⟨leaf, hrepair, hleaf, hagain, hreach⟩ := hrepairable.repair_listed hlisted hsome history.currentId
  have hsame : repairChatCurrentId history =
      repairChatCurrentId ⟨listAtParents history.messages, history.currentId⟩ := by
    simp only [repairChatCurrentId, hrepairable.listAtParents_eq hlisted]
  refine ⟨_, leaf, hsame.trans hrepair, sameAt_listAtParents history.messages, hlisted, rfl, hleaf, ?_, hagain⟩
  intro current message hcurrent hget hbad
  have hat := sameAt_listAtParents history.messages current
  rw [hget] at hat
  cases hget' : (listAtParents history.messages).get current with
  | none => rw [hget'] at hat; exact hat.elim
  | some message' =>
    rw [hget'] at hat
    exact hreach current message' hcurrent hget' ((isBadLeaf_listAtParents hat).trans hbad)

def branchMessage (id role : String) (parentId : Json) (children : List String) : Message :=
  KeyedTable.empty
    |> KeyedTable.set "id" (.str id)
    |> KeyedTable.set "role" (.str role)
    |> KeyedTable.set "timestamp" (.num 1)
    |> KeyedTable.set "parentId" parentId
    |> KeyedTable.set "childrenIds" (.arr (children.map .str))

/-- A question with a reply that it does not list, and a question below that. -/
def branch : Messages :=
  KeyedTable.empty
    |> KeyedTable.set "a" (branchMessage "a" "user" .null [])
    |> KeyedTable.set "b" (branchMessage "b" "assistant" (.str "a") ["c"])
    |> KeyedTable.set "c" (branchMessage "c" "user" (.str "b") [])

theorem Branching.of_entries (h : ∀ entry ∈ messages.entries, Message.field "id" entry.2 = .str entry.1 ∧
    entry.1 ≠ "" ∧ hasRole entry.2 = true ∧ Message.field "timestamp" entry.2 = .num 1 ∧
    (Message.field "parentId" entry.2 = .null ∨
      ∃ p ∈ messages.keys, Message.field "parentId" entry.2 = .str p ∧ p < entry.1) ∧
    ∀ item ∈ Message.childItems entry.2, ∃ c ∈ messages.keys, item = .str c ∧
      parentAt messages c = some entry.1) : Branching messages := by
  have hget : ∀ id message, messages.get id = some message → (id, message) ∈ messages.entries :=
    fun id message => KeyedTable.get_eq_some.1
  constructor
  · intro id message hm
    obtain ⟨hid, hne, -⟩ := h _ (hget id message hm)
    exact ⟨hid, hne⟩
  · intro id message hm
    obtain ⟨-, -, hrole, -⟩ := h _ (hget id message hm)
    exact hrole
  · intro id message hm
    obtain ⟨-, -, -, htime, -⟩ := h _ (hget id message hm)
    exact ⟨1, by norm_num, htime⟩
  · intro id message hm
    obtain ⟨-, -, -, -, hparent, -⟩ := h _ (hget id message hm)
    exact hparent.imp_right fun ⟨p, hp, htext, _⟩ => ⟨p, htext, KeyedTable.mem_keys.1 hp⟩
  · intro id message hm item hitem
    obtain ⟨-, -, -, -, -, hitems⟩ := h _ (hget id message hm)
    obtain ⟨c, -, hc⟩ := hitems item hitem
    exact ⟨c, hc⟩
  · intro id hcycle
    -- a parent comes before its children in the order of the ids
    have hlt : ∀ c p, Relation.TransGen (fun c p => parentAt messages c = some p) c p → p < c := by
      intro c p hpath
      have hup : ∀ c p, parentAt messages c = some p → p < c := by
        intro c p hp
        obtain ⟨message, hm, hparent⟩ := Option.bind_eq_some_iff.1 hp
        obtain ⟨-, -, -, -, hnull | ⟨p', -, htext, hless⟩, -⟩ := h _ (hget c message hm)
        · rw [Message.parent, hnull] at hparent
          cases hparent
        · rw [Message.parent, htext] at hparent
          cases hparent
          exact hless
      induction hpath with
      | single hp => exact hup _ _ hp
      | tail _ hp ih => exact String.lt_trans (hup _ _ hp) ih
    exact String.lt_irrefl _ (hlt id id hcycle)

theorem repairable_branch : Repairable branch where
  toBranching := .of_entries (by decide)
  output id message hget := by
    have hall : ∀ entry ∈ branch.entries, Message.outputRaises entry.2 = false := by decide
    exact hall _ (KeyedTable.get_eq_some.1 hget)

/-- The reply is listed, and the question at the end of the branch is shown. -/
theorem repairChatCurrentId_of_repairable_branch :
    (∃ repaired leaf, repairChatCurrentId ⟨branch, some "a"⟩ = some repaired ∧ AllListed repaired.messages ∧
      repaired.currentId = some leaf ∧ Leaf repaired.messages leaf ∧
      repairChatCurrentId repaired = some repaired) ∧
    (repairChatCurrentId ⟨branch, some "a"⟩).bind History.currentId = some "c" := by
  obtain ⟨repaired, leaf, hrepair, -, hlisted, hcurrent, hleaf, -, hagain⟩ :=
    @repairChatCurrentId_of_repairable ⟨branch, some "a"⟩ repairable_branch (by decide)
  exact ⟨⟨repaired, leaf, hrepair, hlisted, hcurrent, hleaf, hagain⟩, by decide⟩

def numberedOutput : Messages :=
  KeyedTable.empty |> KeyedTable.set "a" (KeyedTable.set "output" (.num 1) (branchMessage "a" "user" .null []))

/-- An output that is a number cannot be iterated over. -/
theorem repair_raises_on_output : ∃ history : History, Branching history.messages ∧ history.messages.keys ≠ [] ∧
    repairChatCurrentId history = none :=
  ⟨⟨numberedOutput, some "a"⟩, .of_entries (by decide), by decide, by decide⟩

end RyanAI.Chat
