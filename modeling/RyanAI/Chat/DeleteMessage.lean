import RyanAI.Chat.HistoryLinks

/-!
# Deleting a message of a tree

`delete_message_from_history` takes a message and its children out and hands the grandchildren to the parent. In a
history whose two kinds of links agree and have no cycle, nothing else changes, the links go on agreeing, and the id to
show next is a message without children.
-/

namespace RyanAI.Chat

open RyanAI.Lib

structure Tree (messages : Messages) : Prop where
  parent : ∀ id message, messages.get id = some message → Message.field "parentId" message = .null ∨
    ∃ p, Message.field "parentId" message = .str p ∧ (messages.get p).isSome
  items : ∀ id message, messages.get id = some message → ∀ item ∈ Message.childItems message, ∃ c, item = .str c
  children : ∀ id message, messages.get id = some message →
    ∀ c, c ∈ Message.children message ↔ parentAt messages c = some id
  acyclic : ∀ id, ¬ Relation.TransGen (fun c p => parentAt messages c = some p) id id

variable {messages : Messages} {id p c : String} {message : Message}

theorem parentAt_of_get (hget : messages.get id = some message) : parentAt messages id = Message.parent message := by
  rw [parentAt, hget, Option.bind_some]

theorem isSome_of_parentAt (h : parentAt messages c = some p) : (messages.get c).isSome := by
  obtain ⟨message, hget, -⟩ := Option.bind_eq_some_iff.1 h
  rw [hget, Option.isSome_some]

namespace Tree

variable (h : Tree messages)

include h

theorem isSome_parent (hp : parentAt messages c = some p) : (messages.get p).isSome := by
  obtain ⟨message, hget, hparent⟩ := Option.bind_eq_some_iff.1 hp
  rcases h.parent c message hget with hnull | ⟨p', htext, hsome⟩
  · rw [Message.parent, hnull] at hparent
    cases hparent
  · rw [Message.parent, htext] at hparent
    cases hparent
    exact hsome

theorem mem_childrenAt : c ∈ childrenAt messages p ↔ parentAt messages c = some p := by
  cases hget : messages.get p with
  | some message => simpa [childrenAt, hget] using h.children p message hget c
  | none =>
    refine iff_of_false (by simp [childrenAt, hget]) fun hparent => ?_
    simpa [hget] using h.isSome_parent hparent

theorem mem_present : c ∈ present messages (childrenAt messages p) ↔ parentAt messages c = some p := by
  rw [present, List.mem_filter, h.mem_childrenAt]
  exact and_iff_left_of_imp isSome_of_parentAt

theorem getLast?_walk_children (hid : (messages.get id).isSome) :
    ∃ leaf, (walk (fun id => (childrenAt messages id).getLast?) (messages.keys.length + 1) [] id).getLast? =
      some leaf ∧ (messages.get leaf).isSome ∧ childrenAt messages leaf = [] := by
  have hchild : ∀ x y, (childrenAt messages x).getLast? = some y → parentAt messages y = some x :=
    fun x y hlast => h.mem_childrenAt.1 (List.mem_of_getLast? hlast)
  obtain ⟨leaf, hleaf, hend, hreach⟩ := getLast?_walk
    (fun x y hlast => KeyedTable.mem_keys.2 (h.isSome_parent (hchild x y hlast)))
    (fun x hcycle => h.acyclic x (Relation.transGen_swap.1 (Relation.TransGen.mono hchild _ _ hcycle))) id
  refine ⟨leaf, hleaf, ?_, List.getLast?_eq_none_iff.1 hend⟩
  cases hreach with
  | refl => exact hid
  | tail _ hlast => exact isSome_of_parentAt (hchild _ _ hlast)

theorem exists_root (hid : (messages.get id).isSome) :
    ∃ root message, messages.get root = some message ∧ Message.field "parentId" message = .null := by
  have hkeys : ∀ x y, parentAt messages x = some y → x ∈ messages.keys := fun x y hp =>
    KeyedTable.mem_keys.2 (isSome_of_parentAt hp)
  obtain ⟨root, -, hend, hreach⟩ := getLast?_walk hkeys h.acyclic id
  have hroot : (messages.get root).isSome := by
    cases hreach with
    | refl => exact hid
    | tail _ hp => exact h.isSome_parent hp
  obtain ⟨message, hget⟩ := Option.isSome_iff_exists.1 hroot
  refine ⟨root, message, hget, ?_⟩
  rcases h.parent root message hget with hnull | ⟨p, htext, -⟩
  · exact hnull
  · rw [parentAt_of_get hget, Message.parent, htext] at hend
    cases hend

theorem lastOfBranch (start : Option String) {childIds : List String}
    (hchildren : ∀ c ∈ childIds, (messages.get c).isSome) (hne : childIds ≠ []) :
    ∃ leaf, Chat.lastOfBranch messages start childIds = some leaf ∧ (messages.get leaf).isSome ∧
      childrenAt messages leaf = [] := by
  obtain ⟨last, hlast⟩ := Option.ne_none_iff_exists'.1 (mt List.getLast?_eq_none_iff.1 hne)
  rw [Chat.lastOfBranch, hlast]
  exact h.getLast?_walk_children (hchildren last (List.mem_of_getLast? hlast))

end Tree

/-! ## What is left -/

theorem field_afterDelete (messageId q : String) (message other : Message) :
    Message.field "parentId" (afterDelete messages messageId message q other) =
      if q ∈ grandchildrenOf messages message then Message.field "parentId" message
      else Message.field "parentId" other := by
  simp only [afterDelete]
  split <;> split <;> simp [Message.setChildren]

theorem childItems_afterDelete (messageId q : String) (message other : Message) :
    Message.childItems (afterDelete messages messageId message q other) =
      if Message.parent message = some q then (Message.childItems other).filter (· ≠ .str messageId) ++
        (grandchildrenOf messages message).map .str
      else Message.childItems other := by
  have hset : ∀ m : Message, Message.childItems (KeyedTable.set "parentId" (Message.field "parentId" message) m) =
      Message.childItems m := fun m => by simp [Message.childItems]
  simp only [afterDelete]
  split <;> split <;> simp [hset]

section Delete

variable {history : History} {messageId : String} (h : Tree history.messages)
  (hget : history.messages.get messageId = some message)

include h hget

theorem mem_deleted_iff : id ∈ (deleteMessageFromHistory history messageId).2 ↔
    id = messageId ∨ parentAt history.messages id = some messageId := by
  have hchildren : Message.children message = childrenAt history.messages messageId := by simp [childrenAt, hget]
  rw [deleted_ids hget, List.mem_cons, hchildren, h.mem_present]

theorem mem_grandchildrenOf_iff : id ∈ grandchildrenOf history.messages message ↔
    ∃ c, parentAt history.messages c = some messageId ∧ parentAt history.messages id = some c := by
  have hchildren : Message.children message = childrenAt history.messages messageId := by simp [childrenAt, hget]
  simp only [grandchildrenOf, List.mem_flatMap, hchildren, h.mem_present]

omit h in
theorem get_delete : (deleteMessageFromHistory history messageId).1.messages.get id =
    if id ∈ (deleteMessageFromHistory history messageId).2 then none
    else (history.messages.get id).map (afterDelete history.messages messageId message id) := by
  rw [get_deleteMessage hget, deleted_ids hget]

theorem parentAt_delete : parentAt (deleteMessageFromHistory history messageId).1.messages id =
    if id ∈ (deleteMessageFromHistory history messageId).2 then none
    else if id ∈ grandchildrenOf history.messages message then parentAt history.messages messageId
    else parentAt history.messages id := by
  rw [parentAt, get_delete hget]
  by_cases hdeleted : id ∈ (deleteMessageFromHistory history messageId).2
  · rw [if_pos hdeleted, if_pos hdeleted, Option.bind_none]
  rw [if_neg hdeleted, if_neg hdeleted]
  cases hother : history.messages.get id with
  | some other =>
    rw [Option.map_some, Option.bind_some, Message.parent, field_afterDelete, parentAt_of_get hget,
      parentAt_of_get hother]
    split <;> rfl
  | none =>
    have hnone : parentAt history.messages id = none := by simp [parentAt, hother]
    rw [if_neg fun hgrand => ?_, hnone]
    · rfl
    · obtain ⟨c, -, hparent⟩ := (mem_grandchildrenOf_iff h hget).1 hgrand
      simp [hnone] at hparent

theorem parent_not_deleted (hp : parentAt history.messages messageId = some p) :
    p ∉ (deleteMessageFromHistory history messageId).2 := by
  rw [mem_deleted_iff h hget]
  rintro (rfl | hchild)
  · exact h.acyclic p (.single hp)
  · exact h.acyclic p (.tail (.single hchild) hp)

theorem grand_not_deleted (hgrand : id ∈ grandchildrenOf history.messages message) :
    id ∉ (deleteMessageFromHistory history messageId).2 := by
  obtain ⟨c, hc, hid⟩ := (mem_grandchildrenOf_iff h hget).1 hgrand
  rw [mem_deleted_iff h hget]
  rintro (rfl | hchild)
  · exact h.acyclic id (.tail (.single hid) hc)
  · obtain rfl := Option.some.inj (hid.symm.trans hchild)
    exact h.acyclic c (.single hc)

theorem not_deleted_of_parentAt (hid : id ∉ (deleteMessageFromHistory history messageId).2)
    (hgrand : id ∉ grandchildrenOf history.messages message) (hp : parentAt history.messages id = some p) :
    p ∉ (deleteMessageFromHistory history messageId).2 := by
  rw [mem_deleted_iff h hget] at hid ⊢
  rintro (rfl | hchild)
  · exact hid (.inr hp)
  · exact hgrand ((mem_grandchildrenOf_iff h hget).2 ⟨p, hchild, hp⟩)

theorem Tree.delete : Tree (deleteMessageFromHistory history messageId).1.messages := by
  have hsome : ∀ p, p ∉ (deleteMessageFromHistory history messageId).2 → (history.messages.get p).isSome →
      ((deleteMessageFromHistory history messageId).1.messages.get p).isSome := by
    intro p hp hstored
    rw [get_delete hget, if_neg hp, Option.isSome_map]
    exact hstored
  have hother : ∀ id left, (deleteMessageFromHistory history messageId).1.messages.get id = some left →
      id ∉ (deleteMessageFromHistory history messageId).2 ∧ ∃ other, history.messages.get id = some other ∧
        left = afterDelete history.messages messageId message id other := by
    intro id left hleft
    rw [get_delete hget] at hleft
    split_ifs at hleft with hid
    obtain ⟨other, hother, rfl⟩ := Option.map_eq_some_iff.1 hleft
    exact ⟨hid, other, hother, rfl⟩
  refine ⟨?_, ?_, ?_, ?_⟩
  · intro id left hleft
    obtain ⟨hid, other, hstored, rfl⟩ := hother id left hleft
    rw [field_afterDelete]
    split_ifs with hgrand
    · rcases h.parent messageId message hget with hnull | ⟨p, htext, hp⟩
      · exact .inl hnull
      · have hparent : parentAt history.messages messageId = some p := by
          rw [parentAt_of_get hget, Message.parent, htext]
          rfl
        exact .inr ⟨p, htext, hsome p (parent_not_deleted h hget hparent) hp⟩
    · rcases h.parent id other hstored with hnull | ⟨p, htext, hp⟩
      · exact .inl hnull
      · have hparent : parentAt history.messages id = some p := by
          rw [parentAt_of_get hstored, Message.parent, htext]
          rfl
        exact .inr ⟨p, htext, hsome p (not_deleted_of_parentAt h hget hid hgrand hparent) hp⟩
  · intro id left hleft item hitem
    obtain ⟨-, other, hstored, rfl⟩ := hother id left hleft
    rw [childItems_afterDelete] at hitem
    split_ifs at hitem
    · rcases List.mem_append.1 hitem with hkept | hnew
      · exact h.items id other hstored item (List.mem_of_mem_filter hkept)
      · obtain ⟨c, -, rfl⟩ := List.mem_map.1 hnew
        exact ⟨c, rfl⟩
    · exact h.items id other hstored item hitem
  · intro id left hleft c
    obtain ⟨hid, other, hstored, rfl⟩ := hother id left hleft
    have hlisted : c ∈ Message.children (afterDelete history.messages messageId message id other) ↔
        if parentAt history.messages messageId = some id then
          parentAt history.messages c = some id ∧ c ≠ messageId ∨ c ∈ grandchildrenOf history.messages message
        else parentAt history.messages c = some id := by
      rw [(Prod.mk.inj (links_afterDelete history.messages messageId message other id)).2, parentAt_of_get hget]
      split_ifs
      · rw [List.mem_append, List.mem_filter, h.children id other hstored, decide_eq_true_eq]
      · exact h.children id other hstored c
    have hstays := mt (mem_deleted_iff h hget).2 hid
    rw [hlisted, parentAt_delete h hget]
    by_cases hdeleted : c ∈ (deleteMessageFromHistory history messageId).2
    · rw [if_pos hdeleted]
      refine iff_of_false ?_ (fun hnone => by cases hnone)
      rcases (mem_deleted_iff h hget).1 hdeleted with rfl | hchild
      · split_ifs with hparent
        · rintro (⟨-, hne⟩ | hgrand)
          · exact hne rfl
          · exact grand_not_deleted h hget hgrand hdeleted
        · exact hparent
      · have hno : parentAt history.messages c ≠ some id := by
          rw [hchild]
          rintro ⟨⟩
          exact hstays (.inl rfl)
        split_ifs
        · rintro (⟨hparent, -⟩ | hgrand)
          · exact hno hparent
          · exact grand_not_deleted h hget hgrand hdeleted
        · exact hno
    rw [if_neg hdeleted]
    by_cases hgrand : c ∈ grandchildrenOf history.messages message
    · -- a grandchild is listed by the parent of the message, and its own parent is gone
      rw [if_pos hgrand]
      split_ifs with hparent
      · exact iff_of_true (.inr hgrand) hparent
      obtain ⟨x, hx, hc⟩ := (mem_grandchildrenOf_iff h hget).1 hgrand
      refine iff_of_false ?_ hparent
      rw [hc]
      rintro ⟨⟩
      exact hstays (.inr hx)
    · have hne : c ≠ messageId := fun heq => hdeleted ((mem_deleted_iff h hget).2 (.inl heq))
      rw [if_neg hgrand]
      split_ifs
      · simp [hne, hgrand]
      · exact Iff.rfl
  · intro id hcycle
    refine h.acyclic id (Relation.TransGen.closed ?_ _ _ hcycle)
    intro c p hp
    rw [parentAt_delete h hget] at hp
    split_ifs at hp with hdeleted hgrand
    · obtain ⟨x, hx, hc⟩ := (mem_grandchildrenOf_iff h hget).1 hgrand
      exact .tail (.tail (.single hc) hx) hp
    · exact .single hp

omit h in
theorem currentId_delete_eq : ∃ left, (deleteMessageFromHistory history messageId).1.messages = left ∧
    (deleteMessageFromHistory history messageId).1.currentId =
      (lastOfBranch left (Message.parent message)
        (if Message.field "parentId" message = .null then
          left.keys.filter fun id => (left.get id).map (Message.field "parentId") = some .null
        else ((Message.parent message).map (childrenAt left)).getD [])).filter fun id => (left.get id).isSome :=
  ⟨_, rfl, by simp only [deleteMessageFromHistory, hget]⟩

theorem currentId_delete : ((deleteMessageFromHistory history messageId).1.currentId = none →
      ∀ id, (deleteMessageFromHistory history messageId).1.messages.get id = none) ∧
    ∀ id, (deleteMessageFromHistory history messageId).1.currentId = some id →
      ((deleteMessageFromHistory history messageId).1.messages.get id).isSome ∧
        childrenAt (deleteMessageFromHistory history messageId).1.messages id = [] := by
  obtain ⟨left, hleft, hcurrent⟩ := currentId_delete_eq hget
  have htree := h.delete hget
  have hparent : ∀ p, Message.parent message = some p → (left.get p).isSome := by
    intro p hp
    have hat := (parentAt_of_get hget).trans hp
    rw [← hleft, get_delete hget, if_neg (parent_not_deleted h hget hat), Option.isSome_map]
    exact h.isSome_parent hat
  rw [hleft] at htree ⊢
  have hshown : ∀ leaf, (left.get leaf).isSome → childrenAt left leaf = [] →
      (deleteMessageFromHistory history messageId).1.currentId = (some leaf).filter (fun id => (left.get id).isSome) →
      ((deleteMessageFromHistory history messageId).1.currentId = none → ∀ id, left.get id = none) ∧
        ∀ id, (deleteMessageFromHistory history messageId).1.currentId = some id →
          (left.get id).isSome ∧ childrenAt left id = [] := by
    intro leaf hsome hnil hleaf
    rw [hleaf, Option.filter, if_pos hsome]
    refine ⟨(fun hnone => by cases hnone), ?_⟩
    rintro id ⟨⟩
    exact ⟨hsome, hnil⟩
  rcases h.parent messageId message hget with hnull | ⟨p, htext, -⟩
  · rw [if_pos hnull] at hcurrent
    by_cases hroots : (left.keys.filter fun id => (left.get id).map (Message.field "parentId") = some .null) = []
    · have hnone : Message.parent message = none := by rw [Message.parent, hnull]; rfl
      rw [hroots, hnone] at hcurrent
      refine ⟨fun _ id => ?_, fun id hid => by simp [hcurrent, lastOfBranch] at hid⟩
      by_contra hid
      obtain ⟨root, other, hroot, hfield⟩ := htree.exists_root (Option.isSome_iff_ne_none.2 hid)
      refine List.filter_eq_nil_iff.1 hroots root (KeyedTable.mem_keys.2 (by rw [hroot]; rfl)) ?_
      simp [hroot, hfield]
    · obtain ⟨leaf, hlast, hsome, hnil⟩ := htree.lastOfBranch (Message.parent message) (fun c hc =>
        KeyedTable.mem_keys.1 (List.mem_of_mem_filter hc)) hroots
      exact hshown leaf hsome hnil (hlast ▸ hcurrent)
  · have hsome : Message.parent message = some p := by rw [Message.parent, htext]; rfl
    rw [if_neg (by rw [htext]; rintro ⟨⟩), hsome, Option.map_some, Option.getD_some] at hcurrent
    by_cases hnil : childrenAt left p = []
    · exact hshown p (hparent p hsome) hnil (by rw [hcurrent, hnil]; rfl)
    · obtain ⟨leaf, hlast, hleaf, hend⟩ := htree.lastOfBranch (some p) (fun c hc =>
        isSome_of_parentAt (htree.mem_childrenAt.1 hc)) hnil
      exact hshown leaf hleaf hend (hlast ▸ hcurrent)

end Delete

/-- The children go too, the grandchildren move up, and the links still agree. -/
theorem deleteMessage_of_tree {history : History} {messageId : String} (h : Tree history.messages)
    (hget : history.messages.get messageId = some message) :
    let result := deleteMessageFromHistory history messageId
    (∀ id, id ∈ result.2 ↔ id = messageId ∨ parentAt history.messages id = some messageId) ∧
      (∀ id, result.1.messages.get id = if id ∈ result.2 then none
        else (history.messages.get id).map (afterDelete history.messages messageId message id)) ∧
      (∀ id, id ∈ grandchildrenOf history.messages message ↔
        ∃ c, parentAt history.messages c = some messageId ∧ parentAt history.messages id = some c) ∧
      Tree result.1.messages ∧
      (result.1.currentId = none → ∀ id, result.1.messages.get id = none) ∧
      ∀ id, result.1.currentId = some id → (result.1.messages.get id).isSome ∧ childrenAt result.1.messages id = [] :=
  ⟨fun _ => mem_deleted_iff h hget, fun _ => get_delete hget, fun _ => mem_grandchildrenOf_iff h hget, h.delete hget,
    currentId_delete h hget⟩

def sampleMessage (parentId : Json) (childrenIds : List Json) : Message :=
  KeyedTable.set "childrenIds" (.arr childrenIds) (KeyedTable.set "parentId" parentId KeyedTable.empty)

theorem childItems_sampleMessage (parentId : Json) (childrenIds : List Json) :
    Message.childItems (sampleMessage parentId childrenIds) = childrenIds := by
  simp [sampleMessage, Message.childItems]

def sampleTree : Messages where
  entries := [("a", sampleMessage .null [.str "b"]), ("b", sampleMessage (.str "a") [.str "c"]),
    ("c", sampleMessage (.str "b") [])]
  distinct := by simp [OrderedMap.Distinct, OrderedMap.keys]

theorem parentAt_sampleTree : parentAt sampleTree c = some p ↔ c = "b" ∧ p = "a" ∨ c = "c" ∧ p = "b" := by
  simp only [parentAt, Option.bind_eq_some_iff, KeyedTable.get_eq_some, sampleTree, List.mem_cons, List.not_mem_nil,
    or_false, Prod.mk.injEq]
  constructor
  · rintro ⟨message, ⟨rfl, rfl⟩ | ⟨rfl, rfl⟩ | ⟨rfl, rfl⟩, hp⟩ <;> cases hp <;> simp
  · rintro (⟨rfl, rfl⟩ | ⟨rfl, rfl⟩)
    · exact ⟨_, .inr (.inl ⟨rfl, rfl⟩), rfl⟩
    · exact ⟨_, .inr (.inr ⟨rfl, rfl⟩), rfl⟩

theorem tree_sampleTree : Tree sampleTree := by
  have hmem : ∀ id message, sampleTree.get id = some message → (id, message) ∈ sampleTree.entries :=
    fun _ _ => KeyedTable.get_eq_some.1
  refine ⟨fun id message hget => ?_, fun id message hget => ?_, fun id message hget c => ?_, fun id hcycle => ?_⟩
  · have hentry := hmem id message hget
    simp only [sampleTree, List.mem_cons, Prod.mk.injEq, List.not_mem_nil, or_false] at hentry
    rcases hentry with ⟨rfl, rfl⟩ | ⟨rfl, rfl⟩ | ⟨rfl, rfl⟩
    · exact .inl rfl
    · exact .inr ⟨"a", rfl, rfl⟩
    · exact .inr ⟨"b", rfl, rfl⟩
  · have hentry := hmem id message hget
    simp only [sampleTree, List.mem_cons, Prod.mk.injEq, List.not_mem_nil, or_false] at hentry
    rcases hentry with ⟨rfl, rfl⟩ | ⟨rfl, rfl⟩ | ⟨rfl, rfl⟩ <;> simp [childItems_sampleMessage]
  · have hentry := hmem id message hget
    simp only [sampleTree, List.mem_cons, Prod.mk.injEq, List.not_mem_nil, or_false] at hentry
    rw [parentAt_sampleTree]
    rcases hentry with ⟨rfl, rfl⟩ | ⟨rfl, rfl⟩ | ⟨rfl, rfl⟩ <;>
      simp [Message.mem_children, childItems_sampleMessage]
  · let rank : String → ℕ := fun id => if id = "a" then 0 else if id = "b" then 1 else 2
    have hrank : ∀ c p, Relation.TransGen (fun c p => parentAt sampleTree c = some p) c p → rank p < rank c := by
      intro c p hup
      induction hup with
      | single hp => rcases parentAt_sampleTree.1 hp with ⟨rfl, rfl⟩ | ⟨rfl, rfl⟩ <;> decide
      | tail _ hp ih =>
        refine lt_trans ?_ ih
        rcases parentAt_sampleTree.1 hp with ⟨rfl, rfl⟩ | ⟨rfl, rfl⟩ <;> decide
    exact lt_irrefl (rank id) (hrank id id hcycle)

theorem deleteMessage_of_tree_sample :
    let history : History := ⟨sampleTree, some "c"⟩
    let result := deleteMessageFromHistory history "a"
    (∀ id, id ∈ result.2 ↔ id = "a" ∨ parentAt history.messages id = some "a") ∧
      (∀ id, result.1.messages.get id = if id ∈ result.2 then none
        else (history.messages.get id).map (afterDelete history.messages "a"
          (sampleMessage .null [.str "b"]) id)) ∧
      (∀ id, id ∈ grandchildrenOf history.messages (sampleMessage .null [.str "b"]) ↔
        ∃ c, parentAt history.messages c = some "a" ∧ parentAt history.messages id = some c) ∧
      Tree result.1.messages ∧
      (result.1.currentId = none → ∀ id, result.1.messages.get id = none) ∧
      ∀ id, result.1.currentId = some id → (result.1.messages.get id).isSome ∧ childrenAt result.1.messages id = [] :=
  deleteMessage_of_tree tree_sampleTree rfl

end RyanAI.Chat
