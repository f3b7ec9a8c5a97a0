import RyanAI.Chat.StoresAgree

/-!
# Reading the messages back

The messages of a chat are read from its rows (`rowsMap`), and parents that have no row are taken from the history
(`getMessagesMapByChatId`), but nothing above them. `visitedIds` are the ids that `get_message_list` visits from a leaf
up to the root. The walk over the healed map is the one over the history exactly when no message on the way has two in a
row missing (`healing_complete_iff`).
-/

namespace RyanAI.Chat

open RyanAI.Lib

/-- The parent that `get_message_list` goes on with. -/
def nextId (messages : Messages) (id : String) : Option String :=
  ((messages.get id).bind Message.parent).filter fun parentId =>
    parentId ≠ "" && (storedMessage messages parentId).isSome

/-- The ids that `get_message_list` visits, the root first. -/
def visitedIds (messages : Messages) (messageId : String) : List String :=
  if (storedMessage messages messageId).isSome then
    (walk (nextId messages) (messages.keys.length + 1) [] messageId).reverse
  else []

/-- `get_message_list`. -/
def getMessageList (messages : Messages) (messageId : String) : List Message :=
  (visitedIds messages messageId).filterMap messages.get

def columns : List Column :=
  [.role, .parentId, .content, .modelId, .files, .sources, .embeds, .metaData, .done, .statusHistory, .error,
    .contextSummary]

def columnFields (row : Row) (cols : List Column) (message : Message) : Message :=
  cols.foldl (fun message column =>
    if row column = .null then message else KeyedTable.set column.key (row column) message) message

def rowMessage (id : String) (row : Row) : Message :=
  let message := columnFields row columns (KeyedTable.set "id" (.str id) KeyedTable.empty)
  if Message.has "content" message then message else KeyedTable.set "content" (.str "") message

/-- `ChatMessageTable.get_messages_map_by_chat_id`. -/
def rowsMap (rows : Rows) : Option Messages :=
  if rows.entries.isEmpty then none
  else
    some ((listAtParents (rows.map rowMessage)).map fun _ message =>
      if Message.has "childrenIds" message then message else Message.setChildren [] message)

/-- `get_unresolved_parent_ids`. -/
def getUnresolvedParentIds (messages : Messages) : List String :=
  (messages.entries.filterMap fun entry => Message.parent entry.2).filter fun parentId =>
    parentId ≠ "" && (messages.get parentId).isNone

/-- `backfill_messages_by_chat_id`: rows for the messages with a role. -/
def backfillMessages (rows : Rows) (messages : Messages) : Rows :=
  messages.entries.foldl (fun rows entry =>
    if hasRole entry.2 && (rows.get entry.1).isNone then rows.set entry.1 (buildMessage entry.2) else rows) rows

/-- `get_messages_map_by_chat_id`, and the rows it leaves. -/
def getMessagesMapByChatId (rows : Rows) (chat : Option Messages) : Option Messages × Rows :=
  match rowsMap rows with
  | some messages =>
    let unresolved := getUnresolvedParentIds messages
    if unresolved.isEmpty then (some messages, rows)
    else
      match chat with
      | none => (some messages, rows)
      | some history =>
        let missing := history.filter fun id _ => decide (id ∈ unresolved)
        (some (messages.update missing), backfillMessages rows missing)
  | none =>
    match chat with
    | none => (none, rows)
    | some history => (some history, backfillMessages rows history)

/-! ## What the rows say -/

theorem key_injective {a b : Column} (h : a.key = b.key) : a = b := by
  cases a <;> cases b <;> first | rfl | exact absurd h (by decide)

theorem field_columnFields (row : Row) (column : Column) (cols : List Column) (message : Message) :
    Message.field column.key (columnFields row cols message) =
      if column ∈ cols ∧ row column ≠ .null then row column else Message.field column.key message := by
  induction cols generalizing message with
  | nil => simp [columnFields]
  | cons col cols ih =>
    have hstep : columnFields row (col :: cols) message = columnFields row cols
        (if row col = .null then message else KeyedTable.set col.key (row col) message) := rfl
    rw [hstep, ih]
    by_cases hcol : column = col
    · subst hcol
      by_cases hnull : row column = .null <;> simp [hnull]
    have hkey : column.key ≠ col.key := fun h => hcol (key_injective h)
    have hfield : Message.field column.key
        (if row col = .null then message else KeyedTable.set col.key (row col) message) =
          Message.field column.key message := by
      split
      · rfl
      · rw [Message.field_set, if_neg hkey]
    rw [hfield]
    simp [hcol]

theorem parent_rowMessage (id : String) (row : Row) : Message.parent (rowMessage id row) = textOf (row .parentId) := by
  have hfield : Message.field "parentId" (columnFields row columns
      (KeyedTable.set "id" (.str id) KeyedTable.empty)) = row .parentId := by
    have hspec := field_columnFields row .parentId columns (KeyedTable.set "id" (.str id) KeyedTable.empty)
    rw [Column.key] at hspec
    rw [hspec]
    by_cases hnull : row .parentId = .null
    · simp [hnull, Message.field]
    · simp [hnull, columns]
  unfold rowMessage
  simp only
  split
  · rw [Message.parent, hfield]
  · rw [Message.parent_set_of_ne (by decide), Message.parent, hfield]

variable {message : Message} {messages : Messages} {rows : Rows} {id c p : String}

theorem get_columnFields_of_some (row : Row) (cols : List Column) {key : String}
    (h : (KeyedTable.get key message).isSome = true) :
    (KeyedTable.get key (columnFields row cols message)).isSome = true := by
  induction cols generalizing message with
  | nil => exact h
  | cons col cols ih =>
    apply ih
    simp only
    split
    · exact h
    · rw [KeyedTable.get_set]
      split
      · rfl
      · exact h

theorem truthy_of_get (key : String) (h : (KeyedTable.get key message).isSome = true) :
    Message.truthy message = true := by
  unfold Message.truthy
  cases hentries : message.entries with
  | nil =>
    rw [KeyedTable.get, hentries] at h
    cases h
  | cons => rfl

theorem isSome_id_rowMessage (id : String) (row : Row) : (KeyedTable.get "id" (rowMessage id row)).isSome = true := by
  have hid : (KeyedTable.get "id" (columnFields row columns
      (KeyedTable.set "id" (.str id) KeyedTable.empty))).isSome = true := by
    apply get_columnFields_of_some
    simp
  unfold rowMessage
  simp only
  split
  · exact hid
  · rw [KeyedTable.get_set, if_neg (by decide)]
    exact hid

section

variable (h : rowsMap rows = some messages)

include h

theorem sameAt_rowsMap (id : String) : SameAt (messages.get id) ((rows.get id).map (rowMessage id)) := by
  unfold rowsMap at h
  split at h
  · cases h
  cases h
  rw [KeyedTable.get_map]
  have hlisted := sameAt_listAtParents (rows.map rowMessage) id
  rw [KeyedTable.get_map] at hlisted
  refine SameAt.trans (sameAt_map (fun m => ?_) _) hlisted
  split
  · exact SameBut.refl m
  · exact sameBut_setChildren _ _

def Unresolved (rows : Rows) (id : String) : Prop :=
  rows.get id = none ∧ ∃ c row, rows.get c = some row ∧ textOf (row .parentId) = some id

theorem parentAt_rowsMap (c : String) :
    parentAt messages c = (rows.get c).bind fun row => textOf (row .parentId) := by
  rw [parentAt, (sameAt_rowsMap h c).parent]
  cases rows.get c with
  | none => rfl
  | some row => exact parent_rowMessage c row

theorem isNone_rowsMap (c : String) : (messages.get c).isNone = true ↔ rows.get c = none := by
  have hsome := (sameAt_rowsMap h c).isSome
  rw [Option.isSome_map] at hsome
  rw [Option.isNone_iff_eq_none, ← Option.not_isSome_iff_eq_none, hsome, Option.not_isSome_iff_eq_none]

theorem mem_unresolved_iff : id ∈ getUnresolvedParentIds messages ↔ id ≠ "" ∧ Unresolved rows id := by
  have hparents : (∃ entry ∈ messages.entries, Message.parent entry.2 = some id) ↔
      ∃ c row, rows.get c = some row ∧ textOf (row .parentId) = some id := by
    have hentry : ∀ c, (∃ m, messages.get c = some m ∧ Message.parent m = some id) ↔
        ∃ row, rows.get c = some row ∧ textOf (row .parentId) = some id := by
      intro c
      rw [← Option.bind_eq_some_iff, ← Option.bind_eq_some_iff, ← parentAt_rowsMap h c]
      rfl
    constructor
    · rintro ⟨⟨c, m⟩, hm, hparent⟩
      obtain ⟨row, hrow⟩ := (hentry c).1 ⟨m, KeyedTable.get_eq_some.2 hm, hparent⟩
      exact ⟨c, row, hrow⟩
    · rintro ⟨c, row, hrow⟩
      obtain ⟨m, hm, hparent⟩ := (hentry c).2 ⟨row, hrow⟩
      exact ⟨(c, m), KeyedTable.get_eq_some.1 hm, hparent⟩
  simp only [getUnresolvedParentIds, List.mem_filter, List.mem_filterMap, Bool.and_eq_true, decide_eq_true_eq,
    isNone_rowsMap h, Unresolved, hparents]
  tauto

end

theorem get_healed {history healed : Messages} (hrows : rows.entries ≠ [])
    (h : (getMessagesMapByChatId rows (some history)).1 = some healed) (id : String) :
    (∃ row, rows.get id = some row ∧ SameAt (healed.get id) (some (rowMessage id row))) ∨
      rows.get id = none ∧ (id ≠ "" ∧ Unresolved rows id → healed.get id = history.get id) ∧
        (¬ (id ≠ "" ∧ Unresolved rows id) → healed.get id = none) := by
  have hmap : ∃ messages, rowsMap rows = some messages := by
    unfold rowsMap
    rw [if_neg (by simpa using hrows)]
    exact ⟨_, rfl⟩
  obtain ⟨messages, hmessages⟩ := hmap
  -- with or without unresolved parents, the map is extended with those that the history has
  have hhealed : healed.get id =
      (((history.get id).filter fun _ => decide (id ∈ getUnresolvedParentIds messages))).or
        (messages.get id) := by
    simp only [getMessagesMapByChatId, hmessages] at h
    split at h
    · rename_i hempty
      cases h
      rw [List.isEmpty_iff.1 hempty]
      cases history.get id <;> simp [Option.filter]
    · cases h
      rw [KeyedTable.get_update, KeyedTable.get_filter]
  have hsame := sameAt_rowsMap hmessages id
  cases hrow : rows.get id with
  | some row =>
    left
    have hresolved : id ∉ getUnresolvedParentIds messages := by
      rw [mem_unresolved_iff hmessages]
      rintro ⟨-, hnone, -⟩
      rw [hrow] at hnone
      cases hnone
    have hfilter : ((history.get id).filter fun _ =>
        decide (id ∈ getUnresolvedParentIds messages)) = none := by
      cases history.get id <;> simp [Option.filter, hresolved]
    rw [hhealed, hfilter, Option.none_or]
    rw [hrow] at hsame
    exact ⟨row, rfl, hsame⟩
  | none =>
    right
    have hnone : messages.get id = none := by
      rw [← Option.isNone_iff_eq_none]
      exact (isNone_rowsMap hmessages id).2 hrow
    rw [hnone, Option.or_none] at hhealed
    refine ⟨rfl, fun hunresolved => ?_, fun hno => ?_⟩
    · have hmem := (mem_unresolved_iff hmessages).2 hunresolved
      rw [hhealed]
      cases history.get id <;> simp [Option.filter, hmem]
    · have hmem := mt (mem_unresolved_iff hmessages).1 hno
      rw [hhealed]
      cases history.get id <;> simp [Option.filter, hmem]

/-! ## Complete healing -/

/-- `p` is the parent of `c`, and `get_message_list` goes on with it. -/
def IsParent (messages : Messages) (c p : String) : Prop :=
  parentAt messages c = some p ∧ p ≠ "" ∧ (messages.get p).isSome = true

/-- `id` is on the way from the leaf to the root. -/
def OnChain (messages : Messages) : String → String → Prop := Relation.ReflTransGen (IsParent messages)

def Acyclic (messages : Messages) : Prop := ∀ id, ¬ Relation.TransGen (IsParent messages) id id

def Covered (rows : Rows) (messages : Messages) : Prop :=
  ∀ id row, rows.get id = some row → ∃ message, messages.get id = some message ∧ hasRole message = true ∧
    row .parentId = Message.field "parentId" message

theorem nextId_eq_some : nextId messages c = some p ↔ parentAt messages c = some p ∧ p ≠ "" ∧
      ∃ message, messages.get p = some message ∧ Message.truthy message = true := by
  simp only [nextId, Option.filter_eq_some_iff, Bool.and_eq_true, decide_eq_true_eq, storedMessage,
    Option.isSome_iff_exists, parentAt]

theorem mem_keys_of_nextId (h : nextId messages c = some p) : c ∈ messages.keys := by
  obtain ⟨message, hget, -⟩ := Option.bind_eq_some_iff.1 (nextId_eq_some.1 h).1
  exact KeyedTable.mem_keys.2 (by rw [hget]; rfl)

theorem truthy_of_parent (hlinked : Links.Linked (links messages)) (hparent : parentAt messages c = some p)
    (hp : messages.get p = some message) :
    Message.truthy message = true := by
  obtain ⟨child, hchild, hchildParent⟩ := Option.bind_eq_some_iff.1 hparent
  have hcount := hlinked p _ c _ (links_of_get hp) (links_of_get hchild)
  rw [hchildParent, Links.due, if_pos rfl] at hcount
  have hlisted : c ∈ Message.children message := List.count_pos_iff.1 (by rw [hcount]; exact Nat.one_pos)
  rw [Message.mem_children, Message.childItems] at hlisted
  apply truthy_of_get "childrenIds"
  cases hget : KeyedTable.get "childrenIds" message with
  | none => simp [Message.field, hget] at hlisted
  | some value => rfl

theorem nextId_eq_some_iff (hlinked : Links.Linked (links messages)) :
    nextId messages c = some p ↔ IsParent messages c p := by
  rw [nextId_eq_some]
  constructor
  · rintro ⟨hparent, hne, message, hget, -⟩
    exact ⟨hparent, hne, by rw [hget]; rfl⟩
  · rintro ⟨hparent, hne, hsome⟩
    obtain ⟨message, hget⟩ := Option.isSome_iff_exists.1 hsome
    exact ⟨hparent, hne, message, hget, truthy_of_parent hlinked hparent hget⟩

section Healing

variable {rows : Rows} {messages healed : Messages} {leaf : String}

theorem healed_spec (hlinked : Links.Linked (links messages)) (hcovered : Covered rows messages)
    (hrows : rows.entries ≠ []) (h : (getMessagesMapByChatId rows (some messages)).1 = some healed)
    (hget : healed.get id = some message) :
    (messages.get id).isSome = true ∧ parentAt healed id = parentAt messages id ∧
      Message.truthy message = true ∧ ((rows.get id).isSome = true ∨ Unresolved rows id) := by
  rcases get_healed hrows h id with ⟨row, hrow, hsame⟩ | ⟨hnone, hfrom, hno⟩
  · obtain ⟨m, hm, -, hparent⟩ := hcovered id row hrow
    have hparents : parentAt healed id = parentAt messages id := by
      rw [parentAt, hsame.parent, Option.bind_some, parent_rowMessage, hparent, parentAt, hm]
      rfl
    rw [hget] at hsame
    have hid : KeyedTable.get "id" message = KeyedTable.get "id" (rowMessage id row) :=
      (show SameBut message (rowMessage id row) from hsame) "id" (by decide)
    refine ⟨by rw [hm]; rfl, hparents, truthy_of_get "id" ?_, .inl (by rw [hrow]; rfl)⟩
    rw [hid]
    exact isSome_id_rowMessage id row
  · by_cases hunresolved : id ≠ "" ∧ Unresolved rows id
    · have hhistory := hfrom hunresolved
      rw [hget] at hhistory
      obtain ⟨-, c, row, hrow, hparent⟩ := hunresolved.2
      obtain ⟨m, hm, -, hfield⟩ := hcovered c row hrow
      have hc : parentAt messages c = some id := by
        rw [parentAt, hm, Option.bind_some, Message.parent, ← hfield, hparent]
      refine ⟨by rw [← hhistory]; rfl, by rw [parentAt, parentAt, hget, hhistory], ?_,
        .inr hunresolved.2⟩
      exact truthy_of_parent hlinked hc hhistory.symm
    · rw [hno hunresolved] at hget
      cases hget

theorem isSome_healed_iff (hlinked : Links.Linked (links messages)) (hcovered : Covered rows messages)
    (hrows : rows.entries ≠ []) (h : (getMessagesMapByChatId rows (some messages)).1 = some healed)
    (hid : (messages.get id).isSome = true) (hne : id ≠ "" ∨ (rows.get id).isSome = true) :
    (healed.get id).isSome = true ↔ (rows.get id).isSome = true ∨ Unresolved rows id := by
  constructor
  · intro hsome
    obtain ⟨message, hget⟩ := Option.isSome_iff_exists.1 hsome
    exact (healed_spec hlinked hcovered hrows h hget).2.2.2
  intro hcase
  rcases get_healed hrows h id with ⟨row, hrow, hsame⟩ | ⟨hnone, hfrom, -⟩
  · rw [hsame.isSome]
    rfl
  · rw [hnone] at hcase hne
    have hunresolved := hcase.resolve_left (by simp)
    rw [hfrom ⟨hne.resolve_right (by simp), hunresolved⟩]
    exact hid

/-- The walk is complete exactly when each message has a row or is a parent of one. -/
theorem healing_complete_iff (hlinked : Links.Linked (links messages)) (hcovered : Covered rows messages)
    (hleaf : (rows.get leaf).isSome = true) :
    (∃ healed, (getMessagesMapByChatId rows (some messages)).1 = some healed ∧
        visitedIds healed leaf = visitedIds messages leaf) ↔
      ∀ id, OnChain messages leaf id → (rows.get id).isSome = true ∨ Unresolved rows id := by
  have hrows : rows.entries ≠ [] := by
    intro hnil
    rw [KeyedTable.get, hnil] at hleaf
    cases hleaf
  have hmap : ∃ healed, (getMessagesMapByChatId rows (some messages)).1 = some healed := by
    unfold getMessagesMapByChatId rowsMap
    rw [if_neg (by simpa using hrows)]
    simp only
    split <;> exact ⟨_, rfl⟩
  obtain ⟨healed, hhealed⟩ := hmap
  have hnext : ∀ {c p}, nextId messages c = some p ↔ IsParent messages c p := nextId_eq_some_iff hlinked
  -- ids on the way are messages, and only the leaf may be `""`
  have hchain : ∀ id, OnChain messages leaf id →
      (messages.get id).isSome = true ∧ (id ≠ "" ∨ (rows.get id).isSome = true) := by
    intro id hid
    rcases Relation.ReflTransGen.cases_tail hid with rfl | ⟨c, -, -, hne, hsome⟩
    · obtain ⟨row, hrow⟩ := Option.isSome_iff_exists.1 hleaf
      obtain ⟨m, hm, -⟩ := hcovered _ row hrow
      exact ⟨by rw [hm]; rfl, .inr hleaf⟩
    · exact ⟨hsome, .inl hne⟩
  have hstored : ∀ {id}, (healed.get id).isSome = true → (storedMessage healed id).isSome = true := by
    intro id hsome
    obtain ⟨message, hget⟩ := Option.isSome_iff_exists.1 hsome
    have htruthy := (healed_spec hlinked hcovered hrows hhealed hget).2.2.1
    rw [storedMessage, hget, Option.filter_some_pos htruthy]
    rfl
  have hleafHealed : (healed.get leaf).isSome = true := by
    have hleaf' := hchain leaf .refl
    exact (isSome_healed_iff hlinked hcovered hrows hhealed hleaf'.1 hleaf'.2).2 (.inl hleaf)
  have hleafHistory : (storedMessage messages leaf).isSome = true := by
    obtain ⟨row, hrow⟩ := Option.isSome_iff_exists.1 hleaf
    obtain ⟨m, hm, hrole, -⟩ := hcovered leaf row hrow
    have htruthy : Message.truthy m = true := by
      apply truthy_of_get "role"
      cases hget : KeyedTable.get "role" m with
      | none => simp [hasRole, Message.field, hget, Json.truthy] at hrole
      | some value => rfl
    rw [storedMessage, hm, Option.filter_some_pos htruthy]
    rfl
  have hmem : ∀ id, id ∈ walk (nextId messages) (messages.keys.length + 1) [] leaf ↔
      OnChain messages leaf id := by
    intro id
    rw [mem_walk_iff (fun c p hcp => mem_keys_of_nextId hcp) (Nat.lt_succ_self _)]
    simp only [hnext]
    rfl
  constructor
  · rintro ⟨healed', hhealed', heq⟩ id hid
    rw [hhealed] at hhealed'
    cases hhealed'
    -- the id is visited in the healed map, so it is one of its messages
    have hvisited : id ∈ walk (nextId healed) (healed.keys.length + 1) [] leaf := by
      have hmem' : id ∈ visitedIds messages leaf := by
        rw [visitedIds, if_pos hleafHistory, List.mem_reverse]
        exact (hmem id).2 hid
      rw [← heq, visitedIds, if_pos (hstored hleafHealed), List.mem_reverse] at hmem'
      exact hmem'
    have hsome : (healed.get id).isSome = true := by
      rcases Relation.ReflTransGen.cases_tail (reach_of_mem_walk _ _ _ hvisited) with rfl | ⟨c, -, hstep⟩
      · exact hleafHealed
      · obtain ⟨-, -, message, hget, -⟩ := nextId_eq_some.1 hstep
        rw [hget]
        rfl
    exact (isSome_healed_iff hlinked hcovered hrows hhealed (hchain id hid).1 (hchain id hid).2).1 hsome
  · intro hcond
    refine ⟨healed, hhealed, ?_⟩
    have hpresent : ∀ id, OnChain messages leaf id → (healed.get id).isSome = true := by
      intro id hid
      exact (isSome_healed_iff hlinked hcovered hrows hhealed (hchain id hid).1 (hchain id hid).2).2 (hcond id hid)
    -- both maps go on in the same way from every message on the way
    have hsame : ∀ id ∈ walk (nextId messages) (messages.keys.length + 1) [] leaf,
        nextId healed id = nextId messages id := by
      intro id hid
      have hon := (hmem id).1 hid
      obtain ⟨message, hget⟩ := Option.isSome_iff_exists.1 (hpresent id hon)
      have hparents := (healed_spec hlinked hcovered hrows hhealed hget).2.1
      ext p
      rw [hnext, nextId_eq_some, hparents, IsParent]
      constructor
      · rintro ⟨hparent, hne, m, hm, -⟩
        exact ⟨hparent, hne, (healed_spec hlinked hcovered hrows hhealed hm).1⟩
      · rintro ⟨hparent, hne, hp⟩
        obtain ⟨m, hm⟩ := Option.isSome_iff_exists.1 (hpresent p (hon.tail ⟨hparent, hne, hp⟩))
        exact ⟨hparent, hne, m, hm, (healed_spec hlinked hcovered hrows hhealed hm).2.2.1⟩
    have hkeys : healed.keys.length < messages.keys.length + 1 := by
      have hsub : healed.keys ⊆ messages.keys := by
        intro id hid
        obtain ⟨message, hget⟩ := Option.isSome_iff_exists.1 (KeyedTable.mem_keys.1 hid)
        exact KeyedTable.mem_keys.2 (healed_spec hlinked hcovered hrows hhealed hget).1
      have hle := ((KeyedTable.nodup_keys healed).subperm hsub).length_le
      omega
    rw [visitedIds, if_pos (hstored hleafHealed), visitedIds, if_pos hleafHistory,
      ← walk_congr _ _ _ hsame, walk_fuel (fun c p hcp => mem_keys_of_nextId hcp) hkeys]

end Healing

theorem acyclic_of_rank (rank : String → ℕ) (h : ∀ c p, IsParent messages c p → rank p < rank c) :
    Acyclic messages := by
  have hlt : ∀ c p, Relation.TransGen (IsParent messages) c p → rank p < rank c := by
    intro c p hcp
    induction hcp with
    | single hstep => exact h _ _ hstep
    | tail _ hstep ih => exact (h _ _ hstep).trans ih
  exact fun id hid => lt_irrefl _ (hlt id id hid)

def chainMessages : Messages :=
  let message := fun (parent : Json) (children : List String) =>
    (bareMessage parent children).set "role" (.str "user")
  KeyedTable.empty
    |> KeyedTable.set "a" (message .null ["b"])
    |> KeyedTable.set "b" (message (.str "a") ["c"])
    |> KeyedTable.set "c" (message (.str "b") ["d"])
    |> KeyedTable.set "d" (message (.str "c") [])

def rowsOf (ids : List String) : Rows :=
  (chainMessages.filter fun id _ => decide (id ∈ ids)).map fun _ message => buildMessage message

theorem covered_rowsOf (ids : List String) : Covered (rowsOf ids) chainMessages := by
  intro id row hrow
  rw [rowsOf, KeyedTable.get_map, KeyedTable.get_filter] at hrow
  obtain ⟨message, hmessage, rfl⟩ := Option.map_eq_some_iff.1 hrow
  obtain ⟨hget, -⟩ := Option.filter_eq_some_iff.1 hmessage
  refine ⟨message, hget, ?_⟩
  have hall : ∀ entry ∈ chainMessages.entries, hasRole entry.2 = true ∧
      buildMessage entry.2 .parentId = Message.field "parentId" entry.2 := by decide
  exact hall (id, message) (KeyedTable.get_eq_some.1 hget)

theorem healing_complete_sample :
    (∃ healed, (getMessagesMapByChatId (rowsOf ["a", "b", "d"]) (some chainMessages)).1 = some healed ∧
        visitedIds healed "d" = visitedIds chainMessages "d") ∧
      ∀ id, OnChain chainMessages "d" id →
        ((rowsOf ["a", "b", "d"]).get id).isSome = true ∨ Unresolved (rowsOf ["a", "b", "d"]) id := by
  have hhealed : ∃ healed, (getMessagesMapByChatId (rowsOf ["a", "b", "d"]) (some chainMessages)).1 = some healed ∧
      visitedIds healed "d" = visitedIds chainMessages "d" := ⟨_, rfl, by decide⟩
  exact ⟨hhealed, (healing_complete_iff (by decide) (covered_rowsOf _) (by decide)).1 hhealed⟩

theorem acyclic_chainMessages : Acyclic chainMessages := by
  refine acyclic_of_rank (fun id => if id = "a" then 0 else if id = "b" then 1 else if id = "c" then 2 else 3) ?_
  rintro c p ⟨hparent, -, -⟩
  obtain ⟨message, hget, hmessage⟩ := Option.bind_eq_some_iff.1 hparent
  have hall : ∀ entry ∈ chainMessages.entries, ∀ p, Message.parent entry.2 = some p →
      (if p = "a" then 0 else if p = "b" then 1 else if p = "c" then 2 else 3) <
        if entry.1 = "a" then 0 else if entry.1 = "b" then 1 else if entry.1 = "c" then 2 else 3 := by
    intro entry hentry p hp
    have hbound : ∀ entry ∈ chainMessages.entries, (Message.parent entry.2).all fun p =>
        decide ((if p = "a" then 0 else if p = "b" then 1 else if p = "c" then 2 else 3) <
          if entry.1 = "a" then 0 else if entry.1 = "b" then 1 else if entry.1 = "c" then 2 else 3) := by
      decide
    have hlt := hbound entry hentry
    rw [hp] at hlt
    simpa using hlt
  exact hall (c, message) (KeyedTable.get_eq_some.1 hget) p hmessage

/-- With the row of `d` alone, the map ends at `c`, and `a` and `b` are lost. -/
theorem two_missing_messages_truncate :
    ¬ ∀ (rows : Rows) (messages : Messages) (leaf : String), Links.Linked (links messages) →
      Acyclic messages → Covered rows messages → (rows.get leaf).isSome = true →
        ∃ healed, (getMessagesMapByChatId rows (some messages)).1 = some healed ∧
          visitedIds healed leaf = visitedIds messages leaf := by
  intro h
  obtain ⟨healed, hhealed, hvisited⟩ := h (rowsOf ["d"]) chainMessages "d" (by decide) acyclic_chainMessages
    (covered_rowsOf _) (by decide)
  have hend : visitedIds healed "d" = ["c", "d"] := by
    cases hhealed
    decide
  rw [hend] at hvisited
  revert hvisited
  decide

end RyanAI.Chat
