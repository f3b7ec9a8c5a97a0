import RyanAI.Chat.MessageStores
import RyanAI.Chat.HistoryLinks

/-!
# When the two stores of the messages agree

`Agree` says that the rows are those of the messages with a role, with the same values in the shared columns. A patched
row agrees where the message is `Patchable`: it has a role, its keys in the other spelling say the same, and what it
does not carry the row does not have either. An operation that writes the rows of such messages, and leaves the shared
fields of the others as they are, keeps the agreement (`Agree.write`).
-/

namespace RyanAI.Chat

open RyanAI.Lib

namespace Column

def shared : Column → Bool
  | modelId | embeds | metaData | contextSummary => false
  | _ => true

def expected (column : Column) (message : Message) : Json := (KeyedTable.get column.key message).getD column.default

end Column

def view (message : Option Message) : Option Row :=
  (message.filter hasRole).map fun m column => if column.shared then column.expected m else .null

def rowView (row : Row) : Row := fun column => if column.shared then row column else .null

def Agree (stores : Stores) : Prop := ∀ id, (stores.rows.get id).map rowView = view (stores.history.messages.get id)

/-! ## Messages that look the same -/

def SharedSame (a b : Message) : Prop :=
  ∀ column : Column, column.shared = true → KeyedTable.get column.key a = KeyedTable.get column.key b

variable {a b message : Message} {column : Column} {key id : String} {rows : Rows} {messages : Messages}
    {history repaired : History} {turn : Turn}

theorem SharedSame.hasRole (h : SharedSame a b) : hasRole a = hasRole b := by
  have hrole : KeyedTable.get "role" a = KeyedTable.get "role" b := h .role rfl
  rw [RyanAI.Chat.hasRole, RyanAI.Chat.hasRole, Message.field, Message.field, hrole]

theorem SharedSame.expected (h : SharedSame a b) (hcolumn : column.shared = true) :
    column.expected a = column.expected b := by
  rw [Column.expected, Column.expected, h column hcolumn]

theorem SharedSame.view (h : SharedSame a b) : view (some a) = view (some b) := by
  have hcolumns : (fun column : Column => if column.shared then column.expected a else .null) =
      fun column : Column => if column.shared then column.expected b else .null := by
    funext column
    split
    · rename_i hcolumn
      exact h.expected hcolumn
    · rfl
  cases hb : RyanAI.Chat.hasRole b with
  | true =>
    have ha : RyanAI.Chat.hasRole a = true := h.hasRole.trans hb
    simp only [RyanAI.Chat.view, Option.filter_some_pos ha, Option.filter_some_pos hb, Option.map_some, hcolumns]
  | false =>
    have ha : RyanAI.Chat.hasRole a = false := h.hasRole.trans hb
    simp [RyanAI.Chat.view, Option.filter, ha, hb]

theorem key_ne_childrenIds (column : Column) : column.key ≠ "childrenIds" := by
  cases column <;> decide

theorem SameBut.sharedSame (h : SameBut a b) : SharedSame a b :=
  fun column _ => h column.key (key_ne_childrenIds column)

theorem SameBut.refl (message : Message) : SameBut message message := fun _ _ => rfl

theorem SameBut.trans {c : Message} (hab : SameBut a b) (hbc : SameBut b c) : SameBut a c :=
  fun key hkey => (hab key hkey).trans (hbc key hkey)

/-- Both missing, or equal in every field but `childrenIds`. -/
def SameAt : Option Message → Option Message → Prop
  | some a, some b => SameBut a b
  | none, none => True
  | _, _ => False

theorem SameAt.refl (message : Option Message) : SameAt message message := by
  cases message with
  | none => trivial
  | some m => exact SameBut.refl m

theorem SameAt.trans {a b c : Option Message} (hab : SameAt a b) (hbc : SameAt b c) : SameAt a c := by
  cases a <;> cases b <;> cases c <;> simp only [SameAt] at *
  exact hab.trans hbc

theorem SameAt.view {a b : Option Message} (h : SameAt a b) : view a = view b := by
  cases a <;> cases b <;> simp only [SameAt] at h
  · rfl
  · exact h.sharedSame.view

theorem SameAt.of_some {b : Option Message} (h : SameAt (some a) b) : ∃ m, b = some m ∧ SameBut a m := by
  cases b with
  | none => exact False.elim h
  | some m => exact ⟨m, rfl, h⟩

theorem SameAt.isSome {a b : Option Message} (h : SameAt a b) : a.isSome = b.isSome := by
  cases a <;> cases b <;> simp only [SameAt] at h
  · rfl
  · rfl

theorem SameAt.parent {a b : Option Message} (h : SameAt a b) : a.bind Message.parent = b.bind Message.parent := by
  cases a <;> cases b <;> simp only [SameAt] at h
  · rfl
  · rw [Option.bind_some, Option.bind_some, Message.parent, h.field (by decide), Message.parent]

theorem sameAt_map {f : Message → Message} (hf : ∀ m, SameBut (f m) m) (message : Option Message) :
    SameAt (message.map f) message := by
  cases message with
  | none => trivial
  | some m => exact hf m

theorem sameAt_addChildIdToParent (messages : Messages) (parentId : Option String) (childId q : String) :
    SameAt ((addChildIdToParent messages parentId childId).get q) (messages.get q) := by
  obtain ⟨f, hf, hget⟩ := get_addChildIdToParent messages parentId childId q
  rw [hget]
  apply sameAt_map
  intro m
  rcases hf m with heq | ⟨ids, heq⟩
  · rw [heq]
    exact SameBut.refl m
  · rw [heq]
    exact sameBut_setChildren ids m

/-! ## Rows that agree -/

def Plain (message : Message) : Prop :=
  ∀ column : Column, column.shared = true → ∀ key, column.otherKey = some key →
    (Message.field key message).truthy = true → Message.field key message = Message.field column.key message

/-- The row of `old` agrees with `new` once it is patched with it. -/
structure Patchable (old : Option Message) (new : Message) : Prop where
  role : hasRole new = true
  plain : Plain new
  carries : ∀ message, old = some message → hasRole message = true → ∀ column : Column,
    column.shared = true → column.carried new = false → column.expected message = column.default

theorem otherKey_ne_childrenIds (h : column.otherKey = some key) : key ≠ "childrenIds" := by
  cases column <;> cases h <;> decide

theorem Plain.congr (hab : SameBut a b) (h : Plain a) : Plain b := by
  intro column hcolumn key hkey htruthy
  have hne := otherKey_ne_childrenIds hkey
  rw [← hab.field hne] at htruthy ⊢
  rw [← hab.field (key_ne_childrenIds column)]
  exact h column hcolumn key hkey htruthy

theorem carried_congr (hab : SameBut a b) (column : Column) : column.carried a = column.carried b := by
  have hhas : ∀ key, key ≠ "childrenIds" → Message.has key a = Message.has key b := by
    intro key hkey
    rw [Message.has, hab key hkey, Message.has]
  unfold Column.carried
  rw [hhas _ (key_ne_childrenIds column)]
  cases hother : column.otherKey with
  | none => rfl
  | some key => simp only [Option.any_some, hhas key (otherKey_ne_childrenIds hother)]

theorem Patchable.congr {old : Option Message} (hab : SameBut a b) (h : Patchable old a) : Patchable old b where
  role := by
    rw [← hab.sharedSame.hasRole]
    exact h.role
  plain := h.plain.congr hab
  carries message hold hrole column hcolumn hcarried := by
    rw [← carried_congr hab] at hcarried
    exact h.carries message hold hrole column hcolumn hcarried

theorem Patchable.congr_old {old old' : Option Message} {new : Message} (hold : SameAt old old')
    (h : Patchable old new) : Patchable old' new where
  role := h.role
  plain := h.plain
  carries message hmessage hrole column hcolumn hcarried := by
    subst hmessage
    cases old with
    | none => exact False.elim hold
    | some m =>
      have hsame : SharedSame m message := SameBut.sharedSame hold
      rw [← hsame.expected hcolumn]
      exact h.carries m rfl (hsame.hasRole.trans hrole) column hcolumn hcarried

theorem expected_of_not_carried (h : column.carried message = false) : column.expected message = column.default := by
  simp only [Column.carried, Bool.or_eq_false_iff, Message.has] at h
  have hnone : KeyedTable.get column.key message = none := by simpa using h.1
  rw [Column.expected, hnone]
  rfl

theorem read_eq_expected (hplain : Plain message) (hcolumn : column.shared = true) (h : column.carried message = true) :
    column.read message = column.expected message := by
  unfold Column.read Column.expected
  cases hother : column.otherKey with
  | none =>
    simp only [Column.carried, hother, Option.any_none, Bool.or_false, Message.has] at h
    obtain ⟨value, hvalue⟩ := Option.isSome_iff_exists.1 h
    simp [Message.field, hvalue]
  | some key =>
    -- the columns with two spellings default to null
    have hdefault : column.default = .null := by
      cases column <;> cases hother <;> rfl
    simp only [hdefault, Json.orElse]
    split
    · rename_i htruthy
      exact hplain column hcolumn key hother htruthy
    · rfl

theorem patchable_of_extends {old new : Message} (hrole : hasRole new = true) (hplain : Plain new)
    (hextends : ∀ column : Column, column.shared = true → KeyedTable.get column.key new = none →
      KeyedTable.get column.key old = none) : Patchable (some old) new where
  role := hrole
  plain := hplain
  carries message hmessage _ column hcolumn hcarried := by
    cases hmessage
    simp only [Column.carried, Bool.or_eq_false_iff, Message.has] at hcarried
    have hnone : KeyedTable.get column.key new = none := by simpa using hcarried.1
    rw [Column.expected, hextends column hcolumn hnone]
    rfl

def patched (row : Option Row) (message : Message) : Row :=
  match row with
  | some row => applyMessageData row message
  | none => buildMessage message

theorem rowView_patched {row : Option Row} {old : Option Message} {new : Message}
    (hagree : row.map rowView = view old) (h : Patchable old new) :
    some (rowView (patched row new)) = view (some new) := by
  rw [view, Option.filter_some_pos h.role, Option.map_some]
  congr 1
  funext column
  simp only [rowView]
  split
  · rename_i hcolumn
    cases hcarried : column.carried new with
    | true =>
      have hread := read_eq_expected h.plain hcolumn hcarried
      cases row <;> simp [patched, applyMessageData, buildMessage, hcarried, hread]
    | false =>
      rw [expected_of_not_carried hcarried]
      cases row with
      | none => simp [patched, buildMessage, hcarried]
      | some row =>
        simp only [patched, applyMessageData, hcarried, Bool.false_eq_true, if_false]
        -- the row has the value of the old message, which is the default
        rw [Option.map_some, view] at hagree
        obtain ⟨m, hm, hrow⟩ := Option.map_eq_some_iff.1 hagree.symm
        obtain ⟨hold, hrole⟩ := Option.filter_eq_some_iff.1 hm
        have hvalue := congrFun hrow column
        simp only [rowView, hcolumn, if_true] at hvalue
        rw [← hvalue]
        exact h.carries m hold hrole column hcolumn hcarried
  · rfl

section Writing

variable {valid : Row → Bool}

theorem get_upsertRow {rows' : Rows} {data : Message} (h : upsertRow valid rows id data = some rows') (q : String) :
    rows'.get q = if q = id then some (patched (rows.get q) data) else rows.get q := by
  have hdef : upsertRow valid rows id data =
      if valid (patched (rows.get id) data) then some (rows.set id (patched (rows.get id) data))
      else none := rfl
  rw [hdef] at h
  split at h
  · cases h
    rw [KeyedTable.get_set]
    split
    · rename_i hq
      rw [hq]
    · rfl
  · cases h

theorem get_writeRows {ids : List String} (hnodup : ids.Nodup) {rows' : Rows}
    (h : writeRows valid messages rows ids = some rows') (q : String) :
    rows'.get q = if q ∈ ids then ((messages.get q).map (patched (rows.get q))).or (rows.get q)
      else rows.get q := by
  induction ids generalizing rows with
  | nil =>
    cases h
    simp
  | cons id rest ih =>
    rw [writeRows, List.foldlM_cons, Option.bind_eq_bind, Option.bind_eq_some_iff] at h
    obtain ⟨next, hnext, hrest⟩ := h
    obtain ⟨hid, hnodup'⟩ := List.nodup_cons.1 hnodup
    have ih' := ih hnodup' hrest
    cases hget : messages.get id with
    | none =>
      simp only [hget] at hnext
      cases hnext
      rw [ih']
      by_cases hq : q = id
      · subst hq
        simp [hid, hget]
      · simp [hq]
    | some message =>
      simp only [hget] at hnext
      have hnext' := get_upsertRow hnext
      rw [ih', hnext' q]
      by_cases hq : q = id
      · subst hq
        simp [hid, hget]
      · simp [hq]

theorem Agree.write {stores : Stores} (hagree : Agree stores) {ids : List String} (hnodup : ids.Nodup)
    (h : writeRows valid messages stores.rows ids = some rows)
    (hwritten : ∀ id ∈ ids, ∃ message, messages.get id = some message ∧
      Patchable (stores.history.messages.get id) message)
    (hothers : ∀ id, id ∉ ids → view (messages.get id) = view (stores.history.messages.get id))
    (currentId : Option String) : Agree ⟨⟨messages, currentId⟩, rows⟩ := by
  intro id
  rw [get_writeRows hnodup h id]
  by_cases hid : id ∈ ids
  · obtain ⟨message, hget, hpatch⟩ := hwritten id hid
    rw [if_pos hid, hget, Option.map_some, Option.some_or, Option.map_some]
    exact rowView_patched (hagree id) hpatch
  · rw [if_neg hid]
    exact (hagree id).trans (hothers id hid).symm

end Writing

theorem sameAt_listAtParents (messages : Messages) (q : String) :
    SameAt ((listAtParents messages).get q) (messages.get q) := by
  have hfold : ∀ (entries : List (String × Message)) (acc : Messages),
      SameAt ((entries.foldl (fun acc entry =>
        addChildIdToParent acc (Message.parent entry.2) entry.1) acc).get q) (acc.get q) := by
    intro entries
    induction entries with
    | nil => exact fun acc => SameAt.refl _
    | cons entry rest ih =>
      intro acc
      rw [List.foldl_cons]
      exact (ih _).trans (sameAt_addChildIdToParent _ _ _ _)
  exact hfold messages.entries messages

def getAfter (messages : Messages) (id : String) (message : Message) (key : String) : Option Json :=
  match messages.get id with
  | some stored => (KeyedTable.get key message).or (KeyedTable.get key stored)
  | none =>
    if key = "parentId" then some (newParentId messages id message) else KeyedTable.get key message

structure WriteFits (messages : Messages) (id : String) (message : Message) : Prop where
  role : (messages.get id).isSome = true → ((getAfter messages id message "role").getD .null).truthy = true
  plain : ∀ column : Column, column.shared = true → ∀ key, column.otherKey = some key →
    ((getAfter messages id message key).getD .null).truthy = true →
      (getAfter messages id message key).getD .null = (getAfter messages id message column.key).getD .null

theorem get_upserted_of_some {stored : Message} (hget : messages.get id = some stored) (now : ℕ) (message : Message)
    (hkey : key ≠ "meta") :
    KeyedTable.get key (upserted now messages id message) = getAfter messages id message key := by
  simp only [upserted, getAfter, hget, KeyedTable.get_update, get_keepMeta stored message hkey]

theorem get_upserted_of_none (hget : messages.get id = none) (now : ℕ) (message : Message)
    (hkey : key ∉ ["id", "childrenIds", "role", "timestamp"]) :
    KeyedTable.get key (upserted now messages id message) = getAfter messages id message key := by
  simp only [List.mem_cons, List.not_mem_nil, or_false, not_or] at hkey
  obtain ⟨hid, hchildren, hrole, htimestamp⟩ := hkey
  simp only [upserted, newMessage, getAfter, hget, KeyedTable.get_set, if_neg hid, if_neg hchildren,
    if_neg hrole, if_neg htimestamp]

theorem truthy_newRole (messages : Messages) (parentId : Json) (message : Message) :
    (newRole messages parentId message).truthy = true := by
  unfold newRole
  simp only
  split
  · assumption
  · split
    · rfl
    · split <;> rfl

theorem WriteFits.patchable (h : WriteFits messages id message) (now : ℕ) :
    Patchable (messages.get id) (upserted now messages id message) := by
  cases hget : messages.get id with
  | some stored =>
    have hfield : ∀ key, key ≠ "meta" → Message.field key (upserted now messages id message) =
        (getAfter messages id message key).getD .null := by
      intro key hkey
      rw [Message.field, get_upserted_of_some hget now message hkey]
    refine patchable_of_extends ?_ ?_ ?_
    · rw [hasRole, hfield "role" (by decide)]
      exact h.role (by rw [hget]; rfl)
    · intro column hcolumn key hkey htruthy
      have hkeys : key ≠ "meta" ∧ column.key ≠ "meta" := by
        cases column <;> cases hkey <;> decide
      rw [hfield key hkeys.1] at htruthy ⊢
      rw [hfield column.key hkeys.2]
      exact h.plain column hcolumn key hkey htruthy
    · intro column hcolumn hnone
      have hmeta : column.key ≠ "meta" := by
        cases column <;> first | decide | cases hcolumn
      rw [get_upserted_of_some hget now message hmeta] at hnone
      simp only [getAfter, hget, Option.or_eq_none_iff] at hnone
      exact hnone.2
  | none =>
    have hfield : ∀ key, key ∉ ["id", "childrenIds", "role", "timestamp"] →
        Message.field key (upserted now messages id message) = (getAfter messages id message key).getD .null := by
      intro key hkey
      rw [Message.field, get_upserted_of_none hget now message hkey]
    refine ⟨?_, ?_, fun _ hstored => absurd hstored (by simp)⟩
    · have hrole : Message.field "role" (upserted now messages id message) =
          newRole messages (newParentId messages id message) message := by
        simp [upserted, newMessage, hget]
      rw [hasRole, hrole]
      exact truthy_newRole _ _ _
    · intro column hcolumn key hkey htruthy
      have hkeys : key ∉ ["id", "childrenIds", "role", "timestamp"] ∧
          column.key ∉ ["id", "childrenIds", "role", "timestamp"] := by
        cases column <;> cases hkey <;> decide
      rw [hfield key hkeys.1] at htruthy ⊢
      rw [hfield column.key hkeys.2]
      exact h.plain column hcolumn key hkey htruthy

theorem sameAt_upsertMessage (now : ℕ) (history : History) (id : String) (message : Message) (q : String) :
    SameAt ((upsertMessageToHistory now history id message).messages.get q)
      (if q = id then some (upserted now history.messages id message) else history.messages.get q) := by
  have hsame := sameAt_addChildIdToParent
    (history.messages.set id (upserted now history.messages id message))
    (Message.parent (upserted now history.messages id message)) id q
  rw [KeyedTable.get_set] at hsame
  exact hsame

def upsertAll (now : ℕ) (writes : List (String × Message)) (history : History) : History :=
  writes.foldl (fun history write => upsertMessageToHistory now history write.1 write.2) history

theorem sameAt_upsertAll (now : ℕ) {writes : List (String × Message)} (hnodup : (writes.map Prod.fst).Nodup)
    (history : History) :
    (∀ q, q ∉ writes.map Prod.fst → SameAt ((upsertAll now writes history).messages.get q) (history.messages.get q)) ∧
    ∀ write ∈ writes, ∃ base : Messages, SameAt (base.get write.1) (history.messages.get write.1) ∧
      (writes.head? = some write → base = history.messages) ∧
      SameAt ((upsertAll now writes history).messages.get write.1)
        (some (upserted now base write.1 write.2)) := by
  induction writes generalizing history with
  | nil => exact ⟨fun q _ => SameAt.refl _, nofun⟩
  | cons write rest ih =>
    rw [List.map_cons, List.nodup_cons] at hnodup
    obtain ⟨hnew, hnodup'⟩ := hnodup
    obtain ⟨hothers, hwrites⟩ := ih hnodup' (upsertMessageToHistory now history write.1 write.2)
    have hframe : ∀ q, q ≠ write.1 →
        SameAt ((upsertMessageToHistory now history write.1 write.2).messages.get q)
          (history.messages.get q) := by
      intro q hq
      have hsame := sameAt_upsertMessage now history write.1 write.2 q
      rwa [if_neg hq] at hsame
    refine ⟨?_, ?_⟩
    · intro q hq
      simp only [List.map_cons, List.mem_cons, not_or] at hq
      exact (hothers q hq.2).trans (hframe q hq.1)
    intro w hw
    rcases List.mem_cons.1 hw with rfl | hw
    · -- the later upserts leave it as it is
      refine ⟨history.messages, SameAt.refl _, fun _ => rfl, (hothers w.1 hnew).trans ?_⟩
      have hsame := sameAt_upsertMessage now history w.1 w.2 w.1
      rwa [if_pos rfl] at hsame
    · obtain ⟨base, hbase, -, hafter⟩ := hwrites w hw
      have hne : w.1 ≠ write.1 := fun heq => hnew (heq ▸ List.mem_map.2 ⟨w, hw, rfl⟩)
      refine ⟨base, hbase.trans (hframe w.1 hne), fun hhead => ?_, hafter⟩
      rw [List.head?_cons, Option.some.injEq] at hhead
      exact absurd (congrArg Prod.fst hhead).symm hne

/-- It fits any history with the same message, unless it is new with another `parentId`. -/
theorem WriteFits.transfer {base : Messages} (h : WriteFits messages id message)
    (hsame : SameAt (base.get id) (messages.get id))
    (hparent : base = messages ∨ (Message.field "parent_id" message).truthy = false) :
    WriteFits base id message := by
  rcases hparent with rfl | hparent
  · exact h
  cases hmessages : messages.get id with
  | some stored =>
    rw [hmessages] at hsame
    cases hbase : base.get id with
    | none =>
      rw [hbase] at hsame
      exact False.elim hsame
    | some stored' =>
      rw [hbase] at hsame
      have hafter : ∀ key, key ≠ "childrenIds" →
          getAfter base id message key = getAfter messages id message key := by
        intro key hkey
        simp only [getAfter, hbase, hmessages, (show SameBut stored' stored from hsame) key hkey]
      refine ⟨fun _ => ?_, fun column hcolumn key hkey htruthy => ?_⟩
      · rw [hafter "role" (by decide)]
        exact h.role (by rw [hmessages]; rfl)
      · rw [hafter key (otherKey_ne_childrenIds hkey)] at htruthy ⊢
        rw [hafter column.key (key_ne_childrenIds column)]
        exact h.plain column hcolumn key hkey htruthy
  | none =>
    have hbase : base.get id = none := by
      rw [hmessages] at hsame
      cases hbase : base.get id with
      | none => rfl
      | some m =>
        rw [hbase] at hsame
        exact False.elim hsame
    refine ⟨fun hsome => ?_, fun column hcolumn key hkey htruthy => ?_⟩
    · rw [hbase] at hsome
      cases hsome
    have hafter : ∀ key, key ≠ "parentId" →
        getAfter base id message key = getAfter messages id message key := by
      intro key hkey
      simp only [getAfter, hbase, hmessages, if_neg hkey]
    by_cases hcol : column.key = "parentId"
    · -- this is the column whose other spelling the message does not have
      have hkey' : key = "parent_id" := by
        cases column <;> cases hkey <;> first | rfl | exact absurd hcol (by decide)
      subst hkey'
      rw [getAfter, hbase] at htruthy
      simp only [String.reduceEq, if_false] at htruthy
      rw [← Message.field, hparent] at htruthy
      cases htruthy
    · have hother : key ≠ "parentId" := by
        cases column <;> cases hkey <;> decide
      rw [hafter key hother] at htruthy ⊢
      rw [hafter column.key hcol]
      exact h.plain column hcolumn key hkey htruthy

theorem Agree.upsertAll {valid : Row → Bool} {stores : Stores} (hagree : Agree stores) (now : ℕ)
    {writes : List (String × Message)} (hnodup : (writes.map Prod.fst).Nodup)
    (hfits : ∀ write ∈ writes, WriteFits stores.history.messages write.1 write.2)
    (hparent : ∀ write ∈ writes, writes.head? = some write ∨ (Message.field "parent_id" write.2).truthy = false)
    {rows : Rows} (h : writeRows valid (RyanAI.Chat.upsertAll now writes stores.history).messages stores.rows
      (writes.map Prod.fst) = some rows) :
    Agree ⟨RyanAI.Chat.upsertAll now writes stores.history, rows⟩ := by
  obtain ⟨hothers, hwrites⟩ := sameAt_upsertAll now hnodup stores.history
  refine hagree.write hnodup h ?_ (fun id hid => (hothers id hid).view) _
  intro id hid
  obtain ⟨write, hwrite, rfl⟩ := List.mem_map.1 hid
  obtain ⟨base, hbase, hhead, hafter⟩ := hwrites write hwrite
  have hfit : WriteFits base write.1 write.2 := by
    refine (hfits write hwrite).transfer hbase ?_
    rcases hparent write hwrite with hfirst | hnone
    · exact .inl (hhead hfirst)
    · exact .inr hnone
  cases hget : (RyanAI.Chat.upsertAll now writes stores.history).messages.get write.1 with
  | none =>
    rw [hget] at hafter
    exact False.elim hafter
  | some message =>
    rw [hget] at hafter
    refine ⟨message, rfl, ?_⟩
    have hpatch := (hfit.patchable now).congr_old hbase
    exact hpatch.congr fun key hkey => ((show SameBut message _ from hafter) key hkey).symm

section Steps

variable {valid : Row → Bool} {outputText : Json → String} {owner : String} {stores stores' : Stores}

end Steps

end RyanAI.Chat
