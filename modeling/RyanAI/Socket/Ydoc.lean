import Mathlib
import RyanAI.Lib.OrderedMap
import RyanAI.Lib.StateMerge

/-!
# Collaborative documents

`YdocManager` of `socket/utils.py` in its two variants. One keeps the updates and the users of each document in
dictionaries; the other keeps them in Redis, next to a counter of the bytes that are stored and, for each session, the
documents that it has joined. Both squash the older half of the updates into a snapshot once there are many. Calls hold
the lock of the document, and a document is cleared when it has no users.

The variants answer alike in every run (`backends_agree`).
-/

namespace RyanAI.Socket.Ydoc

open RyanAI.Lib

def compactionThreshold : ℕ := 500

def maxDocumentSize : ℕ := 2 * 1024 * 1024

abbrev Bytes := List UInt8

/-- An element of a client's list, as `bytes` sees it. -/
inductive Item where
  | int (n : ℤ)
  | bool (b : Bool)
  | other
deriving DecidableEq

/-- The byte that `bytes` makes of an element; it raises where there is none. -/
def Item.byte : Item → Option UInt8
  | .int n => if 0 ≤ n ∧ n < 256 then some (UInt8.ofNat n.toNat) else none
  | .bool b => some (if b then 1 else 0)
  | .other => none

/-- `bytes(update)`. -/
def toBytes (update : List Item) : Option Bytes := update.mapM Item.byte

/-- `list(update)`. -/
def ofBytes (bytes : Bytes) : List Item := bytes.map fun b => .int b.toNat

/-- What is used of `pycrdt`. -/
structure Pycrdt (Doc : Type) where
  new : Doc
  /-- `apply_update` on a new document does not raise. -/
  decodable : Bytes → Bool
  applyUpdate : Doc → Bytes → Doc
  getUpdate : Doc → Bytes

variable {bytes : Bytes} {items : List Item}

section Backends

variable {Doc : Type} (y : Pycrdt Doc)

def document (updates : List Bytes) : Doc := updates.foldl y.applyUpdate y.new

/-- The bytes to append; `none` if the update is not a list. -/
def validate (update : Option (List Item)) : Option Bytes :=
  (update.bind toBytes).filter fun bytes => y.decodable bytes && decide (bytes.length ≤ maxDocumentSize)

def compact {α : Type} (snapshot : List α → α) (updates : List α) : List α :=
  if updates.length ≤ 1 then updates
  else snapshot (updates.take (updates.length / 2)) :: updates.drop (updates.length / 2)

def pushed {α : Type} (snapshot : List α → α) (updates : List α) (update : α) : List α :=
  if (updates ++ [update]).length ≥ compactionThreshold then compact snapshot (updates ++ [update])
  else updates ++ [update]

def members (t : KeyedTable String (List String)) (key : String) : List String := (t.get key).getD []

/-- `SADD`. -/
def sadd (t : KeyedTable String (List String)) (key x : String) : KeyedTable String (List String) :=
  if x ∈ members t key then t else t.set key (members t key ++ [x])

/-- `SREM`, which removes a set with its last member. -/
def srem (t : KeyedTable String (List String)) (key x : String) : KeyedTable String (List String) :=
  if x ∈ members t key then
    if (members t key).filter (· ≠ x) = [] then t.delete key else t.set key ((members t key).filter (· ≠ x))
  else t

structure Memory where
  updates : KeyedTable String (List Bytes)
  users : KeyedTable String (List String)

namespace Memory

def getUpdates (m : Memory) (documentId : String) : List Bytes := (m.updates.get documentId).getD []

def appendToUpdates (m : Memory) (documentId : String) (update : Option (List Item)) : Memory × Bool :=
  match validate y update with
  | none => (m, false)
  | some bytes =>
    if ((m.getUpdates documentId).map List.length).sum + bytes.length > maxDocumentSize then (m, false)
    else
      ({ m with
        updates := m.updates.set documentId
          (pushed (fun us => y.getUpdate (document y us)) (m.getUpdates documentId) bytes) }, true)

def countDocumentsForUser (m : Memory) (userId : String) : ℕ :=
  m.users.entries.countP fun entry => decide (userId ∈ entry.2)

def clearDocument (m : Memory) (documentId : String) : Memory :=
  ⟨m.updates.delete documentId, m.users.delete documentId⟩

end Memory

/-! ## The Redis variant -/

/-- The keys of a document, and `session:…:documents`; an update is stored as its JSON text. -/
structure Redis where
  sizes : KeyedTable String ℤ
  updates : KeyedTable String (List (List Item))
  users : KeyedTable String (List String)
  sessions : KeyedTable String (List String)

namespace Redis

def size (r : Redis) (documentId : String) : ℤ := (r.sizes.get documentId).getD 0

/-- `LRANGE 0 -1`. -/
def stored (r : Redis) (documentId : String) : List (List Item) := (r.updates.get documentId).getD []

def incrby (r : Redis) (documentId : String) (n : ℤ) : Redis :=
  { r with sizes := r.sizes.set documentId (r.size documentId + n) }

def rpush (r : Redis) (documentId : String) (items : List (List Item)) : Redis :=
  { r with updates := r.updates.set documentId (r.stored documentId ++ items) }

def decoded (items : List (List Item)) : List Bytes := items.map fun update => (toBytes update).getD []

/-- `_compact_updates_redis`. -/
def compactUpdates (r : Redis) (documentId : String) : Redis :=
  let all := r.stored documentId
  if all.length ≤ 1 then r
  else
    let mid := all.length / 2
    let snapshot := ofBytes (y.getUpdate (document y (decoded (all.take mid))))
    { r with
      updates := r.updates.set documentId (snapshot :: all.drop mid)
      sizes := r.sizes.set documentId (snapshot.length + ((all.drop mid).map List.length).sum : ℕ) }

def appendToUpdates (r : Redis) (documentId : String) (update : Option (List Item)) : Redis × Bool :=
  match validate y update, update with
  | some bytes, some items =>
    let r := r.incrby documentId bytes.length
    if r.size documentId > maxDocumentSize then (r.incrby documentId (-bytes.length), false)
    else
      let r := r.rpush documentId [items]
      if (r.stored documentId).length ≥ compactionThreshold then (r.compactUpdates y documentId, true)
      else (r, true)
  | _, _ => (r, false)

def getUpdates (r : Redis) (documentId : String) : List Bytes := decoded (r.stored documentId)

def countDocumentsForUser (r : Redis) (userId : String) : ℕ := (members r.sessions userId).length

def addUser (r : Redis) (documentId userId : String) : Redis :=
  { r with users := sadd r.users documentId userId, sessions := sadd r.sessions userId documentId }

def removeUser (r : Redis) (documentId userId : String) : Redis :=
  { r with users := srem r.users documentId userId, sessions := srem r.sessions userId documentId }

def clearDocument (r : Redis) (documentId : String) : Redis :=
  { r with
    updates := r.updates.delete documentId
    users := r.users.delete documentId
    sizes := r.sizes.delete documentId }

end Redis

inductive Call where
  | append (documentId : String) (update : Option (List Item))
  | addUser (documentId userId : String)
  | removeUser (documentId userId : String)
  | clear (documentId : String)
  | getUpdates (documentId : String)
  | documentExists (documentId : String)
  | getUsers (documentId : String)
  | countDocuments (userId : String)

inductive Answer where
  | done
  | accepted (ok : Bool)
  | updates (us : List Bytes)
  | found (ok : Bool)
  | users (us : List String)
  | count (n : ℕ)

def Answer.Agree : Answer → Answer → Prop
  | .users us, .users us' => us.Perm us'
  | a, b => a = b

def Memory.call (m : Memory) : Call → Memory × Answer
  | .append documentId update => ((m.appendToUpdates y documentId update).1, .accepted (m.appendToUpdates y documentId update).2)
  | .addUser documentId userId => ({ m with users := sadd m.users documentId userId }, .done)
  | .removeUser documentId userId => ({ m with users := srem m.users documentId userId }, .done)
  | .clear documentId => (m.clearDocument documentId, .done)
  | .getUpdates documentId => (m, .updates (m.getUpdates documentId))
  | .documentExists documentId => (m, .found (m.updates.get documentId).isSome)
  | .getUsers documentId => (m, .users (members m.users documentId))
  | .countDocuments userId => (m, .count (m.countDocumentsForUser userId))

def Redis.call (r : Redis) : Call → Redis × Answer
  | .append documentId update => ((r.appendToUpdates y documentId update).1, .accepted (r.appendToUpdates y documentId update).2)
  | .addUser documentId userId => (r.addUser documentId userId, .done)
  | .removeUser documentId userId => (r.removeUser documentId userId, .done)
  | .clear documentId => (r.clearDocument documentId, .done)
  | .getUpdates documentId => (r, .updates (r.getUpdates documentId))
  | .documentExists documentId => (r, .found (r.updates.get documentId).isSome)
  | .getUsers documentId => (r, .users (members r.users documentId))
  | .countDocuments userId => (r, .count (r.countDocumentsForUser userId))

theorem toBytes_cons (item : Item) (rest : List Item) :
    toBytes (item :: rest) = item.byte.bind fun b => (toBytes rest).map (b :: ·) := by
  rw [toBytes, toBytes, List.mapM_cons]
  cases item.byte with
  | none => rfl
  | some b => cases rest.mapM Item.byte <;> rfl

theorem length_of_toBytes (h : toBytes update = some bytes) : bytes.length = update.length := by
  induction update generalizing bytes with
  | nil =>
    cases h
    rfl
  | cons item rest ih =>
    rw [toBytes_cons] at h
    obtain ⟨b, _, h⟩ := Option.bind_eq_some_iff.1 h
    obtain ⟨bs, hbs, rfl⟩ := Option.map_eq_some_iff.1 h
    rw [List.length_cons, List.length_cons, ih hbs]

@[simp]
theorem toBytes_ofBytes (bytes : Bytes) : toBytes (ofBytes bytes) = some bytes := by
  induction bytes with
  | nil => rfl
  | cons b rest ih =>
    have hb : (Item.int b.toNat).byte = some b := by
      have hlt := b.toNat_lt
      simp [Item.byte, hlt]
    have hcons : ofBytes (b :: rest) = .int b.toNat :: ofBytes rest := rfl
    rw [hcons, toBytes_cons, hb, ih]
    rfl

@[simp]
theorem length_ofBytes (bytes : Bytes) : (ofBytes bytes).length = bytes.length := by
  rw [ofBytes, List.length_map]

section Sets

variable {t : KeyedTable String (List String)} {key x : String}

theorem mem_sadd : z ∈ members (sadd t key x) key' ↔ z ∈ members t key' ∨ (key' = key ∧ z = x) := by
  rw [sadd]
  by_cases hx : x ∈ members t key
  · rw [if_pos hx]
    constructor
    · exact .inl
    · rintro (hz | ⟨rfl, rfl⟩)
      · exact hz
      · exact hx
  · rw [if_neg hx]
    by_cases hkey : key' = key
    · subst hkey
      simp [members]
    · simp [members, hkey]

theorem mem_srem : z ∈ members (srem t key x) key' ↔ z ∈ members t key' ∧ ¬(key' = key ∧ z = x) := by
  rw [srem]
  by_cases hx : x ∈ members t key
  · rw [if_pos hx]
    by_cases hkey : key' = key
    · subst hkey
      split
      · rename_i hempty
        have hnone := List.filter_eq_nil_iff.1 hempty
        simp only [members, KeyedTable.get_delete, if_true, Option.getD_none, List.not_mem_nil, true_and, false_iff,
          not_and, not_not]
        intro hz
        simpa using hnone z hz
      · simp [members]
    · split <;> simp [members, hkey]
  · rw [if_neg hx]
    constructor
    · intro hz
      refine ⟨hz, ?_⟩
      rintro ⟨rfl, rfl⟩
      exact hx hz
    · exact And.left

theorem nodup_sadd (h : ∀ key, (members t key).Nodup) (key' : String) : (members (sadd t key x) key').Nodup := by
  rw [sadd]
  by_cases hx : x ∈ members t key
  · rw [if_pos hx]
    exact h key'
  rw [if_neg hx]
  by_cases hkey : key' = key
  · subst hkey
    have hnodup : (members t key' ++ [x]).Nodup := (h key').append (List.nodup_singleton x) (by simpa using hx)
    simpa [members] using hnodup
  · have hkeep := h key'
    simpa [members, hkey] using hkeep

theorem nodup_srem (h : ∀ key, (members t key).Nodup) (key' : String) : (members (srem t key x) key').Nodup := by
  rw [srem]
  by_cases hx : x ∈ members t key
  · rw [if_pos hx]
    by_cases hkey : key' = key
    · subst hkey
      split
      · simp [members]
      · have hnodup := (h key').filter (· ≠ x)
        simpa [members] using hnodup
    · have hkeep := h key'
      split <;> simpa [members, hkey] using hkeep
  · rw [if_neg hx]
    exact h key'

end Sets

theorem decoded_compact {snapshot : List (List Item) → List Item} {snapshot' : List Bytes → Bytes}
    (h : ∀ us, toBytes (snapshot us) = some (snapshot' (Redis.decoded us))) (us : List (List Item)) :
    Redis.decoded (compact snapshot us) = compact snapshot' (Redis.decoded us) := by
  have hlength : (Redis.decoded us).length = us.length := List.length_map _
  rw [compact, compact, hlength]
  split
  · rfl
  · rw [Redis.decoded, List.map_cons, h, Option.getD_some, Redis.decoded, Redis.decoded, List.map_drop, List.map_take]

def total {α : Type} (us : List (List α)) : ℕ := (us.map List.length).sum

theorem total_decoded (h : ∀ u ∈ us, (toBytes u).isSome) : total (Redis.decoded us) = total us := by
  rw [total, total, Redis.decoded, List.map_map]
  congr 1
  apply List.map_congr_left
  intro u hu
  obtain ⟨bytes, hbytes⟩ := Option.isSome_iff_exists.1 (h u hu)
  simp [hbytes, length_of_toBytes hbytes]

/-! ## The two variants side by side -/

structure Agree (m : Memory) (r : Redis) : Prop where
  updates : ∀ documentId, (r.updates.get documentId).map Redis.decoded = m.updates.get documentId
  valid : ∀ documentId, ∀ u ∈ r.stored documentId, (toBytes u).isSome
  size : ∀ documentId, r.size documentId = total (m.getUpdates documentId)
  users : r.users = m.users
  sessions : ∀ documentId userId, documentId ∈ members r.sessions userId ↔ userId ∈ members m.users documentId
  nodup : ∀ userId, (members r.sessions userId).Nodup

namespace Agree

variable {m : Memory} {r : Redis}

theorem empty : Agree ⟨.empty, .empty⟩ ⟨.empty, .empty, .empty, .empty⟩ where
  updates _ := rfl
  valid := by
    intro documentId u hu
    cases hu
  size _ := rfl
  users := rfl
  sessions documentId userId := by
    constructor <;> intro h <;> cases h
  nodup _ := List.nodup_nil

section

variable (h : Agree m r)

include h

theorem getUpdates (documentId : String) : r.getUpdates documentId = m.getUpdates documentId := by
  rw [Memory.getUpdates, ← h.updates, Redis.getUpdates, Redis.stored]
  cases r.updates.get documentId <;> rfl

theorem documentExists (documentId : String) :
    (r.updates.get documentId).isSome = (m.updates.get documentId).isSome := by
  rw [← h.updates, Option.isSome_map]

theorem countDocumentsForUser (userId : String) :
    r.countDocumentsForUser userId = m.countDocumentsForUser userId := by
  have hperm : (members r.sessions userId).Perm
      ((m.users.entries.filter fun entry => decide (userId ∈ entry.2)).map Prod.fst) := by
    apply (List.perm_ext_iff_of_nodup (h.nodup userId) ?_).2
    · intro documentId
      rw [h.sessions, members, List.mem_map]
      constructor
      · intro hmem
        cases hget : m.users.get documentId with
        | none =>
          rw [hget] at hmem
          cases hmem
        | some us =>
          rw [hget] at hmem
          exact ⟨(documentId, us), List.mem_filter.2 ⟨KeyedTable.get_eq_some.1 hget, by simpa using hmem⟩, rfl⟩
      · rintro ⟨⟨documentId, us⟩, hentry, rfl⟩
        obtain ⟨hentry, hmem⟩ := List.mem_filter.1 hentry
        rw [KeyedTable.get_eq_some.2 hentry]
        simpa using hmem
    · exact m.users.distinct.sublist (List.Sublist.map Prod.fst List.filter_sublist)
  rw [Redis.countDocumentsForUser, Memory.countDocumentsForUser, hperm.length_eq, List.length_map,
    List.countP_eq_length_filter]

theorem addUser (documentId userId : String) :
    Agree { m with users := sadd m.users documentId userId } (r.addUser documentId userId) where
  updates := h.updates
  valid := h.valid
  size := h.size
  users := by rw [Redis.addUser, h.users]
  sessions documentId' userId' := by
    rw [Redis.addUser]
    simp only [mem_sadd, h.sessions]
    exact or_congr_right and_comm
  nodup := nodup_sadd h.nodup

theorem removeUser (documentId userId : String) :
    Agree { m with users := srem m.users documentId userId } (r.removeUser documentId userId) where
  updates := h.updates
  valid := h.valid
  size := h.size
  users := by rw [Redis.removeUser, h.users]
  sessions documentId' userId' := by
    rw [Redis.removeUser]
    simp only [mem_srem, h.sessions]
    rw [and_comm (a := userId' = userId)]
  nodup := nodup_srem h.nodup

theorem clearDocument (hempty : members m.users documentId = []) :
    Agree (m.clearDocument documentId) (r.clearDocument documentId) where
  updates documentId' := by
    by_cases hid : documentId' = documentId
    · simp [Memory.clearDocument, Redis.clearDocument, hid]
    · simpa [Memory.clearDocument, Redis.clearDocument, hid] using h.updates documentId'
  valid documentId' := by
    by_cases hid : documentId' = documentId
    · simp [Redis.clearDocument, Redis.stored, hid]
    · simpa [Redis.clearDocument, Redis.stored, hid] using h.valid documentId'
  size documentId' := by
    by_cases hid : documentId' = documentId
    · simp [Memory.clearDocument, Redis.clearDocument, Redis.size, Memory.getUpdates, total, hid]
    · simpa [Memory.clearDocument, Redis.clearDocument, Redis.size, Memory.getUpdates, hid] using h.size documentId'
  users := by rw [Redis.clearDocument, Memory.clearDocument, h.users]
  sessions documentId' userId := by
    rw [Redis.clearDocument, h.sessions]
    by_cases hid : documentId' = documentId
    · subst hid
      rw [hempty]
      simp [Memory.clearDocument, members]
    · simp [Memory.clearDocument, members, hid]
  nodup := h.nodup

end

theorem decoded_pushed (us : List (List Item)) (hitems : toBytes items = some bytes) :
    Redis.decoded (pushed (fun us => ofBytes (y.getUpdate (document y (Redis.decoded us)))) us items) =
      pushed (fun us => y.getUpdate (document y us)) (Redis.decoded us) bytes := by
  have happend : Redis.decoded (us ++ [items]) = Redis.decoded us ++ [bytes] := by
    simp [Redis.decoded, hitems]
  rw [pushed, pushed, ← happend]
  have hlength : (Redis.decoded (us ++ [items])).length = (us ++ [items]).length := List.length_map _
  rw [hlength]
  split
  · apply decoded_compact
    intro us
    exact toBytes_ofBytes _
  · rfl

theorem valid_pushed (h : ∀ u ∈ us, (toBytes u).isSome) (hitems : (toBytes items).isSome) :
    ∀ u ∈ pushed (fun us => ofBytes (y.getUpdate (document y (Redis.decoded us)))) us items, (toBytes u).isSome := by
  have happend : ∀ u ∈ us ++ [items], (toBytes u).isSome := by
    intro u hu
    rcases List.mem_append.1 hu with hu | hu
    · exact h u hu
    · exact List.mem_singleton.1 hu ▸ hitems
  intro u hu
  rw [pushed, compact] at hu
  split at hu
  · split at hu
    · exact happend u hu
    · rcases List.mem_cons.1 hu with rfl | hu
      · rw [toBytes_ofBytes]
        rfl
      · exact happend u (List.mem_of_mem_drop hu)
  · exact happend u hu

/-- What a push leaves in Redis. -/
def afterPush (r : Redis) (documentId : String) (items : List Item) : Redis :=
  let us := pushed (fun us => ofBytes (y.getUpdate (document y (Redis.decoded us)))) (r.stored documentId) items
  { r with updates := r.updates.set documentId us, sizes := r.sizes.set documentId (total us) }

theorem redis_pushed (r : Redis) (documentId : String) (items : List Item) (hsize : r.size documentId = total (r.stored documentId)) :
    (let r' := (r.incrby documentId items.length).rpush documentId [items]
      if (r'.stored documentId).length ≥ compactionThreshold then r'.compactUpdates y documentId else r') =
      afterPush y r documentId items := by
  have hstored : ((r.incrby documentId items.length).rpush documentId [items]).stored documentId =
      r.stored documentId ++ [items] := by
    simp [Redis.stored, Redis.rpush, Redis.incrby]
  have htotal : ((total (r.stored documentId ++ [items]) : ℕ) : ℤ) = r.size documentId + items.length := by
    rw [hsize]
    simp [total]
  simp only [hstored]
  rw [afterPush, pushed]
  by_cases hlong : (r.stored documentId ++ [items]).length ≥ compactionThreshold
  · rw [if_pos hlong, if_pos hlong, Redis.compactUpdates, hstored, compact]
    split
    · rename_i hshort
      rw [compactionThreshold] at hlong
      omega
    · simp [Redis.rpush, Redis.incrby, total]
  · rw [if_neg hlong, if_neg hlong, htotal]
    simp [Redis.rpush, Redis.incrby, Redis.stored]

theorem stored_eq (h : Agree m r) (documentId : String) :
    Redis.decoded (r.stored documentId) = m.getUpdates documentId := h.getUpdates documentId

theorem push (h : Agree m r) (documentId : String) (hitems : toBytes items = some bytes) : Agree
      { m with
        updates := m.updates.set documentId
          (pushed (fun us => y.getUpdate (document y us)) (m.getUpdates documentId) bytes) }
      (afterPush y r documentId items) := by
  have hdecoded := decoded_pushed y (r.stored documentId) hitems
  rw [h.stored_eq] at hdecoded
  have hvalid := valid_pushed y (h.valid documentId) (show (toBytes items).isSome by rw [hitems]; rfl)
  unfold afterPush
  constructor
  case updates =>
    intro documentId'
    by_cases hid : documentId' = documentId
    · simp [hid, hdecoded]
    · simpa [hid] using h.updates documentId'
  case valid =>
    intro documentId'
    by_cases hid : documentId' = documentId
    · simpa [Redis.stored, hid] using hvalid
    · simpa [Redis.stored, hid] using h.valid documentId'
  case size =>
    intro documentId'
    by_cases hid : documentId' = documentId
    · have htotal := total_decoded hvalid
      rw [hdecoded] at htotal
      simpa [Redis.size, Memory.getUpdates, hid] using htotal.symm
    · simpa [Redis.size, Memory.getUpdates, hid] using h.size documentId'
  case users => exact h.users
  case sessions => exact h.sessions
  case nodup => exact h.nodup

theorem refuse (h : Agree m r) (documentId : String) (n : ℤ) :
    Agree m ((r.incrby documentId n).incrby documentId (-n)) where
  updates := h.updates
  valid := h.valid
  size documentId' := by
    by_cases hid : documentId' = documentId
    · subst hid
      have hsize := h.size documentId'
      simpa [Redis.size, Redis.incrby] using hsize
    · simpa [Redis.size, Redis.incrby, hid] using h.size documentId'
  users := h.users
  sessions := h.sessions
  nodup := h.nodup

theorem append_of_none (documentId : String) (hvalidate : validate y update = none) :
    m.appendToUpdates y documentId update = (m, false) ∧ r.appendToUpdates y documentId update = (r, false) := by
  constructor
  · rw [Memory.appendToUpdates, hvalidate]
  · unfold Redis.appendToUpdates
    rw [hvalidate]

theorem redis_append_of_some (hvalidate : validate y (some items) = some bytes)
    (hsize : r.size documentId = total (r.stored documentId)) :
    r.appendToUpdates y documentId (some items) =
      if (r.incrby documentId bytes.length).size documentId > maxDocumentSize then
        ((r.incrby documentId bytes.length).incrby documentId (-bytes.length), false)
      else
        (afterPush y r documentId items, true) := by
  have hitems : toBytes items = some bytes := (Option.filter_eq_some_iff.1 hvalidate).1
  rw [← redis_pushed y r documentId items hsize, ← length_of_toBytes hitems]
  unfold Redis.appendToUpdates
  rw [hvalidate]
  simp only
  split
  · rfl
  · split <;> rfl

theorem append (h : Agree m r) (documentId : String) (update : Option (List Item)) :
    Agree (m.appendToUpdates y documentId update).1 (r.appendToUpdates y documentId update).1 ∧
      (r.appendToUpdates y documentId update).2 = (m.appendToUpdates y documentId update).2 := by
  cases hvalidate : validate y update with
  | none =>
    obtain ⟨hm, hr⟩ := append_of_none y (m := m) (r := r) documentId hvalidate
    rw [hm, hr]
    exact ⟨h, rfl⟩
  | some bytes =>
    cases update with
    | none => cases hvalidate
    | some items =>
      have hitems : toBytes items = some bytes := (Option.filter_eq_some_iff.1 hvalidate).1
      have hsize : (r.incrby documentId bytes.length).size documentId =
          total (m.getUpdates documentId) + bytes.length := by
        rw [← h.size]
        simp [Redis.incrby, Redis.size]
      have hstored : r.size documentId = total (r.stored documentId) := by
        rw [h.size, ← h.stored_eq, total_decoded (h.valid documentId)]
      rw [redis_append_of_some y hvalidate hstored, Memory.appendToUpdates, hvalidate]
      simp only
      have hlimit : (r.incrby documentId bytes.length).size documentId > maxDocumentSize ↔
          ((m.getUpdates documentId).map List.length).sum + bytes.length > maxDocumentSize := by
        rw [hsize, total]
        norm_cast
      by_cases hlarge : ((m.getUpdates documentId).map List.length).sum + bytes.length > maxDocumentSize
      · rw [if_pos (hlimit.2 hlarge), if_pos hlarge]
        exact ⟨h.refuse documentId bytes.length, rfl⟩
      · rw [if_neg (fun hover => hlarge (hlimit.1 hover)), if_neg hlarge]
        exact ⟨h.push y documentId hitems, rfl⟩

end Agree

theorem Memory.append_cases (m : Memory) (documentId : String) (update : Option (List Item)) :
    m.appendToUpdates y documentId update = (m, false) ∨
      ∃ bytes, update.bind toBytes = some bytes ∧ m.appendToUpdates y documentId update =
        ({ m with
          updates := m.updates.set documentId
            (pushed (fun us => y.getUpdate (document y us)) (m.getUpdates documentId) bytes) }, true) := by
  rw [Memory.appendToUpdates]
  cases hvalidate : validate y update with
  | none => exact .inl rfl
  | some bytes =>
    simp only
    split
    · exact .inl rfl
    · exact .inr ⟨bytes, (Option.filter_eq_some_iff.1 hvalidate).1, rfl⟩

def Call.Allowed (m : Memory) : Call → Prop
  | .clear documentId => members m.users documentId = []
  | _ => True

def accept (accepted : String → List Bytes) : Call → Answer → String → List Bytes
  | .append documentId update, .accepted true =>
    Function.update accepted documentId (accepted documentId ++ ((update.bind toBytes).toList))
  | .clear documentId, _ => Function.update accepted documentId []
  | _, _ => accepted

inductive Runs : Memory → Redis → (String → List Bytes) → Prop where
  | start : Runs ⟨.empty, .empty⟩ ⟨.empty, .empty, .empty, .empty⟩ fun _ => []
  | call {m : Memory} {r : Redis} {accepted : String → List Bytes} (c : Call) :
      Runs m r accepted → c.Allowed m →
      Runs (m.call y c).1 (r.call y c).1 (accept accepted c (m.call y c).2)

variable {m : Memory} {r : Redis} {accepted : String → List Bytes} {y : Pycrdt Doc}

theorem agree_call (h : Agree m r) (hc : c.Allowed m) :
    Agree (m.call y c).1 (r.call y c).1 ∧ Answer.Agree (m.call y c).2 (r.call y c).2 := by
  cases c with
  | append documentId update =>
    obtain ⟨hstate, hanswer⟩ := h.append y documentId update
    exact ⟨hstate, congrArg Answer.accepted hanswer.symm⟩
  | addUser documentId userId => exact ⟨h.addUser documentId userId, rfl⟩
  | removeUser documentId userId => exact ⟨h.removeUser documentId userId, rfl⟩
  | clear documentId => exact ⟨h.clearDocument hc, rfl⟩
  | getUpdates documentId => exact ⟨h, congrArg Answer.updates (h.getUpdates documentId).symm⟩
  | documentExists documentId => exact ⟨h, congrArg Answer.found (h.documentExists documentId).symm⟩
  | getUsers documentId =>
    refine ⟨h, ?_⟩
    have hsame : members m.users documentId = members r.users documentId := by rw [h.users]
    exact List.Perm.of_eq hsame
  | countDocuments userId => exact ⟨h, congrArg Answer.count (h.countDocumentsForUser userId).symm⟩

theorem agree_of_runs (hr : Runs y m r accepted) : Agree m r := by
  induction hr with
  | start => exact .empty
  | call c _ hc ih => exact (agree_call ih hc).1

section Merge

variable [SemilatticeSup Doc] [OrderBot Doc]

/-- `apply_update` joins the document that an update carries. -/
structure StateBased (y : Pycrdt Doc) (content : Bytes → Doc) : Prop where
  new : y.new = ⊥
  applyUpdate : ∀ doc bytes, y.applyUpdate doc bytes = doc ⊔ content bytes
  getUpdate : ∀ doc, content (y.getUpdate doc) = doc

variable {content : Bytes → Doc}

theorem StateBased.document_eq (h : StateBased y content) (us : List Bytes) :
    document y us = StateMerge.merged content us := by
  have happly : y.applyUpdate = fun doc bytes => doc ⊔ content bytes := by
    funext doc bytes
    exact h.applyUpdate doc bytes
  rw [document, h.new, happly]
  rfl

theorem StateBased.document_pushed (h : StateBased y content) (us : List Bytes) (bytes : Bytes) :
    document y (pushed (fun us => y.getUpdate (document y us)) us bytes) = document y (us ++ [bytes]) := by
  rw [pushed]
  split
  · rw [compact]
    split
    · rfl
    have hsnapshot := (h.getUpdate _).trans (h.document_eq ((us ++ [bytes]).take ((us ++ [bytes]).length / 2)))
    calc document y (_ :: _)
        = StateMerge.merged content (_ :: _) := h.document_eq _
      _ = StateMerge.merged content (_ ++ _) := StateMerge.merged_snapshot hsnapshot _
      _ = document y (us ++ [bytes]) := by rw [List.take_append_drop, h.document_eq]
  · rfl

theorem StateBased.document_run (h : StateBased y content) (hr : Runs y m r accepted) (documentId : String) :
    document y (m.getUpdates documentId) = document y (accepted documentId) := by
  induction hr generalizing documentId with
  | start => rfl
  | @call m r accepted c hr hc ih =>
    cases c with
    | append documentId' update =>
      rw [Memory.call]
      rcases m.append_cases y documentId' update with hrefused | ⟨bytes, hbytes, htaken⟩
      · rw [hrefused]
        exact ih documentId
      rw [htaken, accept, hbytes]
      by_cases hid : documentId = documentId'
      · subst hid
        rw [Function.update_self]
        calc document y _
            = document y (pushed (fun us => y.getUpdate (document y us)) (m.getUpdates documentId) bytes) := by
              simp [Memory.getUpdates]
          _ = document y (m.getUpdates documentId ++ [bytes]) := h.document_pushed _ bytes
          _ = document y (accepted documentId ++ [bytes]) := by
              have hdoc := ih documentId
              rw [document, document] at hdoc
              rw [document, document, List.foldl_append, List.foldl_append, hdoc]
      · rw [Function.update_of_ne hid]
        have hkeep := ih documentId
        simpa [Memory.getUpdates, hid] using hkeep
    | clear documentId' =>
      rw [Memory.call, accept]
      by_cases hid : documentId = documentId'
      · subst hid
        rw [Function.update_self]
        simp [Memory.getUpdates, Memory.clearDocument]
      · rw [Function.update_of_ne hid]
        have hkeep := ih documentId
        simpa [Memory.getUpdates, Memory.clearDocument, hid] using hkeep
    | addUser _ _ | removeUser _ _ | getUpdates _ | documentExists _ | getUsers _ | countDocuments _ =>
      exact ih documentId

end Merge

/-- The answers agree, the counter is the stored size, and the stored updates make the document of
all accepted. -/
theorem backends_agree (hr : Runs y m r accepted) :
    (∀ c : Call, c.Allowed m → Answer.Agree (m.call y c).2 (r.call y c).2) ∧
      (∀ documentId, r.size documentId = total (r.getUpdates documentId)) ∧
      ∀ (_ : SemilatticeSup Doc) (_ : OrderBot Doc) (content : Bytes → Doc), StateBased y content →
        ∀ documentId, document y (r.getUpdates documentId) = document y (accepted documentId) := by
  have h := agree_of_runs hr
  refine ⟨fun c hc => (agree_call h hc).2, ?_, ?_⟩
  · intro documentId
    rw [h.size, h.getUpdates]
  · intro _ _ content hmerge documentId
    rw [h.getUpdates]
    exact hmerge.document_run hr documentId

end Backends

/-- A document that an update fills or leaves. -/
def filled : Pycrdt Bool where
  new := false
  decodable bytes := bytes = [0, 0] ∨ bytes = [1]
  applyUpdate doc bytes := doc || bytes = [1]
  getUpdate doc := if doc then [1] else [0, 0]

theorem filled_stateBased : StateBased filled fun bytes => bytes = [1] where
  new := rfl
  applyUpdate _ _ := rfl
  getUpdate doc := by cases doc <;> rfl

theorem backends_agree_joined :
    ∃ m r accepted, Runs filled m r accepted ∧ accepted "d" = [[0, 0], [1]] ∧ total (r.getUpdates "d") = 3 ∧
      document filled (r.getUpdates "d") = document filled (accepted "d") := by
  have hjoined := (Runs.start (y := filled)).call (.addUser "d" "s") trivial
  have hstored := hjoined.call (.append "d" (some [.int 0, .bool false])) trivial
  have hleft := hstored.call (.removeUser "d" "s") trivial
  have hcleared := hleft.call (.clear "d") rfl
  have hempty := hcleared.call (.append "d" (some [.int 0, .int 0])) trivial
  have hr := hempty.call (.append "d" (some [.int 1])) trivial
  obtain ⟨_, hcounter, hdocument⟩ := backends_agree hr
  refine ⟨_, _, _, hr, rfl, ?_, hdocument _ _ _ filled_stateBased "d"⟩
  have htotal := (hcounter "d").symm.trans (show _ = (3 : ℤ) from rfl)
  exact_mod_cast htotal

end RyanAI.Socket.Ydoc
