import Mathlib.Tactic
import Mathlib.Data.List.Nodup

/-!
# A cursor over a ring

A cursor is a list with an index into it. `order` is the list as the cursor is going to visit it: from
the index to the end, then from the start. `next` visits one element, which thereby becomes the last
in that order; `push` appends to the list, which inserts before the elements that lie behind the
index; `remove` takes an element out and keeps the order of the others.
-/

namespace RyanAI.Lib

universe u

structure Cursor (α : Type u) where
  items : List α
  index : Nat

namespace Cursor

variable {α : Type u}

def order (c : Cursor α) : List α := c.items.drop c.index ++ c.items.take c.index

def InRange (c : Cursor α) : Prop := c.index < c.items.length ∨ c.items = [] ∧ c.index = 0

def next (c : Cursor α) : Option (α × Cursor α) :=
  let i := if c.items.length ≤ c.index then 0 else c.index
  match c.items[i]? with
  | none => none
  | some a => some (a, ⟨c.items, (i + 1) % c.items.length⟩)

def push (a : α) (c : Cursor α) : Cursor α := ⟨c.items ++ [a], c.index⟩

/-- The index follows its element, and returns to the start when that leaves. -/
def remove [DecidableEq α] (a : α) (c : Cursor α) : Cursor α :=
  let i := c.items.idxOf a
  if i < c.items.length then
    let items := c.items.eraseIdx i
    let j := if i < c.index then c.index - 1 else c.index
    ⟨items, if items.length ≤ j then 0 else j⟩
  else c

theorem order_perm (c : Cursor α) : c.order.Perm c.items := by
  have h : (c.items.drop c.index ++ c.items.take c.index).Perm
      (c.items.take c.index ++ c.items.drop c.index) := List.perm_append_comm
  rwa [List.take_append_drop] at h

variable {c : Cursor α}

theorem mem_order {a : α} : a ∈ c.order ↔ a ∈ c.items := c.order_perm.mem_iff

theorem nodup_order : c.order.Nodup ↔ c.items.Nodup := c.order_perm.nodup_iff

theorem length_order (c : Cursor α) : c.order.length = c.items.length := c.order_perm.length_eq

theorem pair_sublist_of_append (h : [a, b].Sublist (pre ++ rest)) (ha : a ∉ pre) : [a, b].Sublist rest := by
  induction pre with
  | nil => exact h
  | cons x pre ih =>
    simp only [List.mem_cons, not_or] at ha
    cases h with
    | cons _ h => exact ih h ha.2
    | cons_cons _ h => exact absurd rfl ha.1

theorem next_of_order (hr : c.InRange) {a : α} {rest : List α} (h : c.order = a :: rest) :
    ∃ c', c.next = some (a, c') ∧ c'.InRange ∧ c'.order = rest ++ [a] := by
  obtain ⟨items, index⟩ := c
  have hlt : index < items.length := by
    rcases hr with hlt | ⟨hnil, -⟩
    · exact hlt
    · simp only at hnil
      simp [order, hnil] at h
  have hdrop : items.drop index = items[index] :: items.drop (index + 1) := List.drop_eq_getElem_cons hlt
  simp only [order, hdrop, List.cons_append, List.cons.injEq] at h
  obtain ⟨rfl, rfl⟩ := h
  have hnext : next ⟨items, index⟩ = some (items[index], ⟨items, (index + 1) % items.length⟩) := by
    simp [next, Nat.not_le.2 hlt, List.getElem?_eq_getElem hlt]
  refine ⟨_, hnext, Or.inl (Nat.mod_lt _ (by omega)), ?_⟩
  have htake : items.take (index + 1) = items.take index ++ [items[index]] := by
    rw [← List.take_concat_get hlt, List.concat_eq_append]
  -- the index wraps around exactly when the visited element was the last of the list
  by_cases hlast : index + 1 = items.length
  · simp only [order, hlast, Nat.mod_self, List.drop_zero, List.take_zero, List.append_nil,
      List.drop_length, List.nil_append]
    rw [← htake, hlast, List.take_length]
  · rw [Nat.mod_eq_of_lt (by omega)]
    simp only [order, htake, List.append_assoc]

theorem inRange_push (hr : c.InRange) (a : α) : (c.push a).InRange := by
  apply Or.inl
  rcases hr with hlt | ⟨hnil, hzero⟩
  · simp only [push, List.length_append, List.length_singleton]
    omega
  · simp [push, hnil, hzero]

theorem order_push (hr : c.InRange) (a : α) : (c.push a).order = c.items.drop c.index ++ a :: c.items.take c.index := by
  have hle : c.index ≤ c.items.length := by
    rcases hr with hlt | ⟨hnil, hzero⟩
    · omega
    · simp [hzero]
  simp only [order, push, List.drop_append_of_le_length hle, List.take_append_of_le_length hle]
  simp

theorem order_wrap {items : List α} {j : Nat} (hj : j ≤ items.length) :
    order ⟨items, if items.length ≤ j then 0 else j⟩ = items.drop j ++ items.take j := by
  by_cases h : items.length ≤ j
  · have hj' : j = items.length := by omega
    simp [order, hj']
  · simp only [order, if_neg h]

section Remove

variable [DecidableEq α]

theorem remove_of_split {a : α} (hl : a ∉ l) (index : Nat) : remove a ⟨l ++ a :: r, index⟩ =
      let j := if l.length < index then index - 1 else index
      ⟨l ++ r, if (l ++ r).length ≤ j then 0 else j⟩ := by
  have hidx : (l ++ a :: r).idxOf a = l.length := by
    rw [List.idxOf_append_of_notMem hl, List.idxOf_cons_self, Nat.add_zero]
  have herase : (l ++ a :: r).eraseIdx l.length = l ++ r := by
    rw [List.eraseIdx_append_of_length_le (Nat.le_refl _)]
    simp
  simp only [remove, hidx, herase]
  rw [if_pos (by simp)]

theorem order_remove (hr : c.InRange) (hd : c.items.Nodup) {a : α}
    (ha : a ∈ c.items) : (c.remove a).order = c.order.erase a := by
  obtain ⟨items, index⟩ := c
  obtain ⟨l, r, hsplit, hl⟩ := List.eq_append_cons_of_mem ha
  subst hsplit
  have hra : a ∉ r := by
    have hd' := (List.nodup_append.1 hd).2.1
    exact (List.nodup_cons.1 hd').1
  have hlt : index < (l ++ a :: r).length := by
    rcases hr with hlt | ⟨hnil, -⟩
    · exact hlt
    · simp at hnil
  have hlen : (l ++ a :: r).length = l.length + r.length + 1 := by simp; omega
  rw [remove_of_split hl]
  by_cases hidx : l.length < index
  · -- the element lies behind the index
    obtain ⟨k, rfl⟩ : ∃ k, index = l.length + 1 + k := ⟨index - l.length - 1, by omega⟩
    simp only [if_pos hidx]
    rw [order_wrap (by simp; omega)]
    have hj : l.length + 1 + k - 1 = l.length + k := by omega
    have hdrop : (l ++ a :: r).drop (l.length + 1 + k) = r.drop k := by
      rw [Nat.add_assoc, List.drop_length_add_append, Nat.add_comm, List.drop_succ_cons]
    have htake : (l ++ a :: r).take (l.length + 1 + k) = l ++ a :: r.take k := by
      rw [Nat.add_assoc, List.take_length_add_append, Nat.add_comm, List.take_succ_cons]
    rw [hj, List.drop_length_add_append, List.take_length_add_append, order, hdrop, htake,
      List.erase_append_right _ (fun h => hra (List.mem_of_mem_drop h)),
      List.erase_append_right _ hl, List.erase_cons_head]
  · -- the element lies at or before the index
    have hle : index ≤ l.length := by omega
    simp only [if_neg hidx]
    rw [order_wrap (by simp; omega)]
    have hdrop : (l ++ a :: r).drop index = l.drop index ++ a :: r := List.drop_append_of_le_length hle
    have htake : (l ++ a :: r).take index = l.take index := List.take_append_of_le_length hle
    rw [List.drop_append_of_le_length hle, List.take_append_of_le_length hle, order, hdrop, htake,
      List.append_assoc, List.append_assoc,
      List.erase_append_right _ (fun h => hl (List.mem_of_mem_drop h)), List.cons_append,
      List.erase_cons_head]

theorem inRange_remove (hr : c.InRange) (a : α) : (c.remove a).InRange := by
  simp only [remove]
  split
  · by_cases hlen : (c.items.eraseIdx (c.items.idxOf a)).length ≤
        (if c.items.idxOf a < c.index then c.index - 1 else c.index)
    · simp only [if_pos hlen]
      cases hitems : c.items.eraseIdx (c.items.idxOf a) with
      | nil => exact Or.inr ⟨rfl, rfl⟩
      | cons b rest => exact Or.inl (by simp)
    · simp only [if_neg hlen]
      exact Or.inl (by simpa using hlen)
  · exact hr

end Remove

end Cursor

end RyanAI.Lib
