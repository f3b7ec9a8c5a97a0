import RyanAI.Lib.OrderedMap

/-!
# Two tables that are inverse to each other

One table gives each name its place and another each place its name, and an operation writes to them one after the
other. `Inverse` says that they tell the same. A free name and a free place can be put together (`Inverse.link`), and
a name can be taken away with its place (`Inverse.unlink`).
-/

namespace RyanAI.Lib

universe u v

variable {α : Type u} {β : Type v} [DecidableEq α] [DecidableEq β]

/-- A name has a place exactly if the place has the name. -/
def Inverse (places : KeyedTable α β) (names : KeyedTable β α) : Prop :=
  ∀ a b, places.get a = some b ↔ names.get b = some a

namespace Inverse

variable {places : KeyedTable α β} {names : KeyedTable β α} {a : α} {b : β}

theorem empty : Inverse (.empty : KeyedTable α β) .empty := by
  intro a b
  rw [KeyedTable.get_empty, KeyedTable.get_empty]
  constructor
  · intro h
    cases h
  · intro h
    cases h

/-- Two names never share a place. -/
theorem name_unique (h : Inverse places names) (ha : places.get a = some b) (ha' : places.get a' = some b) :
    a = a' := by
  have hname := (h a b).1 ha
  have hname' := (h a' b).1 ha'
  rw [hname, Option.some.injEq] at hname'
  exact hname'

theorem link (h : Inverse places names) (ha : places.get a = none) (hb : names.get b = none) :
    Inverse (places.set a b) (names.set b a) := by
  intro a' b'
  rw [KeyedTable.get_set, KeyedTable.get_set]
  by_cases haa : a' = a
  · subst haa
    rw [if_pos rfl]
    by_cases hbb : b' = b
    · subst hbb
      simp
    · rw [if_neg hbb]
      constructor
      · intro heq
        exact absurd (Option.some.inj heq).symm hbb
      · intro hname
        -- the name was free, so no place has it
        rw [(h a' b').2 hname] at ha
        cases ha
  · rw [if_neg haa]
    by_cases hbb : b' = b
    · subst hbb
      rw [if_pos rfl]
      constructor
      · intro hplace
        rw [(h a' b').1 hplace] at hb
        cases hb
      · intro heq
        exact absurd (Option.some.inj heq).symm haa
    · rw [if_neg hbb]
      exact h a' b'

theorem unlink (h : Inverse places names) (ha : places.get a = some b) :
    Inverse (places.delete a) (names.delete b) := by
  intro a' b'
  rw [KeyedTable.get_delete, KeyedTable.get_delete]
  by_cases haa : a' = a
  · subst haa
    rw [if_pos rfl]
    by_cases hbb : b' = b
    · simp [hbb]
    · rw [if_neg hbb]
      constructor
      · intro heq
        cases heq
      · intro hname
        rw [(h a' b').2 hname] at ha
        exact absurd (Option.some.inj ha) hbb
  · rw [if_neg haa]
    by_cases hbb : b' = b
    · subst hbb
      rw [if_pos rfl]
      constructor
      · intro hplace
        exact absurd (h.name_unique hplace ha) haa
      · intro heq
        cases heq
    · rw [if_neg hbb]
      exact h a' b'

end Inverse

end RyanAI.Lib
