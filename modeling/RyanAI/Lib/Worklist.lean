import RyanAI.Lib.DepthFirst

/-!
# A search with a stack

The search takes a row from the stack, and puts the rows below it that it has not seen on the stack. It comes back
after one round for each key, also where the rows have cycles, and has then seen each key that the start reaches once
(`search_spec`).
-/

namespace RyanAI.Lib.Worklist

open DepthFirst (Leads unseen unseen_cons unseen_le_length)

universe u v

variable {α : Type u} {β : Type v} [DecidableEq α]

/-- The keys that were seen, and the stack with its top first. -/
structure State (α : Type u) (β : Type v) where
  seen : List α
  pending : List β

def push (key : β → α) (s : State α β) (row : β) : State α β :=
  if key row ∈ s.seen then s else ⟨s.seen ++ [key row], row :: s.pending⟩

/-- The loop; `none` if the rounds are used up. -/
def search (next : α → List β) (key : β → α) : ℕ → State α β → Option (List α)
  | 0, _ => none
  | _ + 1, ⟨seen, []⟩ => some seen
  | n + 1, ⟨seen, row :: pending⟩ => search next key n ((next (key row)).foldl (push key) ⟨seen, pending⟩)

/-- What a loop over `rows` does that pushes them. -/
structure Pushed (key : β → α) (rows : List β) (s s' : State α β) : Prop where
  seen : s.seen ⊆ s'.seen
  pending : s.pending ⊆ s'.pending
  nodup : s.seen.Nodup → s'.seen.Nodup
  pushed : ∀ row ∈ rows, key row ∈ s'.seen
  new : ∀ x ∈ s'.seen, x ∈ s.seen ∨ ∃ row ∈ rows, row ∈ s'.pending ∧ key row = x
  source : ∀ row ∈ s'.pending, row ∈ s.pending ∨ key row ∈ s'.seen

/-- What is left to do: the unseen keys and the stack. -/
def remaining (ids : List α) (s : State α β) : ℕ := unseen ids s.seen + s.pending.length

variable {next : α → List β} {key : β → α} {ids : List α} {s s' : State α β} {a : α}

theorem remaining_push (hids : key row ∈ ids) : remaining ids (push key s row) = remaining ids s := by
  rw [push]
  by_cases hseen : key row ∈ s.seen
  · rw [if_pos hseen]
  rw [if_neg hseen, remaining, remaining, List.length_cons]
  -- one key fewer is unseen, and one row more is on the stack
  have hsame : unseen ids (s.seen ++ [key row]) = unseen ids (key row :: s.seen) := by
    rw [unseen, unseen, List.toFinset_eq_of_perm _ _ (List.perm_append_singleton _ _)]
  have hfewer := unseen_cons hids hseen
  rw [hsame]
  omega

theorem remaining_foldl (rows : List β) (hids : ∀ row ∈ rows, key row ∈ ids) (s : State α β) :
    remaining ids (rows.foldl (push key) s) = remaining ids s := by
  induction rows generalizing s with
  | nil => rfl
  | cons row rest ih =>
    rw [List.foldl_cons, ih fun r hr => hids r (List.mem_cons_of_mem _ hr)]
    exact remaining_push (hids row List.mem_cons_self)

theorem pushed_foldl (key : β → α) (rows : List β) (s : State α β) : Pushed key rows s (rows.foldl (push key) s) := by
  induction rows generalizing s with
  | nil => exact ⟨List.Subset.refl _, List.Subset.refl _, id, by simp, fun x hx => .inl hx, fun row hrow => .inl hrow⟩
  | cons row rest ih =>
    have hrest := ih (push key s row)
    rw [List.foldl_cons]
    by_cases hseen : key row ∈ s.seen
    · have hpush : push key s row = s := if_pos hseen
      rw [hpush] at hrest ⊢
      refine ⟨hrest.seen, hrest.pending, hrest.nodup, ?_, ?_, hrest.source⟩
      · intro r hr
        rcases List.mem_cons.1 hr with rfl | hr
        · exact hrest.seen hseen
        · exact hrest.pushed r hr
      · intro x hx
        rcases hrest.new x hx with hold | ⟨r, hr, hpending, hkey⟩
        · exact .inl hold
        · exact .inr ⟨r, List.mem_cons_of_mem _ hr, hpending, hkey⟩
    · have hpush : push key s row = ⟨s.seen ++ [key row], row :: s.pending⟩ := if_neg hseen
      rw [hpush] at hrest ⊢
      have hself : key row ∈ (rest.foldl (push key) ⟨s.seen ++ [key row], row :: s.pending⟩).seen :=
        hrest.seen (List.mem_append_right _ (List.mem_singleton_self _))
      refine ⟨?_, ?_, ?_, ?_, ?_, ?_⟩
      · exact fun x hx => hrest.seen (List.mem_append_left _ hx)
      · exact fun r hr => hrest.pending (List.mem_cons_of_mem _ hr)
      · intro hnodup
        apply hrest.nodup
        rw [List.nodup_append]
        refine ⟨hnodup, List.nodup_singleton _, ?_⟩
        rintro x hx y hy rfl
        rw [List.mem_singleton] at hy
        exact hseen (hy ▸ hx)
      · intro r hr
        rcases List.mem_cons.1 hr with rfl | hr
        · exact hself
        · exact hrest.pushed r hr
      · intro x hx
        rcases hrest.new x hx with hold | ⟨r, hr, hpending, hkey⟩
        · rcases List.mem_append.1 hold with hold | hold
          · exact .inl hold
          · rw [List.mem_singleton] at hold
            exact .inr ⟨row, List.mem_cons_self, hrest.pending List.mem_cons_self, hold.symm⟩
        · exact .inr ⟨r, List.mem_cons_of_mem _ hr, hpending, hkey⟩
      · intro r hr
        rcases hrest.source r hr with hold | hin
        · rcases List.mem_cons.1 hold with rfl | hold
          · exact .inr hself
          · exact .inl hold
        · exact .inr hin

/-- The state of a search from `a`: what was seen is reached, and what is below it is seen as well unless its row is
still on the stack. -/
structure Invariant (next : α → List β) (key : β → α) (a : α) (s : State α β) : Prop where
  nodup : s.seen.Nodup
  start : a ∈ s.seen
  sound : ∀ x ∈ s.seen, Relation.ReflTransGen (Leads next key) a x
  pending : ∀ row ∈ s.pending, key row ∈ s.seen
  closed : ∀ x ∈ s.seen, (∃ row ∈ s.pending, key row = x) ∨ ∀ row ∈ next x, key row ∈ s.seen

theorem Invariant.pop {row : β} {pending : List β} {seen : List α} (h : Invariant next key a ⟨seen, row :: pending⟩) :
    Invariant next key a ((next (key row)).foldl (push key) ⟨seen, pending⟩) := by
  have hpushed := pushed_foldl key (next (key row)) ⟨seen, pending⟩
  have hrow : key row ∈ seen := h.pending row List.mem_cons_self
  refine ⟨hpushed.nodup h.nodup, hpushed.seen h.start, ?_, ?_, ?_⟩
  · intro x hx
    rcases hpushed.new x hx with hold | ⟨r, hr, _, rfl⟩
    · exact h.sound x hold
    · exact (h.sound _ hrow).tail ⟨r, hr, rfl⟩
  · intro r hr
    rcases hpushed.source r hr with hold | hin
    · exact hpushed.seen (h.pending r (List.mem_cons_of_mem _ hold))
    · exact hin
  · intro x hx
    rcases hpushed.new x hx with hold | ⟨r, _, hr, hkey⟩
    · rcases h.closed x hold with ⟨r, hr, rfl⟩ | hclosed
      · rcases List.mem_cons.1 hr with rfl | hr
        · -- the row that was taken: all that is below it has been pushed
          exact .inr hpushed.pushed
        · exact .inl ⟨r, hpushed.pending hr, rfl⟩
      · exact .inr fun r hr => hpushed.seen (hclosed r hr)
    · exact .inl ⟨r, hr, hkey⟩

theorem Invariant.search (hids : ∀ x, ∀ row ∈ next x, key row ∈ ids) (h : Invariant next key a s)
    (hn : remaining ids s < n) :
    ∃ found, search next key n s = some found ∧ Invariant next key a ⟨found, []⟩ := by
  induction n generalizing s with
  | zero => omega
  | succ n ih =>
    obtain ⟨seen, pending⟩ := s
    cases pending with
    | nil => exact ⟨seen, rfl, h⟩
    | cons row pending =>
      rw [Worklist.search]
      refine ih h.pop ?_
      have hfewer := remaining_foldl (next (key row)) (hids (key row)) ⟨seen, pending⟩
      rw [hfewer]
      simp only [remaining, List.length_cons] at hn ⊢
      omega

theorem search_spec (hids : ∀ x, ∀ row ∈ next x, key row ∈ ids) (row : β) {n : ℕ} (hn : ids.length + 1 < n) :
    ∃ found, search next key n ⟨[key row], [row]⟩ = some found ∧ found.Nodup ∧
      ∀ x, x ∈ found ↔ Relation.ReflTransGen (Leads next key) (key row) x := by
  have hstart : Invariant next key (key row) ⟨[key row], [row]⟩ := by
    refine ⟨List.nodup_singleton _, List.mem_singleton_self _, ?_, ?_, ?_⟩
    · intro x hx
      rw [List.mem_singleton.1 hx]
    · intro r hr
      rw [List.mem_singleton.1 hr]
      exact List.mem_singleton_self _
    · intro x hx
      exact .inl ⟨row, List.mem_singleton_self _, (List.mem_singleton.1 hx).symm⟩
  have hcard : remaining ids (⟨[key row], [row]⟩ : State α β) < n := by
    have hlength := unseen_le_length ids [key row]
    simp only [remaining, List.length_singleton]
    omega
  obtain ⟨found, hfound, h⟩ := hstart.search hids hcard
  refine ⟨found, hfound, h.nodup, ?_⟩
  intro x
  constructor
  · exact h.sound x
  · intro hreach
    induction hreach with
    | refl => exact h.start
    | tail _ hstep ih =>
      obtain ⟨r, hr, rfl⟩ := hstep
      rcases h.closed _ ih with ⟨r', hr', _⟩ | hclosed
      · cases hr'
      · exact hclosed r hr

end RyanAI.Lib.Worklist
