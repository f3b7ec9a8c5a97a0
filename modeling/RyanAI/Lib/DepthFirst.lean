import Mathlib.Logic.Relation
import Mathlib.Data.Finset.Card
import Mathlib.Tactic

/-!
# Depth-first traversal

A traversal goes from a node through the rows below it. It remembers the keys it has seen, enters each row at most once,
and finds a row when all that is below the row is done. It finds just the rows below the nodes that the start reaches
(`mem_found_iff`), whether or not the rows have cycles. It is recursive, and there is none if its calls are nested too
deep: then it was about to enter a row that deep (`exists_of_visit_eq_none`).
-/

namespace RyanAI.Lib.DepthFirst

universe u v

variable {α : Type u} {β : Type v}

/-- The keys that were seen, and the rows in the order in which they were done. -/
structure State (α : Type u) (β : Type v) where
  seen : List α
  found : List β

def Leads (next : α → List β) (key : β → α) (a b : α) : Prop := ∃ row ∈ next a, key row = b

variable [DecidableEq α]

/-- The row is entered unless its key was seen; `below` goes on from there. -/
def visitRow (key : β → α) (below : α → State α β → Option (State α β)) (s : State α β) (row : β) :
    Option (State α β) :=
  if key row ∈ s.seen then some s
  else (below (key row) { s with seen := key row :: s.seen }).map fun s => { s with found := s.found ++ [row] }

/-- The traversal from `a`, with `n` nested calls at most. -/
def visit (next : α → List β) (key : β → α) : ℕ → α → State α β → Option (State α β)
  | 0, _, _ => none
  | n + 1, a, s => (next a).foldlM (visitRow key (visit next key n)) s

/-- What a traversal from `a`, or through the rows `rows` below, does. -/
structure Visited (next : α → List β) (key : β → α) (a : α) (rows : List β) (s s' : State α β) : Prop where
  seen : s.seen ⊆ s'.seen
  entered : ∀ row ∈ rows, key row ∈ s'.seen
  closed : ∀ x ∈ s'.seen, x ∉ s.seen → ∀ row ∈ next x, key row ∈ s'.seen
  found : s.found ⊆ s'.found
  done : ∀ x ∈ s'.seen, x ∉ s.seen → ∃ row ∈ s'.found, key row = x
  sound : ∀ row ∈ s'.found, row ∉ s.found →
    key row ∉ s.seen ∧ ∃ c, Relation.ReflTransGen (Leads next key) a c ∧ row ∈ next c

namespace Visited

variable {next : α → List β} {key : β → α} {a : α} {rows : List β} {s s' s'' : State α β}

omit [DecidableEq α] in
theorem refl : Visited next key a [] s s where
  seen := List.Subset.refl _
  entered := by simp
  closed := fun x hx hnot => absurd hx hnot
  found := List.Subset.refl _
  done := fun x hx hnot => absurd hx hnot
  sound := fun row hrow hnot => absurd hrow hnot

omit [DecidableEq α] in
theorem skip (hseen : key row ∈ s.seen) (h : Visited next key a rows s s') : Visited next key a (row :: rows) s s' where
  seen := h.seen
  entered := by
    intro r hr
    rcases List.mem_cons.1 hr with rfl | hr
    · exact h.seen hseen
    · exact h.entered r hr
  closed := h.closed
  found := h.found
  done := h.done
  sound := h.sound

theorem enter {row : β} (hrow : row ∈ next a) (hunseen : key row ∉ s.seen)
    (hbelow : Visited next key (key row) (next (key row)) { s with seen := key row :: s.seen } s')
    (hrest : Visited next key a rows { s' with found := s'.found ++ [row] } s'') :
    Visited next key a (row :: rows) s s'' := by
  have hstep : Leads next key a (key row) := ⟨row, hrow, rfl⟩
  have hkey : key row ∈ s'.seen := hbelow.seen List.mem_cons_self
  refine ⟨?_, ?_, ?_, ?_, ?_, ?_⟩
  · exact fun x hx => hrest.seen (hbelow.seen (List.mem_cons_of_mem _ hx))
  · intro r hr
    rcases List.mem_cons.1 hr with rfl | hr
    · exact hrest.seen hkey
    · exact hrest.entered r hr
  · intro x hx hnot r hr
    by_cases hold : x ∈ s'.seen
    · apply hrest.seen
      by_cases hself : x = key row
      · subst hself
        exact hbelow.entered r hr
      · exact hbelow.closed x hold (by simp [hself, hnot]) r hr
    · exact hrest.closed x hx hold r hr
  · exact fun r hr => hrest.found (List.mem_append_left _ (hbelow.found hr))
  · intro x hx hnot
    by_cases hold : x ∈ s'.seen
    · by_cases hself : x = key row
      · exact ⟨row, hrest.found (by simp), hself.symm⟩
      · obtain ⟨r, hr, hkeyr⟩ := hbelow.done x hold (by simp [hself, hnot])
        exact ⟨r, hrest.found (List.mem_append_left _ hr), hkeyr⟩
    · exact hrest.done x hx hold
  · intro r hr hnot
    by_cases hmid : r ∈ s'.found ++ [row]
    · rcases List.mem_append.1 hmid with hmid | hmid
      · obtain ⟨hout, c, hreach, hc⟩ := hbelow.sound r hmid hnot
        exact ⟨fun hin => hout (List.mem_cons_of_mem _ hin), c, .head hstep hreach, hc⟩
      · rw [List.mem_singleton.1 hmid]
        exact ⟨hunseen, a, .refl, hrow⟩
    · obtain ⟨hout, c, hreach, hc⟩ := hrest.sound r hr hmid
      exact ⟨fun hin => hout (hbelow.seen (List.mem_cons_of_mem _ hin)), c, hreach, hc⟩

omit [DecidableEq α] in
/-- The rows that were left out have been seen all the same. -/
theorem widen (h : Visited next key a rows s s') (hrows : ∀ row ∈ rows', row ∈ rows ∨ key row ∈ s'.seen) :
    Visited next key a rows' s s' where
  seen := h.seen
  entered := by
    intro row hrow
    rcases hrows row hrow with hin | hseen
    · exact h.entered row hin
    · exact hseen
  closed := h.closed
  found := h.found
  done := h.done
  sound := h.sound

end Visited

/-- A traversal from `a` through the rows `rows` below it, step by step, that goes at most `n` rows deep. A row is
passed over if its key was seen, and entered otherwise. The traversal may leave out rows below a row, as long as it has
seen them in the end. -/
inductive Traversal (next : α → List β) (key : β → α) : ℕ → α → List β → State α β → State α β → Prop where
  | nil {n : ℕ} {a : α} {s : State α β} : Traversal next key n a [] s s
  | skip {n : ℕ} {a : α} {row : β} {rows : List β} {s s' : State α β} :
      key row ∈ s.seen → Traversal next key n a rows s s' → Traversal next key n a (row :: rows) s s'
  | enter {n : ℕ} {a : α} {row : β} {below rows : List β} {s s' s'' : State α β} :
      row ∈ next a → key row ∉ s.seen →
      Traversal next key n (key row) below { s with seen := key row :: s.seen } s' →
      (∀ r ∈ next (key row), r ∈ below ∨ key r ∈ s'.seen) →
      Traversal next key (n + 1) a rows { s' with found := s'.found ++ [row] } s'' →
      Traversal next key (n + 1) a (row :: rows) s s''

namespace Traversal

variable {next : α → List β} {key : β → α} {a : α} {rows : List β} {s s' s'' : State α β} {n : ℕ}

omit [DecidableEq α] in
theorem visited (h : Traversal next key n a rows s s') : Visited next key a rows s s' := by
  classical
  induction h with
  | nil => exact .refl
  | skip hseen _ ih => exact .skip hseen ih
  | enter hrow hunseen _ hbelow _ ih ihrest => exact .enter hrow hunseen (ih.widen hbelow) ihrest

omit [DecidableEq α] in
/-- What is found is found once, and for a key that is seen on the way. -/
theorem new (h : Traversal next key n a rows s s') :
    ∃ new, s'.found = s.found ++ new ∧ (new.map key).Nodup ∧ ∀ row ∈ new, key row ∉ s.seen ∧ key row ∈ s'.seen := by
  induction h with
  | nil => exact ⟨[], by simp, List.nodup_nil, by simp⟩
  | skip _ _ ih => exact ih
  | @enter _ a row below rows s s' s'' hrow hunseen hinner hbelow houter ih ihrest =>
    obtain ⟨inner, hinnerFound, hinnerNodup, hinnerNew⟩ := ih
    obtain ⟨outer, houterFound, houterNodup, houterNew⟩ := ihrest
    have hkey : key row ∈ s'.seen := hinner.visited.seen List.mem_cons_self
    have hgrows : s'.seen ⊆ s''.seen := houter.visited.seen
    refine ⟨inner ++ row :: outer, ?_, ?_, ?_⟩
    · rw [houterFound, hinnerFound]
      simp
    · rw [List.map_append, List.map_cons, List.nodup_append, List.nodup_cons]
      refine ⟨hinnerNodup, ⟨?_, houterNodup⟩, ?_⟩
      · intro hmem
        obtain ⟨r, hr, heq⟩ := List.mem_map.1 hmem
        exact (houterNew r hr).1 (heq ▸ hkey)
      · intro x hx y hy heq
        obtain ⟨r, hr, rfl⟩ := List.mem_map.1 hx
        rcases List.mem_cons.1 hy with hself | hy
        · exact (hinnerNew r hr).1 (heq.trans hself ▸ List.mem_cons_self)
        · -- what is found after the row was unseen when the row was done
          obtain ⟨r', hr', rfl⟩ := List.mem_map.1 hy
          exact (houterNew r' hr').1 (heq ▸ (hinnerNew r hr).2)
    · intro r hr
      rcases List.mem_append.1 hr with hr | hr
      · obtain ⟨hout, hin⟩ := hinnerNew r hr
        exact ⟨fun hseen => hout (List.mem_cons_of_mem _ hseen), hgrows hin⟩
      rcases List.mem_cons.1 hr with rfl | hr
      · exact ⟨hunseen, hgrows hkey⟩
      · obtain ⟨hout, hin⟩ := houterNew r hr
        exact ⟨fun hseen => hout (hinner.visited.seen (List.mem_cons_of_mem _ hseen)), hin⟩

omit [DecidableEq α] in
/-- A traversal from `a`, with nothing else seen before, sees what `a` reaches. -/
theorem mem_seen (h : Traversal next key n a (next a) s s') (hseen : s.seen = [a])
    (hreach : Relation.ReflTransGen (Leads next key) a d) : d ∈ s'.seen := by
  have hvisited := h.visited
  induction hreach with
  | refl => exact hvisited.seen (by rw [hseen]; exact List.mem_singleton_self a)
  | @tail c d _ hstep ih =>
    obtain ⟨r, hr, rfl⟩ := hstep
    by_cases hself : c = a
    · subst hself
      exact hvisited.entered r hr
    · exact hvisited.closed c ih (by rw [hseen, List.mem_singleton]; exact hself) r hr

omit [DecidableEq α] in
/-- A traversal from `a`, with nothing else seen or found before, finds what `a` reaches. -/
theorem mem_found_iff (h : Traversal next key n a (next a) s s') (row : β) (hseen : s.seen = [a])
    (hfound : ∀ row ∈ s.found, key row = a)
    (hkey : ∀ x y, ∀ row ∈ next x, ∀ row' ∈ next y, key row = key row' → row = row') :
    row ∈ s'.found ↔ row ∈ s.found ∨ key row ≠ a ∧ ∃ c, Relation.ReflTransGen (Leads next key) a c ∧ row ∈ next c := by
  have hvisited := h.visited
  constructor
  · intro hrow
    by_cases hold : row ∈ s.found
    · exact .inl hold
    obtain ⟨hout, hbelow⟩ := hvisited.sound row hrow hold
    rw [hseen, List.mem_singleton] at hout
    exact .inr ⟨hout, hbelow⟩
  rintro (hold | ⟨hne, c, hreach, hrow⟩)
  · exact hvisited.found hold
  obtain ⟨row', hrow', hkeys⟩ := hvisited.done (key row) (h.mem_seen hseen (hreach.tail ⟨row, hrow, rfl⟩))
    (by rw [hseen, List.mem_singleton]; exact hne)
  have hnew : row' ∉ s.found := by
    intro hold
    exact hne (hkeys.symm.trans (hfound row' hold))
  obtain ⟨-, c', -, hnext⟩ := hvisited.sound row' hrow' hnew
  rwa [← hkey c' c row' hnext row hrow hkeys]

omit [DecidableEq α] in
/-- Where the rows below a node are one level deeper, but for those of `top`, what is seen lies at most `n` levels
deeper than the start. -/
theorem exists_level {level : ℕ → α → Prop} {top : α}
    (hstep : ∀ k x, ∀ row ∈ next x, key row ≠ top → level k x → level (k + 1) (key row))
    (h : Traversal next key n a rows s s') (htop : top ∈ s.seen) (ha : level k a) :
    ∀ x ∈ s'.seen, x ∉ s.seen → ∃ j ≤ k + n, level j x := by
  induction h generalizing k with
  | nil => exact fun x hx hnot => absurd hx hnot
  | skip _ _ ih => exact ih htop ha
  | @enter n a row below rows s s' s'' hrow hunseen hinner hbelow houter ih ihrest =>
    intro x hx hnot
    have hne : key row ≠ top := fun heq => hunseen (heq ▸ htop)
    have hself := hstep k a row hrow hne ha
    by_cases hold : x ∈ s'.seen
    · by_cases hx : x = key row
      · exact ⟨k + 1, by omega, hx ▸ hself⟩
      · obtain ⟨j, hj, hlevel⟩ := ih (List.mem_cons_of_mem _ htop) hself x hold (by simp [hx, hnot])
        exact ⟨j, by omega, hlevel⟩
    · exact ihrest (hinner.visited.seen (List.mem_cons_of_mem _ htop)) ha x hx hold

end Traversal

/-- How many of the keys are still unseen. -/
def unseen (ids seen : List α) : ℕ := (ids.toFinset \ seen.toFinset).card

theorem unseen_le_length (ids seen : List α) : unseen ids seen ≤ ids.length :=
  (Finset.card_le_card Finset.sdiff_subset).trans (List.toFinset_card_le ids)

theorem unseen_cons {ids seen : List α} {x : α} (hx : x ∈ ids) (hunseen : x ∉ seen) :
    unseen ids (x :: seen) + 1 = unseen ids seen := by
  have hmem : x ∈ ids.toFinset \ seen.toFinset := by
    rw [Finset.mem_sdiff, List.mem_toFinset, List.mem_toFinset]
    exact ⟨hx, hunseen⟩
  have herase : ids.toFinset \ (x :: seen).toFinset = (ids.toFinset \ seen.toFinset).erase x := by
    rw [List.toFinset_cons, Finset.sdiff_insert]
  have hpos := Finset.card_pos.2 ⟨x, hmem⟩
  rw [unseen, unseen, herase, Finset.card_erase_of_mem hmem]
  omega

section Visit

variable {next : α → List β} {key : β → α} {n : ℕ} {a : α} {s s' : State α β}

theorem traversal_visit (h : visit next key n a s = some s') : ∃ m, n = m + 1 ∧ Traversal next key m a (next a) s s' := by
  induction n generalizing a s s' with
  | zero => cases h
  | succ n ih =>
    refine ⟨n, rfl, ?_⟩
    rw [visit] at h
    have hloop : ∀ (rows : List β), (∀ row ∈ rows, row ∈ next a) → ∀ s : State α β,
        rows.foldlM (visitRow key (visit next key n)) s = some s' → Traversal next key n a rows s s' := by
      intro rows
      induction rows with
      | nil =>
        rintro _ s hs
        cases hs
        exact .nil
      | cons row rest ihrest =>
        intro hrows s hs
        have hrest : ∀ r ∈ rest, r ∈ next a := fun r hr => hrows r (List.mem_cons_of_mem _ hr)
        rw [List.foldlM_cons, visitRow] at hs
        by_cases hseen : key row ∈ s.seen
        · rw [if_pos hseen] at hs
          exact .skip hseen (ihrest hrest s hs)
        rw [if_neg hseen] at hs
        obtain ⟨s₁, hmap, hs⟩ := Option.bind_eq_some_iff.1 hs
        obtain ⟨s₂, hvisit, rfl⟩ := Option.map_eq_some_iff.1 hmap
        obtain ⟨m, rfl, hbelow⟩ := ih hvisit
        exact .enter (hrows row List.mem_cons_self) hseen hbelow (fun r hr => .inl hr) (ihrest hrest _ hs)
    exact hloop (next a) (fun _ hrow => hrow) s h

/-- A traversal that there is none of was about to enter a row `n` levels below its start. -/
theorem exists_of_visit_eq_none {level : ℕ → α → Prop} {top : α}
    (hstep : ∀ k x, ∀ row ∈ next x, key row ≠ top → level k x → level (k + 1) (key row))
    (h : visit next key n a s = none) (htop : top ∈ s.seen) (ha : level k a) : ∃ x, level (k + n) x := by
  induction n generalizing k a s with
  | zero => exact ⟨a, ha⟩
  | succ n ih =>
    rw [visit] at h
    have hloop : ∀ (rows : List β), (∀ row ∈ rows, row ∈ next a) → ∀ s : State α β, top ∈ s.seen →
        rows.foldlM (visitRow key (visit next key n)) s = none → ∃ x, level (k + (n + 1)) x := by
      intro rows
      induction rows with
      | nil =>
        rintro _ s _ hs
        cases hs
      | cons row rest ihrest =>
        intro hrows s htop hs
        have hrest : ∀ r ∈ rest, r ∈ next a := fun r hr => hrows r (List.mem_cons_of_mem _ hr)
        rw [List.foldlM_cons, visitRow] at hs
        by_cases hseen : key row ∈ s.seen
        · rw [if_pos hseen] at hs
          exact ihrest hrest s htop hs
        rw [if_neg hseen] at hs
        cases hvisit : visit next key n (key row) { s with seen := key row :: s.seen } with
        | none =>
          have hne : key row ≠ top := fun heq => hseen (heq ▸ htop)
          obtain ⟨x, hx⟩ := ih hvisit (List.mem_cons_of_mem _ htop)
            (hstep k a row (hrows row List.mem_cons_self) hne ha)
          exact ⟨x, by rwa [show k + (n + 1) = k + 1 + n by omega]⟩
        | some s₁ =>
          rw [hvisit, Option.map_some, Option.bind_eq_bind, Option.bind_some] at hs
          obtain ⟨_, -, hbelow⟩ := traversal_visit hvisit
          exact ihrest hrest ⟨s₁.seen, s₁.found ++ [row]⟩ (hbelow.visited.seen (List.mem_cons_of_mem _ htop)) hs
    exact hloop (next a) (fun _ hrow => hrow) s htop h

end Visit

theorem mem_found_iff {next : α → List β} {key : β → α} {n : ℕ} {a : α} {s : State α β}
    (h : visit next key n a ⟨[a], []⟩ = some s)
    (hkey : ∀ x y, ∀ row ∈ next x, ∀ row' ∈ next y, key row = key row' → row = row') {row : β} :
    row ∈ s.found ↔ key row ≠ a ∧ ∃ c, Relation.ReflTransGen (Leads next key) a c ∧ row ∈ next c := by
  obtain ⟨_, -, htraversal⟩ := traversal_visit h
  rw [htraversal.mem_found_iff row rfl (by simp) hkey]
  simp

end RyanAI.Lib.DepthFirst
