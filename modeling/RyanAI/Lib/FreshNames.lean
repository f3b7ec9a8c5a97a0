import Mathlib.Data.List.Nodup

/-!
# Fresh names and single use

Processes draw names that nobody has drawn before and keep them until they put them where everyone can see them.
`Names` records who has drawn what and which names have been put. A process holds names that it has drawn and that have
not been put (`Held`); what others draw and put does not take them away.

A name that has been put is live until it is used. The uses are read off a log. `SingleUse` holds where no live name has
been used, and no name twice; it is kept by an event that uses a live name at most and leaves live only what it has not
used, and names put for the first time (`SingleUse.step`).
-/

namespace RyanAI.Lib.FreshNames

variable {ν : Type}

/-! ## Drawing and putting -/

structure Names (ν : Type) where
  drawn : List (ℕ × ν)
  placed : List ν

namespace Names

def draw (n : Names ν) (i : ℕ) (x : ν) : Names ν := ⟨(i, x) :: n.drawn, n.placed⟩

def place (n : Names ν) (xs : List ν) : Names ν := ⟨n.drawn, xs ++ n.placed⟩

structure Consistent (n : Names ν) : Prop where
  once : (n.drawn.map Prod.snd).Nodup
  placed_drawn : ∀ x ∈ n.placed, x ∈ n.drawn.map Prod.snd

/-- The process `i` holds the names. -/
structure Held (n : Names ν) (i : ℕ) (xs : List ν) : Prop where
  nodup : xs.Nodup
  drawn : ∀ x ∈ xs, (i, x) ∈ n.drawn
  unplaced : ∀ x ∈ xs, x ∉ n.placed

variable {n : Names ν} {i j : ℕ} {x : ν} {xs ys : List ν}

theorem consistent_nil : (⟨[], []⟩ : Names ν).Consistent := ⟨List.nodup_nil, fun _ h => absurd h List.not_mem_nil⟩

theorem held_nil : n.Held i [] := by
  constructor <;> simp

theorem Held.sublist (h : n.Held i xs) (hs : ys.Sublist xs) : n.Held i ys :=
  ⟨h.nodup.sublist hs, fun x hx => h.drawn x (hs.subset hx), fun x hx => h.unplaced x (hs.subset hx)⟩

theorem Consistent.draw (h : n.Consistent) (hx : x ∉ n.drawn.map Prod.snd) : (n.draw i x).Consistent where
  once := List.nodup_cons.2 ⟨hx, h.once⟩
  placed_drawn y hy := List.mem_cons_of_mem x (h.placed_drawn y hy)

theorem Consistent.place (h : n.Consistent) (hxs : n.Held i xs) : (n.place xs).Consistent where
  once := h.once
  placed_drawn y hy := by
    rcases List.mem_append.1 hy with hy | hy
    · exact List.mem_map_of_mem (f := Prod.snd) (hxs.drawn y hy)
    · exact h.placed_drawn y hy

theorem Held.draw_self (h : n.Held i xs) (hn : n.Consistent) (hx : x ∉ n.drawn.map Prod.snd) :
    (n.draw i x).Held i (xs ++ [x]) := by
  have hold : ∀ y ∈ xs, y ≠ x := by
    rintro y hy rfl
    exact hx (List.mem_map_of_mem (f := Prod.snd) (h.drawn y hy))
  constructor
  · refine List.nodup_append.2 ⟨h.nodup, List.nodup_singleton x, ?_⟩
    intro y hy z hz
    rw [List.mem_singleton.1 hz]
    exact hold y hy
  · intro y hy
    rcases List.mem_append.1 hy with hy | hy
    · exact List.mem_cons_of_mem _ (h.drawn y hy)
    · rw [List.mem_singleton.1 hy]
      exact List.mem_cons_self
  · intro y hy
    rcases List.mem_append.1 hy with hy | hy
    · exact h.unplaced y hy
    · rw [List.mem_singleton.1 hy]
      exact fun hplaced => hx (hn.placed_drawn x hplaced)

theorem Held.draw (h : n.Held j xs) : (n.draw i x).Held j xs :=
  ⟨h.nodup, fun y hy => List.mem_cons_of_mem _ (h.drawn y hy), h.unplaced⟩

theorem Held.place (hj : n.Held j ys) (hn : n.Consistent) (hi : n.Held i xs) (hij : i ≠ j) :
    (n.place xs).Held j ys := by
  refine ⟨hj.nodup, hj.drawn, ?_⟩
  intro y hy hplaced
  rcases List.mem_append.1 hplaced with hx | hx
  · have heq : (i, y) = (j, y) :=
      List.inj_on_of_nodup_map hn.once (hi.drawn y hx) (hj.drawn y hy) rfl
    exact hij (congrArg Prod.fst heq)
  · exact hj.unplaced y hy hx

end Names

structure SingleUse (live placed : ν → Prop) (used : List ν) : Prop where
  live_placed : ∀ x, live x → placed x
  used_placed : ∀ x ∈ used, placed x
  unused : ∀ x, live x → x ∉ used
  once : used.Nodup

theorem singleUse_nil {live placed : ν → Prop} (h : ∀ x, ¬ live x) : SingleUse live placed [] where
  live_placed x hx := absurd hx (h x)
  used_placed _ hx := absurd hx List.not_mem_nil
  unused x hx := absurd hx (h x)
  once := List.nodup_nil

variable {ω : Type} {uses : ω → Option ν} {log : List ω} {event : ω} {live live' placed placed' : ν → Prop}

theorem SingleUse.step (h : SingleUse live placed (log.filterMap uses))
    (hused : ∀ x, uses event = some x → live x) (hplaced : ∀ x, placed x → placed' x)
    (hlive : ∀ x, live' x → live x ∧ uses event ≠ some x ∨ ¬ placed x ∧ placed' x) :
    SingleUse live' placed' ((event :: log).filterMap uses) := by
  have hunused : ∀ x, live' x → x ∉ log.filterMap uses := by
    intro x hx hmem
    rcases hlive x hx with ⟨hx, -⟩ | ⟨hx, -⟩
    · exact h.unused x hx hmem
    · exact hx (h.used_placed x hmem)
  have hlive_placed : ∀ x, live' x → placed' x := by
    intro x hx
    rcases hlive x hx with ⟨hx, -⟩ | ⟨-, hx⟩
    · exact hplaced x (h.live_placed x hx)
    · exact hx
  cases huse : uses event with
  | none =>
    rw [List.filterMap_cons_none huse]
    exact ⟨hlive_placed, fun x hx => hplaced x (h.used_placed x hx), hunused, h.once⟩
  | some u =>
    have hu := hused u huse
    rw [List.filterMap_cons_some huse]
    refine ⟨hlive_placed, ?_, ?_, List.nodup_cons.2 ⟨h.unused u hu, h.once⟩⟩
    · intro x hx
      rcases List.mem_cons.1 hx with rfl | hx
      · exact hplaced x (h.live_placed x hu)
      · exact hplaced x (h.used_placed x hx)
    · intro x hx hmem
      rcases List.mem_cons.1 hmem with rfl | hmem
      -- the name that the event has used was put before, and is not live any more
      · rcases hlive x hx with ⟨-, hne⟩ | ⟨hnew, -⟩
        · exact hne huse
        · exact hnew (h.live_placed x hu)
      · exact hunused x hx hmem

end RyanAI.Lib.FreshNames
