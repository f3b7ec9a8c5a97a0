import Mathlib.Data.List.Basic

/-!
# Time zones

The offset of a zone from UTC is constant between its changes. Where it grows the clock on the wall leaves a
gap, and where it shrinks a period of wall time is passed twice. A wall time of a gap is read with the
offset from before, and one that is passed twice as the first of the two.
-/

namespace RyanAI.Lib.TimeZone

/-- From the second `time` on, the offset is `after`. -/
structure Change where
  time : Int
  before : Int
  after : Int

def Change.wall (c : Change) : Int := c.time + max c.before c.after

/-- Each change starts with the offset of the one in front, and gaps and repeated periods do not
overlap. -/
def Regular : Int → List Change → Prop
  | _, [] => True
  | offset, c :: rest =>
    c.before = offset ∧ (∀ d ∈ rest.head?, c.wall ≤ d.time + min d.before d.after) ∧ Regular c.after rest

def offsetAt : Int → List Change → Int → Int
  | offset, [], _ => offset
  | offset, c :: rest, t => if c.time ≤ t then offsetAt c.after rest t else offset

def offsetOf : Int → List Change → Int → Int
  | offset, [], _ => offset
  | offset, c :: rest, w => if c.wall ≤ w then offsetOf c.after rest w else offset

structure Zone where
  offset : Int
  changes : List Change
  regular : Regular offset changes

def Zone.wall (z : Zone) (t : Int) : Int := t + offsetAt z.offset z.changes t

def Zone.time (z : Zone) (w : Int) : Int := w - offsetOf z.offset z.changes w

section Offsets

variable {offset : Int} {c : Change} {rest : List Change}

theorem Regular.time_le (h : Regular offset (c :: rest)) : ∀ d ∈ rest, c.time ≤ d.time := by
  induction rest generalizing offset c with
  | nil => exact fun d hd => by cases hd
  | cons d rest ih =>
    obtain ⟨-, hnext, hrest⟩ := h
    have hcd : c.time ≤ d.time := by
      have hwall := hnext d rfl
      have hbefore := hrest.1
      simp only [Change.wall] at hwall
      omega
    intro e he
    rcases List.mem_cons.1 he with rfl | he
    · exact hcd
    · exact Int.le_trans hcd (ih hrest e he)

theorem Regular.le_wall (h : Regular offset (c :: rest)) (ht : c.time ≤ t) :
    c.time + c.after ≤ t + offsetAt c.after rest t ∧
      (offsetAt c.after rest t = c.after ∨ c.wall ≤ t + offsetAt c.after rest t) := by
  induction rest generalizing offset c with
  | nil =>
    rw [offsetAt]
    exact ⟨by omega, .inl rfl⟩
  | cons d rest ih =>
    obtain ⟨-, hnext, hrest⟩ := h
    have hwall := hnext d rfl
    rw [offsetAt]
    by_cases hd : d.time ≤ t
    · rw [if_pos hd]
      obtain ⟨hle, hor⟩ := ih hrest hd
      have hc : c.wall ≤ t + offsetAt d.after rest t := by omega
      refine ⟨?_, .inr hc⟩
      simp only [Change.wall] at hc
      omega
    · rw [if_neg hd]
      exact ⟨by omega, .inl rfl⟩

theorem Regular.le_time (h : Regular offset (c :: rest)) (hw : c.wall ≤ w) : c.time ≤ w - offsetOf c.after rest w := by
  induction rest generalizing offset c with
  | nil =>
    simp only [offsetOf, Change.wall] at hw ⊢
    omega
  | cons d rest ih =>
    have htime := h.time_le d List.mem_cons_self
    rw [offsetOf]
    by_cases hd : d.wall ≤ w
    · rw [if_pos hd]
      exact Int.le_trans htime (ih h.2.2 hd)
    · rw [if_neg hd]
      simp only [Change.wall] at hw
      omega

/-- The clock has been set back at `t` from behind the wall time `w`. -/
def SetBackFrom (changes : List Change) (t w : Int) : Prop :=
  ∃ c ∈ changes, c.time ≤ t ∧ c.after < c.before ∧ w < c.time + c.before

theorem Regular.time_lt_or_gt (h : Regular offset changes) (hw : t + offsetAt offset changes t < w) :
    SetBackFrom changes t w ∧ w - offsetOf offset changes w < t ∨
      ¬SetBackFrom changes t w ∧ t < w - offsetOf offset changes w := by
  induction changes generalizing offset with
  | nil =>
    simp only [offsetAt, offsetOf] at hw ⊢
    refine .inr ⟨?_, by omega⟩
    rintro ⟨c, hc, -⟩
    cases hc
  | cons c rest ih =>
    have hbefore := h.1
    rw [offsetAt] at hw
    rw [offsetOf]
    by_cases hct : c.time ≤ t
    · rw [if_pos hct] at hw
      by_cases hcw : c.wall ≤ w
      · -- the wall time lies behind this change as well
        rw [if_pos hcw]
        have hsame : SetBackFrom (c :: rest) t w ↔ SetBackFrom rest t w := by
          constructor
          · rintro ⟨d, hd, hdt, hset, hdw⟩
            rcases List.mem_cons.1 hd with rfl | hd
            · simp only [Change.wall] at hcw
              omega
            · exact ⟨d, hd, hdt, hset, hdw⟩
          · rintro ⟨d, hd, hset⟩
            exact ⟨d, List.mem_cons_of_mem _ hd, hset⟩
        rw [hsame]
        exact ih h.2.2 hw
      · -- the second pass of what this change repeats
        rw [if_neg hcw]
        obtain ⟨hle, hor⟩ := h.le_wall hct
        simp only [Change.wall] at hcw hor
        exact .inl ⟨⟨c, List.mem_cons_self, hct, by omega, by omega⟩, by omega⟩
    · rw [if_neg hct] at hw
      -- no change has come yet
      have hnone : ¬SetBackFrom (c :: rest) t w := by
        rintro ⟨d, hd, hdt, -⟩
        rcases List.mem_cons.1 hd with rfl | hd
        · exact hct hdt
        · exact hct (Int.le_trans (h.time_le d hd) hdt)
      refine .inr ⟨hnone, ?_⟩
      by_cases hcw : c.wall ≤ w
      · rw [if_pos hcw]
        have hle := h.le_time hcw
        omega
      · rw [if_neg hcw]
        omega

end Offsets

def Zone.SetBack (z : Zone) (t w : Int) : Prop := SetBackFrom z.changes t w

theorem Zone.time_lt_or_gt (z : Zone) (h : z.wall t < w) :
    z.SetBack t w ∧ z.time w < t ∨ ¬z.SetBack t w ∧ t < z.time w :=
  z.regular.time_lt_or_gt h

end RyanAI.Lib.TimeZone
