import Mathlib
import RyanAI.Lib.NumericText
import RyanAI.Lib.Shlex

/-!
# Pipelines of commands

`_parse_pipeline` cuts a command line at the pipe signs outside of quotes, with a quote tracker of its own,
and has `shlex` split the pieces. On quoted arguments the tracker is outside of quotes after each of them
(`Scan.quote`), so that it cuts between the commands only and `parsePipeline_quoted` gets them back.
-/

namespace RyanAI.Knowledge.Commands

open RyanAI.Lib
open RyanAI.Lib.NumericText (stripSpace)

def strip (text : List Char) : List Char := NumericText.strip stripSpace text

/-- `str.split` without a separator. -/
def words (text : List Char) : List (List Char) := (text.splitOnP stripSpace).filter fun word => word ≠ []

structure Scan where
  segments : List (List Char)
  inSingle : Bool
  inDouble : Bool
  buf : List Char

def Scan.read (s : Scan) (ch : Char) : Scan :=
  if ch = Shlex.single ∧ s.inDouble = false then
    { s with inSingle := !s.inSingle, buf := s.buf ++ [ch] }
  else if ch = Shlex.double ∧ s.inSingle = false then
    { s with inDouble := !s.inDouble, buf := s.buf ++ [ch] }
  else if ch = '|' ∧ s.inSingle = false ∧ s.inDouble = false then
    { s with segments := s.segments ++ [strip s.buf], buf := [] }
  else { s with buf := s.buf ++ [ch] }

def tokensOf (segment : List Char) : List (List Char) := (Shlex.split segment).getD (words segment)

/-- `_parse_pipeline`. -/
def parsePipeline (command : List Char) : List (List (List Char)) :=
  let s := command.foldl Scan.read ⟨[], false, false, []⟩
  let remaining := strip s.buf
  let segments := if remaining = [] then s.segments else s.segments ++ [remaining]
  ((segments.filter fun segment => segment ≠ []).map tokensOf).filter fun tokens => tokens ≠ []

section Tracker

variable {segments : List (List Char)} {buf text : List Char}

theorem Scan.safe (h : ∀ c ∈ text, Shlex.safe c = true) :
    text.foldl Scan.read ⟨segments, false, false, buf⟩ = ⟨segments, false, false, buf ++ text⟩ := by
  induction text generalizing buf with
  | nil => rw [List.foldl_nil, List.append_nil]
  | cons c text ih =>
    have hc := h c List.mem_cons_self
    obtain ⟨hsingle, hdouble, -, -⟩ := Shlex.ne_of_safe hc
    have hpipe : c ≠ '|' := by
      rintro rfl
      revert hc
      decide
    have hread : Scan.read ⟨segments, false, false, buf⟩ c = ⟨segments, false, false, buf ++ [c]⟩ := by
      simp [Scan.read, hsingle, hdouble, hpipe]
    rw [List.foldl_cons, hread, ih fun d hd => h d (List.mem_cons_of_mem c hd), List.append_assoc,
      List.singleton_append]

theorem Scan.escaped (text : List Char) : (Shlex.escaped text).foldl Scan.read ⟨segments, true, false, buf⟩ =
      ⟨segments, true, false, buf ++ Shlex.escaped text⟩ := by
  induction text generalizing buf with
  | nil => simp [Shlex.escaped]
  | cons c text ih =>
    rw [Shlex.escaped_cons, List.foldl_append, ← List.append_assoc]
    by_cases hc : c = Shlex.single
    · rw [if_pos hc]
      have hround : [Shlex.single, Shlex.double, Shlex.single, Shlex.double, Shlex.single].foldl Scan.read
          ⟨segments, true, false, buf⟩ = ⟨segments, true, false,
            buf ++ [Shlex.single] ++ [Shlex.double] ++ [Shlex.single] ++ [Shlex.double] ++ [Shlex.single]⟩ := rfl
      rw [hround, ih]
      simp
    · rw [if_neg hc]
      have hread : Scan.read ⟨segments, true, false, buf⟩ c = ⟨segments, true, false, buf ++ [c]⟩ := by
        simp [Scan.read, hc]
      rw [List.foldl_cons, List.foldl_nil, hread, ih]

theorem Scan.quote (text : List Char) : (Shlex.quote text).foldl Scan.read ⟨segments, false, false, buf⟩ =
      ⟨segments, false, false, buf ++ Shlex.quote text⟩ := by
  rw [Shlex.quote]
  split_ifs with h
  · exact Scan.safe (List.all_eq_true.1 h.2)
  have hopen : Scan.read ⟨segments, false, false, buf⟩ Shlex.single =
      ⟨segments, true, false, buf ++ [Shlex.single]⟩ := rfl
  have hclose : ∀ buf, Scan.read ⟨segments, true, false, buf⟩ Shlex.single =
      ⟨segments, false, false, buf ++ [Shlex.single]⟩ := fun _ => rfl
  rw [List.foldl_cons, hopen, List.foldl_append, Scan.escaped, List.foldl_cons, List.foldl_nil, hclose]
  simp

theorem Scan.join (args : List (List Char)) : (Shlex.join args).foldl Scan.read ⟨segments, false, false, buf⟩ =
      ⟨segments, false, false, buf ++ Shlex.join args⟩ := by
  induction args generalizing buf with
  | nil => simp [Shlex.join]
  | cons arg args ih =>
    cases args with
    | nil =>
      rw [Shlex.join, List.map_singleton, List.intercalate_singleton]
      exact Scan.quote arg
    | cons next args =>
      have hspace : ∀ buf, Scan.read ⟨segments, false, false, buf⟩ ' ' = ⟨segments, false, false, buf ++ [' ']⟩ :=
        fun _ => rfl
      rw [Shlex.join] at ih ⊢
      rw [List.map_cons, List.intercalate_cons_of_ne_nil (by simp), List.foldl_append, List.foldl_append,
        Scan.quote, List.foldl_cons, List.foldl_nil, hspace, ih]
      simp

end Tracker

/-! ## The commands -/

def pipeline (commands : List (List (List Char))) : List Char := [' ', '|', ' '].intercalate (commands.map Shlex.join)

structure Tight (text : List Char) : Prop where
  ne_nil : text ≠ []
  head : ∀ c ∈ text.head?, stripSpace c = false
  last : ∀ c ∈ text.getLast?, stripSpace c = false

theorem strip_tight {before text behind : List Char} (h : Tight text) (hbefore : ∀ c ∈ before, stripSpace c = true)
    (hbehind : ∀ c ∈ behind, stripSpace c = true) : strip (before ++ text ++ behind) = text := by
  have hdrop : ∀ {a b : List Char}, b ≠ [] → (∀ c ∈ a, stripSpace c = true) → (∀ c ∈ b.head?, stripSpace c = false) →
      (a ++ b).dropWhile stripSpace = b := by
    intro a b hne ha hb
    obtain ⟨c, b, rfl⟩ := List.exists_cons_of_ne_nil hne
    have hc := hb c rfl
    rw [List.dropWhile_append_of_pos ha, List.dropWhile_cons_of_neg (by simp [hc])]
  have hhead : ∀ c ∈ (text ++ behind).head?, stripSpace c = false := by
    rw [List.head?_append_of_ne_nil _ h.ne_nil]
    exact h.head
  rw [strip, NumericText.strip, List.append_assoc, hdrop (by simp [h.ne_nil]) hbefore hhead, List.rdropWhile,
    List.reverse_append, hdrop (by simpa using h.ne_nil) (by simpa using hbehind) (by simpa using h.last),
    List.reverse_reverse]

theorem stripSpace_of_safe {c : Char} (h : Shlex.safe c = true) : stripSpace c = false := by
  rw [Bool.eq_false_iff]
  intro hspace
  simp only [Shlex.safe, Char.isAlphanum, Char.isAlpha, Char.isUpper, Char.isLower, Char.isDigit, Bool.or_eq_true,
    Bool.and_eq_true, decide_eq_true_eq, ge_iff_le, UInt32.le_iff_toNat_le, Char.toNat_val] at h
  simp [stripSpace, NumericText.pySpace, NumericText.commonSpaces] at hspace
  rcases h with hletter | hmark
  · simp at hletter
    omega
  · simp only [List.mem_cons, List.not_mem_nil, or_false] at hmark
    rcases hmark with rfl | rfl | rfl | rfl | rfl | rfl | rfl | rfl | rfl | rfl <;> simp at hspace

theorem tight_quote (text : List Char) : Tight (Shlex.quote text) := by
  rw [Shlex.quote]
  split_ifs with h
  · rw [List.all_eq_true] at h
    refine ⟨h.1, ?_, ?_⟩
    · intro c hc
      exact stripSpace_of_safe (h.2 c (List.mem_of_mem_head? hc))
    · intro c hc
      exact stripSpace_of_safe (h.2 c (List.mem_of_mem_getLast? hc))
  · refine ⟨by simp, ?_, ?_⟩
    · rintro c ⟨⟩
      decide
    · intro c hc
      rw [← List.cons_append, List.getLast?_concat, Option.mem_some_iff] at hc
      subst hc
      decide

theorem tight_join {args : List (List Char)} (h : args ≠ []) : Tight (Shlex.join args) := by
  induction args with
  | nil => exact absurd rfl h
  | cons arg args ih =>
    have harg := tight_quote arg
    cases args with
    | nil =>
      rw [Shlex.join, List.map_singleton, List.intercalate_singleton]
      exact harg
    | cons next args =>
      have hrest := ih (by simp)
      rw [Shlex.join] at hrest ⊢
      rw [List.map_cons, List.intercalate_cons_of_ne_nil (by simp)]
      refine ⟨by simp, ?_, ?_⟩
      · rw [List.append_assoc, List.head?_append_of_ne_nil _ harg.ne_nil]
        exact harg.head
      · rw [List.getLast?_append_of_ne_nil _ hrest.ne_nil]
        exact hrest.last

theorem Scan.pipeline {commands : List (List (List Char))} (hne : commands ≠ [])
    (hargs : ∀ args ∈ commands, args ≠ []) {segments : List (List Char)} {buf : List Char}
    (hbuf : ∀ c ∈ buf, stripSpace c = true) :
    ∃ front buf', (Commands.pipeline commands).foldl Scan.read ⟨segments, false, false, buf⟩ =
        ⟨segments ++ front, false, false, buf'⟩ ∧
      commands.map Shlex.join = front ++ [strip buf'] := by
  induction commands generalizing segments buf with
  | nil => exact absurd rfl hne
  | cons args commands ih =>
    have htight := tight_join (hargs args List.mem_cons_self)
    cases commands with
    | nil =>
      refine ⟨[], buf ++ Shlex.join args, ?_, ?_⟩
      · rw [Commands.pipeline, List.map_singleton, List.intercalate_singleton, Scan.join, List.append_nil]
      · have hstrip := @strip_tight _ _ [] htight hbuf (by simp)
        rw [List.append_nil] at hstrip
        rw [hstrip, List.map_singleton, List.nil_append]
    | cons next commands =>
      have hcut : [' ', '|', ' '].foldl Scan.read ⟨segments, false, false, buf ++ Shlex.join args⟩ =
          ⟨segments ++ [strip (buf ++ Shlex.join args ++ [' '])], false, false, [' ']⟩ := rfl
      obtain ⟨front, buf', hscan, hmap⟩ := @ih (by simp) (fun args' h => hargs args' (List.mem_cons_of_mem args h))
        (segments ++ [Shlex.join args]) [' '] (List.forall_mem_singleton.2 rfl)
      refine ⟨Shlex.join args :: front, buf', ?_, ?_⟩
      · rw [Commands.pipeline] at hscan ⊢
        rw [List.map_cons, List.intercalate_cons_of_ne_nil (by simp), List.foldl_append, List.foldl_append,
          Scan.join, hcut, strip_tight htight hbuf (List.forall_mem_singleton.2 rfl), hscan, List.append_assoc, List.singleton_append]
      · rw [List.map_cons, hmap, List.cons_append]

/-- Commands with arguments, quoted and joined, are parsed back. -/
theorem parsePipeline_quoted (commands : List (List (List Char))) (hargs : ∀ args ∈ commands, args ≠ []) :
    parsePipeline (pipeline commands) = commands := by
  cases commands with
  | nil => decide
  | cons args commands =>
    obtain ⟨front, buf', hscan, hmap⟩ := @Scan.pipeline (args :: commands) (by simp) hargs [] [] (by simp)
    have hjoined : ∀ segment ∈ front ++ [strip buf'], segment ≠ [] := by
      rw [← hmap]
      intro segment hsegment
      obtain ⟨args', hmem, rfl⟩ := List.mem_map.1 hsegment
      exact (tight_join (hargs args' hmem)).ne_nil
    have htokens : ((args :: commands).map Shlex.join).map tokensOf = args :: commands := by
      rw [List.map_map]
      apply List.map_id''
      intro args'
      rw [Function.comp_apply, tokensOf, Shlex.split_join, Option.getD_some]
    have hsegments : (front ++ [strip buf']).filter (fun segment => segment ≠ []) = front ++ [strip buf'] :=
      List.filter_eq_self.2 (by simpa using hjoined)
    rw [parsePipeline, hscan]
    simp only [List.nil_append]
    rw [if_neg (hjoined _ (by simp)), hsegments, ← hmap, htokens, List.filter_eq_self.2 (by simpa using hargs)]

theorem parsePipeline_quoted_mixed : parsePipeline (pipeline [[['a', '\x27', '|', '\x22'], ['|']], [[]]]) =
      [[['a', '\x27', '|', '\x22'], ['|']], [[]]] :=
  parsePipeline_quoted _ (by decide)

end RyanAI.Knowledge.Commands
