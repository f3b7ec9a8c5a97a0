import Mathlib.Data.List.Basic
import Mathlib.Tactic.SplitIfs

/-!
# Words in shell quotes

`quote` writes a text as one word of a command line and `split` reads a command line as its words. A
single quote inside a quoted text closes the quotes, stands alone in double quotes and opens them again
(`escaped`). Splitting undoes quoting, word by word (`split_join`).
-/

namespace RyanAI.Lib.Shlex

def single : Char := '\x27'

def double : Char := '\x22'

def backslash : Char := '\x5c'

def safe (c : Char) : Bool := c.isAlphanum || c ∈ ['_', '@', '%', '+', '=', ':', ',', '.', '/', '-']

def escaped (text : List Char) : List Char :=
  text.flatMap fun c => if c = single then [single, double, single, double, single] else [c]

def quote (text : List Char) : List Char :=
  if text ≠ [] ∧ text.all safe = true then text else single :: (escaped text ++ [single])

def join (words : List (List Char)) : List Char := [' '].intercalate (words.map quote)

inductive Mode
  | between
  | word
  | single
  | double
  | escape
  | escapeDouble

def space (c : Char) : Bool := c ∈ [' ', '\t', '\r', '\n']

/-- The words from a place on; an open quote and a last backslash are errors. -/
def read : Mode → List Char → List Char → Option (List (List Char))
  | .between, _, [] => some []
  | .word, token, [] => some [token]
  | _, _, [] => none
  | .between, _, c :: rest =>
      if space c then read .between [] rest
      else if c = single then read .single [] rest
      else if c = double then read .double [] rest
      else if c = backslash then read .escape [] rest
      else read .word [c] rest
  | .word, token, c :: rest =>
      if space c then (read .between [] rest).map (token :: ·)
      else if c = single then read .single token rest
      else if c = double then read .double token rest
      else if c = backslash then read .escape token rest
      else read .word (token ++ [c]) rest
  | .single, token, c :: rest =>
      if c = single then read .word token rest else read .single (token ++ [c]) rest
  | .double, token, c :: rest =>
      if c = double then read .word token rest
      else if c = backslash then read .escapeDouble token rest
      else read .double (token ++ [c]) rest
  | .escape, token, c :: rest => read .word (token ++ [c]) rest
  | .escapeDouble, token, c :: rest =>
      if c = backslash ∨ c = double then read .double (token ++ [c]) rest
      else read .double (token ++ [backslash, c]) rest

def split (command : List Char) : Option (List (List Char)) := read .between [] command

variable {c : Char} {text token rest : List Char}

theorem ne_of_safe (h : safe c = true) : c ≠ single ∧ c ≠ double ∧ c ≠ backslash ∧ space c = false := by
  have hne : ∀ d, safe d = false → c ≠ d := by
    rintro d hd rfl
    rw [h] at hd
    cases hd
  refine ⟨hne _ (by decide), hne _ (by decide), hne _ (by decide), ?_⟩
  rw [Bool.eq_false_iff]
  intro hspace
  simp only [space, decide_eq_true_eq, List.mem_cons, List.not_mem_nil, or_false] at hspace
  rcases hspace with hc | hc | hc | hc <;> exact hne _ (by decide) hc

theorem read_safe (h : ∀ c ∈ text, safe c = true) :
    read .word token (text ++ rest) = read .word (token ++ text) rest := by
  induction text generalizing token with
  | nil => rw [List.nil_append, List.append_nil]
  | cons c text ih =>
    obtain ⟨hsingle, hdouble, hbackslash, hspace⟩ := ne_of_safe (h c List.mem_cons_self)
    rw [List.cons_append, read]
    simp only [hspace, Bool.false_eq_true, if_false, hsingle, hdouble, hbackslash]
    rw [ih fun d hd => h d (List.mem_cons_of_mem c hd), List.append_assoc, List.singleton_append]

theorem escaped_cons (c : Char) (text : List Char) :
    escaped (c :: text) = (if c = single then [single, double, single, double, single] else [c]) ++ escaped text :=
  List.flatMap_cons

theorem read_escaped : read .single token (escaped text ++ single :: rest) = read .word (token ++ text) rest := by
  induction text generalizing token with
  | nil => simp [escaped, read]
  | cons c text ih =>
    rw [escaped_cons]
    by_cases hc : c = single
    · subst hc
      rw [if_pos rfl, List.append_assoc]
      -- close, one quote in double quotes, open again
      have hround : read .single token
          ([single, double, single, double, single] ++ (escaped text ++ single :: rest)) =
          read .single (token ++ [single]) (escaped text ++ single :: rest) := rfl
      rw [hround, ih, List.append_assoc, List.singleton_append]
    · rw [if_neg hc, List.append_assoc, List.singleton_append, read, if_neg hc, ih, List.append_assoc,
        List.singleton_append]

theorem read_quote : read .between [] (quote text ++ rest) = read .word text rest := by
  rw [quote]
  split_ifs with h
  · obtain ⟨hne, hall⟩ := h
    obtain ⟨c, text, rfl⟩ := List.exists_cons_of_ne_nil hne
    rw [List.all_eq_true] at hall
    obtain ⟨hsingle, hdouble, hbackslash, hspace⟩ := ne_of_safe (hall c List.mem_cons_self)
    rw [List.cons_append, read]
    simp only [hspace, Bool.false_eq_true, if_false, hsingle, hdouble, hbackslash]
    exact read_safe fun d hd => hall d (List.mem_cons_of_mem c hd)
  · rw [List.cons_append, List.append_assoc, List.singleton_append]
    exact read_escaped

theorem split_join (words : List (List Char)) : split (join words) = some words := by
  induction words with
  | nil => rfl
  | cons word words ih =>
    cases words with
    | nil =>
      have hquote := @read_quote word []
      rw [List.append_nil] at hquote
      simp only [split, join, List.map_cons, List.map_nil, List.intercalate_singleton, hquote, read]
    | cons next words =>
      rw [split, join, List.map_cons, List.intercalate_cons_of_ne_nil (by simp), List.append_assoc, read_quote,
        List.singleton_append, read, if_pos (by decide)]
      rw [split, join] at ih
      rw [ih, Option.map_some]

end RyanAI.Lib.Shlex
