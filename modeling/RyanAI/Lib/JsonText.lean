import Mathlib.Tactic
import Mathlib.Data.List.Sort

/-!
# The text of a JSON value

`text` is `json.dumps(value, sort_keys=True, ensure_ascii=False, separators=(',', ':'))` for values
whose numbers are natural numbers. An atom (null, a number or a string) is read back from the front of
a text whenever no digit follows it (`atom_text_inj`). So two objects with the same keys, whose fields
agree in text or are both atoms, have the same text only if all their fields do (`object_text_inj`).
-/

namespace RyanAI.Lib.JsonText

inductive Value where
  | null
  | bool (b : Bool)
  | num (n : ℕ)
  | str (s : String)
  | arr (items : List Value)
  | obj (fields : List (String × Value))

/-! ## Rendering -/

def hexDigit (n : ℕ) : Char := if n < 10 then Char.ofNat (48 + n) else Char.ofNat (87 + n)

def shortEscapes : List (Char × Char) :=
  [('"', '"'), ('\\', '\\'), ('\n', 'n'), ('\r', 'r'), ('\t', 't'), (Char.ofNat 8, 'b'), (Char.ofNat 12, 'f')]

def escape (c : Char) : List Char :=
  match shortEscapes.lookup c with
  | some d => ['\\', d]
  | none =>
    if c.toNat < 32 then ['\\', 'u', '0', '0', hexDigit (c.toNat / 16), hexDigit (c.toNat % 16)]
    else [c]

def escapeAll : List Char → List Char
  | [] => []
  | c :: cs => escape c ++ escapeAll cs

def quote (s : String) : List Char := '"' :: (escapeAll s.toList ++ ['"'])

def sortKeys (fields : List (String × List Char)) : List (String × List Char) :=
  fields.insertionSort fun a b => a.1 ≤ b.1

def entry (field : String × List Char) : List Char := quote field.1 ++ ':' :: field.2

def object (fields : List (String × List Char)) : List Char :=
  '{' :: ([','].intercalate ((sortKeys fields).map entry) ++ ['}'])

mutual

def text : Value → List Char
  | .null => ['n', 'u', 'l', 'l']
  | .bool true => ['t', 'r', 'u', 'e']
  | .bool false => ['f', 'a', 'l', 's', 'e']
  | .num n => Nat.toDigits 10 n
  | .str s => quote s
  | .arr items => '[' :: ([','].intercalate (texts items) ++ [']'])
  | .obj fields => object (fieldTexts fields)

def texts : List Value → List (List Char)
  | [] => []
  | v :: rest => text v :: texts rest

def fieldTexts : List (String × Value) → List (String × List Char)
  | [] => []
  | (k, v) :: rest => (k, text v) :: fieldTexts rest

end

/-- `json.dumps`. -/
def dumps (v : Value) : String := String.ofList (text v)

/-! ## Reading strings back -/

def hexValue (c : Char) : ℕ := if c.toNat < 58 then c.toNat - 48 else c.toNat - 87

def unescape (d : Char) : Char := ((shortEscapes.find? fun e => e.2 = d).map Prod.fst).getD d

def readBody : List Char → Option (List Char × List Char)
  | [] => none
  | '"' :: rest => some ([], rest)
  | '\\' :: 'u' :: _ :: _ :: a :: b :: rest =>
    (readBody rest).map fun r => (Char.ofNat (16 * hexValue a + hexValue b) :: r.1, r.2)
  | '\\' :: d :: rest => (readBody rest).map fun r => (unescape d :: r.1, r.2)
  | c :: rest => (readBody rest).map fun r => (c :: r.1, r.2)

theorem hexValue_hexDigit : ∀ n, n < 16 → hexValue (hexDigit n) = n := by decide

theorem unescape_of_mem : ∀ e ∈ shortEscapes, e.2 ≠ 'u' ∧ unescape e.2 = e.1 := by decide

theorem mem_of_shortEscape {c d : Char} (h : shortEscapes.lookup c = some d) : (c, d) ∈ shortEscapes := by
  obtain ⟨pre, post, heq, -⟩ := List.lookup_eq_some_iff.1 h
  rw [heq]
  simp

theorem readBody_escape (c : Char) (rest : List Char) :
    readBody (escape c ++ rest) = (readBody rest).map fun r => (c :: r.1, r.2) := by
  cases hshort : shortEscapes.lookup c with
  | some d =>
    obtain ⟨hu, hback⟩ := unescape_of_mem _ (mem_of_shortEscape hshort)
    simp only [escape, hshort, List.cons_append, List.nil_append]
    rw [readBody.eq_4 _ _ (by rintro _ _ _ _ _ rfl; exact fun _ => hu rfl), hback]
  | none =>
    simp only [escape, hshort]
    split
    · have hhigh := hexValue_hexDigit (c.toNat / 16) (by omega)
      have hlow := hexValue_hexDigit (c.toNat % 16) (by omega)
      have hc : Char.ofNat (16 * (c.toNat / 16) + c.toNat % 16) = c := by
        rw [Nat.div_add_mod]
        exact Char.ofNat_toNat c
      simp only [List.cons_append, List.nil_append, readBody, hhigh, hlow, hc]
    -- neither a quote nor a backslash
    have hquote : c ≠ '"' := by
      rintro rfl
      revert hshort
      decide
    have hslash : c ≠ '\\' := by
      rintro rfl
      revert hshort
      decide
    rw [List.cons_append, List.nil_append]
    apply readBody.eq_5
    · exact hquote
    · exact fun _ _ _ _ _ h _ => hslash h
    · exact fun _ _ h _ => hslash h

theorem readBody_escapeAll (cs rest : List Char) : readBody (escapeAll cs ++ '"' :: rest) = some (cs, rest) := by
  induction cs with
  | nil => simp [escapeAll, readBody]
  | cons c cs ih =>
    rw [escapeAll, List.append_assoc, readBody_escape, ih]
    rfl

variable {x y : List Char} {as bs : List (String × List Char)} {a : String × List Char}

theorem quote_append_inj (h : quote s ++ x = quote t ++ y) : s = t ∧ x = y := by
  simp only [quote, List.cons_append, List.append_assoc, List.nil_append, List.cons.injEq, true_and] at h
  have hread := readBody_escapeAll s.toList x
  rw [h, readBody_escapeAll, Option.some.injEq, Prod.mk.injEq] at hread
  exact ⟨String.toList_injective hread.1.symm, hread.2.symm⟩

def Value.Atom : Value → Prop
  | .null => True
  | .num _ => True
  | .str _ => True
  | _ => False

def NoDigit (x : List Char) : Prop := ∀ c ∈ x.head?, c.isDigit = false

theorem digits_append_inj (hd : ∀ c ∈ ds, c.isDigit = true)
    (he : ∀ c ∈ es, c.isDigit = true) (hx : NoDigit x) (hy : NoDigit y) (h : ds ++ x = es ++ y) :
    ds = es ∧ x = y := by
  induction ds generalizing es with
  | nil =>
    cases es with
    | nil => exact ⟨rfl, h⟩
    | cons e es =>
      rw [List.nil_append] at h
      subst h
      have hdigit := he e List.mem_cons_self
      have hnot := hx e (by simp)
      rw [hdigit] at hnot
      cases hnot
  | cons d ds ih =>
    cases es with
    | nil =>
      rw [List.nil_append] at h
      subst h
      have hdigit := hd d List.mem_cons_self
      have hnot := hy d (by simp)
      rw [hdigit] at hnot
      cases hnot
    | cons e es =>
      rw [List.cons_append, List.cons_append, List.cons.injEq] at h
      obtain ⟨rfl, hrest⟩ := h
      obtain ⟨rfl, hxy⟩ := ih (List.forall_mem_of_forall_mem_cons hd)
        (List.forall_mem_of_forall_mem_cons he) hrest
      exact ⟨rfl, hxy⟩

theorem num_append_inj (hx : NoDigit x) (hy : NoDigit y)
    (h : Nat.toDigits 10 m ++ x = Nat.toDigits 10 n ++ y) : m = n ∧ x = y := by
  have hdigits : ∀ k, ∀ c ∈ Nat.toDigits 10 k, c.isDigit = true := fun k c hc =>
    Nat.isDigit_of_mem_toDigits (by decide) (by decide) hc
  obtain ⟨hmn, hxy⟩ := digits_append_inj (hdigits m) (hdigits n) hx hy h
  have hval := congrArg (fun ds => Nat.ofDigitChars 10 ds 0) hmn
  simp only [Nat.ofDigitChars_ten_toDigits] at hval
  exact ⟨hval, hxy⟩

theorem num_cons (h : Nat.toDigits 10 n ++ x = c :: y) : c.isDigit = true := by
  cases hd : Nat.toDigits 10 n with
  | nil => exact absurd hd Nat.toDigits_ne_nil
  | cons d ds =>
    rw [hd, List.cons_append, List.cons.injEq] at h
    rw [← h.1]
    have hmem : d ∈ Nat.toDigits 10 n := by simp [hd]
    exact Nat.isDigit_of_mem_toDigits (by decide) (by decide) hmem

theorem atom_text_inj (hv : v.Atom) (hw : w.Atom) (hx : NoDigit x) (hy : NoDigit y)
    (h : text v ++ x = text w ++ y) : v = w ∧ x = y := by
  cases v with
  | null =>
    cases w with
    | null =>
      simp only [text] at h
      exact ⟨rfl, List.append_cancel_left h⟩
    | num n => exact absurd (num_cons h.symm) (by decide)
    | str t =>
      simp only [text, quote, List.cons_append] at h
      cases h
    | bool b => cases hw
    | arr items => cases hw
    | obj fields => cases hw
  | num m =>
    cases w with
    | null => exact absurd (num_cons h) (by decide)
    | num n =>
      simp only [text] at h
      obtain ⟨rfl, hxy⟩ := num_append_inj hx hy h
      exact ⟨rfl, hxy⟩
    | str t => exact absurd (num_cons h) (by decide)
    | bool b => cases hw
    | arr items => cases hw
    | obj fields => cases hw
  | str s =>
    cases w with
    | null =>
      simp only [text, quote, List.cons_append] at h
      cases h
    | num n => exact absurd (num_cons h.symm) (by decide)
    | str t =>
      simp only [text] at h
      obtain ⟨rfl, hxy⟩ := quote_append_inj h
      exact ⟨rfl, hxy⟩
    | bool b => cases hw
    | arr items => cases hw
    | obj fields => cases hw
  | bool b => cases hv
  | arr items => cases hv
  | obj fields => cases hv

def Comparable (a b : String × List Char) : Prop :=
  a.1 = b.1 ∧ (a.2 = b.2 ∨ ∃ v w, v.Atom ∧ w.Atom ∧ a.2 = text v ∧ b.2 = text w)

theorem orderedInsert_comparable (hab : Comparable a b) (h : List.Forall₂ Comparable as bs) :
    List.Forall₂ Comparable (as.orderedInsert (fun p q => p.1 ≤ q.1) a)
      (bs.orderedInsert (fun p q => p.1 ≤ q.1) b) := by
  induction h with
  | nil => exact .cons hab .nil
  | @cons a₁ b₁ as bs h₁ hrest ih =>
    simp only [List.orderedInsert]
    by_cases hle : a.1 ≤ a₁.1
    · have hle' : b.1 ≤ b₁.1 := by
        rw [← hab.1, ← h₁.1]
        exact hle
      rw [if_pos hle, if_pos hle']
      exact .cons hab (.cons h₁ hrest)
    · have hle' : ¬ b.1 ≤ b₁.1 := by
        rw [← hab.1, ← h₁.1]
        exact hle
      rw [if_neg hle, if_neg hle']
      exact .cons h₁ ih

theorem sortKeys_comparable (h : List.Forall₂ Comparable as bs) :
    List.Forall₂ Comparable (sortKeys as) (sortKeys bs) := by
  induction h with
  | nil => exact .nil
  | cons hab _ ih => exact orderedInsert_comparable hab ih

theorem entry_append_inj (hab : Comparable a b) (hx : NoDigit x)
    (hy : NoDigit y) (h : entry a ++ x = entry b ++ y) : a = b ∧ x = y := by
  obtain ⟨k, s⟩ := a
  obtain ⟨k', t⟩ := b
  simp only [entry, List.append_assoc, List.cons_append] at h
  obtain ⟨rfl, hvalue⟩ := quote_append_inj h
  simp only [List.cons.injEq, true_and] at hvalue
  rcases hab.2 with hst | ⟨v, w, hv, hw, hs, ht⟩
  · subst hst
    exact ⟨rfl, List.append_cancel_left hvalue⟩
  · simp only at hs ht
    rw [hs, ht] at hvalue
    obtain ⟨rfl, hxy⟩ := atom_text_inj hv hw hx hy hvalue
    rw [hs, ht]
    exact ⟨rfl, hxy⟩

theorem entries_inj (h : List.Forall₂ Comparable as bs)
    (heq : [','].intercalate (as.map entry) ++ ['}'] = [','].intercalate (bs.map entry) ++ ['}']) :
    as = bs := by
  induction h with
  | nil => rfl
  | @cons a b as bs hab hrest ih =>
    have hbrace : NoDigit ['}'] := by
      intro c hc
      cases hc
      rfl
    have hcomma : ∀ x, NoDigit (',' :: x) := by
      intro x c hc
      cases hc
      rfl
    cases hrest with
    | nil =>
      simp only [List.map_cons, List.map_nil, List.intercalate_singleton] at heq
      rw [(entry_append_inj hab hbrace hbrace heq).1]
    | cons hab' hrest' =>
      simp only [List.map_cons, List.intercalate_cons_cons, List.append_assoc, List.cons_append,
        List.nil_append] at heq ih
      obtain ⟨rfl, htail⟩ := entry_append_inj hab (hcomma _) (hcomma _) heq
      rw [List.cons.injEq] at htail
      rw [ih htail.2]

theorem object_text_inj (h : List.Forall₂ Comparable as bs) (heq : object as = object bs) :
    sortKeys as = sortKeys bs := by
  simp only [object, List.cons.injEq, true_and] at heq
  exact entries_inj (sortKeys_comparable h) heq

@[simp]
theorem mem_sortKeys : a ∈ sortKeys as ↔ a ∈ as := by
  rw [sortKeys, List.mem_insertionSort]

end RyanAI.Lib.JsonText
