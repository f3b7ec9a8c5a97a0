import Mathlib
import RyanAI.Lib.Json
import RyanAI.Lib.JsonText
import RyanAI.Lib.NumericText

/-!
# Reading JSON texts

`parse` is `JSON.parse` and `stringify` is `JSON.stringify` without white space. Numbers are read as doubles, and of two
fields with one key the last counts. A half of a surrogate pair is read as the replacement character. `parse_stringify`:
the text of a value is read as that value.

The reader descends into the text with a bound on its calls, which the length of the text gives.
-/

namespace RyanAI.Lib.JsonParse

open JsonText (Value quote escape escapeAll shortEscapes)
open NumericText

mutual

/-- `JSON.stringify`. -/
def stringify : Value → List Char
  | .null => ['n', 'u', 'l', 'l']
  | .bool true => ['t', 'r', 'u', 'e']
  | .bool false => ['f', 'a', 'l', 's', 'e']
  | .num n => Nat.toDigits 10 n
  | .str s => quote s
  | .arr [] => ['[', ']']
  | .arr (v :: rest) => '[' :: (stringify v ++ itemsTail rest)
  | .obj [] => ['{', '}']
  | .obj ((k, v) :: rest) => '{' :: (quote k ++ ':' :: (stringify v ++ fieldsTail rest))

def itemsTail : List Value → List Char
  | [] => [']']
  | v :: rest => ',' :: (stringify v ++ itemsTail rest)

def fieldsTail : List (String × Value) → List Char
  | [] => ['}']
  | (k, v) :: rest => ',' :: (quote k ++ ':' :: (stringify v ++ fieldsTail rest))

end

/-! ## Reading -/

def isSpace (c : Char) : Bool := c = ' ' ∨ c = '\t' ∨ c = '\n' ∨ c = '\r'

def skip (cs : List Char) : List Char := cs.dropWhile isSpace

def codeUnit : List Char → Option (ℕ × List Char)
  | a :: b :: c :: d :: rest => do
    let a ← hexDigit a
    let b ← hexDigit b
    let c ← hexDigit c
    let d ← hexDigit d
    return (((a * 16 + b) * 16 + c) * 16 + d, rest)
  | _ => none

def highSurrogate (unit : ℕ) : Bool := 0xD800 ≤ unit ∧ unit < 0xDC00

def lowSurrogate (unit : ℕ) : Bool := 0xDC00 ≤ unit ∧ unit < 0xE000

/-- The character of an escape that starts with `u`, and what follows it. -/
def unicode (cs : List Char) : Option (Char × List Char) := do
  let (unit, rest) ← codeUnit cs
  if highSurrogate unit then
    match rest with
    | '\\' :: 'u' :: rest' =>
      match codeUnit rest' with
      | some (low, rest'') =>
        if lowSurrogate low then
          return (Char.ofNat (0x10000 + (unit - 0xD800) * 0x400 + (low - 0xDC00)), rest'')
        else return (Char.ofNat 0xFFFD, rest)
      | none => return (Char.ofNat 0xFFFD, rest)
    | _ => return (Char.ofNat 0xFFFD, rest)
  else if lowSurrogate unit then return (Char.ofNat 0xFFFD, rest)
  else return (Char.ofNat unit, rest)

def character : List Char → Option (Char × List Char)
  | '\\' :: 'u' :: rest => unicode rest
  | '\\' :: '/' :: rest => some ('/', rest)
  | '\\' :: d :: rest => (shortEscapes.find? fun e => e.2 = d).map fun e => (e.1, rest)
  | c :: rest => if c = '\\' ∨ c.toNat < 32 then none else some (c, rest)
  | [] => none

def characters : ℕ → List Char → Option (List Char × List Char)
  | 0, _ => none
  | _ + 1, '"' :: rest => some ([], rest)
  | n + 1, cs => do
    let (c, rest) ← character cs
    let (more, rest) ← characters n rest
    return (c :: more, rest)

def string (cs : List Char) : Option (String × List Char) :=
  (characters (cs.length + 1) cs).map fun r => (String.ofList r.1, r.2)

def numberChar (c : Char) : Bool := isDec c || c ∈ ['+', '-', '.', 'e', 'E']

/-- What JSON asks of a number without sign, besides being one of JavaScript. -/
def wellFormed (cs : List Char) : Bool :=
  let whole := cs.takeWhile isDec
  whole ≠ [] && (whole.length = 1 || whole.head? ≠ some '0') &&
    match cs.dropWhile isDec with
    | '.' :: rest => rest.takeWhile isDec ≠ []
    | _ => true

def unsigned (cs : List Char) : Option ℚ := if wellFormed cs then jsUnsigned cs else none

def number (cs : List Char) : Option (Json × List Char) :=
  let q :=
    match cs.takeWhile numberChar with
    | '-' :: ds => (unsigned ds).map fun q => -q
    | ds => unsigned ds
  q.map fun q => (.num (roundDouble q), cs.dropWhile numberChar)

mutual

def value : ℕ → List Char → Option (Json × List Char)
  | 0, _ => none
  | n + 1, cs =>
    match skip cs with
    | '"' :: rest => (string rest).map fun r => (.str r.1, r.2)
    | '[' :: rest =>
      match skip rest with
      | ']' :: rest => some (.arr [], rest)
      | rest => (items n rest).map fun r => (.arr r.1, r.2)
    | '{' :: rest =>
      match skip rest with
      | '}' :: rest => some (.obj [], rest)
      | rest => (fields n rest).map fun r => (.obj (Dict.update [] r.1), r.2)
    | 'n' :: 'u' :: 'l' :: 'l' :: rest => some (.null, rest)
    | 't' :: 'r' :: 'u' :: 'e' :: rest => some (.bool true, rest)
    | 'f' :: 'a' :: 'l' :: 's' :: 'e' :: rest => some (.bool false, rest)
    | cs => number cs

def items : ℕ → List Char → Option (List Json × List Char)
  | 0, _ => none
  | n + 1, cs => do
    let (v, rest) ← value n cs
    match skip rest with
    | ']' :: rest => return ([v], rest)
    | ',' :: rest =>
      let (vs, rest) ← items n rest
      return (v :: vs, rest)
    | _ => none

def fields : ℕ → List Char → Option (Dict × List Char)
  | 0, _ => none
  | n + 1, cs =>
    match skip cs with
    | '"' :: rest => do
      let (k, rest) ← string rest
      match skip rest with
      | ':' :: rest =>
        let (v, rest) ← value n rest
        match skip rest with
        | '}' :: rest => return ([(k, v)], rest)
        | ',' :: rest =>
          let (kvs, rest) ← fields n rest
          return ((k, v) :: kvs, rest)
        | _ => none
      | _ => none
    | _ => none

end

/-- `JSON.parse`; `none` where it throws. -/
def parse (cs : List Char) : Option Json := do
  let (v, rest) ← value (2 * cs.length + 1) cs
  if skip rest = [] then return v else none

mutual

def json : Value → Json
  | .null => .null
  | .bool b => .bool b
  | .num n => .num (roundDouble n)
  | .str s => .str s
  | .arr vs => .arr (jsons vs)
  | .obj kvs => .obj (Dict.update [] (jsonFields kvs))

def jsons : List Value → List Json
  | [] => []
  | v :: rest => json v :: jsons rest

def jsonFields : List (String × Value) → Dict
  | [] => []
  | (k, v) :: rest => (k, json v) :: jsonFields rest

end

theorem hexDigit_hexDigit : ∀ n, n < 16 → hexDigit (JsonText.hexDigit n) = some n := by decide

theorem shortEscape_of_mem : ∀ e ∈ shortEscapes,
    e.2 ≠ 'u' ∧ e.2 ≠ '/' ∧ shortEscapes.find? (fun e' => e'.2 = e.2) = some e := by decide

theorem character_escape (c : Char) (rest : List Char) : character (escape c ++ rest) = some (c, rest) := by
  cases hshort : shortEscapes.lookup c with
  | some d =>
    obtain ⟨hu, hslash, hback⟩ := shortEscape_of_mem _ (JsonText.mem_of_shortEscape hshort)
    simp only [escape, hshort, List.cons_append, List.nil_append]
    rw [character.eq_3 _ _ hu hslash, hback]
    rfl
  | none =>
    simp only [escape, hshort]
    split
    · rename_i hsmall
      have hhigh := hexDigit_hexDigit (c.toNat / 16) (by omega)
      have hlow := hexDigit_hexDigit (c.toNat % 16) (by omega)
      have hunit : ((0 * 16 + 0) * 16 + c.toNat / 16) * 16 + c.toNat % 16 = c.toNat := by omega
      have hzero : hexDigit '0' = some 0 := by decide
      have hnot : highSurrogate c.toNat = false ∧ lowSurrogate c.toNat = false := by
        simp only [highSurrogate, lowSurrogate, decide_eq_false_iff_not]
        omega
      simp only [List.cons_append, List.nil_append, character, unicode, codeUnit, hzero, hhigh, hlow, hunit,
        Option.bind_eq_bind, Option.bind_some, Option.pure_def, hnot.1, hnot.2, Bool.false_eq_true, if_false,
        Char.ofNat_toNat]
    · rename_i hlarge
      have hslash : c ≠ '\\' := by
        rintro rfl
        revert hshort
        decide
      rw [List.cons_append, List.nil_append, character.eq_4]
      · rw [if_neg (by simp [hslash]; omega)]
      · exact fun _ h _ => hslash h
      · exact fun _ h _ => hslash h
      · exact fun _ _ h _ => hslash h

theorem escape_ne_quote (c : Char) : ∃ d rest, escape c = d :: rest ∧ d ≠ '"' := by
  cases hshort : shortEscapes.lookup c with
  | some d => exact ⟨'\\', [d], by simp only [escape, hshort], by decide⟩
  | none =>
    simp only [escape, hshort]
    split
    · exact ⟨_, _, rfl, by decide⟩
    · refine ⟨c, [], rfl, ?_⟩
      rintro rfl
      revert hshort
      decide

theorem characters_escapeAll (cs rest : List Char) (h : cs.length < n) :
    characters n (escapeAll cs ++ '"' :: rest) = some (cs, rest) := by
  induction cs generalizing n with
  | nil =>
    obtain ⟨n, rfl⟩ := Nat.exists_eq_add_one_of_ne_zero (Nat.ne_of_gt h)
    rfl
  | cons c cs ih =>
    obtain ⟨n, rfl⟩ := Nat.exists_eq_add_one_of_ne_zero (Nat.ne_of_gt (Nat.zero_lt_of_lt h))
    obtain ⟨d, tail, hescape, hquote⟩ := escape_ne_quote c
    have hchar := character_escape c (escapeAll cs ++ '"' :: rest)
    rw [escapeAll, List.append_assoc]
    rw [hescape, List.cons_append] at hchar ⊢
    rw [characters.eq_3 _ _ (fun _ h => hquote (List.cons.inj h).1), hchar]
    simp only [Option.bind_eq_bind, Option.bind_some, ih (Nat.lt_of_succ_lt_succ h), Option.pure_def]

theorem length_le_escapeAll (cs : List Char) : cs.length ≤ (escapeAll cs).length := by
  induction cs with
  | nil => exact le_rfl
  | cons c cs ih =>
    obtain ⟨d, rest, hescape, -⟩ := escape_ne_quote c
    rw [escapeAll, hescape, List.length_append, List.length_cons, List.length_cons]
    omega

theorem string_escapeAll (s : String) (rest : List Char) :
    string (escapeAll s.toList ++ '"' :: rest) = some (s, rest) := by
  have hlength := length_le_escapeAll s.toList
  rw [string, characters_escapeAll s.toList rest (by rw [List.length_append, List.length_cons]; omega), Option.map_some,
    String.ofList_toList]

/-! ### Numbers -/

theorem isDec_of_isDigit (h : c.isDigit = true) : isDec c = true := by
  simp only [Char.isDigit, Bool.and_eq_true, decide_eq_true_eq] at h
  have hlow : 48 ≤ c.toNat := h.1
  have hhigh : c.toNat ≤ 57 := h.2
  rw [isDec, decDigit, if_pos ⟨hlow, hhigh⟩]
  rfl

theorem isDec_toDigits (n : ℕ) : ∀ c ∈ Nat.toDigits 10 n, isDec c = true := fun _ hc =>
  isDec_of_isDigit (Nat.isDigit_of_mem_toDigits (by decide) (by decide) hc)

theorem decDigit_digitChar : ∀ n, n < 10 → decDigit n.digitChar = some n := by decide

theorem readDigits_append (xs ys : List Char) :
    readDigits decDigit (xs ++ ys) = (readDigits decDigit xs).bind fun ds => (readDigits decDigit ys).map (ds ++ ·) := by
  induction xs with
  | nil => simp [readDigits]
  | cons c cs ih =>
    rw [List.cons_append, readDigits, readDigits, ih]
    cases decDigit c <;> cases readDigits decDigit cs <;> cases readDigits decDigit ys <;> rfl

theorem toDigits_cases (n : ℕ) : (n < 10 ∧ Nat.toDigits 10 n = [n.digitChar]) ∨
      (0 < n / 10 ∧ Nat.toDigits 10 n = Nat.toDigits 10 (n / 10) ++ [(n % 10).digitChar]) := by
  by_cases h : n < 10
  · exact .inl ⟨h, Nat.toDigits_of_lt_base h⟩
  · exact .inr ⟨by omega, Nat.toDigits_of_base_le (by decide) (by omega)⟩

theorem readDigits_toDigits (n : ℕ) : ∃ ds, readDigits decDigit (Nat.toDigits 10 n) = some ds ∧ ofDigits 10 ds = n := by
  induction n using Nat.strong_induction_on with
  | _ n ih =>
    rcases toDigits_cases n with ⟨hlt, hdigits⟩ | ⟨hpos, hdigits⟩
    · refine ⟨[n], ?_, ?_⟩
      · rw [hdigits, readDigits, decDigit_digitChar n hlt]
        rfl
      · simp [ofDigits]
    · obtain ⟨ds, hread, hvalue⟩ := ih (n / 10) (by omega)
      refine ⟨ds ++ [n % 10], ?_, ?_⟩
      · rw [hdigits, readDigits_append, hread, readDigits, decDigit_digitChar (n % 10) (Nat.mod_lt n (by decide))]
        rfl
      · rw [ofDigits, List.foldl_append, ← ofDigits, hvalue]
        simp only [List.foldl_cons, List.foldl_nil]
        omega

theorem decimal_toDigits (n : ℕ) : decimal (Nat.toDigits 10 n) = n := by
  obtain ⟨ds, hread, hvalue⟩ := readDigits_toDigits n
  rw [decimal, hread, Option.getD_some, hvalue]

theorem head_toDigits (n : ℕ) (h : 0 < n) : (Nat.toDigits 10 n).head? ≠ some '0' := by
  induction n using Nat.strong_induction_on with
  | _ n ih =>
    rcases toDigits_cases n with ⟨hlt, hdigits⟩ | ⟨hpos, hdigits⟩
    · rw [hdigits, List.head?_cons]
      have hall : ∀ k, k < 10 → 0 < k → some k.digitChar ≠ some '0' := by decide
      exact hall n hlt h
    · have hne : Nat.toDigits 10 (n / 10) ≠ [] := Nat.toDigits_ne_nil
      rw [hdigits, List.head?_append_of_ne_nil _ hne]
      exact ih (n / 10) (by omega) hpos

theorem wellFormed_toDigits (n : ℕ) : wellFormed (Nat.toDigits 10 n) = true := by
  have hdec := isDec_toDigits n
  have htake : (Nat.toDigits 10 n).takeWhile isDec = Nat.toDigits 10 n := List.takeWhile_eq_self_iff.mpr hdec
  have hdrop : (Nat.toDigits 10 n).dropWhile isDec = [] := List.dropWhile_eq_nil_iff.mpr hdec
  have hzero : (Nat.toDigits 10 n).length = 1 ∨ (Nat.toDigits 10 n).head? ≠ some '0' := by
    rcases Nat.eq_zero_or_pos n with rfl | hpos
    · exact .inl rfl
    · exact .inr (head_toDigits n hpos)
  simp only [wellFormed, htake, hdrop, Bool.and_true, Bool.and_eq_true, decide_eq_true_eq, Bool.or_eq_true]
  exact ⟨Nat.toDigits_ne_nil, hzero⟩

def Ends (rest : List Char) : Prop := ∀ c ∈ rest.head?, numberChar c = false

theorem number_toDigits (n : ℕ) (h : Ends rest) :
    number (Nat.toDigits 10 n ++ rest) = some (.num (roundDouble n), rest) := by
  have hall : ∀ c ∈ Nat.toDigits 10 n, numberChar c = true := fun c hc => by
    rw [numberChar, isDec_toDigits n c hc, Bool.true_or]
  have hstop : rest.takeWhile numberChar = [] ∧ rest.dropWhile numberChar = rest := by
    cases rest with
    | nil => exact ⟨rfl, rfl⟩
    | cons c rest =>
      have hc := h c rfl
      exact ⟨List.takeWhile_cons_of_neg (by simp [hc]), List.dropWhile_cons_of_neg (by simp [hc])⟩
  have htake : (Nat.toDigits 10 n ++ rest).takeWhile numberChar = Nat.toDigits 10 n := by
    rw [List.takeWhile_append_of_pos hall, hstop.1, List.append_nil]
  have hdrop : (Nat.toDigits 10 n ++ rest).dropWhile numberChar = rest := by
    rw [List.dropWhile_append_of_pos hall, hstop.2]
  have hunsigned : unsigned (Nat.toDigits 10 n) = some (n : ℚ) := by
    rw [unsigned, if_pos (wellFormed_toDigits n), jsUnsigned_of_isDec Nat.toDigits_ne_nil (isDec_toDigits n),
      decimal_toDigits]
  rw [number, htake, hdrop]
  split
  · rename_i ds heq
    have hminus := isDec_toDigits n '-' (heq ▸ List.mem_cons_self)
    exact absurd hminus (by decide)
  · rw [hunsigned]
    rfl

/-! ### Values -/

theorem skip_cons (h : isSpace c = false) (rest : List Char) : skip (c :: rest) = c :: rest :=
  List.dropWhile_cons_of_neg (by simp [h])

theorem ends_itemsTail (vs : List Value) (rest : List Char) : Ends (itemsTail vs ++ rest) := by
  cases vs <;> rintro c ⟨⟩ <;> decide

theorem ends_fieldsTail (kvs : List (String × Value)) (rest : List Char) : Ends (fieldsTail kvs ++ rest) := by
  rcases kvs with - | ⟨⟨k, v⟩, kvs⟩ <;> rintro c ⟨⟩ <;> decide

def Opens (c : Char) : Prop := isSpace c = false ∧ c ≠ ']' ∧ c ≠ '}'

theorem opens_stringify (v : Value) : ∃ c rest, stringify v = c :: rest ∧ Opens c := by
  cases v with
  | null => exact ⟨_, _, rfl, by decide, by decide, by decide⟩
  | bool b => cases b <;> exact ⟨_, _, rfl, by decide, by decide, by decide⟩
  | str s => exact ⟨_, _, rfl, by decide, by decide, by decide⟩
  | arr vs => cases vs <;> exact ⟨_, _, rfl, by decide, by decide, by decide⟩
  | obj kvs => rcases kvs with - | ⟨⟨k, v⟩, kvs⟩ <;> exact ⟨_, _, rfl, by decide, by decide, by decide⟩
  | num n =>
    obtain ⟨c, rest, hdigits⟩ := List.exists_cons_of_ne_nil (Nat.toDigits_ne_nil (n := n) (b := 10))
    refine ⟨c, rest, hdigits, ?_⟩
    have hdec := isDec_toDigits n c (hdigits ▸ List.mem_cons_self)
    refine ⟨?_, ?_, ?_⟩
    · by_contra hspace
      simp only [isSpace, decide_eq_true_eq, Bool.not_eq_false] at hspace
      rcases hspace with rfl | rfl | rfl | rfl <;> exact absurd hdec (by decide)
    · rintro rfl
      exact absurd hdec (by decide)
    · rintro rfl
      exact absurd hdec (by decide)

theorem value_digit (hdec : isDec c = true) (n : ℕ) (cs : List Char) : value (n + 1) (c :: cs) = number (c :: cs) := by
  have hspace : isSpace c = false := by
    by_contra hspace
    simp only [isSpace, decide_eq_true_eq, Bool.not_eq_false] at hspace
    rcases hspace with rfl | rfl | rfl | rfl <;> exact absurd hdec (by decide)
  rw [value, skip_cons hspace]
  split
  all_goals first
    | rfl
    | (rename_i heq
       cases heq
       exact absurd hdec (by decide))

theorem value_bracket (h : Opens c) (n : ℕ) (cs : List Char) :
    value (n + 1) ('[' :: c :: cs) = (items n (c :: cs)).map fun r => (.arr r.1, r.2) := by
  rw [value, skip_cons (by decide)]
  simp only [skip_cons h.1]
  split
  · rename_i heq
    exact absurd (List.cons.inj heq).1 h.2.1
  · rfl

theorem value_brace (n : ℕ) (cs : List Char) :
    value (n + 1) ('{' :: '"' :: cs) = (fields n ('"' :: cs)).map fun r => (.obj (Dict.update [] r.1), r.2) := by
  rw [value, skip_cons (by decide)]
  simp only [skip_cons (c := '"') (by decide)]
  rfl

mutual

theorem value_stringify : ∀ (v : Value) (n : ℕ) (rest : List Char), 2 * (stringify v ++ rest).length + 1 ≤ n →
    Ends rest → value n (stringify v ++ rest) = some (json v, rest)
  | v, 0, rest, hn, _ => absurd hn (by omega)
  | .null, n + 1, rest, _, _ => rfl
  | .bool true, n + 1, rest, _, _ => rfl
  | .bool false, n + 1, rest, _, _ => rfl
  | .num k, n + 1, rest, _, hrest => by
    obtain ⟨c, ds, hdigits⟩ := List.exists_cons_of_ne_nil (Nat.toDigits_ne_nil (n := k) (b := 10))
    have hdec := isDec_toDigits k c (hdigits ▸ List.mem_cons_self)
    have hnumber := number_toDigits k hrest
    rw [stringify]
    rw [hdigits, List.cons_append] at hnumber ⊢
    rw [value_digit hdec, hnumber, json]
  | .str s, n + 1, rest, _, _ => by
    rw [stringify, quote, List.cons_append, List.append_assoc, List.singleton_append, value, skip_cons (by decide)]
    simp only [string_escapeAll, Option.map_some, json]
  | .arr [], n + 1, rest, _, _ => rfl
  | .obj [], n + 1, rest, _, _ => rfl
  | .arr (v :: vs), n + 1, rest, hn, _ => by
    obtain ⟨c, tail, htext, hopens⟩ := opens_stringify v
    have hitems := items_stringify v vs n rest (by
      simp only [stringify, List.cons_append, List.length_cons, List.append_assoc] at hn
      omega)
    rw [stringify, List.cons_append, List.append_assoc]
    rw [htext, List.cons_append] at hitems ⊢
    rw [value_bracket hopens, hitems, Option.map_some, json, jsons]
  | .obj ((k, v) :: kvs), n + 1, rest, hn, _ => by
    have hfields := fields_stringify k v kvs n rest (by
      simp only [stringify, List.cons_append, List.length_cons, List.append_assoc] at hn ⊢
      omega)
    rw [stringify, List.cons_append, List.append_assoc, List.cons_append, List.append_assoc]
    rw [quote, List.cons_append] at hfields ⊢
    rw [value_brace, hfields, Option.map_some, json, jsonFields]

theorem items_stringify : ∀ (v : Value) (vs : List Value) (n : ℕ) (rest : List Char),
    2 * (stringify v ++ (itemsTail vs ++ rest)).length + 2 ≤ n →
    items n (stringify v ++ (itemsTail vs ++ rest)) = some (json v :: jsons vs, rest)
  | v, vs, 0, rest, hn => absurd hn (by omega)
  | v, vs, n + 1, rest, hn => by
    have hvalue := value_stringify v n (itemsTail vs ++ rest) (by omega) (ends_itemsTail vs rest)
    rw [items, hvalue]
    cases vs with
    | nil => rfl
    | cons v' vs =>
      have hitems := items_stringify v' vs n rest (by
        simp only [itemsTail, List.cons_append, List.append_assoc, List.length_append, List.length_cons] at hn ⊢
        omega)
      rw [itemsTail, List.cons_append, List.append_assoc]
      simp only [Option.bind_eq_bind, Option.bind_some, skip_cons (c := ',') (by decide), hitems, Option.pure_def,
        jsons]

theorem fields_stringify : ∀ (k : String) (v : Value) (kvs : List (String × Value)) (n : ℕ) (rest : List Char),
    2 * (quote k ++ ':' :: (stringify v ++ (fieldsTail kvs ++ rest))).length + 2 ≤ n →
    fields n (quote k ++ ':' :: (stringify v ++ (fieldsTail kvs ++ rest))) = some ((k, json v) :: jsonFields kvs, rest)
  | k, v, kvs, 0, rest, hn => absurd hn (by omega)
  | k, v, kvs, n + 1, rest, hn => by
    have hvalue := value_stringify v n (fieldsTail kvs ++ rest) (by
      simp only [List.length_append, List.length_cons] at hn ⊢
      omega) (ends_fieldsTail kvs rest)
    rw [quote, List.cons_append, List.append_assoc, List.singleton_append, fields, skip_cons (by decide)]
    simp only [string_escapeAll, Option.bind_eq_bind, Option.bind_some, skip_cons (c := ':') (by decide), hvalue]
    rcases kvs with - | ⟨⟨k', v'⟩, kvs⟩
    · rfl
    have hfields := fields_stringify k' v' kvs n rest (by
      simp only [fieldsTail, List.cons_append, List.append_assoc, List.length_append, List.length_cons] at hn ⊢
      omega)
    rw [fieldsTail, List.cons_append, List.append_assoc, List.cons_append, List.append_assoc]
    simp only [skip_cons (c := ',') (by decide), hfields, Option.bind_some, Option.pure_def, jsonFields]

end

theorem parse_stringify (v : Value) : parse (stringify v) = some (json v) := by
  have hvalue := value_stringify v (2 * (stringify v).length + 1) [] (by rw [List.append_nil])
    (fun c hc => by cases hc)
  rw [List.append_nil] at hvalue
  rw [parse, hvalue]
  rfl

end RyanAI.Lib.JsonParse
