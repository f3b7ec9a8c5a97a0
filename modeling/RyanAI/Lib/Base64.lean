import Mathlib.Tactic

/-!
# Base64

The text of a list of bytes in the standard alphabet, with padding, and the strict reading of such a text: nothing may
stand before, between or after the quadruples, and only the last one may be padded. The bits that the last quadruple has
too many are ignored. Reading the text of some bytes gives them back (`decode_encode`).

The lenient reading takes the digits of both alphabets wherever they are and ignores everything else; it gives the bytes
back too (`lenient_encode`).
-/

namespace RyanAI.Lib.Base64

def digit (n : ℕ) : Char :=
  if n < 26 then Char.ofNat (65 + n)
  else if n < 52 then Char.ofNat (71 + n)
  else if n < 62 then Char.ofNat (n - 4)
  else if n = 62 then '+'
  else '/'

def value (c : Char) : Option ℕ :=
  if 65 ≤ c.toNat ∧ c.toNat ≤ 90 then some (c.toNat - 65)
  else if 97 ≤ c.toNat ∧ c.toNat ≤ 122 then some (c.toNat - 71)
  else if 48 ≤ c.toNat ∧ c.toNat ≤ 57 then some (c.toNat + 4)
  else if c = '+' then some 62
  else if c = '/' then some 63
  else none

def encode : List UInt8 → List Char
  | [] => []
  | [a] => [digit (a.toNat / 4), digit (a.toNat % 4 * 16), '=', '=']
  | [a, b] =>
    [digit (a.toNat / 4), digit (a.toNat % 4 * 16 + b.toNat / 16), digit (b.toNat % 16 * 4), '=']
  | a :: b :: c :: rest =>
    digit (a.toNat / 4) :: digit (a.toNat % 4 * 16 + b.toNat / 16) ::
      digit (b.toNat % 16 * 4 + c.toNat / 64) :: digit (c.toNat % 64) :: encode rest

def triple (w x y z : ℕ) : List UInt8 :=
  [UInt8.ofNat (w * 4 + x / 16), UInt8.ofNat (x % 16 * 16 + y / 4), UInt8.ofNat (y % 4 * 64 + z)]

def decode : List Char → Option (List UInt8)
  | [] => some []
  | p :: q :: r :: s :: rest => do
    let w ← value p
    let x ← value q
    if r = '=' then
      if s = '=' ∧ rest = [] then some ((triple w x 0 0).take 1) else none
    else do
      let y ← value r
      if s = '=' then
        if rest = [] then some ((triple w x y 0).take 2) else none
      else do
        let z ← value s
        let tail ← decode rest
        some (triple w x y z ++ tail)
  | _ => none

theorem value_digit : ∀ n, n < 64 → value (digit n) = some n ∧ digit n ≠ '=' := by decide

theorem ofNat_toNat_eq {n : ℕ} {a : UInt8} (h : n = a.toNat) : UInt8.ofNat n = a := by
  rw [h, UInt8.ofNat_toNat]

theorem triple_eq (a b c : UInt8) :
    triple (a.toNat / 4) (a.toNat % 4 * 16 + b.toNat / 16) (b.toNat % 16 * 4 + c.toNat / 64) (c.toNat % 64) =
      [a, b, c] := by
  have ha := a.toNat_lt
  have hb := b.toNat_lt
  have hc := c.toNat_lt
  rw [triple, ofNat_toNat_eq (a := a) (by omega), ofNat_toNat_eq (a := b) (by omega), ofNat_toNat_eq (a := c) (by omega)]

theorem toNat_zero : (0 : UInt8).toNat = 0 := rfl

theorem decode_encode (bytes : List UInt8) : decode (encode bytes) = some bytes := by
  induction bytes using encode.induct with
  | case1 => rfl
  | case2 a =>
    have ha := a.toNat_lt
    have hw := value_digit (a.toNat / 4) (by omega)
    have hx := value_digit (a.toNat % 4 * 16) (by omega)
    have htriple := triple_eq a 0 0
    simp only [toNat_zero, Nat.zero_div, Nat.zero_mod, Nat.add_zero, Nat.zero_mul] at htriple
    simp only [encode, decode, hw.1, hx.1, Option.bind_eq_bind, Option.bind_some, if_true, and_self, htriple,
      List.take_succ_cons, List.take_zero]
  | case3 a b =>
    have ha := a.toNat_lt
    have hb := b.toNat_lt
    have hw := value_digit (a.toNat / 4) (by omega)
    have hx := value_digit (a.toNat % 4 * 16 + b.toNat / 16) (by omega)
    have hy := value_digit (b.toNat % 16 * 4) (by omega)
    have htriple := triple_eq a b 0
    simp only [toNat_zero, Nat.zero_div, Nat.zero_mod, Nat.add_zero] at htriple
    simp only [encode, decode, hw.1, hx.1, hy.1, hy.2, Option.bind_eq_bind, Option.bind_some, if_true, if_false,
      htriple, List.take_succ_cons, List.take_zero]
  | case4 a b c rest ih =>
    have ha := a.toNat_lt
    have hb := b.toNat_lt
    have hc := c.toNat_lt
    have hw := value_digit (a.toNat / 4) (by omega)
    have hx := value_digit (a.toNat % 4 * 16 + b.toNat / 16) (by omega)
    have hy := value_digit (b.toNat % 16 * 4 + c.toNat / 64) (by omega)
    have hz := value_digit (c.toNat % 64) (by omega)
    simp only [encode, decode, hw.1, hx.1, hy.1, hy.2, hz.1, hz.2, ih, Option.bind_eq_bind, Option.bind_some,
      if_false, triple_eq, List.cons_append, List.nil_append]

def anyValue (c : Char) : Option ℕ := if c = '-' then some 62 else if c = '_' then some 63 else value c

def bytesOf : List ℕ → List UInt8
  | w :: x :: y :: z :: rest => triple w x y z ++ bytesOf rest
  | [w, x, y] => (triple w x y 0).take 2
  | [w, x] => (triple w x 0 0).take 1
  | _ => []

def lenient (cs : List Char) : List UInt8 := bytesOf (cs.filterMap anyValue)

theorem anyValue_digit : ∀ n, n < 64 → anyValue (digit n) = some n := by decide

theorem anyValue_padding : anyValue '=' = none := by decide

theorem lenient_encode (bytes : List UInt8) : lenient (encode bytes) = bytes := by
  induction bytes using encode.induct with
  | case1 => rfl
  | case2 a =>
    have ha := a.toNat_lt
    have htriple := triple_eq a 0 0
    simp only [toNat_zero, Nat.zero_div, Nat.zero_mod, Nat.add_zero, Nat.zero_mul] at htriple
    simp only [lenient, encode, List.filterMap_cons, List.filterMap_nil, anyValue_digit _ (by omega : a.toNat / 4 < 64),
      anyValue_digit _ (by omega : a.toNat % 4 * 16 < 64), anyValue_padding, bytesOf, htriple, List.take_succ_cons,
      List.take_zero]
  | case3 a b =>
    have ha := a.toNat_lt
    have hb := b.toNat_lt
    have htriple := triple_eq a b 0
    simp only [toNat_zero, Nat.zero_div, Nat.zero_mod, Nat.add_zero] at htriple
    simp only [lenient, encode, List.filterMap_cons, List.filterMap_nil, anyValue_digit _ (by omega : a.toNat / 4 < 64),
      anyValue_digit _ (by omega : a.toNat % 4 * 16 + b.toNat / 16 < 64),
      anyValue_digit _ (by omega : b.toNat % 16 * 4 < 64), anyValue_padding, bytesOf, htriple, List.take_succ_cons,
      List.take_zero]
  | case4 a b c rest ih =>
    have ha := a.toNat_lt
    have hb := b.toNat_lt
    have hc := c.toNat_lt
    rw [lenient] at ih
    simp only [lenient, encode, List.filterMap_cons, anyValue_digit _ (by omega : a.toNat / 4 < 64),
      anyValue_digit _ (by omega : a.toNat % 4 * 16 + b.toNat / 16 < 64),
      anyValue_digit _ (by omega : b.toNat % 16 * 4 + c.toNat / 64 < 64),
      anyValue_digit _ (by omega : c.toNat % 64 < 64), bytesOf, triple_eq, ih, List.cons_append, List.nil_append]

end RyanAI.Lib.Base64
