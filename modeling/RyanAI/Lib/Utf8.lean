import Mathlib

/-!
# UTF-8 with replacement

`encode` writes a text in UTF-8. `decode` reads any bytes: a sequence that no character has is read as the replacement
character, as far as it could have been the start of one, and reading goes on behind it. What is written is read back
(`decode_encode`).
-/

namespace RyanAI.Lib.Utf8

def encode (cs : List Char) : List UInt8 := cs.flatMap String.utf8EncodeChar

def replacement : Char := Char.ofNat 0xFFFD

def anyByte : ℕ × ℕ := (0x80, 0xBF)

def leading (b : ℕ) : Option (ℕ × List (ℕ × ℕ)) :=
  if b < 0x80 then some (b, [])
  else if b < 0xC2 then none
  else if b < 0xE0 then some (b - 0xC0, [anyByte])
  else if b = 0xE0 then some (0, [(0xA0, 0xBF), anyByte])
  else if b = 0xED then some (0xD, [(0x80, 0x9F), anyByte])
  else if b < 0xF0 then some (b - 0xE0, [anyByte, anyByte])
  else if b = 0xF0 then some (0, [(0x90, 0xBF), anyByte, anyByte])
  else if b < 0xF4 then some (b - 0xF0, [anyByte, anyByte, anyByte])
  else if b = 0xF4 then some (4, [(0x80, 0x8F), anyByte, anyByte])
  else none

def following (acc : ℕ) : List (ℕ × ℕ) → List UInt8 → Option ℕ × List UInt8
  | [], rest => (some acc, rest)
  | (low, high) :: ranges, b :: rest =>
    if low ≤ b.toNat ∧ b.toNat ≤ high then following (acc * 64 + (b.toNat - 0x80)) ranges rest else (none, b :: rest)
  | _ :: _, [] => (none, [])

def decodeChar (b : UInt8) (rest : List UInt8) : Char × List UInt8 :=
  match leading b.toNat with
  | none => (replacement, rest)
  | some (bits, ranges) =>
    let r := following bits ranges rest
    ((r.1.map Char.ofNat).getD replacement, r.2)

def decodeLoop : ℕ → List UInt8 → List Char
  | 0, _ => []
  | _ + 1, [] => []
  | n + 1, b :: rest =>
    let r := decodeChar b rest
    r.1 :: decodeLoop n r.2

def decode (bytes : List UInt8) : List Char := decodeLoop bytes.length bytes

theorem toNat_ofNat (h : n < 256) : (UInt8.ofNat n).toNat = n := by
  rw [UInt8.toNat_ofNat']
  exact Nat.mod_eq_of_lt h

theorem toNat_cases (c : Char) : c.toNat < 0xD800 ∨ 0xDFFF < c.toNat ∧ c.toNat < 0x110000 := c.valid

theorem following_cons (h : low ≤ n ∧ n ≤ high) (hbyte : n < 256) :
    following acc ((low, high) :: ranges) (UInt8.ofNat n :: rest) = following (acc * 64 + (n - 0x80)) ranges rest := by
  rw [following, toNat_ofNat hbyte, if_pos h]

theorem decodeChar_of_leading (hbyte : n < 256) (h : leading n = some (bits, ranges)) :
    decodeChar (UInt8.ofNat n) rest =
      (((following bits ranges rest).1.map Char.ofNat).getD replacement, (following bits ranges rest).2) := by
  rw [decodeChar, toNat_ofNat hbyte, h]

def Reads (c : Char) (bytes : List UInt8) : Prop :=
  ∃ b more, bytes = b :: more ∧ ∀ rest, decodeChar b (more ++ rest) = (c, rest)

theorem reads_one (h : c.toNat ≤ 0x7F) : Reads c [UInt8.ofNat c.toNat] := by
  refine ⟨_, _, rfl, fun rest => ?_⟩
  have hlead : leading c.toNat = some (c.toNat, []) := if_pos (by omega)
  rw [decodeChar_of_leading (by omega) hlead]
  simp [following, Char.ofNat_toNat]

theorem reads_two (h : 0x7F < c.toNat) (h' : c.toNat ≤ 0x7FF) :
    Reads c [UInt8.ofNat (c.toNat / 64 % 0x20 + 0xC0), UInt8.ofNat (c.toNat % 0x40 + 0x80)] := by
  refine ⟨_, _, rfl, fun rest => ?_⟩
  have hlead : leading (c.toNat / 64 % 0x20 + 0xC0) = some (c.toNat / 64 % 0x20 + 0xC0 - 0xC0, [anyByte]) := by
    rw [leading, if_neg (by omega), if_neg (by omega), if_pos (by omega)]
  have hsum : (c.toNat / 64 % 0x20 + 0xC0 - 0xC0) * 64 + (c.toNat % 0x40 + 0x80 - 0x80) = c.toNat := by omega
  rw [decodeChar_of_leading (by omega) hlead, List.cons_append, anyByte, following_cons (by omega) (by omega), hsum]
  simp [following, Char.ofNat_toNat]

theorem leading_three (h : 0x7FF < n) (h' : n ≤ 0xFFFF) (hvalid : n < 0xD800 ∨ 0xDFFF < n) :
    ∃ low high, leading (n / 4096 % 0x10 + 0xE0) = some (n / 4096, [(low, high), anyByte]) ∧
      low ≤ n / 64 % 0x40 + 0x80 ∧ n / 64 % 0x40 + 0x80 ≤ high := by
  have hbits : n / 4096 % 0x10 + 0xE0 - 0xE0 = n / 4096 := by omega
  rw [leading, if_neg (by omega), if_neg (by omega), if_neg (by omega)]
  by_cases hfirst : n / 4096 % 0x10 + 0xE0 = 0xE0
  · refine ⟨0xA0, 0xBF, ?_, by omega, by omega⟩
    rw [if_pos hfirst, show n / 4096 = 0 by omega]
  rw [if_neg hfirst]
  by_cases hsurrogate : n / 4096 % 0x10 + 0xE0 = 0xED
  · refine ⟨0x80, 0x9F, ?_, by omega, by omega⟩
    rw [if_pos hsurrogate, show n / 4096 = 0xD by omega]
  · refine ⟨0x80, 0xBF, ?_, by omega, by omega⟩
    rw [if_neg hsurrogate, if_pos (by omega), hbits]
    rfl

theorem reads_three (h : 0x7FF < c.toNat) (h' : c.toNat ≤ 0xFFFF) :
    Reads c [UInt8.ofNat (c.toNat / 4096 % 0x10 + 0xE0), UInt8.ofNat (c.toNat / 64 % 0x40 + 0x80),
      UInt8.ofNat (c.toNat % 0x40 + 0x80)] := by
  obtain ⟨low, high, hlead, hsecond⟩ := leading_three h h' (by have := toNat_cases c; omega)
  refine ⟨_, _, rfl, fun rest => ?_⟩
  have hsum : (c.toNat / 4096 * 64 + (c.toNat / 64 % 0x40 + 0x80 - 0x80)) * 64 + (c.toNat % 0x40 + 0x80 - 0x80) =
      c.toNat := by omega
  rw [decodeChar_of_leading (by omega) hlead, List.cons_append, List.cons_append, following_cons hsecond (by omega),
    anyByte, following_cons (by omega) (by omega), hsum]
  simp [following, Char.ofNat_toNat]

theorem leading_four (h : 0xFFFF < n) (h' : n < 0x110000) :
    ∃ low high, leading (n / 262144 % 0x08 + 0xF0) = some (n / 262144, [(low, high), anyByte, anyByte]) ∧
      low ≤ n / 4096 % 0x40 + 0x80 ∧ n / 4096 % 0x40 + 0x80 ≤ high := by
  have hbits : n / 262144 % 0x08 + 0xF0 - 0xF0 = n / 262144 := by omega
  rw [leading, if_neg (by omega), if_neg (by omega), if_neg (by omega), if_neg (by omega), if_neg (by omega),
    if_neg (by omega)]
  by_cases hfirst : n / 262144 % 0x08 + 0xF0 = 0xF0
  · refine ⟨0x90, 0xBF, ?_, by omega, by omega⟩
    rw [if_pos hfirst, show n / 262144 = 0 by omega]
  rw [if_neg hfirst]
  by_cases hlast : n / 262144 % 0x08 + 0xF0 < 0xF4
  · refine ⟨0x80, 0xBF, ?_, by omega, by omega⟩
    rw [if_pos hlast, hbits]
    rfl
  · refine ⟨0x80, 0x8F, ?_, by omega, by omega⟩
    rw [if_neg hlast, if_pos (by omega), show n / 262144 = 4 by omega]

theorem reads_four (h : 0xFFFF < c.toNat) :
    Reads c [UInt8.ofNat (c.toNat / 262144 % 0x08 + 0xF0), UInt8.ofNat (c.toNat / 4096 % 0x40 + 0x80),
      UInt8.ofNat (c.toNat / 64 % 0x40 + 0x80), UInt8.ofNat (c.toNat % 0x40 + 0x80)] := by
  obtain ⟨low, high, hlead, hsecond⟩ := leading_four h (by have := toNat_cases c; omega)
  refine ⟨_, _, rfl, fun rest => ?_⟩
  have hsum : ((c.toNat / 262144 * 64 + (c.toNat / 4096 % 0x40 + 0x80 - 0x80)) * 64 +
      (c.toNat / 64 % 0x40 + 0x80 - 0x80)) * 64 + (c.toNat % 0x40 + 0x80 - 0x80) = c.toNat := by
    have := toNat_cases c
    omega
  rw [decodeChar_of_leading (by omega) hlead, List.cons_append, List.cons_append, List.cons_append,
    following_cons hsecond (by omega), anyByte, following_cons (by omega) (by omega),
    following_cons (by omega) (by omega), hsum]
  simp [following, Char.ofNat_toNat]

theorem reads_encodeChar (c : Char) : Reads c (String.utf8EncodeChar c) := by
  have hval : c.val.toNat = c.toNat := rfl
  rw [String.utf8EncodeChar, hval]
  split
  · rename_i hone
    exact reads_one hone
  rename_i hone
  split
  · rename_i htwo
    exact reads_two (by omega) htwo
  rename_i htwo
  split
  · rename_i hthree
    exact reads_three (by omega) hthree
  · rename_i hthree
    exact reads_four (by omega)

theorem decodeLoop_encode (cs : List Char) (h : (encode cs).length ≤ n) : decodeLoop n (encode cs) = cs := by
  induction cs generalizing n with
  | nil => cases n <;> rfl
  | cons c cs ih =>
    obtain ⟨b, more, hbytes, hread⟩ := reads_encodeChar c
    have hcons : encode (c :: cs) = b :: (more ++ encode cs) := by
      rw [encode, List.flatMap_cons, hbytes, List.cons_append]
      rfl
    rw [hcons, List.length_cons, List.length_append] at h
    obtain ⟨n, rfl⟩ := Nat.exists_eq_add_one_of_ne_zero (by omega : n ≠ 0)
    rw [hcons, decodeLoop, hread, ih (by omega)]

theorem decode_encode (cs : List Char) : decode (encode cs) = cs := decodeLoop_encode cs le_rfl

end RyanAI.Lib.Utf8
