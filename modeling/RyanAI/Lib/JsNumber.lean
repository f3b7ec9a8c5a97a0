import RyanAI.Lib.NumericText

/-!
# The numbers of JavaScript as text

A number is a finite double, an infinity or not a number. `toText` is `String(value)`: the shortest decimal digits that
are rounded back to the number, written out or with an exponent. A text is blank if `trim` leaves nothing of it; the
text of a number never is (`not_blank_toText`).
-/

namespace RyanAI.Lib

open NumericText

inductive JsNumber where
  | finite (q : ℚ)
  | infinite (negative : Bool)
  | nan
  deriving DecidableEq

/-- `value.trim()`. -/
def trim (s : String) : String := String.ofList (strip jsSpace s.toList)

/-- `!value.trim()`. -/
def blank (s : String) : Bool := trim s = ""

namespace JsNumber

def neighbours (x : ℚ) : List ℕ := if x - ⌊x⌋ ≤ ⌈x⌉ - x then [⌊x⌋.toNat, ⌈x⌉.toNat] else [⌈x⌉.toNat, ⌊x⌋.toNat]

/-- The least number of digits from `k` on that rounds back to `x`; `point` are those before the
decimal point, `fuel` the digits left to try. -/
def shortest (x : ℚ) (point : ℤ) : (fuel k : ℕ) → ℕ × ℕ
  | 0, k => (((neighbours (x * 10 ^ ((k : ℤ) - point))).head?.getD 0), k)
  | fuel + 1, k =>
    match (neighbours (x * 10 ^ ((k : ℤ) - point))).find?
        fun (s : ℕ) => roundDouble (s * 10 ^ (point - (k : ℤ))) = x with
    | some s => (s, k)
    | none => shortest x point fuel (k + 1)

def exponentText (e : ℤ) : List Char := 'e' :: (if 0 ≤ e then '+' else '-') :: Nat.toDigits 10 e.natAbs

/-- The digits with the decimal point behind the first `point`. -/
def layout (d : Char) (ds : List Char) (point : ℤ) : List Char :=
  let digits := d :: ds
  if digits.length ≤ point ∧ point ≤ 21 then digits ++ List.replicate (point.toNat - digits.length) '0'
  else if 0 < point ∧ point ≤ 21 then digits.take point.toNat ++ '.' :: digits.drop point.toNat
  else if -6 < point ∧ point ≤ 0 then '0' :: '.' :: (List.replicate (-point).toNat '0' ++ digits)
  else if ds = [] then d :: exponentText (point - 1)
  else d :: '.' :: (ds ++ exponentText (point - 1))

def positiveText (x : ℚ) : List Char :=
  let point := Int.log 10 x + 1
  let found := shortest x point 16 1
  let digits := Nat.toDigits 10 found.1
  match digits.rdropWhile (· = '0') with
  | [] => ['0']
  | d :: ds => layout d ds (point + ((digits.length : ℤ) - found.2))

def toText : JsNumber → String
  | .finite q => String.ofList (if q = 0 then ['0'] else if 0 < q then positiveText q else '-' :: positiveText (-q))
  | .infinite negative => if negative then "-Infinity" else "Infinity"
  | .nan => "NaN"

end JsNumber

/-! ## Blank texts -/

theorem blank_eq_true : blank s = true ↔ strip jsSpace s.toList = [] := by
  rw [blank, decide_eq_true_eq, trim]
  constructor
  · intro h
    simpa using congrArg String.toList h
  · intro h
    rw [h]

theorem blank_iff : blank s = true ↔ ∀ c ∈ s.toList, jsSpace c = true := by
  rw [blank_eq_true]
  constructor
  · intro h c hc
    obtain ⟨a, b, hs, ha, hb⟩ := strip_spec jsSpace s.toList
    rw [h, List.nil_append] at hs
    rw [hs] at hc
    rcases List.mem_append.1 hc with hc | hc
    · exact ha c hc
    · exact hb c hc
  · intro h
    rw [strip, List.dropWhile_eq_nil_iff.2 h, List.rdropWhile_nil]

theorem not_blank_of_mem (hc : c ∈ s.toList) (hspace : jsSpace c = false) : blank s = false := by
  have hne : ¬ blank s = true := by
    intro h
    rw [blank_iff.1 h c hc] at hspace
    cases hspace
  simpa using hne

/-- What `trim` leaves of a text is blank only if the text is. -/
theorem blank_trim (s : String) : blank (trim s) = blank s := by
  rw [Bool.eq_iff_iff, blank_iff, blank_iff, trim, String.toList_ofList]
  obtain ⟨a, b, hs, ha, hb⟩ := strip_spec jsSpace s.toList
  constructor
  · intro h c hc
    rw [hs] at hc
    rcases List.mem_append.1 hc with hc | hc
    · exact ha c hc
    · rcases List.mem_append.1 hc with hc | hc
      · exact h c hc
      · exact hb c hc
  · intro h c hc
    exact h c (by rw [hs]; exact List.mem_append_right _ (List.mem_append_left _ hc))

theorem not_blank_append (h : blank s = false) : blank (s ++ t) = false := by
  have hne : ¬ ∀ c ∈ s.toList, jsSpace c = true := by
    rw [← blank_iff, h]
    exact Bool.false_ne_true
  push Not at hne
  obtain ⟨c, hc, hspace⟩ := hne
  exact not_blank_of_mem (by rw [String.toList_append]; exact List.mem_append_left _ hc) (by simpa using hspace)

namespace JsNumber

theorem jsSpace_of_isDigit (h : c.isDigit = true) : jsSpace c = false := by
  simp only [Char.isDigit, Bool.and_eq_true, decide_eq_true_eq] at h
  have hlo : 48 ≤ c.toNat := h.1
  have hhi : c.toNat ≤ 57 := h.2
  rw [jsSpace, decide_eq_false_iff_not]
  intro hspace
  simp [commonSpaces] at hspace
  omega

theorem mem_layout (d : Char) (ds : List Char) (point : ℤ) : d ∈ layout d ds point := by
  simp only [layout]
  split_ifs with hwhole hpoint hsmall hone
  · simp
  · obtain ⟨n, hn⟩ : ∃ n : ℕ, point.toNat = n + 1 := ⟨point.toNat - 1, by omega⟩
    rw [hn]
    simp
  · simp
  · simp
  · simp

theorem exists_digit_positiveText (x : ℚ) : ∃ c ∈ positiveText x, c.isDigit = true := by
  simp only [positiveText]
  generalize shortest x (Int.log 10 x + 1) 16 1 = found
  split
  · exact ⟨'0', by simp, by decide⟩
  rename_i d ds hdigits
  refine ⟨d, mem_layout d ds _, ?_⟩
  have hmem : d ∈ (Nat.toDigits 10 found.1).rdropWhile (· = '0') := by
    rw [hdigits]
    exact List.mem_cons_self
  exact Nat.isDigit_of_mem_toDigits (by decide) (by decide) ((List.rdropWhile_prefix _ _).subset hmem)

theorem not_blank_toText (q : ℚ) : blank (toText (.finite q)) = false := by
  obtain ⟨c, hc, hdigit⟩ : ∃ c ∈ (toText (.finite q)).toList, c.isDigit = true := by
    rw [toText, String.toList_ofList]
    split_ifs with hzero hpos
    · exact ⟨'0', by simp, by decide⟩
    · exact exists_digit_positiveText q
    · obtain ⟨c, hc, hdigit⟩ := exists_digit_positiveText (-q)
      exact ⟨c, List.mem_cons_of_mem _ hc, hdigit⟩
  exact not_blank_of_mem hc (jsSpace_of_isDigit hdigit)

end JsNumber

end RyanAI.Lib
