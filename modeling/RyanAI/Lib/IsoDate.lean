import RyanAI.Lib.NumericText

/-!
# Dates in ISO format

A time value is a number of milliseconds since the beginning of 1970, in the calendar that goes on without end in both
directions. `toISOString` prints it the way JavaScript does, the year with four digits, or with a sign and six;
`parseISO` reads a text of that form. What is printed of a time value in the range of dates is read back as that time
value (`parseISO_toISOString`).
-/

namespace RyanAI.Lib.IsoDate

open NumericText

/-! ## The calendar -/

def msPerDay : ℤ := 86400000

def maxTime : ℤ := 8640000000000000

def dayFromYear (y : ℤ) : ℤ := 365 * (y - 1970) + (y - 1969) / 4 - (y - 1901) / 100 + (y - 1601) / 400

def leapYear (y : ℤ) : Bool := y % 4 = 0 ∧ (y % 100 ≠ 0 ∨ y % 400 = 0)

def yearFromDay (day : ℤ) : ℤ :=
  let y := 1970 + 400 * day / 146097
  if day < dayFromYear y then y - 1 else if dayFromYear (y + 1) ≤ day then y + 1 else y

def monthStarts (leap : Bool) : List ℤ :=
  if leap then [0, 31, 60, 91, 121, 152, 182, 213, 244, 274, 305, 335]
  else [0, 31, 59, 90, 120, 151, 181, 212, 243, 273, 304, 334]

def monthFromDay (leap : Bool) (d : ℤ) : ℕ := ((monthStarts leap).filter fun start => start ≤ d).length

def monthStart (leap : Bool) (month : ℕ) : ℤ := (monthStarts leap).getD (month - 1) 0

theorem dayFromYear_yearFromDay (day : ℤ) :
    dayFromYear (yearFromDay day) ≤ day ∧ day < dayFromYear (yearFromDay day + 1) := by
  simp only [yearFromDay]
  split_ifs with hbefore hafter
  · rw [sub_add_cancel]
    refine ⟨?_, hbefore⟩
    simp only [dayFromYear] at *
    omega
  · refine ⟨hafter, ?_⟩
    simp only [dayFromYear] at *
    omega
  · exact ⟨not_lt.1 hbefore, not_le.1 hafter⟩

theorem dayFromYear_succ (y : ℤ) : dayFromYear (y + 1) = dayFromYear y + if leapYear y then 366 else 365 := by
  simp only [dayFromYear, leapYear, decide_eq_true_eq]
  split_ifs with h <;> omega

theorem monthFromDay_spec : ∀ (leap : Bool) (d : Fin 366), d.val < (if leap then 366 else 365) →
    1 ≤ monthFromDay leap d.val ∧ monthFromDay leap d.val ≤ 12 ∧
      monthStart leap (monthFromDay leap d.val) ≤ d.val ∧
      d.val - monthStart leap (monthFromDay leap d.val) < 31 := by
  decide +kernel

/-! ## Numbers of a fixed width -/

/-- The last `w` digits of a number. -/
def padded : ℕ → ℕ → List Char
  | 0, _ => []
  | w + 1, n => padded w (n / 10) ++ [Nat.digitChar (n % 10)]

/-- The value of a text of `w` digits. -/
def readFixed (w : ℕ) (cs : List Char) : Option ℕ :=
  if cs.length = w then (readDigits decDigit cs).map (ofDigits 10) else none

/-- A separator and the number of `w` digits that follows it, with the rest. -/
def field (sep : Char) (w : ℕ) : List Char → Option (ℕ × List Char)
  | [] => none
  | c :: cs => if c = sep then (readFixed w (cs.take w)).map fun n => (n, cs.drop w) else none

@[simp] theorem length_padded (w n : ℕ) : (padded w n).length = w := by
  induction w generalizing n with
  | zero => rfl
  | succ w ih => simp [padded, ih]

theorem decDigit_digitChar : ∀ d, d < 10 → decDigit (Nat.digitChar d) = some d := by decide

theorem readDigits_append {digit : Char → Option ℕ}
    (hc : readDigits digit cs = some ds) (he : readDigits digit es = some fs) :
    readDigits digit (cs ++ es) = some (ds ++ fs) := by
  induction cs generalizing ds with
  | nil =>
    cases hc
    exact he
  | cons c rest ih =>
    simp only [readDigits, Option.bind_eq_some_iff, Option.map_eq_some_iff] at hc
    obtain ⟨d, hd, ds', hds', rfl⟩ := hc
    simp [readDigits, hd, ih hds']

theorem readDigits_padded (w n : ℕ) :
    ∃ ds, readDigits decDigit (padded w n) = some ds ∧ ofDigits 10 ds = n % 10 ^ w := by
  induction w generalizing n with
  | zero => exact ⟨[], rfl, by simp [ofDigits, Nat.mod_one]⟩
  | succ w ih =>
    obtain ⟨ds, hds, hval⟩ := ih (n / 10)
    have hlast : readDigits decDigit [Nat.digitChar (n % 10)] = some [n % 10] := by
      simp [readDigits, decDigit_digitChar _ (Nat.mod_lt n (by decide))]
    refine ⟨ds ++ [n % 10], readDigits_append hds hlast, ?_⟩
    have hsnoc : ofDigits 10 (ds ++ [n % 10]) = ofDigits 10 ds * 10 + n % 10 := by simp [ofDigits]
    rw [hsnoc, hval, pow_succ, mul_comm (10 ^ w) 10, Nat.mod_mul]
    ring

theorem readFixed_padded (h : n < 10 ^ w) : readFixed w (padded w n) = some n := by
  obtain ⟨ds, hds, hval⟩ := readDigits_padded w n
  rw [readFixed, if_pos (length_padded w n), hds, Option.map_some, hval, Nat.mod_eq_of_lt h]

theorem field_padded (sep : Char) (rest : List Char) (h : n < 10 ^ w) :
    field sep w (sep :: (padded w n ++ rest)) = some (n, rest) := by
  have htake : (padded w n ++ rest).take w = padded w n := by
    rw [List.take_left' (length_padded w n)]
  have hdrop : (padded w n ++ rest).drop w = rest := by
    rw [List.drop_left' (length_padded w n)]
  rw [field, if_pos rfl, htake, hdrop, readFixed_padded h, Option.map_some]

/-! ## Printing and reading -/

def yearText (y : ℤ) : List Char :=
  if 0 ≤ y ∧ y ≤ 9999 then padded 4 y.toNat
  else if 0 ≤ y then '+' :: padded 6 y.toNat
  else '-' :: padded 6 (-y).toNat

/-- `new Date(t).toISOString()`. -/
def toISOString (t : ℤ) : List Char :=
  let y := yearFromDay (t / msPerDay)
  let d := t / msPerDay - dayFromYear y
  let month := monthFromDay (leapYear y) d
  let r := (t % msPerDay).toNat
  yearText y ++ ('-' :: (padded 2 month ++ ('-' :: (padded 2 (d - monthStart (leapYear y) month + 1).toNat ++
    ('T' :: (padded 2 (r / 3600000) ++ (':' :: (padded 2 (r / 60000 % 60) ++
      (':' :: (padded 2 (r / 1000 % 60) ++ ('.' :: (padded 3 (r % 1000) ++ ['Z']))))))))))))

def readYear (cs : List Char) : Option (ℤ × List Char) :=
  match cs with
  | '+' :: cs => (readFixed 6 (cs.take 6)).map fun (y : ℕ) => ((y : ℤ), cs.drop 6)
  | '-' :: cs => ((readFixed 6 (cs.take 6)).filter fun y => y ≠ 0).map fun (y : ℕ) => (-(y : ℤ), cs.drop 6)
  | cs => (readFixed 4 (cs.take 4)).map fun (y : ℕ) => ((y : ℤ), cs.drop 4)

/-- `MakeDate`, with `TimeClip`. -/
def makeDate (y : ℤ) (month day hour minute second ms : ℕ) : Option ℤ :=
  let days := dayFromYear y + monthStart (leapYear y) month + (day - 1)
  let t := days * msPerDay + hour * 3600000 + minute * 60000 + second * 1000 + ms
  if |t| ≤ maxTime then some t else none

def FieldsOk (month day hour minute second ms : ℕ) : Prop :=
  1 ≤ month ∧ month ≤ 12 ∧ 1 ≤ day ∧ day ≤ 31 ∧ minute ≤ 59 ∧ second ≤ 59 ∧
    (hour ≤ 23 ∨ hour = 24 ∧ minute = 0 ∧ second = 0 ∧ ms = 0)

instance (month day hour minute second ms : ℕ) : Decidable (FieldsOk month day hour minute second ms) := by
  unfold FieldsOk
  infer_instance

/-- `Date.parse` of a text in the format of `toISOString`. -/
def parseISO (cs : List Char) : Option ℤ := do
  let (y, cs) ← readYear cs
  let (month, cs) ← field '-' 2 cs
  let (day, cs) ← field '-' 2 cs
  let (hour, cs) ← field 'T' 2 cs
  let (minute, cs) ← field ':' 2 cs
  let (second, cs) ← field ':' 2 cs
  let (ms, cs) ← field '.' 3 cs
  if cs = ['Z'] ∧ FieldsOk month day hour minute second ms then makeDate y month day hour minute second ms
  else none

theorem padded_head : ∀ c ∈ (padded w n).head?, c ≠ '+' ∧ c ≠ '-' := by
  intro c hc
  obtain ⟨ds, hds, -⟩ := readDigits_padded w n
  have hmem : c ∈ padded w n := List.mem_of_mem_head? hc
  have hdigit : ∀ c ∈ padded w n, (decDigit c).isSome = true := isSome_of_readDigits hds
  constructor
  · rintro rfl
    exact absurd (hdigit _ hmem) (by decide)
  · rintro rfl
    exact absurd (hdigit _ hmem) (by decide)

theorem readYear_yearText (hy : |y| < 1000000) (rest : List Char) :
    readYear (yearText y ++ rest) = some (y, rest) := by
  obtain ⟨hlo, hhi⟩ := abs_lt.1 hy
  have htake : ∀ w n, (padded w n ++ rest).take w = padded w n := fun w n => List.take_left' (length_padded w n)
  have hdrop : ∀ w n, (padded w n ++ rest).drop w = rest := fun w n => List.drop_left' (length_padded w n)
  rw [yearText]
  split_ifs with hshort hpos
  · -- four digits, the first of which is no sign
    have hval : readFixed 4 (padded 4 y.toNat) = some y.toNat := readFixed_padded (by omega)
    have hcs : padded 4 y.toNat ≠ [] := by
      intro h
      simpa [h] using length_padded 4 y.toNat
    obtain ⟨c, cs, hcons⟩ := List.exists_cons_of_ne_nil hcs
    have hsign := padded_head (w := 4) (n := y.toNat) c (by rw [hcons, List.head?_cons]; rfl)
    have hread : readYear (padded 4 y.toNat ++ rest) =
        (readFixed 4 ((padded 4 y.toNat ++ rest).take 4)).map
          fun (y' : ℕ) => ((y' : ℤ), (padded 4 y.toNat ++ rest).drop 4) := by
      rw [hcons, List.cons_append, readYear]
      · exact fun _ h => hsign.1 (List.cons.inj h).1
      · exact fun _ h => hsign.2 (List.cons.inj h).1
    rw [hread, htake, hdrop, hval, Option.map_some]
    simp only [Option.some.injEq, Prod.mk.injEq, and_true]
    omega
  · have hval : readFixed 6 (padded 6 y.toNat) = some y.toNat := readFixed_padded (by omega)
    rw [List.cons_append, readYear, htake, hdrop, hval, Option.map_some]
    simp only [Option.some.injEq, Prod.mk.injEq, and_true]
    omega
  · have hval : readFixed 6 (padded 6 (-y).toNat) = some (-y).toNat := readFixed_padded (by omega)
    have hne : (-y).toNat ≠ 0 := by omega
    rw [List.cons_append, readYear, htake, hdrop, hval, Option.filter_some, if_pos (by simpa using hne),
      Option.map_some]
    simp only [Option.some.injEq, Prod.mk.injEq, and_true]
    omega

theorem abs_yearFromDay_lt (ht : |t| ≤ maxTime) : |yearFromDay (t / msPerDay)| < 1000000 := by
  obtain ⟨hlo, hhi⟩ := abs_le.1 ht
  obtain ⟨hbegin, hend⟩ := dayFromYear_yearFromDay (t / msPerDay)
  generalize yearFromDay (t / msPerDay) = y at *
  simp only [dayFromYear, msPerDay, maxTime] at *
  rw [abs_lt]
  omega

theorem parseISO_toISOString (ht : |t| ≤ maxTime) : parseISO (toISOString t) = some t := by
  have hyear := abs_yearFromDay_lt ht
  obtain ⟨hbegin, hend⟩ := dayFromYear_yearFromDay (t / msPerDay)
  rw [dayFromYear_succ] at hend
  simp only [toISOString]
  generalize hy : yearFromDay (t / msPerDay) = y at *
  generalize hd : t / msPerDay - dayFromYear y = d at *
  generalize hr : (t % msPerDay).toNat = r
  have hrlt : r < 86400000 := by
    simp only [msPerDay] at hr
    omega
  have hdlt : d < if leapYear y then 366 else 365 := by
    split_ifs at hend ⊢ <;> omega
  obtain ⟨n, rfl⟩ : ∃ n : ℕ, d = n := ⟨d.toNat, by omega⟩
  have hn : n < 366 := by
    split_ifs at hdlt <;> omega
  obtain ⟨hm₁, hm₁₂, hstart, hday⟩ := monthFromDay_spec (leapYear y) ⟨n, hn⟩ (by
    simp only
    split_ifs at hdlt ⊢ <;> omega)
  simp only at hm₁ hm₁₂ hstart hday
  generalize monthFromDay (leapYear y) n = month at *
  generalize hs : monthStart (leapYear y) month = start at *
  have hok : FieldsOk month (n - start + 1 : ℤ).toNat (r / 3600000) (r / 60000 % 60) (r / 1000 % 60) (r % 1000) :=
    ⟨hm₁, hm₁₂, by omega, by omega, by omega, by omega, .inl (by omega)⟩
  -- the fields are read in the order in which they are printed
  rw [parseISO, readYear_yearText hyear, Option.bind_eq_bind, Option.bind_some]
  simp only [Option.bind_eq_bind]
  rw [field_padded '-' _ (by omega), Option.bind_some]
  simp only
  rw [field_padded '-' _ (by omega), Option.bind_some]
  rw [field_padded 'T' _ (by omega), Option.bind_some]
  rw [field_padded ':' _ (by omega), Option.bind_some]
  rw [field_padded ':' _ (by omega), Option.bind_some]
  rw [field_padded '.' _ (by omega), Option.bind_some]
  simp only
  rw [if_pos ⟨trivial, hok⟩]
  have htime : (dayFromYear y + start + (((n - start + 1 : ℤ).toNat : ℤ) - 1)) * msPerDay + (r / 3600000 : ℕ) * 3600000 +
      (r / 60000 % 60 : ℕ) * 60000 + (r / 1000 % 60 : ℕ) * 1000 + (r % 1000 : ℕ) = t := by
    simp only [msPerDay] at *
    omega
  simp only [makeDate, hs, htime]
  rw [if_pos ht]

end RyanAI.Lib.IsoDate
