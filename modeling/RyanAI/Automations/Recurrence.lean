import RyanAI.Lib.Ascending

/-!
# Recurrence rules

`utils/recurrence.py` has dateutil read a rule and asks it for the next occurrences. A sub-daily rule is anchored to the
clock grid of 2000-01-01 if it has no DTSTART, or if an estimate of the occurrences since then passes 100,000.

dateutil is a parameter, `Calendar`: it accepts or refuses a rule, and enumerates the occurrences of one that it accepts
in ascending order. Times are those of the clock on the wall: occurrences in seconds since 1970, `now` and `anchor` in
microseconds.
-/

namespace RyanAI.Automations.Recurrence

open RyanAI.Lib.Ascending

/-! ## Rules -/

/-- `datetime.min`. -/
def minTime : Int := -62135596800

/-- `datetime(2000, 1, 1)`. -/
def epoch : Int := 946684800

inductive Freq where
  | yearly
  | monthly
  | weekly
  | daily
  | hourly
  | minutely
  | secondly
deriving DecidableEq

def Freq.unit : Freq → Option Nat
  | .hourly => some 3600
  | .minutely => some 60
  | .secondly => some 1
  | _ => none

/-- An absent list is empty. COUNT, UNTIL, the other BY parts, RDATE and EXDATE are left to dateutil, as `rest`. -/
structure Parts (D : Type) where
  freq : Freq
  interval : Int
  byminute : List Nat
  bysecond : List Nat
  rest : D

/-- A DTSTART, and whether it has a time zone. -/
structure Start where
  time : Int
  tzinfo : Bool

/-- What dateutil makes of a text that it can read. -/
structure Text (D : Type) where
  exrule : Bool
  rules : List (Parts D)
  dtstart : Option Start

/-- An `rrule` of dateutil. -/
structure Rule (D : Type) extends Parts D where
  dtstart : Int

/-- What is used of dateutil: whether a rule can be constructed, and its occurrences. -/
structure Calendar (D : Type) where
  accepts : Rule D → Bool
  occurrences : Rule D → List Int
  ascending : ∀ r, (occurrences r).Pairwise (· < ·)

def minute (x : Int) : Nat := (x % 3600 / 60).toNat

def second (x : Int) : Nat := (x % 60).toNat

variable {D : Type}

/-- The numbers of `byxxx` that a rule reaches from `start`. -/
def constructByset (interval : Int) (start : Nat) (byxxx : List Nat) (base : Nat) : List Nat :=
  byxxx.filter fun num => ((num : Int) - start) % Int.gcd interval base = 0

/-- `_byminute`; empty for `None`. -/
def Rule.byminuteSet (r : Rule D) : List Nat :=
  if r.byminute = [] then (if r.freq = .hourly then [minute r.dtstart] else [])
  else if r.freq = .minutely then constructByset r.interval (minute r.dtstart) r.byminute.dedup 60
  else r.byminute.dedup

/-- `_bysecond`; empty for `None`. -/
def Rule.bysecondSet (r : Rule D) : List Nat :=
  if r.bysecond = [] then (if r.freq = .secondly then [] else [second r.dtstart])
  else if r.freq = .secondly then constructByset r.interval (second r.dtstart) r.bysecond.dedup 60
  else r.bysecond.dedup

/-- `rule.after(now)`. -/
def Rule.after (cal : Calendar D) (r : Rule D) (now : Int) : Option Int :=
  (cal.occurrences r).find? fun x => now < x * 1000000

/-- `ValueError`, `IndexError`, `OverflowError` of datetime arithmetic, and the errors of dateutil. -/
inductive RuleError where
  | exrule
  | several
  | interval
  | index
  | overflow
  | refused
deriving DecidableEq

/-- `timedelta(hours=interval)` is in range; the other two are then as well. -/
def timedeltaFits (interval : Int) : Bool := -23999999976 ≤ interval && interval < 24000000000

/-- `emitted`, an estimate of the occurrences from `start` to `anchor`. -/
def emitted (parts : Parts D) (unit : Nat) (start : Int) (anchor : Int) : Int :=
  let rule : Rule D := { parts with dtstart := start }
  (if start * 1000000 < anchor then (anchor - start * 1000000) / (unit * parts.interval * 1000000) else 0) *
    (max 1 rule.byminuteSet.length : Nat) * (max 1 rule.bysecondSet.length : Nat)

/-- `epoch + ((anchor - epoch) // step) * step`. -/
def clockStart (interval : Int) (unit : Nat) (anchor : Int) : Int :=
  epoch + (anchor - epoch * 1000000) / (unit * interval * 1000000) * (unit * interval)

/-- `rrulestr(stripped, dtstart=dtstart, ignoretz=True)`. -/
def anchored (cal : Calendar D) (parts : Parts D) (dtstart : Int) : Except RuleError (Rule D) :=
  if cal.accepts ⟨parts, dtstart⟩ then .ok ⟨parts, dtstart⟩ else .error .refused

/-- The rule with its own DTSTART, less its time zone. -/
def ownRule (cal : Calendar D) (parts : Parts D) (start : Start) : Except RuleError (Rule D) :=
  if start.tzinfo then anchored cal parts start.time else .ok ⟨parts, start.time⟩

def clockRule (cal : Calendar D) (parts : Parts D) (unit : Nat) (anchor : Int) : Except RuleError (Rule D) :=
  if clockStart parts.interval unit anchor < minTime then .error .overflow
  else anchored cal parts (clockStart parts.interval unit anchor)

/-- `_parse_rule`. -/
def parseRule (cal : Calendar D) (s : Text D) (now : Int) : Except RuleError (Rule D) :=
  if s.exrule then .error .exrule
  else match s.rules with
  | [] => .error .index
  | [parts] =>
    if !timedeltaFits parts.interval then .error .overflow
    else match parts.freq.unit, s.dtstart with
    | none, none => anchored cal parts (now / 1000000 / 60 * 60)
    | none, some start => ownRule cal parts start
    | some unit, dtstart =>
      if parts.interval < 1 then .error .interval
      else match dtstart with
      | none => clockRule cal parts unit now
      | some start =>
        if emitted parts unit start.time now ≤ 100000 then ownRule cal parts start
        else clockRule cal parts unit now
  | _ => .error .several

/-- The loop over `range(n)`. -/
def nextLoop (cal : Calendar D) (rule : Rule D) : Nat → Int → List Int
  | 0, _ => []
  | n + 1, now =>
    match rule.after cal now with
    | none => []
    | some x => x :: nextLoop cal rule n (x * 1000000)

/-- `_next_occurrences`. -/
def nextOccurrences (cal : Calendar D) (s : Text D) (now : Int) (n : Nat) : Except RuleError (List Int) :=
  match parseRule cal s now with
  | .error e => .error e
  | .ok rule => .ok (nextLoop cal rule n now)

/-! ## The next occurrences -/

/-- The occurrences later than `now`. -/
def later (now : Int) (occurrences : List Int) : List Int := beyond (now / 1000000) occurrences

theorem after_eq (cal : Calendar D) (r : Rule D) (now : Int) :
    r.after cal now = successor (cal.occurrences r) (now / 1000000) := by
  rw [Rule.after, successor]
  congr 1
  funext x
  exact decide_eq_decide.2 (by omega)

/-- The loop returns the first `n` occurrences later than `now`. -/
theorem nextLoop_eq (cal : Calendar D) (r : Rule D) (n : Nat) (now : Int) :
    nextLoop cal r n now = (later now (cal.occurrences r)).take n := by
  have hwalk : nextLoop cal r n now = walk (cal.occurrences r) n (now / 1000000) := by
    induction n generalizing now with
    | zero => rfl
    | succ n ih =>
      rw [nextLoop, walk, after_eq]
      cases successor (cal.occurrences r) (now / 1000000) with
      | none => rfl
      | some x =>
        -- the loop goes on from the occurrence in microseconds
        have hx : x * 1000000 / 1000000 = x := by omega
        have ih := ih (x * 1000000)
        rw [hx] at ih
        simp only [ih]
  rw [hwalk, walk_eq (cal.ascending r), later]

end RyanAI.Automations.Recurrence
