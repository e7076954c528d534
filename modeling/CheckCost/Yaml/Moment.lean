import CheckCost.Number.Numeral
import CheckCost.Yaml.Fault

/-!
Dates and times of day as documents write them. Their meaning is a count of days, or of microseconds in
universal time if an offset is given, so that two ways to write one moment are equal.
-/
namespace CheckCost.Yaml

inductive Moment where
  | date (day : Int)
  /-- Microseconds, of universal time if `zoned`. -/
  | time (zoned : Bool) (microseconds : Int)
  deriving DecidableEq, Repr

namespace Moment

structure Clock where
  hour : Nat
  minute : Nat
  second : Nat
  microsecond : Nat
  /-- The offset from universal time in minutes, if one is given. -/
  offset : Option Int
  deriving DecidableEq, Repr

/-- A moment as it is written; the numbers need not be in range. -/
structure Written where
  year : Nat
  month : Nat
  day : Nat
  clock : Option Clock
  deriving DecidableEq, Repr

/-- Between `least` and `most` digits, as many as there are, and the text after them. -/
def digits? (least most : Nat) (cs : List Char) : Option (Nat × List Char) :=
  let digits := ((cs.take most).map Text.asciiDigit?).takeWhile Option.isSome
  if digits.length < least then none
  else some (Number.natOf (digits.filterMap id), cs.drop digits.length)

def after? (mark : Char) : List Char → Option (List Char)
  | c :: rest => if c = mark then some rest else none
  | [] => none

/-- A second's fraction in microseconds; further digits are dropped. -/
def fraction (cs : List Char) : Nat × List Char :=
  match cs with
  | '.' :: rest =>
    let digits := (rest.map Text.asciiDigit?).takeWhile Option.isSome
    let kept := (digits.filterMap id).take 6
    (Number.natOf kept * Nat.pow 10 (6 - kept.length), rest.drop digits.length)
  | _ => (0, cs)

def isBlank (c : Char) : Bool := c = ' ' || c = '\t'

/-- The offset at the end of a text: nothing, the letter Z, or hours and perhaps minutes with a sign. -/
def offset? (cs : List Char) : Option (Option Int) :=
  if cs.isEmpty then some none
  else
    match cs.dropWhile isBlank with
    | ['Z'] => some (some 0)
    | sign :: rest => do
      let direction : Int ← if sign = '+' then some 1 else if sign = '-' then some (-1) else none
      let (hours, afterHours) ← digits? 1 2 rest
      let (minutes, tail) ←
        if afterHours.isEmpty then some (0, [])
        else do digits? 2 2 (← after? ':' afterHours)
      if tail.isEmpty then some (some (direction * (hours * 60 + minutes : Nat))) else none
    | [] => none

def clock? (cs : List Char) : Option Clock := do
  let (hour, afterHour) ← digits? 1 2 cs
  let (minute, afterMinute) ← digits? 2 2 (← after? ':' afterHour)
  let (second, afterSecond) ← digits? 2 2 (← after? ':' afterMinute)
  let (microsecond, tail) := fraction afterSecond
  return ⟨hour, minute, second, microsecond, ← offset? tail⟩

/-- What separates the date from the time of day. -/
def afterSeparator? : List Char → Option (List Char)
  | c :: rest =>
    if c = 'T' || c = 't' then some rest
    else if isBlank c then some (rest.dropWhile isBlank)
    else none
  | [] => none

def written? (cs : List Char) : Option Written := do
  let (year, afterYear) ← digits? 4 4 cs
  let (month, afterMonth) ← digits? 1 2 (← after? '-' afterYear)
  let (day, tail) ← digits? 1 2 (← after? '-' afterMonth)
  if tail.isEmpty then return ⟨year, month, day, none⟩
  else return ⟨year, month, day, some (← clock? (← afterSeparator? tail))⟩

/-- A text without quotes is a moment. A date on its own has to have all its digits. -/
def isWritten (cs : List Char) : Bool :=
  match written? cs with
  | some written => written.clock.isSome || cs.length = 10
  | none => false

def isLeap (year : Nat) : Bool := year % 4 = 0 && (year % 100 != 0 || year % 400 = 0)

def monthLengths (year : Nat) : List Nat :=
  [31, if isLeap year then 29 else 28, 31, 30, 31, 30, 31, 31, 30, 31, 30, 31]

/-- The number of a day, counted from the first day of the year 1. -/
def dayNumber (year month day : Nat) : Int :=
  let past := year - 1
  let months := ((monthLengths year).take (month - 1)).foldl (· + ·) 0
  (past * 365 + past / 4 - past / 100 + past / 400 + months + (day - 1) : Nat)

def dayOf (written : Written) : Except MomentFault Int :=
  if written.year = 0 then .error .year
  else if written.month < 1 || 12 < written.month then .error .month
  else if written.day < 1 || (monthLengths written.year).getD (written.month - 1) 0 < written.day then
    .error .day
  else .ok (dayNumber written.year written.month written.day)

/-- The time of day in microseconds. -/
def timeOfDay (clock : Clock) : Except MomentFault Int :=
  if 23 < clock.hour then .error .hour
  else if 59 < clock.minute then .error .minute
  else if 59 < clock.second then .error .second
  else
    .ok (((clock.hour * 60 + clock.minute) * 60 + clock.second) * 1000000 + clock.microsecond : Nat)

/-- An offset has to be less than a day. -/
def zone : Option Int → Except MomentFault (Option Int)
  | none => .ok none
  | some minutes => if 1440 ≤ minutes.natAbs then .error (.offset minutes) else .ok (some minutes)

def ofWritten (written : Written) : Except MomentFault Moment :=
  match written.clock with
  | none => Moment.date <$> dayOf written
  | some clock => do
    let offset ← zone clock.offset
    let day ← dayOf written
    let time ← timeOfDay clock
    return .time offset.isSome ((day * 1440 - offset.getD 0) * 60000000 + time)

def ofChars (cs : List Char) : Except MomentFault Moment :=
  match written? cs with
  | some written => ofWritten written
  | none => .error .form

end Moment

end CheckCost.Yaml
