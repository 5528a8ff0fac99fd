import IsoMedia.Text.Blank
import IsoMedia.Text.Digits

/-!
# Dates

Dates of the Gregorian calendar, carried on before its introduction, with a year 0.  Dates are compared
by the number of their day (`Date.dayNumber`), written as `Date.text` and read by `Date.ofChars?`, which
is lenient about signs, blanks and leading zeros.
-/

namespace IsoMedia

def isLeapYear (year : Int) : Bool := year % 4 = 0 && (year % 100 ≠ 0 || year % 400 = 0)

/-- The days of the months of a year. -/
def monthLengths (year : Int) : List Nat :=
  [31, if isLeapYear year then 29 else 28, 31, 30, 31, 30, 31, 31, 30, 31, 30, 31]

def monthLength (year : Int) (month : Nat) : Nat := (monthLengths year).getD (month - 1) 0

/-- A date.  Months and days are counted from 1. -/
structure Date where
  year : Int
  month : Nat
  day : Nat
  month_bounds : 1 ≤ month ∧ month ≤ 12
  day_bounds : 1 ≤ day ∧ day ≤ monthLength year month
deriving DecidableEq

namespace Date

/-- The first and the last year that there are dates of. -/
def firstYear : Int := -262143
def lastYear : Int := 262142

/-- The date of the given numbers, if there is one. -/
def of? (year : Int) (month day : Nat) : Option Date :=
  if h : (1 ≤ month ∧ month ≤ 12) ∧ 1 ≤ day ∧ day ≤ monthLength year month then
    if firstYear ≤ year ∧ year ≤ lastYear then some ⟨year, month, day, h.1, h.2⟩ else none
  else none

/-- The days of all years before the given one, counted from the year 1. -/
def daysBeforeYear (year : Int) : Int :=
  let y := year - 1
  365 * y + y / 4 - y / 100 + y / 400

/-- The number of a day; the day after it has the next number. -/
def dayNumber (d : Date) : Int :=
  let before : Nat := ((monthLengths d.year).take (d.month - 1)).foldl (· + ·) 0
  daysBeforeYear d.year + before + d.day

/-- The numbers of the first and the last day that there are. -/
def firstDay : Int := daysBeforeYear firstYear + 1
def lastDay : Int := daysBeforeYear (lastYear + 1)

/-- The number of the day that lies so many days before a date, if there is such a day. -/
def dayBefore? (d : Date) (days : Int) : Option Int :=
  let n := d.dayNumber - days
  if firstDay ≤ n ∧ n ≤ lastDay then some n else none

/-- A year has four digits, or else a sign and at least four digits. -/
def yearText (year : Int) : String :=
  let digits := Digits.padded 4 year.natAbs
  if 0 ≤ year ∧ year < 10000 then digits else (if year < 0 then "-" else "+") ++ digits

/-- Year, month and day, joined by hyphens. -/
def text (d : Date) : String :=
  s!"{yearText d.year}-{Digits.padded 2 d.month}-{Digits.padded 2 d.day}"

/-! ### Reading -/

/-- A number of at least one and at most `most` digits, and what follows it. -/
def number? (most : Nat) (cs : List Char) : Option (Nat × List Char) :=
  let ds := (cs.take most).takeWhile Char.isDigit
  if ds = [] then none else some (Digits.value ds, cs.drop ds.length)

/-- A year and what follows it.  Only behind a sign it may have more than four digits. -/
def year? : List Char → Option (Int × List Char)
  | '-' :: cs => (number? cs.length cs).map fun (n, rest) => (-(n : Int), rest)
  | '+' :: cs => (number? cs.length cs).map fun (n, rest) => ((n : Int), rest)
  | cs => (number? 4 cs).map fun (n, rest) => ((n : Int), rest)

/-- What follows a hyphen. -/
def afterHyphen? : List Char → Option (List Char)
  | '-' :: cs => some cs
  | _ => none

/-- The date that characters spell: year, month and day, joined by hyphens.  Blanks may stand before
each number, and a month or a day may have one digit. -/
def ofChars? (cs : List Char) : Option Date := do
  let (year, cs) ← year? (Text.trimStart cs)
  let cs ← afterHyphen? cs
  let (month, cs) ← number? 2 (Text.trimStart cs)
  let cs ← afterHyphen? cs
  let (day, cs) ← number? 2 (Text.trimStart cs)
  if cs = [] then of? year month day else none

end Date

end IsoMedia
