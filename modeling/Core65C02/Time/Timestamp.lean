import Core65C02.Text.Blank

/-!
# Timestamps

A point in time in Coordinated Universal Time, to the nanosecond. It is written in the form of
RFC 3339. Reading is more tolerant than that: blanks may stand around the separators, a blank may
separate date and time, and the offset from Universal Time is taken off.
-/

namespace Core65C02

/-- A day of the Gregorian calendar, extended to all years. -/
structure Date where
  /-- The year; zero is the year before the year one. -/
  year : Int
  /-- The month, counted from one. -/
  month : Nat
  /-- The day of the month, counted from one. -/
  day : Nat
deriving DecidableEq, Inhabited

namespace Date

/-- Whether a year has a 29th of February. -/
def isLeapYear (year : Int) : Bool := year % 4 == 0 && (year % 100 != 0 || year % 400 == 0)

/-- The number of days of a month, zero if there is no such month. -/
def daysIn (year : Int) (month : Nat) : Nat :=
  match month with
  | 1 | 3 | 5 | 7 | 8 | 10 | 12 => 31
  | 4 | 6 | 9 | 11 => 30
  | 2 => if isLeapYear year then 29 else 28
  | _ => 0

/-- The years that timestamps cover. -/
def isCovered (year : Int) : Bool := -262143 ≤ year && year ≤ 262142

/-- Whether there is such a day. -/
def isValid (d : Date) : Bool :=
  isCovered d.year && 1 ≤ d.day && d.day ≤ daysIn d.year d.month

/-- The day after. -/
def next (d : Date) : Date :=
  if d.day < daysIn d.year d.month then { d with day := d.day + 1 }
  else if d.month < 12 then ⟨d.year, d.month + 1, 1⟩
  else ⟨d.year + 1, 1, 1⟩

/-- The day before. -/
def previous (d : Date) : Date :=
  if 1 < d.day then { d with day := d.day - 1 }
  else if 1 < d.month then ⟨d.year, d.month - 1, daysIn d.year (d.month - 1)⟩
  else ⟨d.year - 1, 12, 31⟩

/-- The number of days from the first of March of the year zero to the first of January 1970. -/
def epoch : Int := 719468

/-- The day that is a number of days after the first of January 1970. Years are counted from March,
so that a leap day is the last of its year, and in eras of 400 years, which all have 146097 days. -/
def ofDays (days : Int) : Date :=
  let shifted := days + epoch
  let era := shifted / 146097
  let dayOfEra := (shifted % 146097).toNat
  let yearOfEra := (dayOfEra - dayOfEra / 1460 + dayOfEra / 36524 - dayOfEra / 146096) / 365
  let dayOfYear := dayOfEra - (365 * yearOfEra + yearOfEra / 4 - yearOfEra / 100)
  let fromMarch := (5 * dayOfYear + 2) / 153
  let month := if fromMarch < 10 then fromMarch + 3 else fromMarch - 9
  let year : Int := era * 400 + yearOfEra + (if month ≤ 2 then 1 else 0)
  ⟨year, month, dayOfYear - (153 * fromMarch + 2) / 5 + 1⟩

end Date

/-- A point in time in Coordinated Universal Time. -/
structure Timestamp where
  /-- The day. -/
  date : Date
  /-- The hour, from 0 to 23. -/
  hour : Nat
  /-- The minute, from 0 to 59. -/
  minute : Nat
  /-- The second, from 0 to 59, or 60 for a leap second. -/
  second : Nat
  /-- The nanoseconds of the second. -/
  nanosecond : Nat := 0
deriving DecidableEq, Inhabited

namespace Timestamp

/-- Whether a character is one of the ten digits. -/
def isDigit (c : Char) : Bool := '0' ≤ c && c ≤ '9'

/-- The number that digits stand for. -/
def ofDigits (digits : List Char) : Nat := digits.foldl (fun n c => n * 10 + (c.toNat - 48)) 0

/-- A number of at least one digit and at most `width`, with the text after it. -/
def readNumber (width : Nat) (cs : List Char) : Option (Nat × List Char) :=
  match (cs.take width).takeWhile isDigit with
  | [] => none
  | digits => some (ofDigits digits, cs.drop digits.length)

/-- A number of at most two digits after blanks. -/
def readField (cs : List Char) : Option (Nat × List Char) := readNumber 2 (Text.trimStart cs)

/-- A year after blanks: four digits at most, or a sign and any number of digits. -/
def readYear (cs : List Char) : Option (Int × List Char) :=
  match Text.trimStart cs with
  | '-' :: rest => (readNumber rest.length rest).map fun (n, rest) => (-(n : Int), rest)
  | '+' :: rest => (readNumber rest.length rest).map fun (n, rest) => ((n : Int), rest)
  | rest => (readNumber 4 rest).map fun (n, rest) => ((n : Int), rest)

/-- The text after a separator, which may follow blanks. -/
def readSeparator (separator : Char) (cs : List Char) : Option (List Char) :=
  match Text.trimStart cs with
  | c :: rest => if c = separator then some rest else none
  | [] => none

/-- The nanoseconds of an optional fraction, of which digits after the ninth do not count. -/
def readFraction : List Char → Option (Nat × List Char)
  | '.' :: rest =>
    match rest.takeWhile isDigit with
    | [] => none
    | digits =>
      let kept := digits.take 9
      some (ofDigits (kept ++ List.replicate (9 - kept.length) '0'), rest.dropWhile isDigit)
  | rest => some (0, rest)

/-- A day. -/
def readDate (cs : List Char) : Option (Date × List Char) := do
  let (year, rest) ← readYear cs
  let rest ← readSeparator '-' rest
  let (month, rest) ← readField rest
  let rest ← readSeparator '-' rest
  let (day, rest) ← readField rest
  let date : Date := ⟨year, month, day⟩
  guard date.isValid
  return (date, rest)

/-- The time of a day, put on that day. -/
def readTime (date : Date) (cs : List Char) : Option (Timestamp × List Char) := do
  let (hour, rest) ← readField cs
  let rest ← readSeparator ':' rest
  let (minute, rest) ← readField rest
  let rest ← readSeparator ':' rest
  let (second, rest) ← readField rest
  let (nanosecond, rest) ← readFraction rest
  guard (hour ≤ 23 && minute ≤ 59 && second ≤ 60)
  return (⟨date, hour, minute, second, nanosecond⟩, rest)

/-- The sign of an offset: whether it is negative. -/
def readSign : List Char → Option (Bool × List Char)
  | '+' :: rest => some (false, rest)
  | '-' :: rest => some (true, rest)
  | '\u2212' :: rest => some (true, rest)
  | _ => none

/-- Exactly two digits. -/
def readPair : List Char → Option (Nat × List Char)
  | c :: d :: rest => if isDigit c && isDigit d then some (ofDigits [c, d], rest) else none
  | _ => none

/-- An offset from Universal Time in minutes: a letter or abbreviation for none, or a sign, hours
and minutes. -/
def readOffset (cs : List Char) : Option (Int × List Char) :=
  match cs with
  | 'Z' :: rest | 'z' :: rest => some (0, rest)
  | _ =>
    if (cs.take 3).map Char.toUpper = ['U', 'T', 'C'] then some (0, cs.drop 3)
    else do
      let (negative, rest) ← readSign cs
      let (hours, rest) ← readPair rest
      let (minutes, rest) ← readPair (rest.dropWhile fun c => c == ':' || Text.isBlank c)
      guard (hours ≤ 23 && minutes ≤ 59)
      let offset : Int := hours * 60 + minutes
      return (if negative then -offset else offset, rest)

/-- The time in Universal Time of a clock that is `offset` minutes ahead of it. -/
def takeOff (t : Timestamp) (offset : Int) : Timestamp :=
  let minutes : Int := t.hour * 60 + t.minute - offset
  let date :=
    if minutes < 0 then t.date.previous else if 1440 ≤ minutes then t.date.next else t.date
  let minuteOfDay := (minutes % 1440).toNat
  { t with date, hour := minuteOfDay / 60, minute := minuteOfDay % 60 }

/-- The timestamp that a text stands for. -/
def parse? (text : String) : Option Timestamp := do
  let (date, rest) ← readDate text.toList
  let rest ← match rest with
    | 'T' :: rest | 't' :: rest | ' ' :: rest => some rest
    | _ => none
  let (clock, rest) ← readTime date rest
  let (offset, rest) ← readOffset (Text.trimStart rest)
  guard (Text.trimStart rest).isEmpty
  let t := clock.takeOff offset
  guard (Date.isCovered t.date.year)
  return t

/-- The point in time that is a number of seconds and nanoseconds after the beginning of 1970. -/
def ofUnix (seconds : Int) (nanosecond : Nat) : Timestamp :=
  let ofDay := (seconds % 86400).toNat
  ⟨Date.ofDays (seconds / 86400), ofDay / 3600, ofDay / 60 % 60, ofDay % 60, nanosecond⟩

/-- The last digits of a number, `width` of them. -/
def digits : (width : Nat) → Nat → List Char
  | 0, _ => []
  | width + 1, n => digits width (n / 10) ++ [Char.ofNat (n % 10 + 48)]

/-- The digits of a year: four, or a sign and at least four if it does not lie between 0
and 9999. -/
def yearDigits (year : Int) : List Char :=
  let n := year.natAbs
  let shown := if n ≤ 9999 then digits 4 n else (toString n).toList
  if 0 ≤ year ∧ year ≤ 9999 then shown else (if year < 0 then '-' else '+') :: shown

/-- The fraction of a second with as many digits as it needs: none, three, six or nine. -/
def fractionDigits (nanosecond : Nat) : List Char :=
  if nanosecond = 0 then []
  else if nanosecond % 1000000 = 0 then '.' :: digits 3 (nanosecond / 1000000)
  else if nanosecond % 1000 = 0 then '.' :: digits 6 (nanosecond / 1000)
  else '.' :: digits 9 nanosecond

/-- The text of a timestamp, such as `2024-01-02T03:04:05.500Z`. -/
def render (t : Timestamp) : String :=
  String.ofList (yearDigits t.date.year ++ '-' :: digits 2 t.date.month ++ '-' ::
    digits 2 t.date.day ++ 'T' :: digits 2 t.hour ++ ':' :: digits 2 t.minute ++ ':' ::
    digits 2 t.second ++ fractionDigits t.nanosecond ++ ['Z'])

end Timestamp

end Core65C02
