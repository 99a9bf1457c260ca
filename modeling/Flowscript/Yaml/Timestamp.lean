/-
  Flowscript.Yaml.Timestamp

  Dates and times in a text.
-/
import Flowscript.Number.Decimal
import Flowscript.Value.Scalar
import Flowscript.Yaml.Place

namespace Flowscript.Yaml

/-- The time of day in a timestamp as it is written: `places` are the digits behind the seconds,
and `offset` is the zone's distance from universal time in minutes. -/
structure ClockText where
  hour : Nat
  minute : Nat
  second : Nat
  places : List Char
  offset : Option Int
deriving DecidableEq, Repr, Inhabited

/-- A timestamp as it is written, which may be no day of the calendar. -/
structure TimestampText where
  date : Date
  clock : Option ClockText
deriving DecidableEq, Repr, Inhabited

/-! ## Reading -/

/-- One or two digits. -/
def shortNumber? : List Char → Option (Nat × List Char)
  | a :: rest =>
    if !a.isDigit then none
    else match rest with
      | b :: rest' => if b.isDigit then some (digitsValue [a, b], rest') else some (digitsValue [a], rest)
      | [] => some (digitsValue [a], [])
  | [] => none

/-- Exactly `n` digits. -/
def digits? (n : Nat) (s : List Char) : Option (Nat × List Char) :=
  let ds := s.take n
  if ds.length = n && ds.all Char.isDigit then some (digitsValue ds, s.drop n) else none

/-- The rest of a text after a character. -/
def afterChar? (c : Char) : List Char → Option (List Char)
  | d :: rest => if d = c then some rest else none
  | [] => none

/-- The zone at the end of a timestamp, which may be missing. -/
def zone? (s : List Char) : Option (Option Int) :=
  if s.isEmpty then some none
  else match s.dropWhile isSpace with
    | ['Z'] => some (some 0)
    | sign :: rest =>
      if sign ≠ '+' && sign ≠ '-' then none
      else do
        let (hours, rest) ← shortNumber? rest
        let minutes ← match rest with
          | [] => some 0
          | rest => do
            let (m, rest) ← digits? 2 (← afterChar? ':' rest)
            if rest.isEmpty then some m else none
        let distance : Int := (hours * 60 + minutes : Nat)
        pure (some (if sign = '-' then -distance else distance))
    | [] => none

/-- The time of day after a date. -/
def clock? (s : List Char) : Option ClockText := do
  let s ← match s with
    | c :: rest =>
      if c = 'T' || c = 't' then some rest
      else if isSpace c then some (rest.dropWhile isSpace)
      else none
    | [] => none
  let (hour, s) ← shortNumber? s
  let (minute, s) ← digits? 2 (← afterChar? ':' s)
  let (second, s) ← digits? 2 (← afterChar? ':' s)
  let (places, s) := match s with
    | '.' :: rest => rest.span Char.isDigit
    | s => ([], s)
  let offset ← zone? s
  pure { hour, minute, second, places, offset }

/-- A date, with or without a time of day. -/
def timestamp? (s : List Char) : Option TimestampText := do
  let (year, s) ← digits? 4 s
  let (month, s) ← shortNumber? (← afterChar? '-' s)
  let (day, s) ← shortNumber? (← afterChar? '-' s)
  let date : Date := { year, month, day }
  if s.isEmpty then pure { date, clock := none }
  else do
    let clock ← clock? s
    pure { date, clock := some clock }

/-- The text stands for a timestamp without being marked as one: a date by itself has all its
digits. -/
def isTimestamp (s : List Char) : Bool :=
  match timestamp? s with
  | some t => t.clock.isSome || s.length = 10
  | none => false

/-! ## The calendar -/

def isLeapYear (year : Nat) : Bool := year % 4 = 0 && (year % 100 ≠ 0 || year % 400 = 0)

def daysInMonth (year month : Nat) : Nat :=
  if month = 2 then if isLeapYear year then 29 else 28
  else if month ∈ [4, 6, 9, 11] then 30
  else 31

/-- The date is a day of the calendar. -/
def isDay (d : Date) : Bool :=
  1 ≤ d.year && 1 ≤ d.month && d.month ≤ 12 && 1 ≤ d.day && d.day ≤ daysInMonth d.year d.month

/-- Millionths of a second from the digits behind the point, of which six count. -/
def microseconds (places : List Char) : Nat :=
  let ds := places.take 6
  digitsValue (ds ++ List.replicate (6 - ds.length) '0')

/-- The value of a timestamp, unless there is no such day, time or zone. -/
def TimestampText.scalar? (t : TimestampText) : Option Scalar :=
  if !isDay t.date then none
  else match t.clock with
    | none => some (.date t.date)
    | some c =>
      let zoneFits := c.offset.all fun m => m.natAbs < 24 * 60
      if c.hour < 24 && c.minute < 60 && c.second < 60 && zoneFits then
        some (.time
          { date := t.date, hour := c.hour, minute := c.minute, second := c.second
            microsecond := microseconds c.places, offset := c.offset })
      else none

end Flowscript.Yaml
