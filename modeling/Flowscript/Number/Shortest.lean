/-
  Flowscript.Number.Shortest

  The decimal text of a floating-point number: the fewest digits that read back as
  the same number, and of those the ones nearest to it.  Numbers from 10^-4 up to
  below 10^16 are written with a point, all others with an exponent of at least two
  digits; an integral value keeps a zero after the point.
-/
import Flowscript.Number.Double
import Flowscript.Text.Basic

namespace Flowscript

namespace Double

/-! ## The digits -/

/-- The reals that round to a number, over one denominator: its value, the two ends of
its interval, and whether the ends belong to it. -/
structure Interval where
  value : Nat
  low : Nat
  high : Nat
  den : Nat
  closed : Bool

/-- The interval of `m · 2^q`.  Below a power of two the gap is half as wide. -/
def Interval.of (m : Nat) (q : Int) : Interval :=
  let unit := Nat.pow 2 q.toNat
  let below := if m = Nat.pow 2 52 && minExponent < q then unit else 2 * unit
  { value := 4 * m * unit
    low := 4 * m * unit - below
    high := 4 * m * unit + 2 * unit
    den := 4 * Nat.pow 2 (-q).toNat
    closed := m % 2 = 0 }

/-- The place `k` of the leading digit: `10^(k-1) ≤ value < 10^k`. -/
def Interval.magnitude (i : Interval) : Int :=
  if i.den ≤ i.value then ((Text.natDigits (i.value / i.den)).length : Int)
  else 1 - ((Text.natDigits ((i.den - 1) / i.value)).length : Int)

/-- The interval measured in units of `10^p`. -/
def Interval.inUnits (i : Interval) (p : Int) : Interval :=
  if 0 ≤ p then { i with den := i.den * Nat.pow 10 p.toNat }
  else
    let s := Nat.pow 10 (-p).toNat
    { i with value := i.value * s, low := i.low * s, high := i.high * s }

/-- A whole number of units lies in the interval. -/
def Interval.contains (i : Interval) (n : Nat) : Bool :=
  if i.closed then i.low ≤ n * i.den && n * i.den ≤ i.high
  else i.low < n * i.den && n * i.den < i.high

/-- The whole number of units in the interval that is nearest to the value; a tie goes to the
even one. -/
def Interval.nearest? (i : Interval) : Option Nat :=
  let f := i.value / i.den
  let rest := 2 * (i.value % i.den)
  match i.contains f, i.contains (f + 1) with
  | true, true =>
    if rest < i.den then some f else if i.den < rest then some (f + 1)
    else if f % 2 = 0 then some f else some (f + 1)
  | true, false => some f
  | false, true => some (f + 1)
  | false, false => none

/-- Moves the zeros at the end of the digits into the exponent. -/
def dropZeros : Nat → Nat → Int → Nat × Int
  | 0, d, p => (d, p)
  | fuel + 1, d, p => if d % 10 = 0 && d ≠ 0 then dropZeros fuel (d / 10) (p + 1) else (d, p)

/-- The shortest `(d, p)` such that `d · 10^p` rounds to `m · 2^q`, for a positive `m`. -/
def shortest (m : Nat) (q : Int) : Nat × Int :=
  let i := Interval.of m q
  let k := i.magnitude
  let hit := (List.range 17).findSome? fun (n : Nat) =>
    let p : Int := k - (n + 1 : Nat)
    (i.inUnits p).nearest?.map fun d => (d, p)
  match hit with
  | some (d, p) => dropZeros 20 d p
  | none => (0, 0)

/-! ## The text -/

/-- The digits `ds` with the point after the first `point` of them. -/
def positional (ds : List Char) (point : Int) : List Char :=
  if point ≤ 0 then '0' :: '.' :: (List.replicate (-point).toNat '0' ++ ds)
  else if (ds.length : Int) ≤ point then
    ds ++ List.replicate (point.toNat - ds.length) '0' ++ ['.', '0']
  else ds.take point.toNat ++ '.' :: ds.drop point.toNat

/-- The digits `ds` as a number below ten with the exponent `e`. -/
def scientific (ds : List Char) (e : Int) : List Char :=
  let mantissa := match ds with
    | [] => ['0']
    | [d] => [d]
    | d :: rest => d :: '.' :: rest
  let digits := Text.natDigits e.natAbs
  let padded := if digits.length < 2 then '0' :: digits else digits
  mantissa ++ 'e' :: (if e < 0 then '-' else '+') :: padded

/-- The text of a number that is finite and not zero, without its sign. -/
def magnitudeText (m : Nat) (q : Int) : List Char :=
  let (d, p) := shortest m q
  let ds := Text.natDigits d
  let point : Int := ds.length + p
  if -4 < point && point ≤ 16 then positional ds point else scientific ds (point - 1)

/-- The shortest decimal text that reads back as the number. -/
def chars : Double → List Char
  | .nan => ['n', 'a', 'n']
  | .infinite negative => (if negative then ['-'] else []) ++ ['i', 'n', 'f']
  | .finite negative m q =>
    (if negative then ['-'] else []) ++ if m = 0 then ['0', '.', '0'] else magnitudeText m q

/-- The shortest decimal text that reads back as the number. -/
def text (x : Double) : String := String.ofList x.chars

end Double

end Flowscript
