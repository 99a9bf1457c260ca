/-
  Flowscript.Number.Double

  Binary floating-point numbers of 53 bits, as exact data: a sign, a mantissa and a
  power of two.  Every operation is exact arithmetic on natural numbers followed by
  one rounding, to the nearest number and to an even mantissa on a tie.
-/

namespace Flowscript

/-- A floating-point number.  `finite s m q` is `m · 2^q`, negative when `s` holds; the
operations below produce only `m < 2^53` and `-1074 ≤ q ≤ 971`, with `2^52 ≤ m` or
`q = -1074`, so equal numbers other than the two zeros are equal data. -/
inductive Double where
  | nan
  | infinite (negative : Bool)
  | finite (negative : Bool) (mantissa : Nat) (exponent : Int)
deriving DecidableEq, Repr, Inhabited

namespace Double

/-! ## Rounding -/

/-- A quotient rounded to the nearest integer; a half goes to the even neighbour. -/
def roundDiv (num den : Nat) : Nat :=
  let q := num / den
  let r := num % den
  if 2 * r < den then q else if den < 2 * r then q + 1 else if q % 2 = 0 then q else q + 1

/-- The smallest exponent of a power of two. -/
def minExponent : Int := -1074

/-- The largest exponent of a power of two. -/
def maxExponent : Int := 971

/-- `num / den · 2^(-e)` as a fraction. -/
def scaled (num den : Nat) (e : Int) : Nat × Nat :=
  if 0 ≤ e then (num, den * Nat.pow 2 e.toNat) else (num * Nat.pow 2 (-e).toNat, den)

/-- The positive or negative zero. -/
def zero (negative : Bool) : Double := .finite negative 0 minExponent

/-- The number nearest to `num / den`, for a positive `den`. -/
def ofRatio (negative : Bool) (num den : Nat) : Double :=
  if num = 0 then zero negative
  else
    let guess : Int := (Nat.log2 num : Int) - (Nat.log2 den : Int) - 53
    let (n, d) := scaled num den guess
    let fit := if n / d < Nat.pow 2 53 then guess else guess + 1
    let e := max fit minExponent
    let (n, d) := scaled num den e
    let m := roundDiv n d
    let (m, e) := if m = Nat.pow 2 53 then (Nat.pow 2 52, e + 1) else (m, e)
    if maxExponent < e then .infinite negative else .finite negative m e

/-- The number nearest to `digits · 10^exponent`.  Exponents far outside the range are
settled without the power of ten. -/
def ofDecimal (negative : Bool) (digits : Nat) (exponent : Int) : Double :=
  let size : Int := (Nat.toDigits 10 digits).length + exponent
  if digits = 0 then zero negative
  else if 310 < size then .infinite negative
  else if size < -330 then zero negative
  else if 0 ≤ exponent then ofRatio negative (digits * Nat.pow 10 exponent.toNat) 1
  else ofRatio negative digits (Nat.pow 10 (-exponent).toNat)

/-- The number nearest to an integer, unless the integer is beyond all finite numbers. -/
def ofInt? (i : Int) : Option Double :=
  match ofRatio (i < 0) i.natAbs 1 with
  | .infinite _ => none
  | x => some x

/-! ## Integers -/

/-- The integer a number is equal to. -/
def toInt? : Double → Option Int
  | .nan => none
  | .infinite _ => none
  | .finite negative m q =>
    let sign (n : Nat) : Int := if negative then -(n : Int) else n
    if 0 ≤ q then some (sign (m * Nat.pow 2 q.toNat))
    else
      let den := Nat.pow 2 (-q).toNat
      if m % den = 0 then some (sign (m / den)) else none

/-! ## Arithmetic -/

/-- The sign turned around. -/
def neg : Double → Double
  | .nan => .nan
  | .infinite s => .infinite !s
  | .finite s m q => .finite (!s) m q

@[simp] theorem neg_neg (x : Double) : x.neg.neg = x := by cases x <;> simp [neg]

/-- The exact value of `m · 2^q` as a fraction. -/
def ratio (m : Nat) (q : Int) : Nat × Nat :=
  if 0 ≤ q then (m * Nat.pow 2 q.toNat, 1) else (m, Nat.pow 2 (-q).toNat)

/-- A magnitude with a sign. -/
def signed (negative : Bool) (n : Nat) : Int := if negative then -(n : Int) else n

/-- The sum of two numbers. -/
def add : Double → Double → Double
  | .finite s m q, .finite t n r =>
    let (a, b) := ratio m q
    let (c, d) := ratio n r
    let sum := signed s (a * d) + signed t (c * b)
    if sum = 0 then zero (s && t) else ofRatio (sum < 0) sum.natAbs (b * d)
  | .nan, _ | _, .nan => .nan
  | .infinite s, .infinite t => if s = t then .infinite s else .nan
  | .infinite s, _ | _, .infinite s => .infinite s

/-- The product of two numbers. -/
def mul : Double → Double → Double
  | .finite s m q, .finite t n r =>
    let (a, b) := ratio m q
    let (c, d) := ratio n r
    ofRatio (s != t) (a * c) (b * d)
  | .nan, _ | _, .nan => .nan
  | .infinite s, .infinite t => .infinite (s != t)
  | .infinite s, .finite t m _ | .finite t m _, .infinite s =>
    if m = 0 then .nan else .infinite (s != t)

end Double

end Flowscript
