/-! # Numbers of double precision

    A `Double` is a whole number of at most 53 binary digits times a power of two.
    `ofRatio?` rounds a quotient to the nearest such number, a tie going to the
    even one; products and quotients are rounded in the same way. All arithmetic
    is on whole numbers, so nothing is lost on the way.

    A double is written with the fewest decimal digits that only this double rounds
    to. On the grid of `n` significant digits only the two neighbours of the value
    can be the nearest, so `shortest` tries them for one digit, two digits, and so
    on; with seventeen digits one of them always fits.
-/

namespace BuildMacros

/-! ## Section 1: Decimal numbers -/

/-- The number `digits * 10 ^ exponent`. -/
structure Decimal where
  digits : Nat
  exponent : Int
deriving DecidableEq, Repr

namespace Decimal

/-- Digits around a decimal point of which `places` follow it, at least one of them. Zeros that
    change nothing are left out. -/
def withPoint (places : Nat) (digits : List Char) : String :=
  let padded := List.replicate (places + 1 - digits.length) '0' ++ digits
  let whole := padded.take (padded.length - places)
  let part := ((padded.drop (padded.length - places)).reverse.dropWhile (· == '0')).reverse
  String.ofList whole ++ "." ++ (if part.isEmpty then "0" else String.ofList part)

/-- A decimal number in positional notation, with a fraction even when it is zero. -/
def render (d : Decimal) : String :=
  let zeros := List.replicate d.exponent.toNat '0'
  withPoint (-d.exponent).toNat (Nat.toDigits 10 d.digits ++ zeros)

end Decimal

/-! ## Section 2: Rounding -/

/-- The number `mantissa * 2 ^ exponent`, or its negative. -/
structure Double where
  /-- The number is negative, or minus zero. -/
  negative : Bool
  mantissa : Nat
  exponent : Int
deriving DecidableEq, Repr

namespace Double

/-- The least exponent. -/
def leastExponent : Int := -1074

/-- The greatest exponent. -/
def greatestExponent : Int := 971

/-- A power of two. -/
def twoTo (k : Nat) : Nat := Nat.pow 2 k

/-- A power of ten. -/
def tenTo (k : Nat) : Nat := Nat.pow 10 k

/-- Mantissas stay below this bound. -/
def mantissaBound : Nat := twoTo 53

/-- Zero. -/
def zero (negative : Bool) : Double := ⟨negative, 0, leastExponent⟩

/-- The nearest whole number to a quotient; a tie goes to the even one. -/
def roundDiv (num den : Nat) : Nat :=
  let q := num / den
  let r := 2 * (num % den)
  if r < den || (r == den && q % 2 == 0) then q else q + 1

/-- The quotient divided by `2 ^ e`, as a quotient. -/
def descale (num den : Nat) (e : Int) : Nat × Nat := (num * twoTo (-e).toNat, den * twoTo e.toNat)

/-- The exponent with which a quotient has a mantissa of 53 binary digits, or the least one. -/
def exponentOf (num den : Nat) : Int :=
  let e : Int := Int.ofNat num.log2 - Int.ofNat den.log2 - 52
  let (a, b) := descale num den e
  max leastExponent (if 2 * a < mantissaBound * b then e - 1 else e)

/-- The nearest double to a quotient, unless the quotient is too large. -/
def ofRatio? (negative : Bool) (num den : Nat) : Option Double :=
  if num = 0 then some (zero negative)
  else
    let e := exponentOf num den
    let (a, b) := descale num den e
    let m := roundDiv a b
    let d : Double := if m = mantissaBound then ⟨negative, m / 2, e + 1⟩ else ⟨negative, m, e⟩
    if greatestExponent < d.exponent then none else some d

/-- The nearest double to a product. -/
def mul? (a b : Double) : Option Double :=
  let e := a.exponent + b.exponent
  ofRatio? (a.negative != b.negative) (a.mantissa * b.mantissa * twoTo e.toNat) (twoTo (-e).toNat)

/-- The nearest double to a quotient. -/
def div? (a b : Double) : Option Double :=
  let e := a.exponent - b.exponent
  ofRatio? (a.negative != b.negative) (a.mantissa * twoTo e.toNat) (b.mantissa * twoTo (-e).toNat)

/-- The nearest double to a power of ten. -/
def power? (k : Nat) : Option Double := ofRatio? false (tenTo k) 1

/-- The double for `n * 10 ^ e`, with one rounding for `n`, one for the power of ten and one for
    their product or quotient. Powers beyond the range of doubles are divided by in two steps. -/
def ofScaled? (negative : Bool) (n : Nat) (e : Int) : Option Double := do
  let f ← ofRatio? negative n 1
  if f.mantissa = 0 || e < -616 then return zero negative
  if 308 < e then none
  else if 0 ≤ e then f.mul? (← power? e.toNat)
  else if -308 ≤ e then f.div? (← power? (-e).toNat)
  else (← f.div? (← power? 308)).div? (← power? (-e - 308).toNat)

/-! ## Section 3: Shortest digits -/

/-- Number of decimal digits of a value in front of the point; for values below one, the negated
    number of zeros after it. Every double but zero is above `10 ^ -400`. -/
def places (d : Double) : Int :=
  let (a, b) := descale (d.mantissa * tenTo 400) 1 (-d.exponent)
  Int.ofNat (Nat.toDigits 10 (a / b)).length - 400

/-- The nearest decimal number of `n` digits that rounds to the double, if there is one. Values are
    counted in quarters of the last binary digit: the ends of the interval of numbers that round to
    the double lie half a digit away, below a power of two a quarter. The ends belong to the
    interval when the mantissa is even. -/
def ofDigits? (d : Double) (n : Nat) : Option Decimal :=
  let p := d.places
  let tens := (17 - p).toNat
  let twos := (2 - d.exponent).toNat
  let quarter := twoTo (d.exponent - 2 + Int.ofNat twos).toNat * tenTo tens
  let isPower := d.mantissa == mantissaBound / 2 && leastExponent < d.exponent
  let value := 4 * d.mantissa * quarter
  let low := value - (if isPower then 1 else 2) * quarter
  let high := value + 2 * quarter
  let closed := d.mantissa % 2 == 0
  let step := tenTo (p - Int.ofNat n + Int.ofNat tens).toNat * twoTo twos
  let c := value / step
  let isDown := low < c * step || (closed && low == c * step)
  let isUp := (c + 1) * step < high || (closed && (c + 1) * step == high)
  let isNearDown := 2 * (value - c * step) < step
  let e := p - Int.ofNat n
  if isDown && (isNearDown || !isUp) then some ⟨c, e⟩
  else if isUp then some ⟨c + 1, e⟩
  else none

/-- The decimal number of fewest digits that rounds to the double. -/
def shortest (d : Double) : Decimal :=
  if d.mantissa = 0 then ⟨0, 0⟩
  else (((List.range 17).map (· + 1)).findSome? d.ofDigits?).getD ⟨0, 0⟩

/-- A double in positional notation, with a fraction even when it is zero. -/
def render (d : Double) : String := (if d.negative then "-" else "") ++ d.shortest.render

end Double

end BuildMacros
