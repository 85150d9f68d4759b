/-! # Base64 VLQ

    Numbers in a source map are written in groups of five bits, least significant
    group first, each as one digit of base 64. The sixth bit of a digit says that
    another digit follows; the lowest bit of the whole number is its sign.

    `encode` writes one number, `decodeAll` reads a row of them back. `encodeWord`
    writes a number of 64 bits by shifts alone, which is the same as long as no bit is
    shifted out.
-/

namespace BuildMacros.SourceMap.Vlq

/-! ## Section 1: Digits -/

/-- The digits of base 64, in order of value. -/
def alphabet : List Char :=
  "ABCDEFGHIJKLMNOPQRSTUVWXYZabcdefghijklmnopqrstuvwxyz0123456789+/".toList

/-- Digit of a value below 64. -/
def digit (n : Nat) : Char := alphabet.getD n 'A'

/-- Value of a digit. -/
def value? (c : Char) : Option Nat := alphabet.idxOf? c

/-! ## Section 2: Writing -/

/-- Magnitude shifted by one, with the sign in the lowest bit. -/
def toUnsigned (n : Int) : Nat :=
  if n < 0 then 2 * n.natAbs + 1 else 2 * n.natAbs

/-- Digits of an unsigned number. -/
def encodeUnsigned (n : Nat) : List Char :=
  if n < 32 then [digit n] else digit (n % 32 + 32) :: encodeUnsigned (n / 32)
termination_by n

/-- Digits of a number. -/
def encode (n : Int) : List Char := encodeUnsigned (toUnsigned n)

/-! ## Section 3: Reading -/

/-- Undoes `toUnsigned`. -/
def ofUnsigned (n : Nat) : Int :=
  if n % 2 = 1 then -(Int.ofNat (n / 2)) else Int.ofNat (n / 2)

/-- The unsigned number at the head of a row of digits, with the digits after it. -/
def decodeUnsigned : List Char → Option (Nat × List Char)
  | [] => none
  | c :: cs => do
    let d ← value? c
    if d < 32 then return (d, cs)
    let (n, rest) ← decodeUnsigned cs
    return (d - 32 + 32 * n, rest)

/-- The numbers a row of digits stands for; the first argument bounds their number. -/
def decodeRow : Nat → List Char → Option (List Int)
  | _, [] => some []
  | 0, _ :: _ => none
  | fuel + 1, cs => do
    let (n, rest) ← decodeUnsigned cs
    let ns ← decodeRow fuel rest
    return ofUnsigned n :: ns

/-- The numbers a row of digits stands for. -/
def decodeAll (cs : List Char) : Option (List Int) := decodeRow cs.length cs

/-! ## Section 4: Writing by shifts -/

/-- `toUnsigned` on words. -/
def shifted (n : Int64) : Int64 := if n < 0 then ((-n) <<< 1) ||| 1 else n <<< 1

/-- Digits of a word, of which there are at most as many as the first argument says. The right
    shift keeps the sign, so a negative word is never shifted down to zero. -/
def wordDigits : Nat → Int64 → Option (List Char)
  | 0, _ => none
  | fuel + 1, w => do
    let low := w &&& 31
    let rest := w >>> 5
    let c := digit (if 0 < rest then low ||| 32 else low).toNatClampNeg
    if rest = 0 then some [c]
    else
      let cs ← wordDigits fuel rest
      some (c :: cs)

/-- Digits of a number of 64 bits, if there is an end to them; thirteen groups of five bits hold
    every word. -/
def encodeWord (n : Int64) : Option (List Char) := wordDigits 13 (shifted n)

end BuildMacros.SourceMap.Vlq
