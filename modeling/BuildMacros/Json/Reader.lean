import BuildMacros.Json.Basic

/-! # Reading JSON

    Each reader takes the characters still to be read and answers a value with
    the characters after it, or nothing. Values may be nested 127 deep: the depth
    left is the measure on which `value` recurs, and the loops over items and
    fields are bounded by the length of the text.
-/

namespace BuildMacros.Json

/-- A reader of an `α` at the head of a text. -/
abbrev Reader (α : Type) := List Char → Option (α × List Char)

/-! ## Section 1: Blanks and strings -/

/-- Blanks between tokens. -/
def isBlank (c : Char) : Bool := c == ' ' || c == '\n' || c == '\t' || c == '\r'

/-- Skips blanks. -/
def skip (cs : List Char) : List Char := cs.dropWhile isBlank

/-- Value of a hexadecimal digit. -/
def hexValue? (c : Char) : Option Nat :=
  if c.isDigit then some (c.toNat - 48)
  else if 'a' ≤ c && c ≤ 'f' then some (c.toNat - 87)
  else if 'A' ≤ c && c ≤ 'F' then some (c.toNat - 55)
  else none

/-- A unit of four hexadecimal digits. -/
def hexUnit : Reader Nat
  | a :: b :: c :: d :: rest => do
    let a ← hexValue? a
    let b ← hexValue? b
    let c ← hexValue? c
    let d ← hexValue? d
    return (((a * 16 + b) * 16 + c) * 16 + d, rest)
  | _ => none

/-- A character written after `\u`: one unit, or a pair of surrogates. -/
def unicodeEscape (cs : List Char) : Option (Char × List Char) := do
  let (hi, rest) ← hexUnit cs
  if hi < 0xD800 || 0xDFFF < hi then return (Char.ofNat hi, rest)
  if 0xDC00 ≤ hi then none
  match rest with
  | '\\' :: 'u' :: rest =>
    let (lo, rest) ← hexUnit rest
    if lo < 0xDC00 || 0xDFFF < lo then none
    return (Char.ofNat (0x10000 + (hi - 0xD800) * 0x400 + (lo - 0xDC00)), rest)
  | _ => none

/-- The character meant by a letter after a backslash. -/
def simpleEscape? (c : Char) : Option Char :=
  if c = '"' then some '"'
  else if c = '\\' then some '\\'
  else if c = '/' then some '/'
  else if c = 'b' then some (Char.ofNat 8)
  else if c = 'f' then some (Char.ofNat 12)
  else if c = 'n' then some '\n'
  else if c = 'r' then some '\r'
  else if c = 't' then some '\t'
  else none

/-- The characters of a string up to its closing quote; the first argument bounds their number. -/
def stringTail : Nat → Reader (List Char)
  | 0, _ => none
  | fuel + 1, cs =>
    match cs with
    | [] => none
    | c :: rest =>
      if c = '"' then some ([], rest)
      else if c = '\\' then
        match rest with
        | 'u' :: rest => do
          let (x, rest) ← unicodeEscape rest
          let (xs, rest) ← stringTail fuel rest
          return (x :: xs, rest)
        | e :: rest => do
          let x ← simpleEscape? e
          let (xs, rest) ← stringTail fuel rest
          return (x :: xs, rest)
        | [] => none
      else if c.toNat < 32 then none
      else do
        let (xs, rest) ← stringTail fuel rest
        return (c :: xs, rest)

/-- A quoted string. -/
def stringToken (cs : List Char) : Option (String × List Char) :=
  match cs with
  | '"' :: rest => (stringTail rest.length rest).map fun r => (String.ofList r.1, r.2)
  | _ => none

/-! ## Section 2: Numbers -/

/-- Value of a row of decimal digits. -/
def digitsValue (ds : List Char) : Nat := ds.foldl (fun n d => 10 * n + (d.toNat - 48)) 0

/-- Reads digits as long as the number they make with `n` in front has 64 bits; answers the number
    and the digits left over. -/
def absorb (n : Nat) : List Char → Nat × List Char
  | [] => (n, [])
  | d :: ds =>
    let n' := 10 * n + (d.toNat - 48)
    if n' < UInt64.size then absorb n' ds else (n, d :: ds)

/-- The double that a number stands for. Of more digits than 64 bits can hold the rest only count as
    places. -/
def double? (negative : Bool) (whole part : List Char) (exponent : Int) : Option Double :=
  let (n, skipped) := absorb 0 whole
  let (n, unread) := absorb n part
  let shift := Int.ofNat skipped.length - Int.ofNat (part.length - unread.length)
  Double.ofScaled? negative n (shift + exponent)

/-- The digits after an exponent mark, with their sign. -/
def exponentPart : Reader Int
  | 'e' :: rest | 'E' :: rest =>
    let (sign, rest) : Int × List Char :=
      match rest with
      | '+' :: r => (1, r)
      | '-' :: r => (-1, r)
      | r => (1, r)
    let ds := rest.takeWhile Char.isDigit
    if ds.isEmpty then none else some (sign * digitsValue ds, rest.dropWhile Char.isDigit)
  | cs => some (0, cs)

/-- The digits after a decimal point. -/
def fractionPart : Reader (List Char)
  | '.' :: rest =>
    let ds := rest.takeWhile Char.isDigit
    if ds.isEmpty then none else some (ds, rest.dropWhile Char.isDigit)
  | cs => some ([], cs)

/-- A number without its sign. -/
def unsigned (negative : Bool) (cs : List Char) : Option (Json × List Char) := do
  let ds := cs.takeWhile Char.isDigit
  let rest := cs.dropWhile Char.isDigit
  if ds.isEmpty || (ds.head? == some '0' && ds.length > 1) then none
  let (frac, rest') ← fractionPart rest
  let (exp, rest'') ← exponentPart rest'
  let n := digitsValue ds
  if rest''.length = rest.length then
    if negative && 0 < n && Int64.minValue.toInt ≤ -(Int.ofNat n) then
      return (.int (-(Int.ofNat n)), rest)
    if !negative && n < UInt64.size then return (.int (Int.ofNat n), rest)
  let v ← double? negative ds frac exp
  return (.double v, rest'')

/-- A number. -/
def number : Reader Json
  | '-' :: rest => unsigned true rest
  | cs => unsigned false cs

/-! ## Section 3: Values -/

/-- Items up to the closing bracket of an array, given a reader of values. -/
def itemsWith (value : Reader Json) : Nat → Reader (List Json)
  | 0, _ => none
  | fuel + 1, cs => do
    let (v, rest) ← value (skip cs)
    match skip rest with
    | ']' :: rest => return ([v], rest)
    | ',' :: rest =>
      let (vs, rest) ← itemsWith value fuel rest
      return (v :: vs, rest)
    | _ => none

/-- Fields up to the closing brace of an object, given a reader of values. -/
def fieldsWith (value : Reader Json) : Nat → Reader (List (String × Json))
  | 0, _ => none
  | fuel + 1, cs => do
    let (k, rest) ← stringToken (skip cs)
    match skip rest with
    | ':' :: rest =>
      let (v, rest) ← value (skip rest)
      match skip rest with
      | '}' :: rest => return ([(k, v)], rest)
      | ',' :: rest =>
        let (fs, rest) ← fieldsWith value fuel rest
        return ((k, v) :: fs, rest)
      | _ => none
    | _ => none

/-- A value at the head of a text without leading blanks; the first argument is the depth of
    nesting still allowed. -/
def value : Nat → Reader Json
  | 0, _ => none
  | depth + 1, cs =>
    match cs with
    | 'n' :: 'u' :: 'l' :: 'l' :: rest => some (.null, rest)
    | 't' :: 'r' :: 'u' :: 'e' :: rest => some (.bool true, rest)
    | 'f' :: 'a' :: 'l' :: 's' :: 'e' :: rest => some (.bool false, rest)
    | '"' :: _ => (stringToken cs).map fun r => (.string r.1, r.2)
    | '[' :: rest =>
      match depth with
      | 0 => none
      | _ =>
        match skip rest with
        | ']' :: rest => some (.array [], rest)
        | rest => (itemsWith (value depth) rest.length rest).map fun r => (.array r.1, r.2)
    | '{' :: rest =>
      match depth with
      | 0 => none
      | _ =>
        match skip rest with
        | '}' :: rest => some (.object [], rest)
        | rest => (fieldsWith (value depth) rest.length rest).map fun r => (.object r.1, r.2)
    | _ => number cs

/-- The value a whole text stands for. -/
def parse (text : String) : Option Json :=
  match value 128 (skip text.toList) with
  | some (v, rest) => if (skip rest).isEmpty then some v else none
  | none => none

end BuildMacros.Json
