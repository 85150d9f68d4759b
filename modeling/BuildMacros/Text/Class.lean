import BuildMacros.Text.Ranges
import BuildMacros.Text.CaseRuns

/-! # Classes of characters and case mapping

    Three families of classes are in use, and they differ:

    - *letters and digits of names* (`isAlphabetic`, `isAlphanumeric`) follow the
      properties Alphabetic and the number categories;
    - *words of a pattern* (`isWord`) add marks, connectors and joiners;
    - *script identifiers* (`isIdStart`, `isIdContinue`) follow ID_Start and
      ID_Continue, with `$` and `_`.

    Case mapping is the full mapping of single characters: one character may
    become several, and no mapping depends on its surroundings.
-/

namespace BuildMacros.Text

/-! ## Section 1: Table lookups -/

/-- Membership in a table of closed ranges. -/
def inRanges (table : Array (Nat × Nat)) (n : Nat) : Bool :=
  table.any fun r => r.1 ≤ n && n ≤ r.2

/-- Membership in one run of equally spaced code points. -/
def inRun (first last step n : Nat) : Bool :=
  first ≤ n && n ≤ last && (n - first) % step == 0

/-- Membership in a table of runs. -/
def inRuns (table : Array (Nat × Nat × Nat)) (n : Nat) : Bool :=
  table.any fun r => inRun r.1 r.2.1 r.2.2 n

/-- Image of a code point under a table of shifted runs. -/
def shifted? (table : Array (Nat × Nat × Nat × Int)) (n : Nat) : Option Nat :=
  (table.find? fun r => inRun r.1 r.2.1 r.2.2.1 n).map fun r => (Int.ofNat n + r.2.2.2).toNat

/-! ## Section 2: Case -/

/-- The character has the property Lowercase. -/
def isLower (c : Char) : Bool :=
  if c.toNat < 128 then c.isLower else inRuns Table.lowercaseRuns c.toNat

/-- The character has the property Uppercase. -/
def isUpper (c : Char) : Bool :=
  if c.toNat < 128 then c.isUpper else inRuns Table.uppercaseRuns c.toNat

/-- Full mapping of one character through a table of long and a table of short images. -/
def mapCase (long : List (Nat × List Nat)) (short : Array (Nat × Nat × Nat × Int)) (c : Char) :
    List Char :=
  match long.lookup c.toNat with
  | some ns => ns.map Char.ofNat
  | none =>
    match shifted? short c.toNat with
    | some n => [Char.ofNat n]
    | none => [c]

/-- Upper case of one character. -/
def upper (c : Char) : List Char :=
  if c.toNat < 128 then [c.toUpper] else mapCase Table.toUpperLong Table.toUpperRuns c

/-- Lower case of one character. -/
def lower (c : Char) : List Char :=
  if c.toNat < 128 then [c.toLower] else mapCase Table.toLowerLong Table.toLowerRuns c

/-! ## Section 3: Letters, digits and blanks -/

/-- The property Alphabetic. -/
def isAlphabetic (c : Char) : Bool :=
  if c.toNat < 128 then c.isAlpha
  else inRanges Table.letters c.toNat || inRanges Table.letterNumbers c.toNat
    || inRanges Table.otherAlphabetic c.toNat

/-- A number of any category. -/
def isNumeric (c : Char) : Bool :=
  if c.toNat < 128 then c.isDigit
  else inRanges Table.digits c.toNat || inRanges Table.letterNumbers c.toNat
    || inRanges Table.otherNumbers c.toNat

/-- Alphabetic or a number. -/
def isAlphanumeric (c : Char) : Bool := isAlphabetic c || isNumeric c

/-- The property White_Space. -/
def isBlank (c : Char) : Bool :=
  let n := c.toNat
  (9 ≤ n && n ≤ 13) || n == 0x20 || n == 0x85 || n == 0xA0 || n == 0x1680
    || (0x2000 ≤ n && n ≤ 0x200A) || n == 0x2028 || n == 0x2029 || n == 0x202F || n == 0x205F
    || n == 0x3000

/-- The blanks of ASCII that markup separates attributes with: tab, line feed, form feed,
    carriage return and space. -/
def isAsciiBlank (c : Char) : Bool :=
  c == ' ' || c == '\t' || c == '\n' || c == '\r' || c.toNat == 12

/-- Connector punctuation beyond ASCII. -/
def isConnector (n : Nat) : Bool :=
  n == 0x203F || n == 0x2040 || n == 0x2054 || n == 0xFE33 || n == 0xFE34
    || (0xFE4D ≤ n && n ≤ 0xFE4F) || n == 0xFF3F

/-- A character of a word in the sense of text patterns: alphabetic, mark, decimal digit,
    connector or joiner. -/
def isWord (c : Char) : Bool :=
  let n := c.toNat
  if n < 128 then c.isAlphanum || c == '_'
  else isAlphabetic c || inRanges Table.marks n || inRanges Table.digits n || isConnector n
    || n == 0x200C || n == 0x200D

/-- A character that cannot be told by its looks when it stands alone: control and format
    characters, blanks other than the space, marks and characters for private use. -/
def isInvisible (c : Char) : Bool :=
  let n := c.toNat
  n < 32 || (127 ≤ n && n < 160) || (c != ' ' && isBlank c) || inRanges Table.formats n
    || inRanges Table.marks n || (0xE000 ≤ n && n ≤ 0xF8FF) || 0xF0000 ≤ n

/-! ## Section 4: Script identifiers -/

/-- Marks that enclose others; they may not continue an identifier. -/
def isEnclosingMark (n : Nat) : Bool :=
  n == 0x488 || n == 0x489 || n == 0x1ABE || (0x20DD ≤ n && n ≤ 0x20E0)
    || (0x20E2 ≤ n && n ≤ 0x20E4) || (0xA670 ≤ n && n ≤ 0xA672)

/-- A character that may start a script identifier. -/
def isIdStart (c : Char) : Bool :=
  let n := c.toNat
  if n < 128 then c.isAlpha || c == '_' || c == '$'
  else ((inRanges Table.letters n || inRanges Table.letterNumbers n) && n != 0x2E2F)
    || n == 0x1885 || n == 0x1886 || n == 0x2118 || n == 0x212E || n == 0x309B || n == 0x309C

/-- A character that may continue a script identifier. -/
def isIdContinue (c : Char) : Bool :=
  let n := c.toNat
  if n < 128 then c.isAlphanum || c == '_' || c == '$'
  else isIdStart c || (inRanges Table.marks n && !isEnclosingMark n) || inRanges Table.digits n
    || isConnector n || n == 0xB7 || n == 0x387 || (0x1369 ≤ n && n ≤ 0x1371) || n == 0x19DA
    || n == 0x200C || n == 0x200D || n == 0x30FB || n == 0xFF65

/-! ## Section 5: Letters without regard to case -/

/-- Equality with a lower-case ASCII letter when case is ignored. Simple case folding also
    sends the long s to `s` and the Kelvin sign to `k`. -/
def foldsTo (letter c : Char) : Bool :=
  c.toLower == letter || (letter == 's' && c.toNat == 0x17F) || (letter == 'k' && c.toNat == 0x212A)

/-- What follows a word of lower-case ASCII letters when the text starts with it in any case. -/
def stripFolded? : List Char → List Char → Option (List Char)
  | [], cs => some cs
  | _ :: _, [] => none
  | p :: ps, c :: cs => if foldsTo p c then stripFolded? ps cs else none

end BuildMacros.Text
