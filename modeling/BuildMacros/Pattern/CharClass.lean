import BuildMacros.Text.Class

/-! # Classes of characters in patterns

    A class is built from ranges and from properties that the Unicode standard
    gives to characters. Ignoring case adds to a class every character that equals
    one of its members under simple case folding.
-/

namespace BuildMacros

open BuildMacros.Text

/-! ## Section 1: Properties -/

/-- Properties that a pattern can ask for. -/
inductive CharProperty where
  | alphabetic
  | lowercase
  | uppercase
  | blank
  /-- Letters, marks, decimal digits, connectors and joiners. -/
  | word
  | letter
  | lowercaseLetter
  | uppercaseLetter
  | mark
  | number
  | decimal
  | letterNumber
  | otherNumber
  | formatting
deriving DecidableEq, Repr, Inhabited

/-- A category whose characters beyond ASCII are in a table. -/
def inCategory (ascii : Char → Bool) (table : Array (Nat × Nat)) (c : Char) : Bool :=
  if c.toNat < 128 then ascii c else inRanges table c.toNat

/-- The character has the property. -/
def CharProperty.has : CharProperty → Char → Bool
  | alphabetic, c => isAlphabetic c
  | lowercase, c => isLower c
  | uppercase, c => isUpper c
  | blank, c => isBlank c
  | word, c => isWord c
  | letter, c => inCategory Char.isAlpha Table.letters c
  | lowercaseLetter, c =>
    isLower c && inCategory Char.isAlpha Table.letters c && !inRanges Table.smallModifiers c.toNat
  | uppercaseLetter, c => isUpper c && inCategory Char.isAlpha Table.letters c
  | mark, c => inRanges Table.marks c.toNat
  | number, c => isNumeric c
  | decimal, c => inCategory Char.isDigit Table.digits c
  | letterNumber, c => inRanges Table.letterNumbers c.toNat
  | otherNumber, c => inRanges Table.otherNumbers c.toNat
  | formatting, c => inRanges Table.formats c.toNat

/-! ## Section 2: Classes -/

/-- Classes of characters. -/
inductive CharClass where
  /-- The characters from `lo` to `hi`, ends included. -/
  | range (lo hi : Char)
  | property (p : CharProperty)
  | all
  | union (a b : CharClass)
  | inter (a b : CharClass)
  | not (a : CharClass)
  /-- The characters of a class in any case. -/
  | anyCase (a : CharClass)
deriving DecidableEq, Repr, Inhabited

namespace CharClass

/-- The single characters that a character may equal when case is ignored. -/
def caseVariants (c : Char) : List Char :=
  let single := fun cs => match cs with | [d] => [d] | _ => []
  match Table.caseOrbits.find? (·.contains c.toNat) with
  | some orbit => orbit.map Char.ofNat
  | none => c :: single (Text.lower c) ++ single (Text.upper c)

/-- Membership. -/
def has : CharClass → Char → Bool
  | range lo hi, c => lo ≤ c && c ≤ hi
  | property p, c => p.has c
  | all, _ => true
  | union a b, c => a.has c || b.has c
  | inter a b, c => a.has c && b.has c
  | not a, c => !a.has c
  | anyCase a, c => (caseVariants c).any a.has

/-- One character. -/
def single (c : Char) : CharClass := range c c

/-- No character. -/
def nothing : CharClass := not all

/-- The characters of ASCII. -/
def ascii : CharClass := range (Char.ofNat 0) (Char.ofNat 127)

/-- The decimal digits of ASCII. -/
def asciiDigit : CharClass := range '0' '9'

/-- The letters of ASCII. -/
def asciiLetter : CharClass := union (range 'a' 'z') (range 'A' 'Z')

/-- The letters and digits of ASCII and the low line. -/
def asciiWord : CharClass := union (union asciiLetter asciiDigit) (single '_')

/-- The blanks of ASCII. -/
def asciiBlank : CharClass := union (range (Char.ofNat 9) (Char.ofNat 13)) (single ' ')

end CharClass

end BuildMacros
