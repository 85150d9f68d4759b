import BuildMacros.Pattern.Reader

/-! # Name filters

    A filter decides by its name whether a call is looked at. It is a pattern, or
    absent, and then no name passes. The filter of a list of names is read from a text:
    the anchored alternative of the names, in each of which the characters that mean
    something in patterns are escaped.
-/

namespace BuildMacros

/-! ## Section 1: Patterns for names -/

namespace Pattern

/-- The characters that mean something in a pattern, in one place or another. -/
def metaChars : List Char :=
  ['\\', '.', '+', '*', '?', '(', ')', '|', '[', ']', '{', '}', '^', '$', '#', '&', '-', '~']

/-- A character as a pattern writes it when it is taken literally. -/
def escapedChar (c : Char) : List Char := if metaChars.contains c then ['\\', c] else [c]

/-- A text as a pattern writes it when it is taken literally. -/
def escaped (cs : List Char) : List Char := cs.flatMap escapedChar

/-- An ascending list of texts with one more text, unless that is in it. -/
def place (w : List Char) : List (List Char) → List (List Char)
  | [] => [w]
  | v :: vs => if w = v then v :: vs else if w < v then w :: v :: vs else v :: place w vs

/-- The texts in ascending order, each of them once. -/
def ascending (ws : List (List Char)) : List (List Char) := ws.foldr place []

/-- The whole text is one of the given ones. -/
def exactly (ws : List (List Char)) : List Char :=
  ['^', '(', '?', ':'] ++ Text.join ['|'] (ascending (ws.map escaped)) ++ [')', '$']

end Pattern

/-! ## Section 2: Filters -/

/-- A condition on names. -/
structure NameFilter where
  pattern : Option Pattern
deriving DecidableEq, Repr

namespace NameFilter

/-- Names that match a pattern. -/
def ofPattern (p : Pattern) : NameFilter := ⟨some p⟩

/-- Exactly the given names. -/
def ofNames (names : List String) : NameFilter :=
  if names.isEmpty then ⟨none⟩ else ⟨Pattern.read (Pattern.exactly (names.map String.toList))⟩

/-- The name passes. -/
def accepts (f : NameFilter) (name : String) : Bool := f.pattern.any (·.isMatch name)

end NameFilter

end BuildMacros
