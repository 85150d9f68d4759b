/-! # Text as characters, offsets as bytes

    Texts are lists of characters. Every position, span and length that leaves
    the library counts bytes of the UTF-8 encoding, so this module relates the
    two: `byteLength` measures a list, `isBoundary` says which offsets fall
    between two characters, and `slice` cuts by offsets.

    `slice` selects the characters that *start* in a range. On boundaries it is
    the usual substring; because it is defined by a condition on each character
    alone, neighbouring slices always join without loss.
-/

namespace BuildMacros.Text

/-! ## Section 1: Measures -/

/-- Number of bytes in the UTF-8 encoding. -/
def byteLength : List Char → Nat
  | [] => 0
  | c :: cs => c.utf8Size + byteLength cs

/-- Number of UTF-16 units of one character. -/
def units16 (c : Char) : Nat := if c.val < 0x10000 then 1 else 2

/-- Number of UTF-16 units of a text. -/
def length16 : List Char → Nat
  | [] => 0
  | c :: cs => units16 c + length16 cs

theorem byteLength_append (xs ys : List Char) :
    byteLength (xs ++ ys) = byteLength xs + byteLength ys := by
  induction xs with
  | nil => simp [byteLength]
  | cons c cs ih => simp [byteLength, ih, Nat.add_assoc]

theorem length16_append (xs ys : List Char) :
    length16 (xs ++ ys) = length16 xs + length16 ys := by
  induction xs with
  | nil => simp [length16]
  | cons c cs ih => simp [length16, ih, Nat.add_assoc]

/-! ## Section 2: Cutting by byte offsets -/

/-- The offset `pos` falls between two characters, or at an end. -/
def isBoundary : List Char → Nat → Bool
  | [], pos => pos == 0
  | c :: cs, pos => pos == 0 || (c.utf8Size ≤ pos && isBoundary cs (pos - c.utf8Size))

/-- `slice` for a text whose first character stands at offset `pos`. -/
def sliceAt (pos start stop : Nat) : List Char → List Char
  | [] => []
  | c :: cs =>
    if stop ≤ pos then []
    else if pos < start then sliceAt (pos + c.utf8Size) start stop cs
    else c :: sliceAt (pos + c.utf8Size) start stop cs

/-- The characters whose first byte lies in `start ..< stop`. -/
def slice (cs : List Char) (start stop : Nat) : List Char := sliceAt 0 start stop cs

/-- The characters from offset `start` on. -/
def dropBytes : Nat → List Char → List Char
  | _, [] => []
  | 0, cs => cs
  | n, c :: cs => dropBytes (n - c.utf8Size) cs

/-! ## Section 3: Finding -/

/-- What follows `lead` when the text starts with it. -/
def strip? : List Char → List Char → Option (List Char)
  | [], cs => some cs
  | _ :: _, [] => none
  | p :: ps, c :: cs => if p == c then strip? ps cs else none

/-- The text starts with `lead`. -/
def startsWith (lead cs : List Char) : Bool := (strip? lead cs).isSome

/-- The text ends with `tail`. -/
def endsWith (tail cs : List Char) : Bool := startsWith tail.reverse cs.reverse

/-- Some suffix of the text starts with `word`. -/
def contains (word : List Char) : List Char → Bool
  | [] => startsWith word []
  | c :: cs => startsWith word (c :: cs) || contains word cs

/-- Splits around the last character that satisfies `p`. -/
def splitLast? (p : Char → Bool) : List Char → Option (List Char × List Char)
  | [] => none
  | c :: cs =>
    match splitLast? p cs with
    | some (before, after) => some (c :: before, after)
    | none => if p c then some ([], cs) else none

/-! ## Section 4: Fields, words and trimming -/

/-- The pieces between the characters that satisfy `sep`; one more than there are such
    characters, so the result is never empty. -/
def fields (sep : Char → Bool) : List Char → List (List Char)
  | [] => [[]]
  | c :: cs =>
    if sep c then [] :: fields sep cs
    else match fields sep cs with
      | [] => [[c]]
      | f :: fs => (c :: f) :: fs

/-- The nonempty pieces between blanks. -/
def words (blank : Char → Bool) (cs : List Char) : List (List Char) :=
  (fields blank cs).filter (fun w => !w.isEmpty)

/-- Drops the characters of a class at the end. -/
def dropEnd (p : Char → Bool) (cs : List Char) : List Char :=
  (cs.reverse.dropWhile p).reverse

/-- Drops the characters of a class at both ends. -/
def trim (p : Char → Bool) (cs : List Char) : List Char := dropEnd p (cs.dropWhile p)

/-- Joins pieces with a separator between neighbours. -/
def join (sep : List Char) : List (List Char) → List Char
  | [] => []
  | [p] => p
  | p :: q :: ps => p ++ sep ++ join sep (q :: ps)

end BuildMacros.Text
