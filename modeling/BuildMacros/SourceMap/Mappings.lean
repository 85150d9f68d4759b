import BuildMacros.SourceMap.Vlq
import BuildMacros.Text.Basic

/-! # Mappings between a generated text and its origin

    A `Drawing` records, line by line, where the pieces of a generated text come
    from, while the text is laid out piece by piece: text without an origin,
    chunks copied from the source, and replacements attributed to one offset of
    it. Each piece puts down at most one `Segment` per generated line.

    Columns count UTF-16 units. `encode` writes the segments as the `mappings`
    field of a source map, in which every number is a difference: the generated
    column to the one before it on the same line, line and column of the origin to
    those of the segment before, across lines.
-/

namespace BuildMacros.SourceMap

open BuildMacros.Text

/-! ## Section 1: Positions and segments -/

/-- A line and a column, both from zero. -/
structure Position where
  line : Nat
  column : Nat
deriving DecidableEq, Repr

/-- From `column` on, a generated line comes from `origin`. -/
structure Segment where
  column : Nat
  origin : Position
deriving DecidableEq, Repr

/-- Line and column of the end of a text. -/
def endPosition (cs : List Char) : Position :=
  ⟨cs.count '\n', length16 (cs.reverse.takeWhile (· != '\n'))⟩

/-- Offsets at which lines start after `pos`, where the text begins. -/
def lineStartsAfter (pos : Nat) : List Char → List Nat
  | [] => []
  | c :: cs =>
    let next := pos + c.utf8Size
    if c = '\n' then next :: lineStartsAfter next cs else lineStartsAfter next cs

/-- Offsets at which the lines of a text start, in ascending order. -/
def lineStarts (source : List Char) : List Nat := 0 :: lineStartsAfter 0 source

/-- Index of a number in an ascending list, or else the index at which it would be inserted. -/
def search (xs : List Nat) (x : Nat) : Except Nat Nat :=
  match xs.idxOf? x with
  | some i => .ok i
  | none => .error (xs.countP (· < x))

/-- Number of the line that an offset lies in: the one that starts there, or else the one before
    the first that starts behind it. -/
def lineOf (starts : List Nat) (offset : Nat) : Nat :=
  match search starts offset with
  | .ok line => line
  | .error next => next - 1

/-- Line and column of an offset. -/
def locate (source : List Char) (offset : Nat) : Position :=
  let starts := lineStarts source
  let line := lineOf starts offset
  ⟨line, length16 (slice source (starts.getD line 0) offset)⟩

/-! ## Section 2: Laying out a text -/

/-- A piece of a generated text. -/
inductive Piece where
  /-- Text without an origin. -/
  | generated (cs : List Char)
  /-- The bytes `start ..< stop` of the source. -/
  | chunk (start stop : Nat)
  /-- Text attributed to one offset of the source. -/
  | replacement (origin : Nat) (cs : List Char)
deriving DecidableEq, Repr

/-- Segments of the text laid out so far. -/
structure Drawing where
  /-- Finished lines, last line first; segments of a line in order. -/
  finished : List (List Segment)
  /-- Segments of the open line, last segment first. -/
  current : List Segment
  /-- UTF-16 length of the open line. -/
  column : Nat
deriving DecidableEq, Repr

namespace Drawing

/-- Nothing laid out. -/
def empty : Drawing := ⟨[], [], 0⟩

/-- Moves past one character of generated text. -/
def step (d : Drawing) (c : Char) : Drawing :=
  if c = '\n' then ⟨d.current.reverse :: d.finished, [], 0⟩
  else { d with column := d.column + units16 c }

/-- Moves past a text that gets no segment. -/
def generated (d : Drawing) (cs : List Char) : Drawing := cs.foldl step d

/-- Puts down a segment at the current column. -/
def mark (d : Drawing) (origin : Position) : Drawing :=
  { d with current := ⟨d.column, origin⟩ :: d.current }

/-- Lays out lines copied from the source, the first of which starts at `offset`. Each line that
    is not empty starts with a segment. -/
def lines (source : List Char) (d : Drawing) (offset : Nat) : List (List Char) → Drawing
  | [] => d
  | l :: ls =>
    let d := if l.isEmpty then d else (d.mark (locate source offset)).generated l
    match ls with
    | [] => d
    | _ => lines source (d.step '\n') (offset + byteLength l + 1) ls

/-- Lays out the characters `start ..< stop` of the source. -/
def chunk (source : List Char) (d : Drawing) (start stop : Nat) : Drawing :=
  if stop ≤ start then d
  else lines source d start (fields (· == '\n') (slice source start stop))

/-- Lays out a text attributed to one offset of the source. -/
def replacement (source : List Char) (d : Drawing) (origin : Nat) (cs : List Char) : Drawing :=
  if cs.isEmpty then d else (d.mark (locate source origin)).generated cs

/-- Both offsets fall between characters of the source. -/
def isRange (source : List Char) (start stop : Nat) : Bool :=
  isBoundary source start && isBoundary source stop

/-- Lays out one more piece, unless it refers to no part of the source. Pieces without
    characters refer to nothing. -/
def add? (source : List Char) (d : Drawing) : Piece → Option Drawing
  | .generated cs => some (d.generated cs)
  | .chunk start stop =>
    if start < stop && !isRange source start stop then none
    else some (chunk source d start stop)
  | .replacement origin cs =>
    if !cs.isEmpty && !isBoundary source origin then none
    else some (replacement source d origin cs)

/-- The segments of all lines, the open one included. -/
def toLines (d : Drawing) : List (List Segment) := (d.current.reverse :: d.finished).reverse

end Drawing

/-! ## Section 3: The `mappings` field -/

/-- Four differences: generated column, source, line and column of the origin. The map has one
    source, so the second is always zero. -/
def encodeSegment (column : Nat) (origin : Position) (s : Segment) : List Char :=
  Vlq.encode (Int.ofNat s.column - Int.ofNat column)
    ++ Vlq.encode 0
    ++ Vlq.encode (Int.ofNat s.origin.line - Int.ofNat origin.line)
    ++ Vlq.encode (Int.ofNat s.origin.column - Int.ofNat origin.column)

/-- The segments of one line after a segment with the given column and origin. -/
def encodeLine (column : Nat) (origin : Position) : List Segment → List (List Char)
  | [] => []
  | s :: ss => encodeSegment column origin s :: encodeLine s.column s.origin ss

/-- Origin of the last segment of a line, or the origin before it. -/
def lastOrigin (origin : Position) (line : List Segment) : Position :=
  (line.getLast?.map Segment.origin).getD origin

/-- All lines after a segment with the given origin. -/
def encodeLines (origin : Position) : List (List Segment) → List (List Char)
  | [] => []
  | l :: ls => join [','] (encodeLine 0 origin l) :: encodeLines (lastOrigin origin l) ls

/-- Segments of a line are separated by commas, lines by semicolons. -/
def encode (lines : List (List Segment)) : List Char := join [';'] (encodeLines ⟨0, 0⟩ lines)

end BuildMacros.SourceMap
