import BuildMacros.Error
import BuildMacros.SourceMap.Basic

/-! # Splicing

    Code is edited by splicing text into it, never by printing it anew, so what is
    not edited keeps its layout and its comments. A `Splicer` holds the source
    text, a list of accepted edits and the text put in front of everything.

    An edit replaces the bytes `start ..< stop`; an insertion replaces none. An
    edit is accepted when its ends fall between characters and it overlaps no
    accepted edit, so the edits can be applied in any order: `finish` sorts them by
    position and copies what lies between.
-/

namespace BuildMacros

open BuildMacros.Text

/-! ## Section 1: Edits -/

/-- Replacement of the bytes `start ..< stop` by a text. -/
structure Edit where
  start : Nat
  /-- Equal to `start` for insertions. -/
  stop : Nat
  text : String
deriving DecidableEq, Repr

namespace Edit

/-- The edit replaces nothing. -/
def isInsert (e : Edit) : Bool := e.start == e.stop

/-- The edit would change what the range `start ..< stop` replaces, or the other way round. An
    insertion conflicts only strictly inside a replaced range; at its ends it does not. -/
def conflicts (e : Edit) (start stop : Nat) : Bool :=
  if start == stop then !e.isInsert && e.start < start && start < e.stop
  else if e.isInsert then start < e.start && e.start < stop
  else start < e.stop && e.start < stop

/-- Edits in the order of their positions; at one position insertions come first. -/
def before (a b : Edit) : Bool :=
  a.start < b.start || (a.start == b.start && (a.isInsert || !b.isInsert))

end Edit

/-! ## Section 2: Results -/

/-- Result of one pass over one file. -/
inductive Output where
  | unchanged
  | edited (code : String) (map : Option SourceMap)
deriving DecidableEq, Repr

namespace Output

/-- The pass changed the file. -/
def isChanged : Output → Bool
  | unchanged => false
  | edited .. => true

/-- The new text, when there is one. -/
def code? : Output → Option String
  | unchanged => none
  | edited code _ => some code

/-- The map of the new text, when one was asked for. -/
def map? : Output → Option SourceMap
  | unchanged => none
  | edited _ map => map

/-- The new text, or the given one when nothing changed. -/
def codeOr (source : String) (o : Output) : String := o.code?.getD source

end Output

/-! ## Section 3: The splicer -/

/-- A text together with the edits accepted so far. -/
structure Splicer where
  source : String
  /-- Text in front of everything. -/
  intro : String
  /-- Accepted edits in the order of the calls. -/
  edits : List Edit
deriving DecidableEq, Repr

namespace Splicer

/-- No edits yet. -/
def new (source : String) : Splicer := ⟨source, "", []⟩

/-- Something was put in front or some edit was accepted. -/
def hasChanged (s : Splicer) : Bool := !s.intro.isEmpty || !s.edits.isEmpty

/-- The range lies in the text and its ends fall between characters. -/
def isRange (s : Splicer) (start stop : Nat) : Bool :=
  start ≤ stop && stop ≤ byteLength s.source.toList
    && isBoundary s.source.toList start && isBoundary s.source.toList stop

/-- Accepts an edit, or says which condition it breaks. -/
def accept (s : Splicer) (start stop : Nat) (text : String) : Except Failure Splicer :=
  if !s.isRange start stop then
    .error (.invalidEdit start stop (byteLength s.source.toList))
  else match s.edits.find? (·.conflicts start stop) with
    | some e => .error (.overlappingEdit start stop e.start e.stop)
    | none => .ok { s with edits := s.edits ++ [⟨start, stop, text⟩] }

/-- Inserts a text. Repeated insertions at one position keep their order, and an insertion at the
    start of a replaced range lands before the replacement. -/
def insert (s : Splicer) (pos : Nat) (text : String) : Except Failure Splicer :=
  s.accept pos pos text

/-- Replaces a range, which may not be empty. -/
def overwrite (s : Splicer) (start stop : Nat) (text : String) : Except Failure Splicer :=
  if start = stop then .error (.invalidEdit start stop (byteLength s.source.toList))
  else s.accept start stop text

/-- Puts a text in front of everything, earlier such texts included. -/
def prepend (s : Splicer) (text : String) : Splicer := { s with intro := text ++ s.intro }

/-- The edits by position. The sort is stable, so insertions at one position keep their order. -/
def ordered (s : Splicer) : List Edit := s.edits.mergeSort Edit.before

/-! ## Section 4: The new text and its map -/

/-- The text from `cursor` on with the edits applied. -/
def splice (source : List Char) (cursor : Nat) : List Edit → List Char
  | [] => dropBytes cursor source
  | e :: es =>
    slice source cursor e.start ++ e.text.toList ++ splice source (max e.stop cursor) es

/-- The edited text. -/
def finish (s : Splicer) : String :=
  s.intro ++ String.ofList (splice s.source.toList 0 s.ordered)

/-- Lays out the text from `cursor` on with the edits applied. -/
def draw (source : List Char) (cursor : Nat) (d : SourceMap.Drawing) :
    List Edit → SourceMap.Drawing
  | [] => d.chunk source cursor (byteLength source)
  | e :: es =>
    draw source (max e.stop cursor)
      ((d.chunk source cursor e.start).replacement source e.start e.text.toList) es

/-- Map from the edited text to the source. -/
def generateMap (s : Splicer) (file : String) : SourceMap :=
  let d := SourceMap.Drawing.empty.generated s.intro.toList
  let d := draw s.source.toList 0 d s.ordered
  .new file s.source (String.ofList (SourceMap.encode d.toLines))

/-- The result of a pass that made these edits. -/
def output (s : Splicer) (file : String) (sourcemap : Bool) : Output :=
  if s.hasChanged then
    .edited s.finish (if sourcemap then some (s.generateMap file) else none)
  else .unchanged

end Splicer

end BuildMacros
