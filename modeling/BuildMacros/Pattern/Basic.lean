import BuildMacros.Pattern.CharClass

/-! # Text patterns

    Patterns are regular expressions without captures: all the library asks is
    whether some part of a text matches. A `Place` is a point in a text, given by
    the character before it and the characters after it; `ends` answers every
    place a match that begins at a place can end at.
-/

namespace BuildMacros

/-! ## Section 1: Conditions on places -/

/-- A point in a text. -/
structure Place where
  before : Option Char
  after : List Char
deriving DecidableEq, Repr

/-- What is asked of the characters on both sides of a place: whether they belong to a word. -/
inductive Edge where
  /-- Exactly one of them does. -/
  | either
  /-- Both do or none does. -/
  | neither
  /-- The one after the place does, and the one before does not. -/
  | start
  /-- The one before the place does, and the one after does not. -/
  | finish
  /-- The one before the place does not. -/
  | halfStart
  /-- The one after the place does not. -/
  | halfFinish
deriving DecidableEq, Repr, Inhabited

/-- The condition holds, given whether the characters before and after belong to a word. -/
def Edge.holds : Edge → Bool → Bool → Bool
  | either, before, after => before != after
  | neither, before, after => before == after
  | start, before, after => !before && after
  | finish, before, after => before && !after
  | halfStart, before, _ => !before
  | halfFinish, _, after => !after

/-- Conditions on places. A condition takes no characters. -/
inductive Anchor where
  /-- The start of the text. -/
  | textStart
  /-- The end of the text. -/
  | textEnd
  /-- The start of a line. With `returns`, carriage returns end lines too, and a carriage return
      and the line feed after it end one line. -/
  | lineStart (returns : Bool)
  | lineEnd (returns : Bool)
  /-- A place at a word of characters of a class. -/
  | edge (word : CharClass) (e : Edge)
deriving DecidableEq, Repr, Inhabited

/-- The condition holds at the place. -/
def Anchor.holds : Anchor → Place → Bool
  | textStart, p => p.before.isNone
  | textEnd, p => p.after.isEmpty
  | lineStart false, p => p.before.all (· == '\n')
  | lineStart true, p =>
    p.before.all (· == '\n') || (p.before == some '\r' && p.after.head? != some '\n')
  | lineEnd false, p => p.after.head?.all (· == '\n')
  | lineEnd true, p =>
    p.after.head?.all (· == '\r') || (p.after.head? == some '\n' && p.before != some '\r')
  | edge word e, p => e.holds (p.before.any word.has) (p.after.head?.any word.has)

/-! ## Section 2: Patterns and matching -/

/-- Regular expressions. -/
inductive Pattern where
  /-- Matches nothing but the empty text. -/
  | empty
  | one (cls : CharClass)
  | anchor (a : Anchor)
  | seq (p q : Pattern)
  | alt (p q : Pattern)
  | star (p : Pattern)
deriving DecidableEq, Repr, Inhabited

namespace Pattern

/-- Adds the places of the second list that the first lacks. -/
def merge (seen : List Place) : List Place → List Place
  | [] => seen
  | p :: ps => if seen.contains p then merge seen ps else merge (seen ++ [p]) ps

/-- Closure of a list of places under a step; each round adds the places one more step away. A
    round that adds nothing is the last one, and there are no more rounds than places. -/
def closure (step : Place → List Place) : Nat → List Place → List Place → List Place
  | 0, _, seen => seen
  | fuel + 1, frontier, seen =>
    let fresh := (merge [] (frontier.flatMap step)).filter fun p => !seen.contains p
    if fresh.isEmpty then seen else closure step fuel fresh (seen ++ fresh)

/-- Every place a match from `p` can end at. -/
def ends : Pattern → Place → List Place
  | empty, p => [p]
  | one cls, p =>
    match p.after with
    | c :: cs => if cls.has c then [⟨some c, cs⟩] else []
    | [] => []
  | anchor a, p => if a.holds p then [p] else []
  | seq a b, p => merge [] ((ends a p).flatMap (ends b))
  | alt a b, p => merge (ends a p) (ends b p)
  | star a, p => closure (ends a) (p.after.length + 1) [p] [p]

/-- A match begins at the place or at a later one. -/
def matchesFrom (pat : Pattern) (before : Option Char) : List Char → Bool
  | [] => !(ends pat ⟨before, []⟩).isEmpty
  | c :: cs => !(ends pat ⟨before, c :: cs⟩).isEmpty || matchesFrom pat (some c) cs

/-- Some part of the text matches. -/
def isMatch (pat : Pattern) (text : String) : Bool := matchesFrom pat none text.toList

/-! ## Section 3: Building patterns -/

/-- At most one match. -/
def optional (p : Pattern) : Pattern := alt p empty

/-- `n` matches in a row. -/
def times (p : Pattern) : Nat → Pattern
  | 0 => empty
  | n + 1 => seq p (times p n)

/-- At most `n` matches in a row. -/
def atMost (p : Pattern) : Nat → Pattern
  | 0 => empty
  | n + 1 => optional (seq p (atMost p n))

end Pattern

end BuildMacros
