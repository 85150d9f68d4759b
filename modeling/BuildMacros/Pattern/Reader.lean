import BuildMacros.Pattern.Bracket

/-! # Reading patterns

    The usual text form of regular expressions: literals, classes, groups,
    alternatives, repetitions, anchors and flags. Matching has no captures, so a
    greedy and a lazy repetition read as the same pattern, and the name of a group
    is kept only to refuse a second group of that name. There are no
    back-references and no look-around; a text that asks for them is refused, like
    every other text that is not well formed.

    Covered are patterns as build tools write them for paths. A repetition is written
    out, so one with a bound above `repetitionLimit` is refused although it means
    something, and so is a class `\p{…}` that `Escape` has no table for, such as a script
    or the category of punctuation. In the other direction there is no limit to how deep
    groups are nested or how large the matcher of a pattern gets, so that a pattern which
    a compiler finds too deep or too large is read here.

    Alternatives, sequences and atoms are read by functions that take the reader
    of a nested group as an argument; `group` ties them together, and the length of
    the text bounds the depth of nesting.
-/

namespace BuildMacros.Pattern

open BuildMacros.Text

/-! ## Section 1: Repetitions -/

/-- A decimal number, with blanks around it. -/
def count (f : Flags) (cs : List Char) : Option (Nat × List Char) :=
  let body := cs.dropWhile isBlank
  let inNumber := fun (c : Char) => c.isDigit || (f.verbose && isBlank c)
  let digits := (body.takeWhile inNumber).filter Char.isDigit
  if digits.isEmpty || !body.head?.any Char.isDigit then none
  else
    some (digits.foldl (fun n d => 10 * n + (d.toNat - 48)) 0,
      (body.dropWhile inNumber).dropWhile isBlank)

/-- Bounds after an opening brace: at least, and at most when given. -/
def bounds? (f : Flags) (cs : List Char) : Option ((Nat × Option Nat) × List Char) := do
  let (lo, rest) ← count f (f.skip cs)
  match rest with
  | '}' :: rest => some ((lo, some lo), rest)
  | ',' :: rest =>
    match f.skip rest with
    | '}' :: rest => some ((lo, none), rest)
    | rest =>
      match count f rest with
      | some (hi, '}' :: rest) => if lo ≤ hi then some ((lo, some hi), rest) else none
      | _ => none
  | _ => none

/-- Largest repetition that is written out. -/
def repetitionLimit : Nat := 1000

/-- A pattern repeated as often as the bounds say. -/
def repeated (p : Pattern) : Nat × Option Nat → Pattern
  | (n, none) => seq (times p n) (star p)
  | (n, some m) => seq (times p n) (atMost p (m - n))

/-- Applies the repetition operators that follow an atom. -/
def repetitions (f : Flags) : Nat → Pattern → List Char → Option (Pattern × List Char)
  | 0, _, _ => none
  | fuel + 1, p, cs =>
    let dropLazyMark := fun (rest : List Char) => match rest with
      | '?' :: rest => rest
      | rest => rest
    match f.skip cs with
    | '*' :: rest => repetitions f fuel (star p) (dropLazyMark rest)
    | '+' :: rest => repetitions f fuel (seq p (star p)) (dropLazyMark rest)
    | '?' :: rest => repetitions f fuel (optional p) (dropLazyMark rest)
    | '{' :: rest =>
      match bounds? f rest with
      | some (b, rest) =>
        if b.1 ≤ repetitionLimit && b.2.all (· ≤ repetitionLimit) then
          repetitions f fuel (repeated p b) (dropLazyMark (f.skip rest))
        else none
      | none => none
    | cs => some (p, cs)

/-! ## Section 2: Openings of groups -/

/-- Flags up to `:` or `)`: letters switch on, after a hyphen off. Nothing is written twice, and a
    letter follows the hyphen. `seen` is what was read, the last first. -/
def flagsPart (f : Flags) (on : Bool) (seen : List Char) : List Char → Option (Flags × List Char)
  | [] => none
  | c :: cs =>
    if c = ':' || c = ')' then if seen.head? = some '-' then none else some (f, c :: cs)
    else if seen.contains c then none
    else if c = '-' then flagsPart f false (c :: seen) cs
    else match f.set? c on with
      | some f' => flagsPart f' on (c :: seen) cs
      | none => none

/-- What stands behind `(`: a group with its flags and perhaps a name, or flags for the rest of the
    group around. -/
inductive Opening where
  | group (f : Flags) (name : Option (List Char)) (body : List Char)
  | switch (f : Flags) (rest : List Char)

/-- A character that a group name may hold. -/
def isNamePart (first : Bool) (c : Char) : Bool :=
  c == '_' || if first then isAlphabetic c else isAlphanumeric c || c == '.' || c == '[' || c == ']'

/-- A group with a name, which stands before a closing angle bracket. -/
def namedGroup (f : Flags) (cs : List Char) : Option Opening :=
  match cs.takeWhile (· != '>'), cs.dropWhile (· != '>') with
  | c :: name, _ :: body =>
    if isNamePart true c && name.all (isNamePart false) then some (.group f (some (c :: name)) body)
    else none
  | _, _ => none

/-- What stands behind an opening parenthesis. -/
def opening (f : Flags) (cs : List Char) : Option Opening :=
  match f.skip cs with
  | '?' :: 'P' :: '<' :: cs => namedGroup f cs
  | '?' :: '<' :: cs => namedGroup f cs
  | '?' :: cs =>
    match flagsPart f true [] cs with
    | some (f', ':' :: body) => some (.group f' none body)
    | some (f', ')' :: rest) => if cs.head? = some ')' then none else some (.switch f' rest)
    | _ => none
  | cs => some (.group f none cs)

/-! ## Section 3: Groups and alternatives -/

/-- A pattern for the places of a line's ends, or of the text's ends when lines do not count. -/
def Flags.lineAnchor (f : Flags) (ofLine : Bool → Anchor) (ofText : Anchor) : Pattern :=
  anchor (if f.multiLine then ofLine f.returns else ofText)

/-- What a dot matches: any character but the ends of lines. -/
def Flags.dot? (f : Flags) : Option CharClass :=
  if !f.wide then none
  else if f.dotAll then some .all
  else if f.returns then some (.not (.union (.single '\n') (.single '\r')))
  else some (.not (.single '\n'))

/-- An atom that is no group. -/
def atom (f : Flags) : List Char → Option (Pattern × List Char)
  | [] => none
  | c :: cs =>
    if c = '.' then f.dot?.map fun k => (one k, cs)
    else if c = '^' then some (f.lineAnchor .lineStart .textStart, cs)
    else if c = '$' then some (f.lineAnchor .lineEnd .textEnd, cs)
    else if c = '[' then (bracketClass f cs).map fun r => (one r.1, r.2)
    else if c = '\\' then
      match escape f cs with
      | some (.letter k, rest) => some (one (f.fold (.single k)), rest)
      | some (.cls k, rest) => some (one k, rest)
      | some (.anchor a, rest) => some (anchor a, rest)
      | none => none
    else if c = '*' || c = '+' || c = '?' || c = '{' then none
    else some (one (f.fold (.single c)), cs)

/-- A pattern that was read, and the names of the groups in it. -/
structure Reading where
  pattern : Pattern
  names : List (List Char)
deriving DecidableEq, Repr

/-- Nothing was read. -/
def Reading.empty : Reading := ⟨.empty, []⟩

/-- A reading continued by a pattern. -/
def Reading.then (r : Reading) (p : Pattern) : Reading := { r with pattern := seq r.pattern p }

/-- Reader of the inside of a group, up to its closing parenthesis or the end of the text. -/
abbrev GroupReader := Flags → List Char → Option (Reading × List Char)

/-- Alternatives of sequences. `alts` are the alternatives read before, and `acc` is the sequence
    read so far, with the names in all of them. -/
def alternatives (nested : GroupReader) :
    Nat → Flags → Option Pattern → Reading → List Char → Option (Reading × List Char)
  | 0, _, _, _, _ => none
  | fuel + 1, f, alts, acc, cs =>
    let finished := match alts with
      | some p => alt p acc.pattern
      | none => acc.pattern
    match f.skip cs with
    | [] => some ({ acc with pattern := finished }, [])
    | ')' :: rest => some ({ acc with pattern := finished }, ')' :: rest)
    | '|' :: rest => alternatives nested fuel f (some finished) { acc with pattern := .empty } rest
    | '(' :: rest =>
      match opening f rest with
      | some (.switch f' rest) => alternatives nested fuel f' alts acc rest
      | some (.group f' name body) =>
        match nested f' body with
        | some (inner, ')' :: rest) =>
          match repetitions f (rest.length + 1) inner.pattern rest with
          | some (p, rest) =>
            let names := acc.names ++ name.toList ++ inner.names
            alternatives nested fuel f alts ({ acc with names := names }.then p) rest
          | none => none
        | _ => none
      | none => none
    | cs =>
      match atom f cs with
      | some (p, rest) =>
        match repetitions f (rest.length + 1) p rest with
        | some (p, rest) => alternatives nested fuel f alts (acc.then p) rest
        | none => none
      | none => none

/-- The inside of a group; the first argument bounds the depth of nesting. -/
def group : Nat → GroupReader
  | 0, _, _ => none
  | depth + 1, f, cs => alternatives (group depth) (cs.length + 1) f none .empty cs

/-- The pattern that characters stand for. -/
def read (cs : List Char) : Option Pattern :=
  match group (cs.length + 1) Flags.initial cs with
  | some (r, []) => if r.names.Nodup then some r.pattern else none
  | _ => none

/-- The pattern a text stands for. -/
def parse (text : String) : Option Pattern := read text.toList

end BuildMacros.Pattern
