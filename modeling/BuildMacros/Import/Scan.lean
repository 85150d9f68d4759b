import BuildMacros.Text.Basic
import BuildMacros.Text.Class

/-! # Static imports found in text

    Imports are found without parsing the module: a statement begins a line or
    follows `;` or `}`, and reads `import`, optionally a clause and `from`, and a
    quoted specifier. The clause is the shortest run of clause characters that is
    followed by `from` and a specifier. What does not read as an import is passed
    over, never reported.

    `findImports` is total on all texts. Its records carry the byte offsets from
    the keyword to just after the closing quote.
-/

namespace BuildMacros.Import

open BuildMacros.Text

/-! ## Section 1: Records -/

/-- An imported name and the local name it is bound to. -/
structure Named where
  imported : String
  localName : String
deriving DecidableEq, Repr

/-- What a clause binds. -/
structure Clause where
  default : Option String
  namespaceName : Option String
  named : List Named
  typeOnly : Bool
deriving DecidableEq, Repr

/-- A clause that binds nothing. -/
def Clause.empty : Clause := ⟨none, none, [], false⟩

/-- One import statement as written. -/
structure Record where
  /-- The specifier before any resolution. -/
  specifier : String
  clause : Clause
  start : Nat
  stop : Nat
deriving DecidableEq, Repr

/-! ## Section 2: Statements -/

/-- The characters of a clause. -/
def isClauseChar (c : Char) : Bool :=
  isWord c || isBlank c || c == '$' || c == '*' || c == '{' || c == '}' || c == ','

/-- A quote of either kind. -/
def isQuote (c : Char) : Bool := c == '"' || c == '\''

/-- A nonempty specifier between quotes on one line. -/
def specifierPart : List Char → Option (List Char × List Char)
  | q :: cs =>
    if isQuote q then
      let body := cs.takeWhile fun c => !isQuote c && c != '\n'
      match cs.dropWhile fun c => !isQuote c && c != '\n' with
      | q' :: rest => if isQuote q' && !body.isEmpty then some (body, rest) else none
      | [] => none
    else none
  | [] => none

/-- `from` and a specifier, with blanks before each. -/
def fromPart (cs : List Char) : Option (List Char × List Char) :=
  match strip? "from".toList (cs.dropWhile isBlank) with
  | some rest => specifierPart (rest.dropWhile isBlank)
  | none => none

/-- The shortest nonempty clause that `from` and a specifier follow, with these. -/
def clausePart : List Char → Option (List Char × List Char × List Char)
  | [] => none
  | c :: cs =>
    if isClauseChar c then
      match fromPart cs with
      | some (specifier, rest) => some ([c], specifier, rest)
      | none =>
        match clausePart cs with
        | some (clause, specifier, rest) => some (c :: clause, specifier, rest)
        | none => none
    else none

/-- What follows the keyword: clause, specifier and rest. A blank counts as the clause of
    `import from '…'`. -/
def afterKeyword (cs : List Char) : Option (Option (List Char) × List Char × List Char) :=
  let body := cs.dropWhile isBlank
  match clausePart body with
  | some (clause, specifier, rest) => some (some clause, specifier, rest)
  | none =>
    match specifierPart body with
    | some (specifier, rest) => some (none, specifier, rest)
    | none =>
      if body.length < cs.length then
        match fromPart body with
        | some (specifier, rest) => some (some [' '], specifier, rest)
        | none => none
      else none

/-- A statement after blanks: number of bytes before the keyword, and what follows it. -/
def statementPart (cs : List Char) :
    Option (Nat × Option (List Char) × List Char × List Char) :=
  let isIndent := fun c => c == ' ' || c == '\t'
  match strip? "import".toList (cs.dropWhile isIndent) with
  | some rest =>
    match afterKeyword rest with
    | some found => some (byteLength (cs.takeWhile isIndent), found)
    | none => none
  | none => none

/-- A statement at the start of a line or behind the character that ends another one. -/
def matchAt (lineStart : Bool) (cs : List Char) :
    Option (Nat × Option (List Char) × List Char × List Char) :=
  match (if lineStart then statementPart cs else none) with
  | some found => some found
  | none =>
    match cs with
    | c :: rest =>
      if c == ';' || c == '}' then
        match statementPart rest with
        | some (indent, found) => some (indent + 1, found)
        | none => none
      else none
    | [] => none

/-! ## Section 3: Clauses -/

/-- A name that can be bound. -/
def isIdentifier : List Char → Bool
  | [] => false
  | c :: cs =>
    (isAlphabetic c || c == '_' || c == '$')
      && cs.all fun c => isAlphanumeric c || c == '_' || c == '$'

/-- The clause without a leading `type` keyword, and whether it had one. `type` is a keyword when
    a blank follows it, and then no comma. -/
def typeMark (cs : List Char) : Bool × List Char :=
  match strip? "type".toList cs with
  | some rest =>
    if rest.head?.any isBlank && !startsWith [','] (rest.dropWhile isBlank) then
      (true, rest.dropWhile isBlank)
    else (false, cs)
  | none => (false, cs)

/-- One item between braces: nothing for an empty item or one marked `type`. -/
def namedItem (item : List Char) : Option (Option Named) :=
  match words isBlank item with
  | [] => some none
  | [name] =>
    if isIdentifier name then some (some ⟨String.ofList name, String.ofList name⟩) else none
  | w :: ws =>
    if w = "type".toList then some none
    else match ws with
      | [as, name] =>
        if as = "as".toList && isIdentifier name then
          some (some ⟨String.ofList w, String.ofList name⟩)
        else none
      | _ => none

/-- All items between braces. -/
def namedItems : List (List Char) → Option (List Named)
  | [] => some []
  | item :: items =>
    match namedItem item, namedItems items with
    | some (some n), some ns => some (n :: ns)
    | some none, some ns => some ns
    | _, _ => none

/-- The namespace or the named imports after an optional default import. -/
def bindingsPart (cs : List Char) : Option (Option String × List Named) :=
  match cs with
  | [] => some (none, [])
  | '*' :: rest =>
    match words isBlank rest with
    | [as, name] =>
      if as = "as".toList && isIdentifier name then some (some (String.ofList name), []) else none
    | _ => none
  | '{' :: rest =>
    match splitLast? (· == '}') rest with
    | some (inner, []) => (namedItems (fields (· == ',') inner)).map fun ns => (none, ns)
    | _ => none
  | _ => none

/-- Reads a clause; nothing when it is not well formed. -/
def parseClause (clause : List Char) : Option Clause :=
  let (typeOnly, rest) := typeMark (trim isBlank clause)
  if startsWith ['{'] rest || startsWith ['*'] rest then
    (bindingsPart rest).map fun b => ⟨none, b.1, b.2, typeOnly⟩
  else
    let name := trim isBlank (rest.takeWhile (· != ','))
    let others := trim isBlank ((rest.dropWhile (· != ',')).drop 1)
    if isIdentifier name then
      (bindingsPart others).map fun b => ⟨some (String.ofList name), b.1, b.2, typeOnly⟩
    else none

/-! ## Section 4: The scan -/

/-- Record of a statement, when its clause is well formed. -/
def record? (start stop : Nat) (clause : Option (List Char)) (specifier : List Char) :
    Option Record :=
  match clause with
  | some clause => (parseClause clause).map fun c => ⟨String.ofList specifier, c, start, stop⟩
  | none => some ⟨String.ofList specifier, .empty, start, stop⟩

/-- Scans from an offset on; the first argument bounds the number of steps. -/
def scan : Nat → Nat → Bool → List Char → List Record
  | 0, _, _, _ => []
  | _, _, _, [] => []
  | fuel + 1, pos, lineStart, c :: cs =>
    match matchAt lineStart (c :: cs) with
    | some (indent, clause, specifier, rest) =>
      let stop := pos + (byteLength (c :: cs) - byteLength rest)
      (record? (pos + indent) stop clause specifier).toList ++ scan fuel stop false rest
    | none => scan fuel (pos + c.utf8Size) (c == '\n') cs

/-- Every static import of a module, in the order of the text. -/
def findImports (code : String) : List Record :=
  scan code.toList.length 0 true code.toList

end BuildMacros.Import
