import BuildMacros.Pattern.Basic
import BuildMacros.Text.Basic

/-! # Flags and escapes of patterns

    Flags change how the rest of a group is read. An escape is a backslash with what
    follows it: a character, a class or a condition on a place. Without the flag
    `u` all classes stay within ASCII, and an escape that would leave it is refused,
    as is every class that only lists what it lacks.

    A class is named by a general category or a property. Letters, marks, numbers,
    separators, control and format characters have tables, and so have the properties
    that ask for letters, case and blanks. Punctuation, symbols, single categories of
    letters and marks other than the two cases, scripts, blocks and ages have none, and a
    pattern that names one of them is refused.
-/

namespace BuildMacros.Pattern

open BuildMacros.Text

/-! ## Section 1: Flags -/

/-- Flags in force. -/
structure Flags where
  /-- `i`: case is ignored. -/
  anyCase : Bool
  /-- `m`: anchors match at lines. -/
  multiLine : Bool
  /-- `s`: a dot matches the ends of lines too. -/
  dotAll : Bool
  /-- `R`: carriage returns end lines too. -/
  returns : Bool
  /-- `u`: classes reach beyond ASCII. -/
  wide : Bool
  /-- `x`: blanks and comments are ignored. -/
  verbose : Bool
deriving DecidableEq, Repr

/-- The flags at the start of a pattern. -/
def Flags.initial : Flags := ⟨false, false, false, false, true, false⟩

/-- The flags with the flag of a letter switched on or off. Which of several repetitions comes
    first does not matter here, so the flag `U` for their order changes nothing. -/
def Flags.set? (f : Flags) (letter : Char) (on : Bool) : Option Flags :=
  if letter = 'i' then some { f with anyCase := on }
  else if letter = 'm' then some { f with multiLine := on }
  else if letter = 's' then some { f with dotAll := on }
  else if letter = 'R' then some { f with returns := on }
  else if letter = 'u' then some { f with wide := on }
  else if letter = 'x' then some { f with verbose := on }
  else if letter = 'U' then some f
  else none

/-- A class under the flags for case and width. -/
def Flags.fold (f : Flags) (cls : CharClass) : CharClass :=
  if !f.anyCase then cls
  else if f.wide then .anyCase cls
  else .union cls (.inter .ascii (.anyCase (.inter .ascii cls)))

/-- A class whose parts are all known, or its complement. Case is ignored before the complement is
    taken. -/
def Flags.close? (f : Flags) (negated : Bool) (cls : CharClass) : Option CharClass :=
  if !negated then some (f.fold cls)
  else if f.wide then some (.not (f.fold cls))
  else none

/-- The text without the blanks and comments at its head. The flag tells whether it starts within a
    comment. -/
def dropGap : Bool → List Char → List Char
  | _, [] => []
  | true, c :: cs => dropGap (c != '\n') cs
  | false, c :: cs =>
    if isBlank c then dropGap false cs else if c = '#' then dropGap true cs else c :: cs

/-- The text without what the flags let the reader ignore at its head. -/
def Flags.skip (f : Flags) (cs : List Char) : List Char :=
  if f.verbose then dropGap false cs else cs

/-! ## Section 2: Characters by number -/

/-- Value of a hexadecimal digit. -/
def hexValue? (c : Char) : Option Nat :=
  if c.isDigit then some (c.toNat - 48)
  else if 'a' ≤ c && c ≤ 'f' then some (c.toNat - 87)
  else if 'A' ≤ c && c ≤ 'F' then some (c.toNat - 55)
  else none

/-- Character with a code point written in hexadecimal. -/
def hexChar? (ds : List Char) : Option Char := do
  let n ← ds.foldlM (fun n d => (hexValue? d).map (n * 16 + ·)) 0
  if ds.isEmpty || (0xD800 ≤ n && n ≤ 0xDFFF) || 0x10FFFF < n then none else some (Char.ofNat n)

/-- `width` digits, and the text after them. -/
def hexDigits (f : Flags) : Nat → List Char → Option (List Char × List Char)
  | 0, cs => some ([], cs)
  | width + 1, cs =>
    match f.skip cs with
    | [] => none
    | c :: cs => (hexDigits f width cs).map fun r => (c :: r.1, r.2)

/-- A code point after `\x`, `\u` or `\U`: `width` digits, or any number between braces. -/
def codePoint (f : Flags) (width : Nat) (cs : List Char) : Option (Char × List Char) :=
  match f.skip cs with
  | '{' :: cs =>
    match cs.dropWhile (· != '}') with
    | _ :: rest =>
      let digits := cs.takeWhile (· != '}')
      (hexChar? (if f.verbose then digits.filter (!isBlank ·) else digits)).map (·, rest)
    | [] => none
  | cs => do
    let (digits, rest) ← hexDigits f width cs
    let c ← hexChar? digits
    return (c, rest)

/-! ## Section 3: Classes by name -/

/-- One character. -/
def charAt (n : Nat) : CharClass := .single (Char.ofNat n)

/-- The characters between two code points. -/
def charsFrom (lo hi : Nat) : CharClass := .range (Char.ofNat lo) (Char.ofNat hi)

/-- Blanks of category Zs. -/
def spaceSeparators : CharClass :=
  .inter (.property .blank)
    (.not (.union (charsFrom 9 13) (.union (charAt 0x85) (charsFrom 0x2028 0x2029))))

/-- Classes that are named for a general category. Categories that have no table are unknown. -/
def categories : List (List String × CharClass) := [
  (["l", "letter"], .property .letter),
  (["lu", "uppercaseletter"], .property .uppercaseLetter),
  (["ll", "lowercaseletter"], .property .lowercaseLetter),
  (["m", "mark", "combiningmark"], .property .mark),
  (["n", "number"], .property .number),
  (["nd", "decimalnumber", "digit"], .property .decimal),
  (["nl", "letternumber"], .property .letterNumber),
  (["no", "othernumber"], .property .otherNumber),
  (["z", "separator"], .union spaceSeparators (charsFrom 0x2028 0x2029)),
  (["zs", "spaceseparator"], spaceSeparators),
  (["zl", "lineseparator"], charAt 0x2028),
  (["zp", "paragraphseparator"], charAt 0x2029),
  (["cc", "control", "cntrl"], .union (charsFrom 0 31) (charsFrom 127 159)),
  (["cf", "format"], .union (charAt 0xAD) (.property .formatting)),
  (["any"], .all),
  (["ascii"], .ascii)]

/-- Classes that are named for a property. -/
def properties : List (List String × CharClass) := [
  (["alphabetic", "alpha"], .property .alphabetic),
  (["lowercase", "lower"], .property .lowercase),
  (["uppercase", "upper"], .property .uppercase),
  (["whitespace", "wspace", "space"], .property .blank)]

/-- A class by one of its names. -/
def classNamed? (table : List (List String × CharClass)) (name : String) : Option CharClass :=
  (table.find? fun e => e.1.contains name).map Prod.snd

/-- A name as tables hold it: lower case, without spaces, hyphens and low lines, and without `is`
    in front. -/
def plainName (name : List Char) : String :=
  let body := match name with
    | i :: s :: rest => if i.toLower = 'i' && s.toLower = 's' then rest else name
    | _ => name
  String.ofList ((body.filter fun c => c != ' ' && c != '_' && c != '-' && c.toNat < 128).map
    Char.toLower)

/-- The class for what stands between the braces of `\p{…}`, and whether its complement is
    meant. -/
def braced? (name : List Char) : Option (Bool × CharClass) :=
  let category := fun (property value : List Char) =>
    if ["gc", "generalcategory"].contains (plainName property) then
      classNamed? categories (plainName value)
    else none
  match name.span fun c => c != '!' && c != ':' && c != '=' with
  | (property, '!' :: '=' :: value) => (category property value).map (true, ·)
  | (property, ':' :: value) => (category property value).map (false, ·)
  | (property, '=' :: value) => (category property value).map (false, ·)
  | _ => (classNamed? (properties ++ categories) (plainName name)).map (false, ·)

/-- A class after `\p`, or its complement after `\P`. -/
def propertyClass? (f : Flags) (negated : Bool) (cs : List Char) :
    Option (CharClass × List Char) := do
  if !f.wide then none
  let (flip, cls, rest) ← match f.skip cs with
    | '{' :: cs => do
      let (flip, cls) ← braced? (cs.takeWhile (· != '}'))
      let rest ← (cs.dropWhile (· != '}')).tail?
      some (flip, cls, rest)
    | '\\' :: _ => none
    | c :: rest => do
      let cls ← classNamed? categories (plainName [c])
      some (false, cls, rest)
    | [] => none
  let cls ← f.close? (negated != flip) cls
  return (cls, rest)

/-! ## Section 4: Escapes -/

/-- What an escape stands for. -/
inductive Escape where
  | letter (c : Char)
  | cls (c : CharClass)
  | anchor (a : Anchor)

/-- The punctuation and control characters that a backslash may quote. -/
def isQuotable (c : Char) : Bool := c.toNat < 128 && !c.isAlphanum && c != '<' && c != '>'

/-- The characters of words under the flags. -/
def Flags.word (f : Flags) : CharClass := if f.wide then .property .word else .asciiWord

/-- One of the classes of digits, words and blanks under the flags, or its complement. -/
def Flags.short? (f : Flags) (negated : Bool) (wide narrow : CharClass) : Option CharClass :=
  if !negated then some (if f.wide then wide else narrow)
  else if f.wide then some (.not wide)
  else none

/-- The condition after `\b`: any end of a word, or one that braces name. Braces that hold no name
    are left for the reader of repetitions. -/
def wordEdge (f : Flags) (cs : List Char) : Option (Edge × List Char) :=
  match cs with
  | '{' :: body =>
    match f.skip body with
    | [] => none
    | c :: body =>
      let ofName := fun (d : Char) => d.isAlpha || d == '-'
      if ofName c then
        let text := if f.verbose then (c :: body).filter (!isBlank ·) else c :: body
        let name := String.ofList (text.takeWhile ofName)
        match (c :: body).dropWhile fun d => ofName d || (f.verbose && isBlank d) with
        | '}' :: rest =>
          if name = "start" then some (.start, rest)
          else if name = "end" then some (.finish, rest)
          else if name = "start-half" then some (.halfStart, rest)
          else if name = "end-half" then some (.halfFinish, rest)
          else none
        | _ => none
      else some (.either, cs)
  | _ => some (.either, cs)

/-- A character by its number. Without the flag `u`, two digits name a byte, and it has to be a
    character. -/
def numbered (f : Flags) (width : Nat) (cs : List Char) : Option (Escape × List Char) :=
  match codePoint f width cs with
  | some (c, rest) =>
    let isByte := width == 2 && (f.skip cs).head? != some '{'
    if isByte && !f.wide && 128 ≤ c.toNat then none else some (.letter c, rest)
  | none => none

/-- An escape after its backslash. -/
def escape (f : Flags) : List Char → Option (Escape × List Char)
  | [] => none
  | c :: cs =>
    let short := fun (negated : Bool) (wide narrow : CharClass) =>
      (f.short? negated wide narrow).map fun k => (Escape.cls k, cs)
    let anchor := fun (a : Anchor) => some (Escape.anchor a, cs)
    let letter := fun (n : Nat) => some (Escape.letter (Char.ofNat n), cs)
    if isQuotable c then some (.letter c, cs)
    else if c = 'd' then short false (.property .decimal) .asciiDigit
    else if c = 'D' then short true (.property .decimal) .asciiDigit
    else if c = 'w' then short false (.property .word) .asciiWord
    else if c = 'W' then short true (.property .word) .asciiWord
    else if c = 's' then short false (.property .blank) .asciiBlank
    else if c = 'S' then short true (.property .blank) .asciiBlank
    else if c = 'b' then (wordEdge f cs).map fun r => (.anchor (.edge f.word r.1), r.2)
    else if c = 'B' then anchor (.edge f.word .neither)
    else if c = '<' then anchor (.edge f.word .start)
    else if c = '>' then anchor (.edge f.word .finish)
    else if c = 'A' then anchor .textStart
    else if c = 'z' then anchor .textEnd
    else if c = 'a' then letter 7
    else if c = 't' then letter 9
    else if c = 'n' then letter 10
    else if c = 'v' then letter 11
    else if c = 'f' then letter 12
    else if c = 'r' then letter 13
    else if c = 'x' then numbered f 2 cs
    else if c = 'u' then numbered f 4 cs
    else if c = 'U' then numbered f 8 cs
    else if c = 'p' then (propertyClass? f false cs).map fun r => (.cls r.1, r.2)
    else if c = 'P' then (propertyClass? f true cs).map fun r => (.cls r.1, r.2)
    else none

end BuildMacros.Pattern
