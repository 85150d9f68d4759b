import BuildMacros.Text.Basic
import BuildMacros.Text.Class

/-! # Tokens of a script

    A `Token` is one lexeme with its byte span, whether a line break stands before
    it, and the text from its start and after its end. The scan is driven by the
    parser, one token at a time, because three lexemes depend on the grammar: a
    slash begins a regular expression where an operand is expected, a closing
    brace continues a template, and a closing angle bracket may be the first
    character of an operator. So `scanToken` reads a slash as an operator and an angle
    bracket alone, and the parser asks for the other reading where it applies.

    Keywords are words; the grammar tells them from names. What is no lexeme is a
    token `invalid`, which no rule of the grammar accepts.
-/

namespace BuildMacros.Script

open BuildMacros.Text

/-! ## Section 1: Spans and tokens -/

/-- The bytes `start ..< stop`. -/
structure Span where
  start : Nat
  stop : Nat
deriving DecidableEq, Repr, Inhabited

/-- The other span lies inside this one. -/
def Span.contains (outer inner : Span) : Bool :=
  outer.start ≤ inner.start && inner.stop ≤ outer.stop

/-- Kinds of tokens. -/
inductive TokenKind where
  | eof
  /-- A name or keyword; a word written with an escape is never a keyword. -/
  | word (name : String) (escaped : Bool)
  /-- A name after `#`. -/
  | privateName
  | number
  | string (value : String)
  /-- The first part of a template, up to `${`, or the whole when `closed`. -/
  | template (closed : Bool)
  | punct (text : String)
  | invalid
deriving DecidableEq, Repr, Inhabited

/-- One lexeme. -/
structure Token where
  kind : TokenKind
  span : Span
  /-- A line break stands between the token before and this one. -/
  newline : Bool
  /-- The text from the start of the token. -/
  text : List Char
  /-- The text after the token. -/
  rest : List Char
deriving Inhabited

/-! ## Section 2: Blanks and comments -/

/-- Line terminators. -/
def isLineBreak (c : Char) : Bool :=
  c == '\n' || c == '\r' || c.toNat == 0x2028 || c.toNat == 0x2029

/-- Blanks of a script that are no line terminators. -/
def isScriptBlank (c : Char) : Bool :=
  let n := c.toNat
  n == 0x20 || n == 9 || n == 11 || n == 12 || n == 0xA0 || n == 0x85 || n == 0xFEFF
    || n == 0x1680 || (0x2000 ≤ n && n ≤ 0x200B) || n == 0x202F || n == 0x205F || n == 0x3000

/-- The text after a block comment, and whether the comment has a line break. -/
def blockComment (newline : Bool) : List Char → Option (Bool × List Char)
  | [] => none
  | '*' :: '/' :: rest => some (newline, rest)
  | c :: rest => blockComment (newline || isLineBreak c) rest

/-- Skips blanks and comments; the first argument bounds the number of steps. An open comment is
    left in place. -/
def skipTrivia : Nat → Bool → List Char → Bool × List Char
  | 0, newline, cs => (newline, cs)
  | fuel + 1, newline, cs =>
    match cs with
    | [] => (newline, [])
    | '/' :: '/' :: rest => skipTrivia fuel newline (rest.dropWhile fun c => !isLineBreak c)
    | '/' :: '*' :: rest =>
      match blockComment newline rest with
      | some (newline, rest) => skipTrivia fuel newline rest
      | none => (newline, cs)
    | c :: rest =>
      if isLineBreak c then skipTrivia fuel true rest
      else if isScriptBlank c then skipTrivia fuel newline rest
      else (newline, cs)

/-! ## Section 3: Words -/

/-- Value of a hexadecimal digit. -/
def hexValue? (c : Char) : Option Nat :=
  if c.isDigit then some (c.toNat - 48)
  else if 'a' ≤ c && c ≤ 'f' then some (c.toNat - 87)
  else if 'A' ≤ c && c ≤ 'F' then some (c.toNat - 55)
  else none

/-- Number written in hexadecimal digits. -/
def hexNumber? (ds : List Char) : Option Nat :=
  if ds.isEmpty then none
  else ds.foldlM (fun n d => (hexValue? d).map (n * 16 + ·)) 0

/-- Code point of an escape after `\u`. -/
def unicodeEscape : List Char → Option (Nat × List Char)
  | '{' :: cs =>
    match cs.dropWhile (· != '}') with
    | _ :: rest =>
      match hexNumber? (cs.takeWhile (· != '}')) with
      | some n => if n ≤ 0x10FFFF then some (n, rest) else none
      | none => none
    | [] => none
  | a :: b :: c :: d :: rest => (hexNumber? [a, b, c, d]).map (·, rest)
  | _ => none

/-- A code point as a character; half of a surrogate pair has none and is replaced. -/
def charOf (n : Nat) : Char :=
  if 0xD800 ≤ n && n ≤ 0xDFFF then Char.ofNat 0xFFFD else Char.ofNat n

/-- The characters of a name, whether some were escaped, and what follows. -/
def nameChars : Nat → Bool → List Char → Option (List Char × Bool × List Char)
  | 0, _, _ => none
  | fuel + 1, first, cs =>
    match cs with
    | '\\' :: 'u' :: rest => do
      let (n, rest) ← unicodeEscape rest
      let c := charOf n
      if (if first then isIdStart c else isIdContinue c) then
        let (name, _, rest) ← nameChars fuel false rest
        return (c :: name, true, rest)
      else none
    | '\\' :: _ => none
    | c :: rest =>
      if (if first then isIdStart c else isIdContinue c) then do
        let (name, escaped, rest) ← nameChars fuel false rest
        return (c :: name, escaped, rest)
      else if first then none
      else some ([], false, cs)
    | [] => if first then none else some ([], false, [])

/-! ## Section 4: Strings -/

/-- Value of an escape after its backslash: nothing for a line continuation. -/
def stringEscape : List Char → Option (List Char × List Char)
  | [] => none
  | '\r' :: '\n' :: rest => some ([], rest)
  | c :: rest =>
    if isLineBreak c then some ([], rest)
    else if c = 'n' then some (['\n'], rest)
    else if c = 't' then some (['\t'], rest)
    else if c = 'r' then some (['\r'], rest)
    else if c = 'b' then some ([Char.ofNat 8], rest)
    else if c = 'f' then some ([Char.ofNat 12], rest)
    else if c = 'v' then some ([Char.ofNat 11], rest)
    else if c = 'x' then
      match rest with
      | a :: b :: rest => (hexNumber? [a, b]).map fun n => ([Char.ofNat n], rest)
      | _ => none
    else if c = 'u' then
      match unicodeEscape rest with
      | some (hi, '\\' :: 'u' :: rest') =>
        match unicodeEscape rest' with
        | some (lo, rest'') =>
          if 0xD800 ≤ hi && hi < 0xDC00 && 0xDC00 ≤ lo && lo < 0xE000 then
            some ([Char.ofNat (0x10000 + (hi - 0xD800) * 0x400 + (lo - 0xDC00))], rest'')
          else some ([charOf hi], '\\' :: 'u' :: rest')
        | none => none
      | some (n, rest) => some ([charOf n], rest)
      | none => none
    else if '0' ≤ c && c ≤ '7' then
      -- up to three octal digits, below 256
      let isOctal := fun d : Char => '0' ≤ d && d ≤ '7'
      let more := (rest.takeWhile isOctal).take (if c ≤ '3' then 2 else 1)
      let n := more.foldl (fun n d => n * 8 + (d.toNat - 48)) (c.toNat - 48)
      some ([Char.ofNat n], rest.drop more.length)
    else some ([c], rest)

/-- The value of a string up to its closing quote, and what follows. -/
def stringChars (quote : Char) : Nat → List Char → Option (List Char × List Char)
  | 0, _ => none
  | fuel + 1, cs =>
    match cs with
    | [] => none
    | '\\' :: rest => do
      let (value, rest) ← stringEscape rest
      let (more, rest) ← stringChars quote fuel rest
      return (value ++ more, rest)
    | c :: rest =>
      if c = quote then some ([], rest)
      else if c = '\n' || c = '\r' then none
      else do
        let (more, rest) ← stringChars quote fuel rest
        return (c :: more, rest)

/-- The text after a template part, and whether it ended the template. A part ends before an
    embedded expression or with the template. With `strict`, escapes must be well formed. -/
def templateChars (strict : Bool) : Nat → List Char → Option (Bool × List Char)
  | 0, _ => none
  | fuel + 1, cs =>
    match cs with
    | [] => none
    | '\x60' :: rest => some (true, rest)
    | '$' :: '{' :: rest => some (false, rest)
    | '\\' :: c :: rest =>
      if strict then
        let isOctal := c.isDigit && !(c == '0' && !rest.head?.any Char.isDigit)
        if isOctal then none
        else match stringEscape (c :: rest) with
          | some (_, rest) => templateChars strict fuel rest
          | none => none
      else templateChars strict fuel rest
    | _ :: rest => templateChars strict fuel rest

/-! ## Section 5: Numbers -/

/-- The text after digits of a class, in which single underscores may stand between digits. -/
def digitRun (isDigit : Char → Bool) : List Char → Option (List Char)
  | c :: '_' :: d :: rest =>
    if isDigit c then
      if isDigit d then digitRun isDigit (d :: rest) else none
    else some (c :: '_' :: d :: rest)
  | c :: rest =>
    if isDigit c then
      match rest with
      | ['_'] => none
      | _ => digitRun isDigit rest
    else some (c :: rest)
  | [] => some []

/-- The text after one or more digits of a class. -/
def digits (isDigit : Char → Bool) (cs : List Char) : Option (List Char) :=
  if cs.head?.any isDigit then digitRun isDigit cs else none

/-- The text after an optional exponent. -/
def exponentPart (cs : List Char) : Option (List Char) :=
  match cs with
  | e :: rest =>
    if e = 'e' || e = 'E' then
      match rest with
      | '+' :: rest => digits Char.isDigit rest
      | '-' :: rest => digits Char.isDigit rest
      | _ => digits Char.isDigit rest
    else some cs
  | [] => some []

/-- The text after an optional fraction and exponent. -/
def fractionPart (cs : List Char) : Option (List Char) :=
  match cs with
  | '.' :: rest =>
    if rest.head?.any Char.isDigit then (digits Char.isDigit rest).bind exponentPart
    else if rest.head? = some '_' then none
    else exponentPart rest
  | _ => exponentPart cs

/-- Drops the mark of a big integer. -/
def bigMark (cs : List Char) : List Char :=
  match cs with
  | 'n' :: rest => rest
  | _ => cs

/-- A hexadecimal digit. -/
def isHexDigit (c : Char) : Bool := (hexValue? c).isSome

/-- The text after a number. No name and no digit may follow it directly. -/
def numberEnd (cs : List Char) : Option (List Char) := do
  let rest ← match cs with
    | '0' :: 'x' :: rest | '0' :: 'X' :: rest => (digits isHexDigit rest).map bigMark
    | '0' :: 'o' :: rest | '0' :: 'O' :: rest =>
      (digits (fun c => '0' ≤ c && c ≤ '7') rest).map bigMark
    | '0' :: 'b' :: rest | '0' :: 'B' :: rest =>
      (digits (fun c => c == '0' || c == '1') rest).map bigMark
    | '.' :: rest => (digits Char.isDigit rest).bind exponentPart
    | '0' :: d :: rest =>
      -- a leading zero: octal unless an eight or nine occurs
      if d.isDigit then
        let ds := (d :: rest).takeWhile Char.isDigit
        let after := (d :: rest).dropWhile Char.isDigit
        if ds.all (fun c => c ≤ '7') then some after else fractionPart after
      else if d = '_' then none
      else if d = 'n' then some rest
      else fractionPart (d :: rest)
    | _ => do
      let rest ← digits Char.isDigit cs
      match rest with
      | 'n' :: rest => some rest
      | _ => fractionPart rest
  match rest with
  | c :: _ => if isIdStart c || c.isDigit || c == '\\' then none else some rest
  | [] => some []

/-! ## Section 6: Operators -/

/-- Operators and punctuation, longer ones before their beginnings. Of the operators that begin
    with a closing angle bracket only the bracket is listed. -/
def punctuators : List String := [
  "...", "=>", "===", "==", "=", "!==", "!=", "!", "+=", "++", "+", "-=", "--", "-",
  "**=", "**", "*=", "*", "%=", "%", "<<=", "<<", "<=", "<", ">",
  "&&=", "&&", "&=", "&", "||=", "||", "|=", "|", "??=", "??", "?.", "?", "^=", "^", "~",
  r"{", r"}", "(", ")", "[", "]", ";", ",", ".", ":", "@", "/=", "/"]

/-- Operators that begin with a closing angle bracket, longer ones first. -/
def angleOperators : List String := [">>>=", ">>>", ">>=", ">>", ">=", ">"]

/-- The first of several texts that the input starts with, and what follows it. -/
def firstOf (cs : List Char) : List String → Option (String × List Char)
  | [] => none
  | p :: ps =>
    match strip? p.toList cs with
    | some rest => some (p, rest)
    | none => firstOf cs ps

/-- The operator at the head of a text. `?.` before a digit is a question mark. -/
def punctuator (cs : List Char) : Option (String × List Char) :=
  match firstOf cs punctuators with
  | some ("?.", rest) =>
    if rest.head?.any Char.isDigit then some ("?", cs.drop 1) else some ("?.", rest)
  | found => found

/-! ## Section 7: The scan -/

/-- The lexeme at the head of a text, and what follows it. -/
def lexeme (cs : List Char) : TokenKind × List Char :=
  match cs with
  | [] => (.eof, [])
  | c :: rest =>
    if c = '"' || c = '\'' then
      match stringChars c cs.length rest with
      | some (value, rest) => (.string (String.ofList value), rest)
      | none => (.invalid, rest)
    else if c = '\x60' then
      -- escapes are checked when the template is read as an expression
      match templateChars false cs.length rest with
      | some (closed, rest) => (.template closed, rest)
      | none => (.invalid, rest)
    else if c.isDigit || (c = '.' && rest.head?.any Char.isDigit) then
      match numberEnd cs with
      | some rest => (.number, rest)
      | none => (.invalid, rest)
    else if c = '#' then
      match nameChars cs.length true rest with
      | some (_, _, rest) => (.privateName, rest)
      | none => (.invalid, rest)
    else if isIdStart c || c = '\\' then
      match nameChars (cs.length + 1) true cs with
      | some (name, escaped, rest) => (.word (String.ofList name) escaped, rest)
      | none => (.invalid, rest)
    else if startsWith ['/', '*'] cs then (.invalid, rest)
    else
      match punctuator cs with
      | some (p, rest) => (.punct p, rest)
      | none => (.invalid, rest)

/-- The next token of a text whose first character stands at an offset. -/
def scanToken (pos : Nat) (cs : List Char) : Token :=
  let (newline, text) := skipTrivia (cs.length + 1) false cs
  let start := pos + (byteLength cs - byteLength text)
  let (kind, rest) := lexeme text
  let stop := start + (byteLength text - byteLength rest)
  ⟨kind, ⟨start, stop⟩, newline, text, rest⟩

/-! ## Section 8: Lexemes the grammar asks for -/

/-- The text after the body of a regular expression, up to and with its closing slash. -/
def regexBody (inClass : Bool) : List Char → Option (List Char)
  | [] => none
  | '\\' :: c :: rest => if isLineBreak c then none else regexBody inClass rest
  | c :: rest =>
    if isLineBreak c then none
    else if c = '[' then regexBody true rest
    else if c = ']' then regexBody false rest
    else if c = '/' && !inClass then some rest
    else regexBody inClass rest

/-- Flags of a regular expression. -/
def regexFlags : List Char := ['d', 'g', 'i', 'm', 's', 'u', 'v', 'y']

/-- The text after a regular expression that starts at the head: body, closing slash, and distinct
    flags, of which `u` and `v` exclude each other. -/
def regexEnd (cs : List Char) : Option (List Char) :=
  match cs with
  | '/' :: rest => do
    let rest ← regexBody false rest
    let flags := rest.takeWhile isIdContinue
    let twoModes := flags.contains 'u' && flags.contains 'v'
    if flags.all regexFlags.contains && flags.eraseDups.length = flags.length && !twoModes then
      some (rest.dropWhile isIdContinue)
    else none
  | _ => none

/-- The operator that a closing angle bracket begins. -/
def angleOperator (cs : List Char) : Option (String × List Char) := firstOf cs angleOperators

/-! ## Section 9: What a token says -/

/-- The token is the given operator. -/
def Token.isPunct (t : Token) (p : String) : Bool :=
  match t.kind with
  | .punct q => p == q
  | _ => false

/-- The token is the given word, written without escapes. -/
def Token.isWord (t : Token) (w : String) : Bool :=
  match t.kind with
  | .word v false => w == v
  | _ => false

/-- Words that are never names. -/
def reservedWords : List String := [
  "break", "case", "catch", "class", "const", "continue", "debugger", "default", "delete", "do",
  "else", "enum", "export", "extends", "false", "finally", "for", "function", "if", "import",
  "in", "instanceof", "new", "null", "return", "super", "switch", "this", "throw", "true", "try",
  "typeof", "var", "void", "while", "with"]

/-- The word is never a name. -/
def isReserved (w : String) : Bool := reservedWords.contains w

/-- The token can be read as a name. -/
def Token.isName (t : Token) : Bool :=
  match t.kind with
  | .word w _ => !isReserved w
  | _ => false

/-- The token is a word of any kind. -/
def Token.isAnyWord (t : Token) : Bool :=
  match t.kind with
  | .word _ _ => true
  | _ => false

end BuildMacros.Script
