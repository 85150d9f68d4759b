import BuildMacros.Pattern.Escape

/-! # Classes between brackets

    A class lists characters, ranges, escaped classes, classes such as `[:alpha:]`
    and further brackets; `&&`, `--` and `~~` combine what stands to the left with
    what follows, all of one rank. A closing bracket that comes first stands for
    itself, and so do hyphens that come first.
-/

namespace BuildMacros.Pattern

open BuildMacros.Text

/-! ## Section 1: Parts of a class -/

/-- Named classes such as `[:alpha:]`. -/
def asciiClass? (name : String) : Option CharClass :=
  let lower := CharClass.range 'a' 'z'
  let upper := CharClass.range 'A' 'Z'
  let alnum := CharClass.union .asciiLetter .asciiDigit
  if name = "alnum" then some alnum
  else if name = "alpha" then some .asciiLetter
  else if name = "ascii" then some .ascii
  else if name = "blank" then some (.union (.single ' ') (.single '\t'))
  else if name = "cntrl" then some (.union (charsFrom 0 31) (charAt 127))
  else if name = "digit" then some .asciiDigit
  else if name = "graph" then some (.range '!' '~')
  else if name = "lower" then some lower
  else if name = "print" then some (.range ' ' '~')
  else if name = "punct" then some (.inter (.range '!' '~') (.not alnum))
  else if name = "space" then some .asciiBlank
  else if name = "upper" then some upper
  else if name = "word" then some .asciiWord
  else if name = "xdigit" then some (.union (.union (.range 'a' 'f') (.range 'A' 'F')) .asciiDigit)
  else none

/-- A named class after `[`, when there is one: whether its complement is meant, the class and what
    follows it. -/
def named? (cs : List Char) : Option (Bool × CharClass × List Char) :=
  match cs with
  | ':' :: cs =>
    let (negated, cs) := match cs with
      | '^' :: cs => (true, cs)
      | cs => (false, cs)
    match cs.dropWhile (· != ':') with
    | ':' :: ']' :: rest =>
      (asciiClass? (String.ofList (cs.takeWhile (· != ':')))).map (negated, ·, rest)
    | _ => none
  | _ => none

/-- One end of a range, or an escape. Without the flag `u` it has to be a character of ASCII. -/
def classItem (f : Flags) : List Char → Option (Escape × List Char)
  | [] => none
  | c :: cs =>
    match (if c = '\\' then escape f cs else some (.letter c, cs)) with
    | some (.letter c, rest) =>
      if !f.wide && 128 ≤ c.toNat then none else some (.letter c, rest)
    | other => other

/-- The class of an item; conditions on places are no members of classes. -/
def Escape.members? : Escape → Option CharClass
  | letter c => some (.single c)
  | cls c => some c
  | anchor _ => none

/-- An item or a range. A hyphen before the closing bracket or before another hyphen does not make
    a range. -/
def classRange (f : Flags) (cs : List Char) : Option (CharClass × List Char) := do
  let (item, rest) ← classItem f cs
  let alone := item.members?.map (·, f.skip rest)
  match f.skip rest with
  | '-' :: tail =>
    match f.skip tail with
    | ']' :: _ => alone
    | '-' :: _ => alone
    | tail =>
      match item, classItem f tail with
      | .letter lo, some (.letter hi, rest) =>
        if lo ≤ hi then some (.range lo hi, rest) else none
      | _, _ => none
  | _ => alone

/-- The operator at the head of the text, between two parts of a class. -/
def classOperator? : List Char → Option (Char × List Char)
  | '&' :: '&' :: rest => some ('&', rest)
  | '-' :: '-' :: rest => some ('-', rest)
  | '~' :: '~' :: rest => some ('~', rest)
  | _ => none

/-- Combines two parts of a class. -/
def combine (op : Char) (a b : CharClass) : CharClass :=
  if op = '&' then .inter a b
  else if op = '-' then .inter a (.not b)
  else .union (.inter a (.not b)) (.inter b (.not a))

/-- Union with an optional earlier part. -/
def joined (acc : Option CharClass) (c : CharClass) : Option CharClass :=
  some (match acc with | some a => .union a c | none => c)

/-- What stands to the left of an operator, and the operator. -/
abbrev LeftPart := Option (Char × CharClass)

/-- The parts on both sides of an operator as one. -/
def Flags.both (f : Flags) (left : LeftPart) (acc : Option CharClass) : CharClass :=
  let here := acc.getD .nothing
  match left with
  | some (op, l) => combine op (f.fold l) (f.fold here)
  | none => here

/-! ## Section 2: Whole classes -/

/-- Drops hyphens at the head. -/
def dropHyphens (f : Flags) : Nat → List Char → List Char
  | fuel + 1, '-' :: cs => dropHyphens f fuel (f.skip cs)
  | _, cs => cs

/-- The start of a class after its opening bracket: whether its complement is meant, and the
    characters that come first and stand for themselves. -/
def classStart (f : Flags) (cs : List Char) : Bool × Option CharClass × List Char :=
  let cs := f.skip cs
  let negated := cs.head? == some '^'
  let cs := if negated then f.skip cs.tail else cs
  match cs with
  | '-' :: _ => (negated, some (.single '-'), dropHyphens f cs.length cs)
  | ']' :: rest => (negated, some (.single ']'), rest)
  | _ => (negated, none, cs)

/-- The rest of a class up to its closing bracket. `left` is what stands to the left of the last
    operator, and `acc` the union since then. -/
def classBody (f : Flags) : Nat → LeftPart → Option CharClass → List Char →
    Option (CharClass × List Char)
  | 0, _, _, _ => none
  | fuel + 1, left, acc, cs =>
    match f.skip cs with
    | [] => none
    | ']' :: rest => some (f.both left acc, rest)
    | '[' :: rest =>
      match named? rest with
      | some (negated, c, rest) =>
        match f.close? negated c with
        | some c => classBody f fuel left (joined acc c) rest
        | none => none
      | none =>
        let (negated, start, rest) := classStart f rest
        match classBody f fuel none start rest with
        | some (c, rest) =>
          match f.close? negated c with
          | some c => classBody f fuel left (joined acc c) rest
          | none => none
        | none => none
    | cs =>
      match classOperator? cs with
      | some (op, rest) => classBody f fuel (some (op, f.both left acc)) none rest
      | none =>
        match classRange f cs with
        | some (c, rest) => classBody f fuel left (joined acc c) rest
        | none => none

/-- A class after its opening bracket. -/
def bracketClass (f : Flags) (cs : List Char) : Option (CharClass × List Char) := do
  let (negated, start, rest) := classStart f cs
  let (c, rest) ← classBody f (2 * cs.length + 2) none start rest
  let c ← f.close? negated c
  return (c, rest)

end BuildMacros.Pattern
