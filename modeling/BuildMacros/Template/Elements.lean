import BuildMacros.Text.Basic
import BuildMacros.Text.Class

/-! # Elements of a template

    A template is scanned for tags only: opening tags with the names of their
    attributes, and closing tags. Quoted values may contain angle brackets, and
    comments are skipped. A closing tag belongs to the nearest open element of its
    name; elements opened in between stay without a closing tag.
-/

namespace BuildMacros.Template

open BuildMacros.Text

/-! ## Section 1: Tags -/

/-- A tag, with the offset of its name. -/
inductive Tag where
  | opening (name : String) (start : Nat) (attributes : List String) (isEmpty : Bool)
  | closing (name : String) (start : Nat)
deriving DecidableEq, Repr

/-- A character of the name of a tag. -/
def isNameChar (c : Char) : Bool :=
  c.isAlphanum || c == '-' || c == '_' || c == '.' || c == ':'

/-- The text after the first occurrence of a word, or its end when there is none. -/
def afterWord (word : List Char) : List Char → List Char
  | [] => []
  | c :: cs =>
    match strip? word (c :: cs) with
    | some rest => rest
    | none => afterWord word cs

/-- The name of an attribute and what follows it. It ends before a blank, an equals sign or the end
    of the tag. -/
def attributeName : List Char → List Char × List Char
  | [] => ([], [])
  | c :: cs =>
    if isAsciiBlank c || c == '=' || c == '>' || (c == '/' && cs.head? == some '>') then
      ([], c :: cs)
    else
      let (name, rest) := attributeName cs
      (c :: name, rest)

/-- The text after the value of an attribute: after its closing quote, or before a blank or the end
    of the tag. -/
def afterValue : List Char → List Char
  | [] => []
  | c :: cs =>
    if c == '"' || c == '\'' then afterWord [c] cs
    else (c :: cs).dropWhile fun c => !isAsciiBlank c && c != '>'

/-- The attributes of a tag, whether it is empty, and what follows it; the first argument bounds
    the number of steps. -/
def attributes : Nat → List Char → List String × Bool × List Char
  | 0, cs => ([], false, cs)
  | fuel + 1, cs =>
    match cs with
    | [] => ([], false, [])
    | '>' :: rest => ([], false, rest)
    | '/' :: '>' :: rest => ([], true, rest)
    | c :: rest =>
      if isAsciiBlank c then attributes fuel rest
      else
        let (name, rest) := attributeName (c :: rest)
        let rest := match rest with
          | '=' :: rest => afterValue rest
          | _ => rest
        let (more, isEmpty, rest) := attributes fuel rest
        (String.ofList name :: more, isEmpty, rest)

/-- The tag or comment that an angle bracket at the head of a text begins, and what follows. The
    bracket stands at an offset. -/
def tagAt (pos : Nat) (cs : List Char) : Option (Option Tag × List Char) :=
  match strip? "<!--".toList cs with
  | some _ => some (none, afterWord "-->".toList cs)
  | none =>
    match cs with
    | '<' :: '/' :: rest =>
      let name := rest.takeWhile isNameChar
      some (some (.closing (String.ofList name) (pos + 2)),
        afterWord ['>'] (rest.dropWhile isNameChar))
    | '<' :: c :: rest =>
      if c.isAlpha then
        let name := (c :: rest).takeWhile isNameChar
        let body := (c :: rest).dropWhile isNameChar
        let (attrs, isEmpty, rest) := attributes (body.length + 1) body
        some (some (.opening (String.ofList name) (pos + 1) attrs isEmpty), rest)
      else none
    | _ => none

/-- The tags of a text that starts at an offset; the first argument bounds the number of steps. -/
def tagsFrom : Nat → Nat → List Char → List Tag
  | 0, _, _ => []
  | _, _, [] => []
  | fuel + 1, pos, c :: cs =>
    match tagAt pos (c :: cs) with
    | some (tag, rest) =>
      tag.toList ++ tagsFrom fuel (pos + (byteLength (c :: cs) - byteLength rest)) rest
    | none => tagsFrom fuel (pos + c.utf8Size) cs

/-- The tags of a template. -/
def tags (cs : List Char) : List Tag := tagsFrom cs.length 0 cs

/-! ## Section 2: Elements -/

/-- An element. -/
structure Element where
  name : String
  /-- Offset of the name in the opening tag. -/
  start : Nat
  attributes : List String
  /-- Offset of the name in the closing tag, when there is one. -/
  closing : Option Nat
deriving DecidableEq, Repr

/-- Elements while tags are paired. -/
structure Pairing where
  elements : List Element
  /-- Indices of open elements, innermost first. -/
  stack : List Nat
deriving DecidableEq, Repr

namespace Pairing

/-- The element of an index has the name. -/
def named (p : Pairing) (name : String) (i : Nat) : Bool :=
  (p.elements[i]?).any (·.name == name)

/-- Closes the nearest open element of a name and forgets the ones opened in it. -/
def close (p : Pairing) (name : String) (start : Nat) : Pairing :=
  match p.stack.dropWhile fun i => !p.named name i with
  | [] => p
  | i :: stack =>
    ⟨p.elements.modify i fun e => { e with closing := some start }, stack⟩

/-- The pairing after one more tag. -/
def add (p : Pairing) : Tag → Pairing
  | .opening name start attributes isEmpty =>
    ⟨p.elements ++ [⟨name, start, attributes, none⟩],
      if isEmpty then p.stack else p.elements.length :: p.stack⟩
  | .closing name start => p.close name start

end Pairing

/-- The elements of a template in the order of their opening tags. -/
def elements (cs : List Char) : List Element := ((tags cs).foldl Pairing.add ⟨[], []⟩).elements

end BuildMacros.Template
