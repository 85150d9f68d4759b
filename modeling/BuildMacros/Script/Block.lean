import BuildMacros.Script.Dialect

/-! # Script blocks of single-file components

    A block begins with a `script` tag in any case, ends before the next closing
    tag, and may name its language. The opening tag ends at the first `>`; quotes
    play no part in that. Blocks are disjoint and come in the order of the text.
-/

namespace BuildMacros.Script

open BuildMacros.Text

/-! ## Section 1: Tags -/

/-- The part of a module that is parsed, and the byte offset at which it starts. -/
structure Block where
  content : String
  offset : Nat
  lang : Option String
deriving DecidableEq, Repr

/-- Start of an opening tag. -/
def openTag : List Char := "<script".toList

/-- The closing tag. -/
def closeTag : List Char := "</script>".toList

/-- The text up to the first closing tag, and what follows the tag. -/
def upToClose : List Char → Option (List Char × List Char)
  | [] => none
  | c :: cs =>
    match stripFolded? closeTag (c :: cs) with
    | some rest => some ([], rest)
    | none => (upToClose cs).map fun r => (c :: r.1, r.2)

/-- A whole block at the head of a text. -/
structure Extent where
  attributes : List Char
  /-- The text from the content on. -/
  body : List Char
  content : List Char
  /-- The text after the closing tag. -/
  rest : List Char

/-- The block at the head of the text, when there is one. -/
def blockAt (cs : List Char) : Option Extent :=
  match stripFolded? openTag cs with
  | some rest =>
    if rest.head?.any isWord then none
    else match rest.dropWhile (· != '>') with
      | _ :: body => (upToClose body).map fun r => ⟨rest.takeWhile (· != '>'), body, r.1, r.2⟩
      | [] => none
  | none => none

/-! ## Section 2: Languages -/

/-- The value of an attribute after its name: quoted, or up to a blank. -/
def attributeValue (cs : List Char) : Option (List Char) :=
  match cs.dropWhile isBlank with
  | '=' :: rest =>
    let rest := rest.dropWhile isBlank
    let bare := rest.takeWhile fun c => c != '>' && !isBlank c
    let unquoted := if bare.isEmpty then none else some bare
    match rest with
    | q :: body =>
      if (q == '"' || q == '\'') && body.contains q then some (body.takeWhile (· != q))
      else unquoted
    | [] => none
  | _ => none

/-- Value of the first attribute text in which the word `lang` starts at a word edge. -/
def findLang (before : Option Char) : List Char → Option (List Char)
  | [] => none
  | c :: cs =>
    let here :=
      if before.any isWord then none
      else (stripFolded? "lang".toList (c :: cs)).bind attributeValue
    match here with
    | some value => some value
    | none => findLang (some c) cs

/-- Language named by the attributes of a tag, in small letters. -/
def langOf (attributes : List Char) : Option String :=
  (findLang none attributes).map fun v => String.ofList (v.map Char.toLower)

/-! ## Section 3: Blocks -/

/-- Blocks from an offset on; the first argument bounds the number of steps. -/
def blocksFrom : Nat → Nat → List Char → List Block
  | 0, _, _ => []
  | _, _, [] => []
  | fuel + 1, pos, c :: cs =>
    match blockAt (c :: cs) with
    | some e =>
      let start := pos + (byteLength (c :: cs) - byteLength e.body)
      let stop := pos + (byteLength (c :: cs) - byteLength e.rest)
      ⟨String.ofList e.content, start, langOf e.attributes⟩ :: blocksFrom fuel stop e.rest
    | none => blocksFrom fuel (pos + c.utf8Size) cs

/-- Every script block of a text. -/
def blocks (code : String) : List Block := blocksFrom code.toList.length 0 code.toList

/-- The first block from an offset on. -/
def firstBlockFrom (pos : Nat) : List Char → Option Block
  | [] => none
  | c :: cs =>
    match blockAt (c :: cs) with
    | some e =>
      let start := pos + (byteLength (c :: cs) - byteLength e.body)
      some ⟨String.ofList e.content, start, langOf e.attributes⟩
    | none => firstBlockFrom (pos + c.utf8Size) cs

/-- The first script block of a text. -/
def firstBlock? (code : String) : Option Block := firstBlockFrom 0 code.toList

/-- The part of a module that is parsed: the first script block of a single-file component, or
    the whole text when there is none. -/
def locate (code id : String) : Block :=
  match if isVue id then firstBlock? code else none with
  | some block => block
  | none => ⟨code, 0, none⟩

end BuildMacros.Script
