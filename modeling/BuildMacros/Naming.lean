import BuildMacros.Text.Basic
import BuildMacros.Text.Class

/-! # Names of functions, components and files

    Names are compared after they were brought to one casing. `splitByCase` finds
    the words of a name; `pascalCase` capitalises and joins them; `camelCase` is
    the same with a small first letter. A file's default export is called by the
    camel case of its stem.
-/

namespace BuildMacros.Naming

open BuildMacros.Text

/-! ## Section 1: Words -/

/-- The characters that separate words and belong to none. -/
def isSeparator (c : Char) : Bool :=
  c == '-' || c == '_' || c == '/' || c == '.' || c == ' '

/-- A new word starts at `c` when it follows `prev` and precedes `next`: an upper-case character
    after a lower-case one, the last upper-case character of a row that runs into lower case,
    and an upper-case character next to the edge of a row of digits. -/
def isWordStart (prev c : Char) (next : Option Char) : Bool :=
  (isLower prev && isUpper c)
    || (isUpper prev && isUpper c && next.any isLower)
    || (prev.isDigit != c.isDigit && isUpper c)

/-- `splitByCase` with the word read so far, last character first. -/
def splitFrom (word : List Char) : List Char → List (List Char)
  | [] => if word.isEmpty then [] else [word.reverse]
  | c :: cs =>
    if isSeparator c then
      if word.isEmpty then splitFrom [] cs else word.reverse :: splitFrom [] cs
    else match word with
      | prev :: _ =>
        if isWordStart prev c cs.head? then word.reverse :: splitFrom [c] cs
        else splitFrom (c :: word) cs
      | [] => splitFrom [c] cs

/-- The words of a name such as `fooBar-baz_qux`, `UIButton` or `my.file`. -/
def splitByCase (cs : List Char) : List (List Char) := splitFrom [] cs

/-! ## Section 2: Casings -/

/-- Upper case for the first character. -/
def upperFirst : List Char → List Char
  | [] => []
  | c :: cs => upper c ++ cs

/-- Lower case for the first character. -/
def lowerFirst : List Char → List Char
  | [] => []
  | c :: cs => lower c ++ cs

/-- `pascalCase` on characters. -/
def pascal (cs : List Char) : List Char := (splitByCase cs).flatMap upperFirst

/-- `camelCase` on characters. -/
def camel (cs : List Char) : List Char := lowerFirst (pascal cs)

/-- Every word capitalised, nothing between words. -/
def pascalCase (name : String) : String := String.ofList (pascal name.toList)

/-- Pascal case with a small first letter. -/
def camelCase (name : String) : String := String.ofList (camel name.toList)

/-! ## Section 3: Files -/

/-- The part of a module id before the bundler's query. -/
def withoutQuery (cs : List Char) : List Char := cs.takeWhile (· != '?')

/-- Last path segment without its final extension. A leading dot starts no extension. -/
def stem (path : List Char) : List Char :=
  let path := withoutQuery path
  let base := ((splitLast? (fun c => c == '/' || c == '\\') path).map Prod.snd).getD path
  match splitLast? (· == '.') base with
  | some (before, _) => if before.isEmpty then base else before
  | none => base

/-- Last path segment of a module id without its final extension. -/
def fileStem (path : String) : String := String.ofList (stem path.toList)

/-- Name under which the default export of a file is called. -/
def defaultExportName (path : String) : String := String.ofList (camel (stem path.toList))

end BuildMacros.Naming
