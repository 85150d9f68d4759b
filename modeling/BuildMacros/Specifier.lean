import BuildMacros.Assoc
import BuildMacros.Naming

/-! # Module specifiers

    Two modules are the same when their *comparison keys* are equal: the alias at
    the front is expanded, a relative specifier is joined to the directory of the
    importer, and the extension is dropped. All functions here work on the text of
    paths and never ask a file system.
-/

namespace BuildMacros

open BuildMacros.Text

namespace Path

/-! ## Section 1: Parts of a path -/

/-- Module id without the bundler's query. -/
def clean (id : String) : String := String.ofList (Naming.withoutQuery id.toList)

/-- Directory of a path: nothing for a bare name, the root for a child of the root. -/
def dirname (path : List Char) : List Char :=
  match splitLast? (· == '/') path with
  | some ([], _) => ['/']
  | some (dir, _) => dir
  | none => []

/-- The path up to its last segment, slash included, and the last segment. -/
def splitSegment (path : List Char) : List Char × List Char :=
  match splitLast? (· == '/') path with
  | some (dir, base) => (dir ++ ['/'], base)
  | none => ([], path)

/-- Letters that an extension consists of. -/
def isExtension (ext : List Char) : Bool := !ext.isEmpty && ext.all Char.isLower

/-- `stripExtension` on characters. -/
def dropExtension (path : List Char) : List Char :=
  let (dir, base) := splitSegment path
  match splitLast? (· == '.') base with
  | some (stem, ext) => if isExtension ext then dir ++ stem else path
  | none => path

/-- Drops the extension of the last segment when it consists of small letters. -/
def stripExtension (path : String) : String := String.ofList (dropExtension path.toList)

/-- Moves from a list of segments, last segment first, along one part of a relative path. -/
def move (segments : List (List Char)) (part : List Char) : List (List Char) :=
  if part = [] || part = ['.'] then segments
  else if part = ['.', '.'] then segments.tail
  else part :: segments

/-- Joins a relative path to a directory, resolving `.` and `..`. -/
def joinTo (base relative : List Char) : List Char :=
  let start := ((fields (· == '/') base).filter (fun s => !s.isEmpty)).reverse
  let joined := join ['/'] ((fields (· == '/') relative).foldl move start).reverse
  if startsWith ['/'] base then '/' :: joined else joined

/-- Path of a file relative to a root, or the file itself when it is outside the root. -/
def relativeTo (root : Option String) (file : String) : String :=
  match root with
  | none => file
  | some root =>
    match strip? (dropEnd (· == '/') root.toList) file.toList with
    | some ('/' :: rest) => String.ofList rest
    | _ => file

end Path

/-! ## Section 2: Aliases -/

/-- Aliases and their targets, longest alias first, so that `#app/composables` is tried before
    `#app`. -/
structure AliasTable where
  entries : List (String × String)
deriving DecidableEq, Repr

namespace AliasTable

/-- Longer aliases first; among equally long ones the order of their characters. -/
def before (a b : String × String) : Bool :=
  b.1.utf8ByteSize < a.1.utf8ByteSize ||
    (a.1.utf8ByteSize == b.1.utf8ByteSize && decide (a.1 ≤ b.1))

/-- Table of a map of aliases. -/
def ofMap (aliases : Assoc String String) : AliasTable := ⟨aliases.mergeSort before⟩

/-- What an alias leaves of a specifier. An alias ends where the specifier ends, before a slash, or
    at a slash of its own. -/
def remainder? (key specifier : List Char) : Option (List Char) :=
  match strip? key specifier with
  | some rest =>
    if rest.isEmpty || startsWith ['/'] rest || endsWith ['/'] key then some rest else none
  | none => none

/-- A target followed by what the alias left, with one slash between them. -/
def expand (target rest : List Char) : List Char :=
  let target := dropEnd (· == '/') target
  let rest := rest.dropWhile (· == '/')
  if rest.isEmpty then target else target ++ '/' :: rest

/-- `resolve` on characters and a list of entries. -/
def expandFirst (specifier : List Char) : List (String × String) → List Char
  | [] => specifier
  | (key, target) :: entries =>
    match remainder? key.toList specifier with
    | some rest => expand target.toList rest
    | none => expandFirst specifier entries

/-- Expands the first alias that applies. -/
def resolve (t : AliasTable) (specifier : String) : String :=
  String.ofList (expandFirst specifier.toList t.entries)

end AliasTable

/-! ## Section 3: Comparison keys -/

/-- How one module resolves the specifiers it writes. -/
structure Resolver where
  aliases : AliasTable
  /-- Directory of the module; empty for a bare name. -/
  directory : List Char

namespace Resolver

/-- Resolver of the module with the given id. -/
def new (aliases : AliasTable) (importer : String) : Resolver :=
  ⟨aliases, Path.dirname (Path.clean importer).toList⟩

/-- The specifier names a file relative to its importer. -/
def isRelative (specifier : List Char) : Bool :=
  startsWith ['.', '/'] specifier || startsWith ['.', '.', '/'] specifier

/-- Comparison key of a specifier. -/
def resolve (r : Resolver) (specifier : String) : String :=
  let expanded := (r.aliases.resolve specifier).toList
  let joined :=
    if isRelative expanded && !r.directory.isEmpty then Path.joinTo r.directory expanded
    else expanded
  String.ofList (Path.dropExtension joined)

end Resolver

end BuildMacros
