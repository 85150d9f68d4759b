import BuildMacros.Build

/-! # Finding source files

    A directory is walked in the order of the names in it, a subdirectory where its
    name stands. Directories of dependencies and of build results are passed over,
    unless the walk starts in one. Files that no pass looks at are left out, and so
    are files that hold no text.
-/

namespace BuildMacros

open BuildMacros.Text

/-! ## Section 1: Trees of files -/

/-- A file with its bytes, or a directory. -/
inductive FileTree where
  | file (bytes : ByteArray)
  | directory (entries : List (String × FileTree))

namespace FileTree

/-- An empty directory. -/
def empty : FileTree := .directory []

/-- What a directory holds under a name. -/
def child? (name : String) : FileTree → Option FileTree
  | .directory entries => entries.lookup name
  | .file _ => none

/-- The tree at the end of a path. -/
def at? (t : FileTree) : List String → Option FileTree
  | [] => some t
  | name :: names => (t.child? name).bind (·.at? names)

/-- The entries of a directory; a file has none. -/
def entries : FileTree → List (String × FileTree)
  | .directory es => es
  | .file _ => []

/-- A tree with a tree put at the end of a path; directories on the way are made. -/
def put (t : FileTree) : List String → FileTree → FileTree
  | [], new => new
  | name :: names, new =>
    .directory (Assoc.insert t.entries name (put ((t.child? name).getD .empty) names new))

end FileTree

/-! ## Section 2: The walk -/

/-- Directories that hold no sources of an application. -/
def skippedDirectories : List String := ["node_modules", ".nuxt", ".output", ".git", "dist"]

/-- Names in ascending order. -/
def byName (a b : String × FileTree) : Bool := decide (a.1 ≤ b.1)

mutual

/-- The files in a tree that is found under a path, in the order of the walk. -/
def FileTree.files (path : String) : FileTree → List (String × ByteArray)
  | .file bytes => [(path, bytes)]
  | .directory entries =>
    ((filesOf path entries).mergeSort fun a b => decide (a.1 ≤ b.1)).flatMap Prod.snd

/-- The files of the entries of a directory, with the name of each entry. -/
def filesOf (path : String) : List (String × FileTree) → List (String × List (String × ByteArray))
  | [] => []
  | (name, .directory entries) :: rest =>
    if skippedDirectories.contains name then filesOf path rest
    else (name, FileTree.files (path ++ "/" ++ name) (.directory entries)) :: filesOf path rest
  | (name, .file bytes) :: rest => (name, [(path ++ "/" ++ name, bytes)]) :: filesOf path rest

end

/-- The files in a tree that the passes look at. -/
def FileTree.sources (path : String) (t : FileTree) : List (String × ByteArray) :=
  (t.files path).filter fun f => Script.shouldTransform f.1

/-- The files in a tree that the passes look at and that hold text. -/
def FileTree.sourceFiles (path : String) (t : FileTree) : List SourceFile :=
  (t.sources path).filterMap fun (id, bytes) => (String.fromUTF8? bytes).map (⟨id, ·⟩)

end BuildMacros
