import BuildMacros.Specifier

/-! # Which files are looked at, and in which dialect

    Decisions that depend on a module id alone: whether the passes look at the
    file, whether it is a single-file component, whether its components are
    resolved, and which syntax its scripts are written in.
-/

namespace BuildMacros.Script

open BuildMacros.Text

/-! ## Section 1: Kinds of files -/

/-- Extension of the last dot in a text, or the whole text when it has no dot. -/
def extension (path : List Char) : List Char :=
  ((splitLast? (· == '.') path).map Prod.snd).getD path

/-- The id without its query ends in the extension of single-file components. -/
def isVue (id : String) : Bool := endsWith ".vue".toList (Path.clean id).toList

/-- Extensions of scripts: an optional `c` or `m`, then `j` or `t`, `s`, and an optional `x`. -/
def isScriptExtension (ext : List Char) : Bool :=
  let ext := match ext with
    | c :: cs => if c == 'c' || c == 'm' then cs else ext
    | [] => []
  match ext with
  | [j, 's'] => j == 'j' || j == 't'
  | [j, 's', 'x'] => j == 'j' || j == 't'
  | _ => false

/-- Names of the framework's own packages. -/
def frameworkPackages : List (List Char) :=
  ["nuxt".toList, "nuxt3".toList, "nuxt-nightly".toList, "@nuxt".toList]

/-- A slash of either kind. -/
def isSlash (c : Char) : Bool := c == '/' || c == '\\'

/-- The text starts with a framework package inside the package directory. -/
def startsInFramework (cs : List Char) : Bool :=
  match strip? "node_modules".toList cs with
  | some (s :: rest) =>
    isSlash s && frameworkPackages.any fun name =>
      match strip? name rest with
      | some (s' :: _) => isSlash s'
      | _ => false
  | _ => false

/-- The id lies in a framework package. -/
def inFramework : List Char → Bool
  | [] => false
  | c :: cs => startsInFramework (c :: cs) || inFramework cs

/-- The parameters of an id's query; none without a query. -/
def queryParameters (id : List Char) : List (List Char) :=
  match id.dropWhile (· != '?') with
  | _ :: query => fields (· == '&') query
  | [] => []

/-- The id asks for the page metadata of a module only. -/
def isMacroRequest (id : String) : Bool :=
  (queryParameters id.toList).contains "macro=true".toList

/-- The passes look at the module. -/
def shouldTransform (id : String) : Bool :=
  let cs := id.toList
  let path := Naming.withoutQuery cs
  !inFramework cs
    && !(queryParameters cs).contains "type=style".toList
    && !isMacroRequest id
    && match splitLast? (· == '.') path with
      | some (_, ext) => ext = "vue".toList || isScriptExtension ext
      | none => false

/-- Single-file components and modules with markup ask the runtime for components. -/
def shouldResolveComponents (id : String) : Bool :=
  isVue id || endsWith ".jsx".toList (Path.clean id).toList
    || endsWith ".tsx".toList (Path.clean id).toList

/-! ## Section 2: Dialects -/

/-- Syntax a script is written in. -/
structure Dialect where
  /-- Type annotations and declarations are understood. -/
  typed : Bool
  /-- Markup expressions are understood. -/
  markup : Bool
deriving DecidableEq, Repr

/-- Dialect of an extension: types are understood unless the extension names a plain script. -/
def Dialect.ofExtension (ext : String) : Dialect :=
  if ext = "js" || ext = "mjs" || ext = "cjs" then ⟨false, false⟩
  else if ext = "jsx" then ⟨false, true⟩
  else if ext = "tsx" then ⟨true, true⟩
  else ⟨true, false⟩

/-- Dialect of a module; an explicit language replaces its extension. -/
def dialect (id : String) (lang : Option String) : Dialect :=
  .ofExtension (lang.getD (String.ofList (extension (Path.clean id).toList)))

end BuildMacros.Script
