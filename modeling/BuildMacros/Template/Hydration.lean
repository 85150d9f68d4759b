import BuildMacros.Components.Request
import BuildMacros.Registry.Component
import BuildMacros.Script.Module
import BuildMacros.Splice
import BuildMacros.Template.Elements

/-! # Hydration stated in templates

    A lazy component with an attribute that says when it hydrates is renamed, in
    both of its tags, so that its name says the same: `LazyFoo` with
    `hydrate-on-idle` becomes `LazyIdleFoo`. Names that a script of the file
    declares are left alone.
-/

namespace BuildMacros.Template

open BuildMacros.Text BuildMacros.Script BuildMacros.Components

/-! ## Section 1: Attributes -/

/-- Strategies by the names of their attributes. -/
def hydrationProps : List (String × Strategy) := [
  ("hydrateOnIdle", .idle), ("hydrateOnVisible", .visible),
  ("hydrateOnInteraction", .interaction), ("hydrateOnMediaQuery", .mediaQuery),
  ("hydrateAfter", .time), ("hydrateWhen", .condition), ("hydrateNever", .never)]

/-- Spellings of these attributes. -/
def hydrationWords : List (List Char) :=
  ["hydrate-on-idle", "hydrateOnIdle", "hydrate-on-visible", "hydrateOnVisible",
    "hydrate-on-interaction", "hydrateOnInteraction", "hydrate-on-media-query",
    "hydrateOnMediaQuery", "hydrate-after", "hydrateAfter", "hydrate-when", "hydrateWhen",
    "hydrate-never", "hydrateNever"].map String.toList

/-- One of several words stands somewhere between word edges. -/
def hasWord (words : List (List Char)) (before : Option Char) : List Char → Bool
  | [] => false
  | c :: cs =>
    (!before.any isWord && words.any fun w =>
      match strip? w (c :: cs) with
      | some rest => !rest.head?.any isWord
      | none => false)
    || hasWord words (some c) cs

/-- The strategy that an attribute states; a colon in front makes no difference. -/
def strategyOf? (prop : String) : Option Strategy :=
  let name := match prop.toList with
    | ':' :: cs => cs
    | cs => cs
  hydrationProps.lookup (String.ofList (Naming.camel name))

/-! ## Section 2: The template -/

/-- The part of a file from its first template tag to its last closing one, and its offset. -/
def templateFrom (pos : Nat) : List Char → Option (Nat × List Char)
  | [] => none
  | c :: cs =>
    match strip? "<template>".toList (c :: cs) with
    | some body =>
      (lengthAfterLast body).map fun n => (pos, (c :: cs).take ((c :: cs).length - n))
    | none => templateFrom (pos + c.utf8Size) cs
where
  /-- Number of characters after the last closing tag. -/
  lengthAfterLast : List Char → Option Nat
    | [] => none
    | c :: cs =>
      match lengthAfterLast cs with
      | some n => some n
      | none => (strip? "</template>".toList (c :: cs)).map List.length

/-- The template of a file and its offset. -/
def locate? (code : String) : Option (Nat × List Char) := templateFrom 0 code.toList

/-! ## Section 3: Renaming -/

/-- The scopes of the scripts of a file that parse. -/
def scriptScopes (code id : String) : List Tracker :=
  (blocks code).filterMap fun b =>
    match Module.ofBlock id b with
    | .ok m => some m.scopes
    | .error _ => none

/-- Some script declares the name at its root. -/
def isDeclared (scopes : List Tracker) (name : String) : Bool :=
  scopes.any fun t => (t.getFrom? Tracker.root name).isSome

/-- What follows the mark of a lazy tag. -/
def afterMark? (name : List Char) : Option (List Char) :=
  match strip? "Lazy".toList name with
  | some rest => some rest
  | none => strip? "lazy-".toList name

/-- The new name of an element, if it is renamed: a registered component with a lazy name and a
    strategy, the first of which counts. -/
def newName? (r : ComponentRegistry) (scopes : List Tracker) (e : Element) : Option String :=
  if isDeclared scopes e.name then none
  else
    match afterMark? e.name.toList, e.attributes.findSome? strategyOf? with
    | some rest, some strategy =>
      let pascalName := String.ofList (Naming.pascal rest)
      if r.contains pascalName then some ("Lazy" ++ strategy.word ++ pascalName) else none
    | _, _ => none

/-- Renames an element in a file whose template stands at an offset. -/
def rename (offset : Nat) (s : Splicer) (e : Element) (name : String) : Except Failure Splicer := do
  let size := byteLength e.name.toList
  let s ← s.overwrite (offset + e.start) (offset + e.start + size) name
  match e.closing with
  | some start => s.overwrite (offset + start) (offset + start + size) name
  | none => return s

/-- The file with its lazy components renamed. -/
def hydrate (r : ComponentRegistry) (sourcemap : Bool) (code id : String) :
    Except Failure Output := do
  if !isVue id then return .unchanged
  match locate? code with
  | none => return .unchanged
  | some (offset, template) =>
    if !hasWord hydrationWords none template then return .unchanged
    let scopes := scriptScopes code id
    let s ← (elements template).foldlM (fun s e =>
      match newName? r scopes e with
      | some name => rename offset s e name
      | none => .ok s) (Splicer.new code)
    return s.output id sourcemap

end BuildMacros.Template
