import BuildMacros.Components.Request
import BuildMacros.Json.Basic
import BuildMacros.Registry.Component
import BuildMacros.Script.CallSite
import BuildMacros.Script.Module
import BuildMacros.Splice

/-! # Loading components

    Calls that ask the runtime for a component by its name are replaced by
    identifiers that are bound to the component. How an identifier is bound is its
    `Form`: by an import, wrapped for one bundle, or loaded when it is needed. The
    lines that bind identifiers are put in front of the module, each line once.
    Names that no component is registered for are left to the runtime.
-/

namespace BuildMacros.Components

open BuildMacros.Script

/-! ## Section 1: Calls -/

/-- Names of the function that the runtime resolves components with. -/
def resolvers : NameFilter := .ofNames ["resolveComponent", "_resolveComponent"]

/-- A call that asks for a component. -/
structure ResolveCall where
  span : Span
  name : String
deriving DecidableEq, Repr

/-- The name that a call asks for, unless the function is declared in the module itself. -/
def requested? (c : StaticCall) (decl : Option Declaration) : Option ResolveCall :=
  match c.args with
  | .string name _ :: _ =>
    if c.callee.qualifier.isSome || decl.any (fun d => !d.isImport) then none
    else some ⟨c.span, name⟩
  | _ => none

/-- Calls that do not lie inside an earlier one. -/
def outermost (lastEnd : Nat) : List ResolveCall → List ResolveCall
  | [] => []
  | c :: cs =>
    if lastEnd ≤ c.span.start then c :: outermost c.span.stop cs else outermost lastEnd cs

/-- The calls of a module that ask for components. -/
def resolveCalls (m : Module) : List ResolveCall :=
  outermost 0 (m.moments.filterMap fun x =>
    match x.event with
    | .call node =>
      (node.staticCall? resolvers).bind fun c =>
        requested? c (m.scopes.getFrom? x.scope c.callee.name)
    | _ => none)

/-! ## Section 2: Forms -/

/-- How an identifier is bound to a component. -/
inductive Form where
  /-- Rendered by the server on request. -/
  | bridged
  /-- Imported as it is. -/
  | direct
  /-- Imported and wrapped to render in the client only. -/
  | clientOnly
  /-- Loaded when it is needed. -/
  | deferred (clientOnly : Bool)
  /-- Loaded when it is needed and hydrated at a moment of its own. -/
  | hydrated (strategy : Strategy) (clientOnly : Bool)
deriving DecidableEq, Repr

/-- The function that makes a component with a strategy, and the mark of its identifiers. A
    component that never hydrates needs none. -/
def Strategy.helper? : Strategy → Option (String × String)
  | .visible => some ("createLazyVisibleComponent", "_lazy_visible")
  | .interaction => some ("createLazyInteractionComponent", "_lazy_event")
  | .idle => some ("createLazyIdleComponent", "_lazy_idle")
  | .mediaQuery => some ("createLazyMediaQueryComponent", "_lazy_media")
  | .condition => some ("createLazyIfComponent", "_lazy_if")
  | .time => some ("createLazyTimeComponent", "_lazy_time")
  | .never => none

/-- A text in double quotes. -/
def literal (text : String) : String := Json.quote text

/-- A line that imports a name, perhaps under another one. -/
def importLine (source name as? : String) : String :=
  let bound := if as? = name then name else name ++ " as " ++ as?
  r"import { " ++ bound ++ r" } from " ++ literal source

/-- A line that binds a constant. -/
def constLine (name value : String) : String := "const " ++ name ++ " = " ++ value

/-- An expression that loads a component when it is called. -/
def loading (c : Component) : String :=
  "() => import(" ++ literal c.filePath ++ ").then(c => c." ++ c.exportName ++ " || c)"

/-- The line that imports the function for components that are loaded when they are needed. -/
def asyncImport : String := importLine "vue" "defineAsyncComponent" "__defineAsyncComponent"

/-- An identifier with the lines that bind it. -/
structure Bound where
  identifier : String
  lines : List String
deriving DecidableEq, Repr

/-- The component only renders in the client. -/
def Form.isClientOnly : Form → Bool
  | clientOnly => true
  | deferred c => c
  | hydrated _ c => c
  | _ => false

/-- The line that imports the wrapper for components of the client. -/
def clientLines (o : LoaderOptions) (form : Form) : List String :=
  if form.isClientOnly then [importLine o.clientOnlyRuntime "createClientOnly" "createClientOnly"]
  else []

/-- The identifier of a component in a form, and the lines that bind it, given the component's own
    identifier. -/
def Form.bind (o : LoaderOptions) (base : String) (c : Component) (form : Form) : Bound :=
  let before := clientLines o form
  let name := if form.isClientOnly then base ++ "_client" else base
  match form with
  | bridged =>
    ⟨base, [importLine o.serverRuntime "createServerComponent" "createServerComponent",
      constLine base ("createServerComponent(" ++ literal c.pascalName ++ ")")]⟩
  | direct =>
    ⟨name, before ++ [importLine c.filePath (if c.raw then "default" else c.exportName) name]⟩
  | clientOnly =>
    ⟨name ++ "_wrapped", before ++ [importLine c.filePath c.exportName name,
      constLine (name ++ "_wrapped") ("createClientOnly(" ++ name ++ ")")]⟩
  | deferred client =>
    let wrap := if client then ".then(c => createClientOnly(c))" else ""
    ⟨name ++ "_lazy", before ++ [asyncImport,
      constLine (name ++ "_lazy") ("__defineAsyncComponent(" ++ loading c ++ wrap ++ ")")]⟩
  | hydrated strategy _ =>
    match strategy.helper? with
    | some (helper, mark) =>
      ⟨name ++ mark, before ++ [importLine o.delayedRuntime helper helper,
        constLine (name ++ mark) (helper ++ "(" ++ loading c ++ ")")]⟩
    | none =>
      ⟨name ++ "_lazy_never", before ++ [asyncImport,
        constLine (name ++ "_lazy_never") (r"__defineAsyncComponent({loader: " ++ loading c
          ++ r", hydrate: () => {}})")]⟩

/-! ## Section 3: Choosing -/

/-- A component for a request: its index, and whether the request's plain name found it. -/
structure Found where
  index : Nat
  isPlain : Bool
deriving DecidableEq, Repr

/-- The component for a request: by its plain name, or else by modifier and name together. -/
def find? (r : ComponentRegistry) (bundle : Bundle) (q : Request) : Option Found :=
  match r.find? q.name bundle with
  | some i => some ⟨i, true⟩
  | none =>
    match q.modifier with
    | some m => (r.find? (m.word ++ q.name) bundle).map (⟨·, false⟩)
    | none => none

/-- The form in which a request gets a component. The strategy of a name counts only when the plain
    name found the component. -/
def Form.of (r : ComponentRegistry) (c : Component) (q : Request) (isPlain : Bool) : Form :=
  let isBridged := !c.raw && c.mode == .server && !r.hasVariant c.pascalName .client
  let client := !c.raw && c.mode == .client
  if isBridged then .bridged
  else if !q.isLazy then (if client then .clientOnly else .direct)
  else match q.modifier with
    | some m => if isPlain then .hydrated m.strategy client else .deferred client
    | none => .deferred client

/-! ## Section 4: One file -/

/-- What the calls handled so far need. -/
structure Prelude where
  /-- Components in the order of their first use; the place is the number in the identifier. -/
  used : List Nat
  /-- Lines in front of the module; none is repeated. -/
  lines : List String
deriving DecidableEq, Repr

namespace Prelude

/-- Nothing is needed. -/
def empty : Prelude := ⟨[], []⟩

/-- Uses a component. -/
def use (p : Prelude) (index : Nat) : Prelude :=
  if p.used.contains index then p else { p with used := p.used ++ [index] }

/-- The identifier of a component that is used. -/
def identifier (p : Prelude) (index : Nat) : String :=
  "__nuxt_component_" ++ toString (p.used.idxOf index)

/-- Adds lines that are not there yet. -/
def add (p : Prelude) (lines : List String) : Prelude :=
  { p with lines := lines.foldl (fun ls l => if ls.contains l then ls else ls ++ [l]) p.lines }

/-- The text in front of the module. -/
def text (p : Prelude) : String := String.join (p.lines.map (· ++ "\n"))

end Prelude

/-- A call with the identifier that replaces it. -/
structure Replacement where
  span : Span
  identifier : String
deriving DecidableEq, Repr

/-- Binds the component that a call asks for, if there is one. -/
def answer (r : ComponentRegistry) (o : LoaderOptions) (p : Prelude) (c : ResolveCall) :
    Prelude × Option Replacement :=
  let q := Request.parse c.name
  match find? r o.bundle q with
  | none => (p, none)
  | some found =>
    match r.components[found.index]? with
    | none => (p, none)
    | some component =>
      let p := p.use found.index
      let form := Form.of r component q found.isPlain
      let bound := form.bind o (p.identifier found.index) component
      (p.add bound.lines, some ⟨c.span, bound.identifier⟩)

/-- Binds the components that calls ask for, one call after another. -/
def answerAll (r : ComponentRegistry) (o : LoaderOptions) (p : Prelude) :
    List ResolveCall → Prelude × List Replacement
  | [] => (p, [])
  | c :: cs =>
    let (p, first) := answer r o p c
    let (p, more) := answerAll r o p cs
    (p, first.toList ++ more)

/-- The text with requests replaced by identifiers. A text without the word is not parsed. -/
def load (r : ComponentRegistry) (o : LoaderOptions) (code id : String) :
    Except Failure Output := do
  if !Text.contains "resolveComponent".toList code.toList then return .unchanged
  let m ← Module.parse code id
  let (p, replacements) := answerAll r o .empty (resolveCalls m)
  let s ← replacements.foldlM (fun s c =>
    s.overwrite (m.inFile c.span.start) (m.inFile c.span.stop) c.identifier) (Splicer.new code)
  let s := if p.lines.isEmpty then s else s.prepend p.text
  return s.output id o.sourcemap

end BuildMacros.Components
