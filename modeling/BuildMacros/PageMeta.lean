import BuildMacros.Config.Basic
import BuildMacros.Script.Module
import BuildMacros.Splice

/-! # Page metadata

    A page states its metadata as the argument of one call. A request for the
    metadata alone is answered by a module that holds nothing but that argument,
    together with the imports and the declarations at the root that it needs,
    directly or through one another.
-/

namespace BuildMacros.PageMeta

open BuildMacros.Script

/-! ## Section 1: Modules that are written -/

/-- Name of the function that a page states its metadata with. -/
def metaCall : String := "definePageMeta"

/-- Name of the constant that holds the metadata. -/
def metaName : String := "__nuxt_page_meta"

/-- The part of a module that takes up new metadata while the page runs. -/
def updates : String := "
// Vite
if (import.meta.hot) {
  import.meta.hot.accept(mod => {
    Object.assign(__nuxt_page_meta, mod)
  })
}
// webpack
if (import.meta.webpackHot) {
  import.meta.webpackHot.accept((err) => {
    if (err) { window.location = window.location.href }
  })
}"

/-- The module of a page without metadata. -/
def emptyModule (o : PageMetaOptions) : String :=
  let value := if o.dev then "{}" else "null"
  "\nconst " ++ metaName ++ " = " ++ value ++ "\nexport default " ++ metaName ++ "\n"
    ++ (if o.dev then updates else "")

/-! ## Section 2: Collecting -/

/-- A reference and the declaration that it refers to. -/
structure Reference where
  span : Span
  declaration : Option Declaration
deriving Repr

/-- The references of a module in the order in which they are met. -/
def references (m : Module) : List Reference :=
  m.moments.filterMap fun x =>
    match x.event with
    | .use id => some ⟨id.span, m.scopes.getFrom? x.scope id.name⟩
    | _ => none

/-- The first argument of a call of the function that states metadata. -/
def metaArgument? : Event → Option (Option Span)
  | .call (.call (.use callee) _ args _ _) =>
    if callee.name = metaCall then some (args.head?.map Node.span) else none
  | _ => none

/-- The first arguments of all calls that state metadata. -/
def metaArguments (m : Module) : List (Option Span) := m.program.events.filterMap metaArgument?

/-- The declaration of variables at the root that has the given span. -/
def variablesAt? (span : Span) : Node → Option Node
  | .variableDeclaration kind declarators s =>
    if s = span then some (.variableDeclaration kind declarators s) else none
  | .exportDeclaration (.variableDeclaration kind declarators s) _ =>
    if s = span then some (.variableDeclaration kind declarators s) else none
  | _ => none

/-! ## Section 3: Hoisting -/

/-- What the metadata needs. -/
structure Needs where
  /-- Texts of import statements, none of them twice. -/
  imports : List String
  /-- Where the declarations stand, in the order in which they were found. -/
  declarations : List Span
deriving DecidableEq, Repr

namespace Needs

/-- Nothing. -/
def nothing : Needs := ⟨[], []⟩

/-- Adds an import statement. -/
def addImport (n : Needs) (text : String) : Needs :=
  if n.imports.contains text then n else { n with imports := n.imports ++ [text] }

/-- Adds a declaration. -/
def addDeclaration (n : Needs) (span : Span) : Needs :=
  { n with declarations := n.declarations ++ [span] }

end Needs

/-- The declaration would make its module wait for a value. -/
def waits (m : Module) (d : Declaration) : Bool :=
  match d.kind with
  | .variable _ => (m.program.body.findSome? (variablesAt? d.node)).any Node.hasAwait
  | _ => false

/-- Declarations that can be hoisted: variables, functions and classes of the root. -/
def isHoistable (d : Declaration) : Bool :=
  match d.kind with
  | .variable _ => d.scope == Tracker.root
  | .function => d.scope == Tracker.root
  | .cls => d.scope == Tracker.root
  | _ => false

/-- The declarations that the text of a span refers to without declaring them. -/
def outward (refs : List Reference) (within : Span) : List Declaration :=
  (refs.filter fun r => within.contains r.span).filterMap fun r =>
    r.declaration.filter fun d => !within.contains d.span

/-- Hoists declarations and all that they need. A declaration is taken once, so the depth is at most
    the number of references, which the first argument exceeds. -/
def hoistAll (m : Module) (id : String) (refs : List Reference) :
    Nat → Needs → List Declaration → Except Failure Needs
  | _, needs, [] => .ok needs
  | 0, needs, _ => .ok needs
  | fuel + 1, needs, d :: ds => do
    let needs ← if d.isImport then
        .ok (needs.addImport (String.ofList (Text.trim Text.isBlank (m.textAt d.node).toList)))
      else if !isHoistable d || needs.declarations.contains d.node then .ok needs
      else if waits m d then .error (.awaitInCall metaCall (Path.clean id))
      else hoistAll m id refs fuel (needs.addDeclaration d.node) (outward refs d.node)
    hoistAll m id refs (fuel + 1) needs ds
termination_by fuel _ ds => (fuel, ds.length)

/-- What the text of a span needs. -/
def needsOf (m : Module) (id : String) (within : Span) : Except Failure Needs :=
  let refs := references m
  hoistAll m id refs (refs.length + 1) .nothing (outward refs within)

/-- The module that holds the metadata and what it needs. -/
def extracted (m : Module) (o : PageMetaOptions) (needs : Needs) (within : Span) : String :=
  let spans := needs.declarations.mergeSort fun a b => a.start ≤ b.start
  let text := "\n".intercalate [
    "\n".intercalate needs.imports,
    "\n".intercalate (spans.map m.textAt),
    "const " ++ metaName ++ " = " ++ m.textAt within ++ "\nexport default " ++ metaName
      ++ (if o.dev then updates else "")]
  String.ofList (Text.trim Text.isBlank text.toList)

/-! ## Section 4: Extraction -/

/-- A call that states metadata seems to stand at the head of the text. -/
def callsMeta (cs : List Char) : Bool :=
  match Text.strip? metaCall.toList cs with
  | some rest => (rest.dropWhile Text.isBlank).head? == some '('
  | none => false

/-- A call that states metadata seems to stand somewhere after a word edge. -/
def mentionsCall (before : Option Char) : List Char → Bool
  | [] => false
  | c :: cs =>
    (!before.any Text.isWord && callsMeta (c :: cs)) || mentionsCall (some c) cs

/-- Replaces the whole text, which may not be empty. -/
def replaceAll (code text : String) : Except Failure Splicer :=
  (Splicer.new code).overwrite 0 (Text.byteLength code.toList) text

/-- The text mentions the constant that holds metadata, so it may be such a module already. -/
def holdsMeta (code : String) : Bool := Text.contains metaName.toList code.toList

/-- The text may state metadata. -/
def mayState (code : String) : Bool :=
  mentionsCall none code.toList
    || Text.contains "export { default }".toList code.toList
    || holdsMeta code

/-- The edited text of a module that parses. -/
def extractFrom (o : PageMetaOptions) (code id : String) (m : Module) :
    Except Failure Splicer := do
  match metaArguments m with
  | _ :: _ :: _ => throw (.repeatedCall metaCall (Path.clean id))
  | [some within] =>
    let needs ← needsOf m id within
    replaceAll code (extracted m o needs within)
  | _ => if holdsMeta code then return Splicer.new code else replaceAll code (emptyModule o)

/-- The module that a request for the metadata of a page is answered with. -/
def extract (o : PageMetaOptions) (sourcemap : Bool) (code id : String) :
    Except Failure Output := do
  let s ← if mayState code then do
      let m ← Module.parse code id
      extractFrom o code id m
    else if code.isEmpty then (Splicer.new code).insert 0 (emptyModule o)
    else replaceAll code (emptyModule o)
  return s.output id sourcemap

end BuildMacros.PageMeta
