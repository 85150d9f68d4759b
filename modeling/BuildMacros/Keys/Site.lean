import BuildMacros.Import.Table
import BuildMacros.Keys.Basic
import BuildMacros.Registry.Keyed
import BuildMacros.Script.CallSite
import BuildMacros.Script.Export
import BuildMacros.Script.Scope.Tracker

/-! # Which function a call names

    A call takes a key when its callee is known to be a registered function:
    imported from the registered module by the registered name, a member of a
    namespace import of that module, exported by the module itself, or, when
    nothing declares the name, imported automatically. `Site` holds what one module
    contributes to that decision.
-/

namespace BuildMacros.Keys

open BuildMacros.Script

/-! ## Section 1: What a module contributes -/

/-- The registry and what one module contributes. -/
structure Site where
  registry : KeyedRegistry
  autoImports : Dictionary
  resolver : Resolver
  imports : Import.Table
  /-- Names declared at the root and exported as registered functions, with the names that these
      are called by. -/
  localExports : Assoc String String
  /-- Comparison key of the module. -/
  fileKey : String

/-- Name that an imported function is called by. -/
def importedName (exported source : String) : String :=
  if exported = "default" then Naming.defaultExportName source else exported

/-- Name that an export of the module is called by, if it is registered. -/
def exportedName? (registry : KeyedRegistry) (id fileKey : String) (p : ExportPair) :
    Option String :=
  if p.exported = "default" then some (Naming.defaultExportName (Path.clean id))
  else (registry.get? p.exported fileKey).map KeyedFunction.name

/-- The exports of a module that are registered; of several exports of one name the last counts. -/
def registeredExports (registry : KeyedRegistry) (id fileKey : String) (pairs : List ExportPair) :
    Assoc String String :=
  if registry.isSource fileKey then
    pairs.foldl (fun m p => match exportedName? registry id fileKey p with
      | some name => Assoc.insert m p.inner name
      | none => m) []
  else []

/-- What a module with the given text and exports contributes. -/
def Site.new (registry : KeyedRegistry) (options : TransformOptions) (id script : String)
    (pairs : List ExportPair) : Site :=
  let resolver := Resolver.new (.ofMap options.aliases.entries) id
  let fileKey := Path.stripExtension (Path.clean id)
  ⟨registry, options.autoImports, resolver, .ofRecords resolver (Import.findImports script),
    registeredExports registry id fileKey pairs, fileKey⟩

namespace Site

/-- Local names that can stand for a registered function. -/
def localNames (s : Site) : List String :=
  let imported := s.imports.direct.filter fun e =>
    s.registry.names.contains (importedName e.2.exported e.2.source)
  s.registry.names ++ imported.map Prod.fst ++ s.localExports.keys

/-- The calls worth a look. -/
def filter (s : Site) : NameFilter := .ofNames s.localNames

/-! ## Section 2: The function of a call -/

/-- The registered function that a call names, given the module that it comes from. A member of a
    namespace is the exported name itself; local names play no part in it. -/
def lookup? (s : Site) (c : Callee) (source : String) : Option KeyedFunction :=
  if c.qualifier.isSome then s.registry.get? c.name source
  else
    match s.localExports.get? c.name with
    | some name => s.registry.get? name source
    | none =>
      match s.imports.direct.get? c.name with
      | some d => s.registry.get? (importedName d.exported d.source) source
      | none => s.registry.get? c.name source

/-- The call names a registered export of the module itself. -/
def isLocalExport (s : Site) (c : Callee) (decl : Option Declaration) : Bool :=
  c.qualifier.isNone && s.localExports.has c.name && decl.any (·.scope == Tracker.root)

/-- The function of a name that nothing declares: found in the module it is taken from, or else
    among the functions without a source. -/
def autoImported? (s : Site) (name : String) : Option KeyedFunction :=
  match s.autoImports.get? name with
  | some source =>
    match s.registry.get? name (s.resolver.resolve source) with
    | some f => some f
    | none => s.registry.sourceless? name
  | none => none

/-- The call has all the arguments that the function takes. -/
def isFull (c : StaticCall) (f : KeyedFunction) : Bool :=
  f.argumentLength.toNat ≤ c.args.length && !c.hasSpread

/-- The import binds the function that was found. -/
def imports? (f : KeyedFunction) (b : ImportBinding) : Bool :=
  match b.imported with
  | .named name => f.exportName == name
  | .default => f.exportName == "default"
  | .whole => false

/-- The module that the callee comes from, as far as its declaration tells. -/
def sourceOf? (s : Site) (c : Callee) (decl : Option Declaration) : Option String :=
  if s.isLocalExport c decl then some s.fileKey
  else (decl.bind Declaration.valueImport?).map fun b => s.resolver.resolve b.source

/-- A bare call of a function that the module imports or exports. -/
def bare? (s : Site) (c : StaticCall) (decl : Option Declaration) (f : KeyedFunction) :
    Option KeyedFunction :=
  if isFull c f then none
  else if (decl.bind Declaration.valueImport?).any (imports? f) ||
      s.isLocalExport c.callee decl then
    some f
  else none

/-- A call of a member of a namespace import. -/
def member? (s : Site) (qualifier source : String) (decl : Option Declaration)
    (f : KeyedFunction) : Option KeyedFunction :=
  let isWhole := (decl.bind Declaration.valueImport?).any (·.imported == .whole)
  if isWhole && s.imports.hasNamespace source qualifier then some f else none

/-- The registered function that a call names, given the visible declaration of its binding. -/
def resolve? (s : Site) (c : StaticCall) (decl : Option Declaration) : Option KeyedFunction :=
  match s.sourceOf? c.callee decl with
  | some source =>
    (s.lookup? c.callee source).bind fun f =>
      match c.callee.qualifier with
      | none => s.bare? c decl f
      | some q => s.member? q source decl f
  | none =>
    if decl.isNone && c.callee.qualifier.isNone then
      (s.autoImported? c.callee.name).filter fun f => !isFull c f
    else none

/-! ## Section 3: Calls that take a key -/

/-- The author states a key for one of the framework's own functions. -/
def hasStatedKey (c : StaticCall) (f : KeyedFunction) : Bool :=
  (places f.name).any fun p => (p.index? c.args.length).any c.hasTextAt

/-- The last argument is a key already. -/
def endsWithKey (c : StaticCall) : Bool :=
  match c.args.getLast? with
  | some (.string value _) => isKey value
  | _ => false

/-- The call takes a key. -/
def takesKey (s : Site) (c : StaticCall) (decl : Option Declaration) : Bool :=
  (s.resolve? c decl).any fun f => !hasStatedKey c f && !endsWithKey c

end Site

end BuildMacros.Keys
