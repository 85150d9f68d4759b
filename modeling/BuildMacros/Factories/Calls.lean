import BuildMacros.Import.Table
import BuildMacros.Registry.Factory
import BuildMacros.Script.CallSite
import BuildMacros.Script.Module

/-! # Exported factory calls

    A factory call counts when its result is exported under a name of its own: as
    the initial value of an exported variable, of a variable that an export list
    names, or as the default export. The call must stand there directly; only an
    optional link is looked through. Its callee must be the registered factory, by
    an import or, when nothing declares the name, by an automatic import.
-/

namespace BuildMacros.Factories

open BuildMacros.Script

/-! ## Section 1: Candidates -/

/-- A call whose result is exported. -/
structure Candidate where
  /-- Name that the result is exported under. -/
  functionName : String
  callee : Callee
deriving DecidableEq, Repr

/-- The static call that an expression is, without wrappers and waits around it. -/
def directCall? (filter : NameFilter) : Node → Option StaticCall
  | .chain inner _ => inner.staticCall? filter
  | n => n.staticCall? filter

/-- The plain name that a declarator declares, with the call that is its initial value. -/
def declaratorCall? (filter : NameFilter) : Node → Option (String × Callee)
  | .declarator (.name id) _ (init :: _) =>
    (directCall? filter init).map fun c => (id.name, c.callee)
  | _ => none

/-- The declarators of a declaration of variables at the root that has the given span. -/
def declaratorsAt? (span : Span) : Node → Option (List Node)
  | .variableDeclaration _ declarators s => if s = span then some declarators else none
  | .exportDeclaration (.variableDeclaration _ declarators s) _ =>
    if s = span then some declarators else none
  | _ => none

/-- Name of the file's default export, or the given name. -/
def exportedAs (id name : String) : String :=
  if name = "default" then Naming.defaultExportName (Path.clean id) else name

/-- Candidates of an entry of an export list. -/
def listed (m : Module) (filter : NameFilter) (id : String) (s : ExportSpecifier) :
    List Candidate :=
  if s.inner.isQuoted || s.exported.isQuoted then []
  else
    match m.scopes.getFrom? Tracker.root s.inner.id.name with
    | some d =>
      match d.kind with
      | .variable _ =>
        let declarators := (m.program.body.findSome? (declaratorsAt? d.node)).getD []
        (declarators.filterMap (declaratorCall? filter)).filterMap fun (name, callee) =>
          if name = s.inner.id.name then some ⟨exportedAs id s.exported.id.name, callee⟩ else none
      | _ => []
    | none => []

/-- Candidates of a statement. -/
def candidates (m : Module) (filter : NameFilter) (id : String) : Node → List Candidate
  | .exportDeclaration (.variableDeclaration _ declarators _) _ =>
    (declarators.filterMap (declaratorCall? filter)).map fun (name, callee) => ⟨name, callee⟩
  | .exportNames specifiers none _ => specifiers.flatMap (listed m filter id)
  | .exportDefault value =>
    (value.staticCall? filter).toList.map fun c =>
      ⟨Naming.defaultExportName (Path.clean id), c.callee⟩
  | _ => []

/-! ## Section 2: Resolution -/

/-- What the calls of one module are resolved with. -/
structure Context where
  registry : FactoryRegistry
  autoImports : Dictionary
  resolver : Resolver
  imports : Import.Table

/-- What a module with the given text contributes. -/
def Context.new (registry : FactoryRegistry) (options : TransformOptions) (id script : String) :
    Context :=
  let resolver := Resolver.new (.ofMap options.aliases.entries) id
  ⟨registry, options.autoImports, resolver, .ofRecords resolver (Import.findImports script)⟩

/-- The calls worth a look: of factories, and of imports that may be factories. -/
def Context.filter (x : Context) : NameFilter :=
  let imported := x.imports.direct.filter fun e => (x.registry.get? e.2.exported).isSome
  .ofNames (x.registry.names ++ imported.map Prod.fst)

/-- The factory of a name that nothing declares, if it is imported automatically. Such a name must
    be registered, because no other one is looked at. -/
def Context.autoImported (x : Context) (id : String) (c : Candidate) :
    Except Failure (Option Factory) :=
  match x.registry.get? c.callee.name with
  | none => .error (.missingFactory c.functionName id)
  | some f =>
    .ok (if (x.autoImports.get? f.name).any fun source => x.resolver.resolve source == f.source
      then some f else none)

/-- The factory that an import binds. -/
def Context.imported? (x : Context) (c : Candidate) (b : ImportBinding) : Option Factory :=
  let found := match c.callee.qualifier, b.imported with
    | none, .named name => x.registry.get? name
    | some _, .whole => x.registry.get? c.callee.name
    | _, _ => none
  found.filter fun f => x.resolver.resolve b.source == f.source

/-- The factory that a candidate calls, if its callee is one. -/
def Context.factoryOf (x : Context) (m : Module) (id : String) (c : Candidate) :
    Except Failure (Option Factory) :=
  match m.scopes.getFrom? Tracker.root (c.callee.qualifier.getD c.callee.name) with
  | none => if c.callee.qualifier.isSome then .ok none else x.autoImported id c
  | some d => .ok (d.valueImport?.bind (x.imported? c))

/-- A call of a registered factory whose result is exported. -/
structure FactoryCall where
  functionName : String
  callee : Callee
  factory : Factory
deriving DecidableEq, Repr

/-- The calls among candidates that call registered factories. -/
def Context.resolveAll (x : Context) (m : Module) (id : String) :
    List Candidate → Except Failure (List FactoryCall)
  | [] => .ok []
  | c :: cs => do
    let f ← x.factoryOf m id c
    let more ← resolveAll x m id cs
    return (f.map fun f => ⟨c.functionName, c.callee, f⟩).toList ++ more

/-- The exported factory calls of a module, in the order of the text. -/
def find (registry : FactoryRegistry) (options : TransformOptions) (id : String) (m : Module) :
    Except Failure (List FactoryCall) :=
  let x := Context.new registry options id m.block.content
  x.resolveAll m id (m.program.body.flatMap (candidates m x.filter id))

end BuildMacros.Factories
