import BuildMacros.Script.Node

/-! # What a walk over a syntax tree meets

    The passes look at a module through its *outline*: the tree of scopes with the
    declarations, references, calls and awaits in them, in visit order. The outline
    is computed once from the syntax tree; every pass is a fold over it, or over
    its events, in which a scope is opened and closed. So two passes that count
    scopes count them alike.

    A declaration of several names is one moment of the walk: all names that its
    pattern binds are declared before its parts are visited. `boundNames` finds
    them in the outline of the pattern; functions, classes and type annotations
    inside the pattern are sealed off.
-/

namespace BuildMacros.Script

/-! ## Section 1: Declarations -/

/-- What an import binds a name to. -/
inductive ImportedName where
  | named (name : String)
  | default
  | whole
deriving DecidableEq, Repr, Inhabited

/-- An imported binding. -/
structure ImportBinding where
  /-- The specifier as written. -/
  source : String
  imported : ImportedName
  typeOnly : Bool
deriving DecidableEq, Repr, Inhabited

/-- Kinds of declarations. -/
inductive BindingKind where
  | variable (kind : VariableKind)
  | function
  | cls
  | imported (binding : ImportBinding)
  | param
deriving DecidableEq, Repr, Inhabited

/-- A name declared at some moment of the walk. -/
structure Binding where
  name : String
  kind : BindingKind
  /-- Where the name stands. -/
  span : Span
  /-- Where the declaring node stands. -/
  node : Span
deriving DecidableEq, Repr, Inhabited

/-! ## Section 2: Outlines -/

/-- What a walk meets. -/
inductive Visit where
  /-- A name that is bound. -/
  | name (id : Ident)
  /-- A reference. -/
  | use (id : Ident)
  | declare (b : Binding)
  /-- A call, and what is met inside it. -/
  | call (node : Node) (inner : List Visit)
  /-- A wait for a value, and what is met inside it. -/
  | await (inner : List Visit)
  | scope (flags : ScopeFlags) (inner : List Visit)
  /-- A function, class or type annotation: its names are no part of a pattern around it. -/
  | sealed (inner : List Visit)
deriving Inhabited

mutual

/-- The names bound in a part of an outline, outside what is sealed. -/
def Visit.boundNames : Visit → List Ident
  | .name id => [id]
  | .use _ => []
  | .declare _ => []
  | .call _ inner => boundNamesOf inner
  | .await inner => boundNamesOf inner
  | .scope _ inner => boundNamesOf inner
  | .sealed _ => []

/-- The names bound in a list of parts. -/
def boundNamesOf : List Visit → List Ident
  | [] => []
  | v :: vs => v.boundNames ++ boundNamesOf vs

end

/-- Declares the names that an outline binds. -/
def declareAll (kind : BindingKind) (node : Span) (vs : List Visit) : List Visit :=
  (boundNamesOf vs).map fun id => .declare ⟨id.name, kind, id.span, node⟩

/-- Declares the name of a function or class, if it has one. -/
def declareName (kind : BindingKind) (node : Span) (id : Option Ident) : List Visit :=
  id.toList.map fun id => .declare ⟨id.name, kind, id.span, node⟩

/-- The name of a function or class as it is met. -/
def nameVisit (id : Option Ident) : List Visit := id.toList.map Visit.name

/-- The bindings of an import statement. -/
def ImportSpecifier.binding (source : String) (typeOnly : Bool) (node : Span) :
    ImportSpecifier → Binding
  | named imported id own =>
    ⟨id.name, .imported ⟨source, .named imported, typeOnly || own⟩, id.span, node⟩
  | default id => ⟨id.name, .imported ⟨source, .default, typeOnly⟩, id.span, node⟩
  | whole id => ⟨id.name, .imported ⟨source, .whole, typeOnly⟩, id.span, node⟩

/-- A reference from an export list; names exported from another module refer to nothing here. -/
def ExportSpecifier.visits (s : ExportSpecifier) : List Visit :=
  if s.inner.isQuoted then [] else [.use s.inner.id]

mutual

/-- The outline of a node. -/
def Node.outline : Node → List Visit
  | .use id => [.use id]
  | .name id => [.name id]
  | .literal _ => []
  | .string _ _ => []
  | .template parts _ => outlineAll parts
  | .wrap _ before inner after _ => outlineAll before ++ (inner.outline ++ outlineAll after)
  | .await inner _ => [.await inner.outline]
  | .spread inner _ => inner.outline
  | .member object _ _ => object.outline
  | .index object key _ => object.outline ++ key.outline
  | .call callee typeArgs args optional span =>
    [.call (.call callee typeArgs args optional span)
      (callee.outline ++ (outlineAll typeArgs ++ outlineAll args))]
  | .chain inner _ => inner.outline
  | .function role id parts span =>
    (if role = .declaration then declareName .function span id else [])
      ++ [.sealed [.scope .ofFunction (nameVisit id ++ outlineAll parts)]]
  | .arrow parts _ => [.sealed [.scope .ofArrow (outlineAll parts)]]
  | .cls declares decorators id parts span =>
    (if declares then declareName .cls span id else [])
      ++ [.sealed (outlineAll decorators ++ nameVisit id ++ [.scope .plain (outlineAll parts)])]
  | .params items span =>
    let inner := outlineAll items
    declareAll .param span inner ++ inner
  | .typing parts => [.sealed (outlineAll parts)]
  | .scope flags parts => [.scope flags (outlineAll parts)]
  | .catchParam pattern typing span =>
    let inner := pattern.outline
    declareAll (.variable .let) span inner ++ inner ++ outlineAll typing
  | .variableDeclaration kind declarators span =>
    declareAll (.variable kind) span (targetsOutline declarators) ++ outlineAll declarators
  | .declarator target typing init =>
    target.outline ++ (outlineAll typing ++ outlineAll init)
  | .importing specifiers source typeOnly span =>
    specifiers.map fun s => .declare (s.binding source typeOnly span)
  | .exportDeclaration declaration _ => declaration.outline
  | .exportNames specifiers source _ =>
    if source.isNone then specifiers.flatMap ExportSpecifier.visits else []
  | .exportDefault value => value.outline
  | .exportAssign value => value.outline
  | .expression value => value.outline
  | .group parts _ => outlineAll parts

/-- The outline of a list of nodes. -/
def outlineAll : List Node → List Visit
  | [] => []
  | n :: ns => n.outline ++ outlineAll ns

/-- The outline of the patterns of a list of declarators. -/
def targetsOutline : List Node → List Visit
  | [] => []
  | n :: ns => n.targetOutline ++ targetsOutline ns

/-- The outline of the pattern of a declarator. -/
def Node.targetOutline : Node → List Visit
  | .declarator target _ _ => target.outline
  | _ => []

end

/-- The outline of a module: one scope around everything. -/
def Program.outline (p : Program) : List Visit := [.scope .ofModule (outlineAll p.body)]

/-! ## Section 3: Events -/

/-- One moment of the walk. -/
inductive Event where
  | enter (flags : ScopeFlags)
  | leave
  | declare (b : Binding)
  | use (id : Ident)
  /-- A call begins; its callee and arguments follow. -/
  | call (node : Node)
  | await
deriving Inhabited

mutual

/-- The events of a part of an outline. -/
def Visit.events : Visit → List Event
  | .name _ => []
  | .use id => [.use id]
  | .declare b => [.declare b]
  | .call node inner => .call node :: eventsOf inner
  | .await inner => .await :: eventsOf inner
  | .scope flags inner => .enter flags :: (eventsOf inner ++ [.leave])
  | .sealed inner => eventsOf inner

/-- The events of a list of parts. -/
def eventsOf : List Visit → List Event
  | [] => []
  | v :: vs => v.events ++ eventsOf vs

end

/-- The events of a walk over a module. -/
def Program.events (p : Program) : List Event := eventsOf p.outline

/-- A wait for a value occurs somewhere in a node, functions inside it included. -/
def Node.hasAwait (n : Node) : Bool :=
  (eventsOf n.outline).any fun e => match e with
    | .await => true
    | _ => false

end BuildMacros.Script
