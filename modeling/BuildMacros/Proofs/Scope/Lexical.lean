import BuildMacros.Script.Scope.Tracker

/-! # Lexical scoping

    What the names in a syntax tree refer to, said about the tree itself. `spots`
    lists the nodes of a tree with the scopes around each of them. A node by itself
    binds names (`Node.bindings`) and refers to names (`Node.references`); which
    scope owns a binding follows from the scopes around the node.

    A name refers to what the nearest scope around it owns (`visible?`), so it does
    not matter where in the scope the binding is written. Nothing here grows while
    the tree is walked, and nothing is replayed.
-/

namespace BuildMacros.Script

/-! ## Section 1: Names of a pattern -/

mutual

/-- The names that a pattern binds. Functions, classes and type annotations in it bind none. -/
def Node.boundNames : Node → List Ident
  | .use _ => []
  | .name id => [id]
  | .literal _ => []
  | .string _ _ => []
  | .template parts _ => boundNamesAll parts
  | .wrap _ before inner after _ =>
    boundNamesAll before ++ (inner.boundNames ++ boundNamesAll after)
  | .await inner _ => inner.boundNames
  | .spread inner _ => inner.boundNames
  | .member object _ _ => object.boundNames
  | .index object key _ => object.boundNames ++ key.boundNames
  | .call callee typeArgs args _ _ =>
    callee.boundNames ++ (boundNamesAll typeArgs ++ boundNamesAll args)
  | .chain inner _ => inner.boundNames
  | .function _ _ _ _ => []
  | .arrow _ _ => []
  | .cls _ _ _ _ _ => []
  | .params items _ => boundNamesAll items
  | .typing _ => []
  | .scope _ parts => boundNamesAll parts
  | .catchParam pattern typing _ => pattern.boundNames ++ boundNamesAll typing
  | .variableDeclaration _ declarators _ => boundNamesAll declarators
  | .declarator target typing init =>
    target.boundNames ++ (boundNamesAll typing ++ boundNamesAll init)
  | .importing _ _ _ _ => []
  | .exportDeclaration declaration _ => declaration.boundNames
  | .exportNames _ _ _ => []
  | .exportDefault value => value.boundNames
  | .exportAssign value => value.boundNames
  | .expression value => value.boundNames
  | .group parts _ => boundNamesAll parts

/-- The names that a list of patterns binds. -/
def boundNamesAll : List Node → List Ident
  | [] => []
  | n :: ns => n.boundNames ++ boundNamesAll ns

end

/-- The names that the pattern of a declarator binds. -/
def Node.targetNames : Node → List Ident
  | .declarator target _ _ => target.boundNames
  | _ => []

/-! ## Section 2: What a node binds and refers to -/

/-- Bindings of one kind, made by one node. -/
def bindAll (kind : BindingKind) (node : Span) (ids : List Ident) : List Binding :=
  ids.map fun id => ⟨id.name, kind, id.span, node⟩

/-- The bindings that a node makes by itself. -/
def Node.bindings : Node → List Binding
  | .function .declaration id _ span => bindAll .function span id.toList
  | .cls true _ id _ span => bindAll .cls span id.toList
  | .params items span => bindAll .param span (boundNamesAll items)
  | .catchParam pattern _ span => bindAll (.variable .let) span pattern.boundNames
  | .variableDeclaration kind declarators span =>
    bindAll (.variable kind) span (declarators.flatMap Node.targetNames)
  | .importing specifiers source typeOnly span =>
    specifiers.map fun s => s.binding source typeOnly span
  | _ => []

/-- The names that a node refers to by itself: an identifier, or what an export list of this module
    names without quotes. -/
def Node.references : Node → List Ident
  | .use id => [id]
  | .exportNames specifiers none _ =>
    (specifiers.filter fun s => !s.inner.isQuoted).map fun s => s.inner.id
  | _ => []

/-! ## Section 3: The scopes around a node -/

/-- A scope around a node. Scopes are numbered in the order in which they begin. -/
structure Enclosing where
  number : Nat
  flags : ScopeFlags
deriving DecidableEq, Repr

/-- A node and the scopes around it, innermost first. -/
structure Spot where
  node : Node
  scopes : List Enclosing

mutual

/-- Number of scopes in a node. -/
def Node.scopeCount : Node → Nat
  | .use _ => 0
  | .name _ => 0
  | .literal _ => 0
  | .string _ _ => 0
  | .template parts _ => scopeCountAll parts
  | .wrap _ before inner after _ =>
    scopeCountAll before + (inner.scopeCount + scopeCountAll after)
  | .await inner _ => inner.scopeCount
  | .spread inner _ => inner.scopeCount
  | .member object _ _ => object.scopeCount
  | .index object key _ => object.scopeCount + key.scopeCount
  | .call callee typeArgs args _ _ =>
    callee.scopeCount + (scopeCountAll typeArgs + scopeCountAll args)
  | .chain inner _ => inner.scopeCount
  | .function _ _ parts _ => 1 + scopeCountAll parts
  | .arrow parts _ => 1 + scopeCountAll parts
  | .cls _ decorators _ parts _ => scopeCountAll decorators + (1 + scopeCountAll parts)
  | .params items _ => scopeCountAll items
  | .typing parts => scopeCountAll parts
  | .scope _ parts => 1 + scopeCountAll parts
  | .catchParam pattern typing _ => pattern.scopeCount + scopeCountAll typing
  | .variableDeclaration _ declarators _ => scopeCountAll declarators
  | .declarator target typing init =>
    target.scopeCount + (scopeCountAll typing + scopeCountAll init)
  | .importing _ _ _ _ => 0
  | .exportDeclaration declaration _ => declaration.scopeCount
  | .exportNames _ _ _ => 0
  | .exportDefault value => value.scopeCount
  | .exportAssign value => value.scopeCount
  | .expression value => value.scopeCount
  | .group parts _ => scopeCountAll parts

/-- Number of scopes in a list of nodes. -/
def scopeCountAll : List Node → Nat
  | [] => 0
  | n :: ns => n.scopeCount + scopeCountAll ns

end

mutual

/-- The nodes inside a node, with the scopes around them. `next` is the number of the scope that
    begins next. -/
def Node.inside (scopes : List Enclosing) (next : Nat) : Node → List Spot
  | .use _ => []
  | .name _ => []
  | .literal _ => []
  | .string _ _ => []
  | .template parts _ => spotsAll scopes next parts
  | .wrap _ before inner after _ =>
    let next' := next + scopeCountAll before
    spotsAll scopes next before ++ (⟨inner, scopes⟩ :: inner.inside scopes next' ++
      spotsAll scopes (next' + inner.scopeCount) after)
  | .await inner _ => ⟨inner, scopes⟩ :: inner.inside scopes next
  | .spread inner _ => ⟨inner, scopes⟩ :: inner.inside scopes next
  | .member object _ _ => ⟨object, scopes⟩ :: object.inside scopes next
  | .index object key _ =>
    ⟨object, scopes⟩ :: object.inside scopes next ++
      ⟨key, scopes⟩ :: key.inside scopes (next + object.scopeCount)
  | .call callee typeArgs args _ _ =>
    let next' := next + callee.scopeCount
    ⟨callee, scopes⟩ :: callee.inside scopes next ++
      (spotsAll scopes next' typeArgs ++ spotsAll scopes (next' + scopeCountAll typeArgs) args)
  | .chain inner _ => ⟨inner, scopes⟩ :: inner.inside scopes next
  | .function _ _ parts _ => spotsAll (⟨next, .ofFunction⟩ :: scopes) (next + 1) parts
  | .arrow parts _ => spotsAll (⟨next, .ofArrow⟩ :: scopes) (next + 1) parts
  | .cls _ decorators _ parts _ =>
    let next' := next + scopeCountAll decorators
    spotsAll scopes next decorators ++ spotsAll (⟨next', .plain⟩ :: scopes) (next' + 1) parts
  | .params items _ => spotsAll scopes next items
  | .typing parts => spotsAll scopes next parts
  | .scope flags parts => spotsAll (⟨next, flags⟩ :: scopes) (next + 1) parts
  | .catchParam pattern typing _ =>
    ⟨pattern, scopes⟩ :: pattern.inside scopes next ++
      spotsAll scopes (next + pattern.scopeCount) typing
  | .variableDeclaration _ declarators _ => spotsAll scopes next declarators
  | .declarator target typing init =>
    let next' := next + target.scopeCount
    ⟨target, scopes⟩ :: target.inside scopes next ++
      (spotsAll scopes next' typing ++ spotsAll scopes (next' + scopeCountAll typing) init)
  | .importing _ _ _ _ => []
  | .exportDeclaration declaration _ => ⟨declaration, scopes⟩ :: declaration.inside scopes next
  | .exportNames _ _ _ => []
  | .exportDefault value => ⟨value, scopes⟩ :: value.inside scopes next
  | .exportAssign value => ⟨value, scopes⟩ :: value.inside scopes next
  | .expression value => ⟨value, scopes⟩ :: value.inside scopes next
  | .group parts _ => spotsAll scopes next parts

/-- The nodes of a list and the nodes inside them, with the scopes around them. -/
def spotsAll (scopes : List Enclosing) (next : Nat) : List Node → List Spot
  | [] => []
  | n :: ns => ⟨n, scopes⟩ :: n.inside scopes next ++ spotsAll scopes (next + n.scopeCount) ns

end

/-- The scope around a whole module. -/
def Enclosing.module : Enclosing := ⟨Tracker.root, .ofModule⟩

/-- The nodes of a module with the scopes around them, in visit order. -/
def Program.spots (p : Program) : List Spot := spotsAll [.module] (Tracker.root + 1) p.body

/-! ## Section 4: Who owns a binding -/

/-- The scope that owns a binding made among the given scopes. Imports belong to the module, `var`
    to the nearest module, function or static block, everything else to the innermost scope. -/
def Binding.owner? (b : Binding) (scopes : List Enclosing) : Option Nat :=
  match b.kind with
  | .imported _ => some Tracker.root
  | .variable .var => (scopes.find? fun s => s.flags.hoists).map Enclosing.number
  | _ => scopes.head?.map Enclosing.number

/-- The declarations that a node makes by itself. -/
def Spot.declarations (s : Spot) : List Declaration :=
  s.node.bindings.filterMap fun b => (b.owner? s.scopes).map fun owner => ⟨b, owner⟩

/-- The declarations of a module in visit order. -/
def Program.declarations (p : Program) : List Declaration := p.spots.flatMap Spot.declarations

/-- The declaration that counts among several of one name in one scope: the first that is no
    import, or the first of all when they are all imports. -/
def Declaration.pick (ds : List Declaration) : Option Declaration :=
  (ds.find? fun d => !d.isImport).or ds.head?

/-- What a scope owns under a name. -/
def Program.owned? (p : Program) (name : String) (scope : Nat) : Option Declaration :=
  Declaration.pick (p.declarations.filter fun d => d.name == name && d.scope == scope)

/-- What a name refers to among the given scopes: what the nearest of them owns. -/
def Program.visible? (p : Program) (scopes : List Enclosing) (name : String) :
    Option Declaration :=
  scopes.findSome? fun s => p.owned? name s.number

/-- A `var` in a block is visible before the block and in all of the function, but not outside. -/
example :
    let x : Ident := ⟨"x", ⟨0, 1⟩⟩
    let block : Node := .scope .plain
      [.variableDeclaration .var [.declarator (.name x) [] []] ⟨2, 9⟩]
    let p : Program := ⟨[.function .expression none [.use x, block] ⟨0, 10⟩, .use x]⟩
    (p.spots.filter fun s => !s.node.references.isEmpty).map
        (fun s => (p.visible? s.scopes "x").map fun d => d.scope) = [some 1, none] := by
  decide

end BuildMacros.Script
