import BuildMacros.Script.Token

/-! # Syntax trees

    One type `Node` holds expressions, patterns, types, statements and markup. It
    keeps what the passes ask about: calls and the shapes of their callees, string
    literals, names and where they are bound, scopes, declarations, imports and
    exports. Constructs that differ only in which parts they have, such as the
    operators or the loops, share the constructor `group`.

    The parts of every node stand in the order in which they are visited, which is
    the order of the text except where a constructor says otherwise.
-/

namespace BuildMacros.Script

/-! ## Section 1: Names -/

/-- A name and where it stands. -/
structure Ident where
  name : String
  span : Span
deriving DecidableEq, Repr, Inhabited

/-- Keyword of a variable declaration. -/
inductive VariableKind where
  | var
  | «let»
  | const
  | using
deriving DecidableEq, Repr, Inhabited

/-- Properties of a scope. -/
structure ScopeFlags where
  /-- The whole module. -/
  top : Bool
  /-- A function of any kind, arrows included. -/
  function : Bool
  arrow : Bool
  /-- A static block of a class. -/
  staticBlock : Bool
  catchClause : Bool
  strict : Bool
deriving DecidableEq, Repr, Inhabited

namespace ScopeFlags

/-- A scope without special properties. -/
def plain : ScopeFlags := ⟨false, false, false, false, false, false⟩

/-- The scope of a module. -/
def ofModule : ScopeFlags := { plain with top := true, strict := true }

/-- The scope of a function. -/
def ofFunction : ScopeFlags := { plain with function := true }

/-- The scope of an arrow function. -/
def ofArrow : ScopeFlags := { plain with function := true, arrow := true }

/-- The scope of a static block. -/
def ofStaticBlock : ScopeFlags := { plain with staticBlock := true }

/-- The scope of a catch clause. -/
def ofCatch : ScopeFlags := { plain with catchClause := true }

/-- Variables declared with `var` rise to scopes of this kind. -/
def hoists (f : ScopeFlags) : Bool := f.top || f.function || f.staticBlock

end ScopeFlags

/-! ## Section 2: Parts of imports and exports -/

/-- One binding of an import statement. -/
inductive ImportSpecifier where
  | named (imported : String) (id : Ident) (typeOnly : Bool)
  | default (id : Ident)
  | whole (id : Ident)
deriving DecidableEq, Repr, Inhabited

/-- A name in an export list, which may be quoted. -/
structure ExportName where
  id : Ident
  isQuoted : Bool
deriving DecidableEq, Repr, Inhabited

/-- One entry of an export list. -/
structure ExportSpecifier where
  inner : ExportName
  exported : ExportName
  typeOnly : Bool
deriving DecidableEq, Repr, Inhabited

/-- The entry that exports all of another module under one name. -/
def ExportSpecifier.everything (exported : ExportName) : ExportSpecifier :=
  ⟨⟨⟨"*", exported.id.span⟩, true⟩, exported, false⟩

/-! ## Section 3: Nodes -/

/-- Wrappers that change nothing about the value of an expression. -/
inductive Wrapper where
  | paren
  /-- `e as T` -/
  | asType
  /-- `e satisfies T` -/
  | satisfies
  /-- `<T>e` -/
  | assertion
  /-- `e!` -/
  | nonNull
deriving DecidableEq, Repr, Inhabited

/-- What a function is. -/
inductive FunctionRole where
  /-- Its name is declared in the scope around it. -/
  | declaration
  /-- An expression, method or accessor. -/
  | expression
  /-- A signature without a body. -/
  | bodiless
deriving DecidableEq, Repr, Inhabited

/-- Syntax trees. -/
inductive Node where
  /-- An identifier that refers to a binding. -/
  | use (id : Ident)
  /-- An identifier that is bound. -/
  | name (id : Ident)
  /-- A leaf without names: a number, a keyword expression, a regular expression. -/
  | literal (span : Span)
  | string (value : String) (span : Span)
  /-- A template with its embedded expressions. -/
  | template (parts : List Node) (span : Span)
  /-- A wrapped expression; the type of an assertion stands before it, other types after it. -/
  | wrap (how : Wrapper) (before : List Node) (inner : Node) (after : List Node) (span : Span)
  | await (inner : Node) (span : Span)
  | spread (inner : Node) (span : Span)
  /-- `object.property` -/
  | member (object : Node) (property : Ident) (span : Span)
  /-- `object[key]` -/
  | index (object key : Node) (span : Span)
  /-- A call; `optional` when the call itself is written `?.(`. -/
  | call (callee : Node) (typeArgs args : List Node) (optional : Bool) (span : Span)
  /-- An expression with optional links, as a whole. -/
  | chain (inner : Node) (span : Span)
  /-- A function; the parts are type parameters, parameters, return type and body. -/
  | function (role : FunctionRole) (id : Option Ident) (parts : List Node) (span : Span)
  /-- An arrow function with the same parts. -/
  | arrow (parts : List Node) (span : Span)
  /-- A class; the parts are type parameters, heritage and members. -/
  | cls (declares : Bool) (decorators : List Node) (id : Option Ident) (parts : List Node)
      (span : Span)
  /-- A parameter list, the parentheses included when they are written. -/
  | params (items : List Node) (span : Span)
  /-- A type annotation. -/
  | typing (parts : List Node)
  /-- A scope around its parts. -/
  | scope (flags : ScopeFlags) (parts : List Node)
  /-- The parameter of a catch clause: a pattern and perhaps its annotation. -/
  | catchParam (pattern : Node) (typing : List Node) (span : Span)
  /-- A declaration of variables. -/
  | variableDeclaration (kind : VariableKind) (declarators : List Node) (span : Span)
  /-- One declarator: a pattern, perhaps an annotation, perhaps an initial value. -/
  | declarator (target : Node) (typing init : List Node)
  | importing (specifiers : List ImportSpecifier) (source : String) (typeOnly : Bool)
      (span : Span)
  /-- `export` before a declaration. -/
  | exportDeclaration (declaration : Node) (typeOnly : Bool)
  /-- An export list, with the module it exports from when there is one. Everything that module
      exports is an empty list, or one entry when it is exported under a name. -/
  | exportNames (specifiers : List ExportSpecifier) (source : Option String) (typeOnly : Bool)
  | exportDefault (value : Node)
  /-- `export = value` -/
  | exportAssign (value : Node)
  /-- An expression as a statement. -/
  | expression (value : Node)
  /-- Any other construct. -/
  | group (parts : List Node) (span : Span)
deriving Inhabited

/-- A module without its directives. -/
structure Program where
  body : List Node
deriving Inhabited

namespace Node

/-- Where a node stands. Nodes that no answer locates have an empty span. -/
def span : Node → Span
  | use id => id.span
  | name id => id.span
  | literal span => span
  | string _ span => span
  | template _ span => span
  | wrap _ _ _ _ span => span
  | await _ span => span
  | spread _ span => span
  | member _ _ span => span
  | index _ _ span => span
  | call _ _ _ _ span => span
  | chain _ span => span
  | function _ _ _ span => span
  | arrow _ span => span
  | cls _ _ _ _ span => span
  | params _ span => span
  | catchParam _ _ span => span
  | variableDeclaration _ _ span => span
  | importing _ _ _ span => span
  | group _ span => span
  | _ => ⟨0, 0⟩

end Node

end BuildMacros.Script
