import BuildMacros.Script.Grammar.Operators

/-! # Declarations

    Declarations of variables, functions, classes, types, enumerations and
    namespaces. A rule takes the offset at which its declaration starts, because
    words and decorators in front of the keyword belong to it.

    Names of types, enumerations and namespaces are bound outside the scopes that
    their bodies are, and declare nothing that a value can refer to.
-/

namespace BuildMacros.Script.Grammar

/-! ## Section 1: Variables -/

/-- A name can stand here on the line of the token before. -/
def atNameOnLine : Rule Bool := do
  let t ← peek
  return Token.isName t && !t.newline

/-- What may follow `let` in a declaration: a name or a pattern. -/
def startsBinding (t : Token) : Bool :=
  Token.isName t || Token.isPunct t "[" || Token.isPunct t r"{"

/-- The keyword of a declaration of variables, if one begins here, and the number of words it is
    written with. -/
def variableKeyword : Rule (Option (VariableKind × Nat)) := do
  let c ← surroundings
  if ← atWord "var" then return some (.var, 1)
  if ← atWord "const" then
    let isEnum ← ahead do
      let _ ← advance
      atWord "enum"
    return if isEnum && c.typed then none else some (.const, 1)
  let lets ← ahead do
    expectWord "let"
    return startsBinding (← peek)
  if lets then return some (.let, 1)
  let uses ← ahead do
    expectWord "using"
    atNameOnLine
  if uses then return some (.using, 1)
  let awaits ← ahead do
    expectWord "await"
    let t ← peek
    expectWord "using"
    return !t.newline && (← atNameOnLine)
  if awaits && c.inAwait then return some (.using, 2)
  return none

/-- The pattern is a plain name. -/
def isPlainName : Node → Bool
  | .name _ => true
  | _ => false

/-- The mark on the same line that says that a name is given a value elsewhere. -/
def definiteMark : Rule Unit := do
  let t ← peek
  if !t.newline then
    let _ ← acceptTypedPunct "!"

/-- A declarator, and whether it may go without an initial value: a plain name without one. -/
def declarator (call : Calls) : Rule (Bool × Node) := do
  let target ← call .pattern
  if isPlainName target then definiteMark
  let typing ← optionalTyping call
  let init ← if ← acceptPunct "=" then do
      let e ← call (.assignment true)
      pure [e.node]
    else pure []
  return (isPlainName target || !init.isEmpty, .declarator target typing init)

/-- The declarator has an initial value. -/
def hasInit : Node → Bool
  | .declarator _ _ (_ :: _) => true
  | _ => false

/-- What every declarator of a statement needs: patterns and constants are given a value, except
    where the variables are defined elsewhere. -/
def initialized (c : Surroundings) (kind : VariableKind) (ds : List (Bool × Node)) : Bool :=
  c.ambient || (ds.all Prod.fst && (kind = .var || kind = .let || ds.all (hasInit ·.2)))

/-- A declaration of variables without its end. -/
def declarators (call : Calls) (kind : VariableKind) (words : Nat) :
    Rule (List (Bool × Node)) := do
  let _ ← advance
  if words == 2 then
    let _ ← advance
  let ds ← commaItems (declarator call)
  let c ← surroundings
  require (kind != .using || ds.all fun d => match d.2 with
    | .declarator (.name _) _ _ => true
    | _ => c.ambient)
  return ds

/-- A statement that declares variables. -/
def variableStatement (call : Calls) (start : Nat) (kind : VariableKind) (words : Nat) :
    Rule Node := do
  let ds ← declarators call kind words
  require (initialized (← surroundings) kind ds)
  endStatement
  return .variableDeclaration kind (ds.map Prod.snd) (← spanFrom start)

/-! ## Section 2: Types -/

/-- An alias for a type, from the word `type`. -/
def typeAlias (call : Calls) (start : Nat) : Rule Node := do
  expectWord "type"
  let id ← nameRule
  let tps ← optionalTypeParameters call
  expectPunct "="
  let t ← call .type
  endStatement
  return .group [.name id, .scope .plain (tps ++ [t])] (← spanFrom start)

/-- What an interface extends: dotted names with type arguments. -/
def extended (call : Calls) : Rule (List Node) := do
  if ← acceptWord "extends" then commaItems (typeReference call) else return []

/-- An interface, from its keyword. -/
def interfaceRule (call : Calls) (start : Nat) : Rule Node := do
  expectWord "interface"
  let id ← nameRule
  let tps ← optionalTypeParameters call
  let bases ← extended call
  let members ← typeMembers call
  return .group [.name id, .scope .plain (tps ++ bases ++ members)] (← spanFrom start)

/-! ## Section 3: Enumerations -/

/-- A member of an enumeration has a name that is written out, perhaps as a text in brackets. -/
def namesMember : PropertyName → Bool
  | .word _ => true
  | .quoted _ => true
  | .computed (.string _ _) => true
  | .computed (.template [] _) => true
  | _ => false

/-- A member of an enumeration. -/
def enumMember (call : Calls) : Rule Node := do
  let start ← nextStart
  let key ← propertyName call
  require (namesMember key)
  let init ← initialValue call
  return .group (key.parts ++ init) (← spanFrom start)

/-- An enumeration, from its keyword or the `const` in front of it. -/
def enumeration (call : Calls) (start : Nat) : Rule Node := do
  let _ ← acceptWord "const"
  expectWord "enum"
  let id ← nameRule
  expectPunct r"{"
  let members ← within (fun c => { c with allowIn := true }) (commaList (enumMember call) r"}")
  return .group [.name id, .scope .plain members] (← spanFrom start)

/-! ## Section 4: Namespaces -/

/-- The name of a namespace and its body. A dotted name stands for namespaces in each other; the
    first argument bounds their number. -/
def namespaceParts (call : Calls) : Nat → Rule (List Node)
  | 0 => refuse
  | n + 1 => do
    let id ← nameRule
    if ← acceptPunct "." then
      let deeper ← namespaceParts call n
      return [.name id, .scope .plain deeper]
    let body ← braced call
    return [.name id, .scope .plain body]

/-- A module with a quoted name; its body may be left out. -/
def quotedModule (call : Calls) : Rule (List Node) := do
  let _ ← advance
  if ← atPunct r"{" then return [.scope .plain (← braced call)]
  endStatement
  return [.scope .plain []]

/-- A namespace or module, from its keyword. -/
def namespaceRule (call : Calls) (start : Nat) : Rule Node := do
  let _ ← advance
  let t ← peek
  let parts ← match t.kind with
    | .string _ => quotedModule call
    | _ => namespaceParts call (← surroundings).limit
  return .group parts (← spanFrom start)

/-- Declarations about the surroundings of all modules, from the word `global`. -/
def globalRule (call : Calls) (start : Nat) : Rule Node := do
  expectWord "global"
  let body ← braced call
  return .group [.scope .plain body] (← spanFrom start)

/-! ## Section 5: Aliases -/

/-- What an import alias stands for: a required module or a dotted name. -/
def importTarget : Rule (List Node) := do
  let requires ← ahead do
    expectWord "require"
    atPunct "("
  if requires then
    let _ ← advance
    expectPunct "("
    let t ← advance
    let isString := match t.kind with
      | .string _ => true
      | _ => false
    require isString
    expectPunct ")"
    return []
  let id ← nameRule
  let _ ← qualifiers
  return [.use id]

/-- `name = target` after `import`. -/
def importAlias (start : Nat) : Rule Node := do
  let id ← nameRule
  expectPunct "="
  let target ← importTarget
  endStatement
  return .group (.name id :: target) (← spanFrom start)

/-! ## Section 6: What begins a declaration -/

/-- A word, then on the same line something that satisfies a condition. -/
def atWordThen (w : String) (p : Token → Bool) : Rule Bool := ahead do
  expectWord w
  let t ← peek
  return p t && !t.newline

/-- The token is a string. -/
def isString (t : Token) : Bool :=
  match t.kind with
  | .string _ => true
  | _ => false

/-- Words that begin a declaration after `declare`. -/
def declaredWords : List String := [
  "var", "let", "const", "function", "class", "enum", "interface", "type", "namespace", "module",
  "global", "abstract", "async", "import", "using"]

/-- A declaration of a type, an enumeration or a namespace, if one begins here. -/
def typeDeclaration? (call : Calls) (start : Nat) : Rule (Option Node) := do
  let c ← surroundings
  if !c.typed then return none
  if ← atWordThen "type" Token.isName then return some (← typeAlias call start)
  if ← atWordThen "interface" Token.isName then return some (← interfaceRule call start)
  let constEnum ← ahead do
    expectWord "const"
    atWord "enum"
  if (← atWord "enum") || constEnum then return some (← enumeration call start)
  if ← atWordThen "namespace" Token.isName then return some (← namespaceRule call start)
  if ← atWordThen "module" (fun t => Token.isName t || isString t) then
    return some (← namespaceRule call start)
  if ← atWordThen "global" (Token.isPunct · r"{") then return some (← globalRule call start)
  return none

/-- A class after its decorators, if one begins here. -/
def class? (call : Calls) (start : Nat) (named : Bool) (marks : List Node) :
    Rule (Option Node) := do
  let c ← surroundings
  if ← atWord "class" then return some (← classRule call start true named marks)
  if c.typed && (← atWordThen "abstract" (Token.isWord · "class")) then
    let _ ← advance
    return some (← classRule call start true named marks)
  return none

/-- A function, if one begins here. -/
def function? (call : Calls) (start : Nat) (named : Bool) : Rule (Option Node) := do
  if ← atWord "function" then return some (← functionDeclaration call start false named)
  if ← atAsyncFunction then
    let _ ← advance
    return some (← functionDeclaration call start true named)
  return none

/-- The declaration defines a function. -/
def definesFunction : Node → Bool
  | .function .declaration _ _ _ => true
  | _ => false

/-- A declaration without `declare`, if one begins here. -/
def plainDeclaration? (call : Calls) (start : Nat) : Rule (Option Node) := do
  if let some d ← typeDeclaration? call start then return some d
  if let some (kind, words) ← variableKeyword then
    return some (← variableStatement call start kind words)
  if let some d ← function? call start true then return some d
  class? call start true []

/-- A declaration of something defined elsewhere, from the word `declare`. -/
def ambientDeclaration (call : Calls) (start : Nat) : Rule Node := do
  expectWord "declare"
  match ← within (fun c => { c with ambient := true }) (plainDeclaration? call start) with
  | some d =>
    require !definesFunction d
    return d
  | none =>
    expectWord "import"
    importAlias start

/-- `declare` in front of a declaration. -/
def atAmbient : Rule Bool := do
  let c ← surroundings
  if !c.typed then return false
  atWordThen "declare" fun t =>
    match t.kind with
    | .word w false => declaredWords.contains w
    | _ => false

/-- A declaration, if one begins here. -/
def declaration? (call : Calls) (start : Nat) : Rule (Option Node) := do
  if ← atAmbient then return some (← ambientDeclaration call start)
  plainDeclaration? call start

end BuildMacros.Script.Grammar
