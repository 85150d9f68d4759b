import BuildMacros.Script.Grammar.Types

/-! # Functions and classes

    The parts of a function stand in one scope: type parameters, the type of
    `this`, parameters, return type and body; the body adds no scope of its own.
    The name and the decorators of a class stand outside its scope, heritage and
    members inside. The name in front of a member is met before the member.
-/

namespace BuildMacros.Script.Grammar

/-! ## Section 1: Blocks and bodies -/

/-- Statements in braces. -/
def braced (call : Calls) : Rule (List Node) := do
  expectPunct r"{"
  within (fun c => { c with allowIn := true }) (untilPunct (call (.statement false)) r"}")

/-- A block, which is a scope. -/
def block (call : Calls) : Rule Node := do
  return .scope .plain (← braced call)

/-- Surroundings of the parts of a function. -/
def inside (isAsync isGenerator : Bool) (c : Surroundings) : Surroundings :=
  { c with allowIn := true, inAwait := isAsync, inYield := isGenerator, inFunction := true,
           plainTypes := false }

/-- The body of a function. -/
def functionBody (call : Calls) (isAsync isGenerator : Bool) : Rule (List Node) :=
  within (inside isAsync isGenerator) (braced call)

/-- Signature and body of a function, and whether it has a body. Where types are understood, a
    function without one is a signature. -/
def functionParts (call : Calls) (sig : Rule (List Node)) (isAsync isGenerator : Bool) :
    Rule (Bool × List Node) := do
  let sig ← within (inside isAsync isGenerator) sig
  if ← atPunct r"{" then
    let body ← functionBody call isAsync isGenerator
    return (true, sig ++ body)
  require (← surroundings).typed
  return (false, sig)

/-- A function expression, from the word `function`. -/
def functionExpression (call : Calls) (start : Nat) (isAsync : Bool) : Rule Node := do
  expectWord "function"
  let isGenerator ← acceptPunct "*"
  let t ← peek
  let id ← within (inside isAsync isGenerator) (listIf (Token.isName t) nameRule)
  let (hasBody, parts) ← functionParts call (signature call) isAsync isGenerator
  require hasBody
  return .function .expression id.head? parts (← spanFrom start)

/-- A function declaration, from the word `function`. Only the default export may have no name. -/
def functionDeclaration (call : Calls) (start : Nat) (isAsync named : Bool) : Rule Node := do
  expectWord "function"
  let isGenerator ← acceptPunct "*"
  let t ← peek
  let id ← listIf (named || Token.isName t) nameRule
  let (hasBody, parts) ← functionParts call (signature call) isAsync isGenerator
  if hasBody then
    return .function .declaration id.head? parts (← spanFrom start)
  else
    endStatement
    return .function .bodiless id.head? parts (← spanFrom start)

/-- `async` before `function` on the same line. -/
def atAsyncFunction : Rule Bool := ahead do
  expectWord "async"
  let t ← peek
  return Token.isWord t "function" && !t.newline

/-- What follows the name of a method or accessor. -/
def method (call : Calls) (accessor : Option Accessor) (isAsync isGenerator : Bool) :
    Rule (Bool × Node) := do
  let start ← nextStart
  let ps := accessor.elim (parameters call) (accessorParameters call)
  let (hasBody, parts) ← functionParts call (signatureWith call ps) isAsync isGenerator
  let role := if hasBody then FunctionRole.expression else .bodiless
  return (hasBody, .function role none parts (← spanFrom start))

/-- A parameter list begins here, perhaps with type parameters in front. -/
def atParameters : Rule Bool := do
  let c ← surroundings
  return (← atPunct "(") || (c.typed && (← atPunct "<"))

/-! ## Section 2: Members of classes -/

/-- Words in front of a member that must stand on its line. -/
def memberModifiers : List String := [
  "public", "private", "protected", "readonly", "override", "abstract", "declare", "accessor",
  "async"]

/-- A member may begin with the token after a modifier. -/
def startsMember (t : Token) : Bool :=
  startsPropertyName t || t.kind == .privateName || Token.isPunct t "*"

/-- A modifier in front of a member: a word before a member's name. Only `static` may be followed
    by a line break. -/
def modifier : Rule (Option String) := do
  let t ← peek
  let follows ← ahead do
    let _ ← advance
    let next ← peek
    return startsMember next && (!next.newline || Token.isWord t "static")
  match t.kind with
  | .word w false =>
    if follows && (w == "static" || memberModifiers.contains w) then
      let _ ← advance
      return some w
    else return none
  | _ => return none

/-- The modifiers that may not stand in front of a modifier. -/
def mayNotPrecede (w : String) : List String :=
  if ["public", "private", "protected"].contains w then
    ["public", "private", "protected", "static", "override", "abstract", "readonly", "accessor",
      "async"]
  else if w == "static" then ["static", "override", "readonly", "accessor", "async"]
  else if w == "override" then ["override", "readonly", "accessor", "async"]
  else if w == "abstract" then ["abstract", "override", "accessor"]
  else [w]

/-- Modifiers stand in order and none is repeated. -/
def inOrder : List String → Bool
  | [] => true
  | w :: ws => ws.all (fun v => !(mayNotPrecede v).contains w) && inOrder ws

/-- A given word in front of the name of an accessor. -/
def atAccessor (w : String) : Rule Bool := ahead do
  expectWord w
  let next ← peek
  return startsPropertyName next || next.kind == .privateName

/-- `get` or `set` in front of the name of an accessor, which is read. -/
def accessorWord : Rule (Option Accessor) := do
  if ← atAccessor "get" then
    expectWord "get"
    return some .getter
  if ← atAccessor "set" then
    expectWord "set"
    return some .setter
  return none

/-- The end of a member that has no body. -/
def endClassMember : Rule Unit := do
  if ← acceptPunct ";" then return ()
  let t ← peek
  require (t.newline || Token.isPunct t r"}")

/-- A static block: a scope of its own in which `var` declares. -/
def staticBlock (call : Calls) : Rule Node := do
  expectWord "static"
  let body ← within (fun c =>
    { c with inAwait := true, inYield := false, inFunction := false }) (braced call)
  return .scope .ofStaticBlock body

/-- A static block begins here. -/
def atStaticBlock : Rule Bool := ahead do
  expectWord "static"
  atPunct r"{"

/-- What kind of member a name belongs to. -/
inductive MemberKind where
  | plainMethod
  /-- A method that is asynchronous or a generator, or an accessor. -/
  | specialMethod
  | field
deriving DecidableEq

/-- A member of the kind may have the name: the instance member `constructor` is a plain method,
    and the class itself has its property `prototype` already. -/
def mayName (name : PropertyName) (isStatic : Bool) (kind : MemberKind) : Bool :=
  match name with
  | .hidden text => text != "#constructor"
  | _ =>
    match name.plain? with
    | some "constructor" => kind == .plainMethod || (isStatic && kind == .specialMethod)
    | some "prototype" => !isStatic
    | _ => true

/-- A method, accessor or property after its modifiers. -/
def namedClassMember (call : Calls) (marks : List Node) (modifiers : List String) : Rule Node := do
  let start ← nextStart
  let isAsync := modifiers.contains "async"
  let isStatic := modifiers.contains "static"
  let isGenerator ← acceptPunct "*"
  let accessor ← if isGenerator then pure none else accessorWord
  require (inOrder modifiers && !(accessor.isSome && isAsync))
  let key ← memberName call
  if !(← acceptPunct "?") then
    let _ ← acceptPunct "!"
  if ← atParameters then
    let isSpecial := isAsync || isGenerator || accessor.isSome
    require (mayName key isStatic (if isSpecial then .specialMethod else .plainMethod))
    let (hasBody, f) ← method call accessor isAsync isGenerator
    if !hasBody then endClassMember
    return .group (marks ++ key.parts ++ [f]) (← spanFrom start)
  require (!isGenerator && accessor.isNone && !isAsync && mayName key isStatic .field)
  let typing ← optionalTyping call
  let value ← within (fun c =>
    { c with inAwait := false, inYield := false }) (initialValue call)
  endClassMember
  return .group (marks ++ key.parts ++ typing ++ value) (← spanFrom start)

/-- A member of a class. -/
def classMember (call : Calls) : Rule Node := do
  let start ← nextStart
  let c ← surroundings
  if ← atStaticBlock then return ← staticBlock call
  let marks ← decorators call
  let words ← many modifier
  if c.typed && (← atIndexSignature) then
    let m ← indexSignature call
    endClassMember
    return .group (marks ++ [m]) (← spanFrom start)
  namedClassMember call marks words

/-- The members of a class, braces included. -/
def classBody (call : Calls) : Rule (List Node) := do
  expectPunct r"{"
  let members ← within (fun c => { c with allowIn := true, ambient := false, plainTypes := false })
    (untilPunct (do
      if ← acceptPunct ";" then return []
      return [← classMember call]) r"}")
  return members.flatten

/-! ## Section 3: Classes -/

/-- The class that another one extends, with its type arguments. -/
def superclass (call : Calls) : Rule (List Node) := do
  if ← acceptWord "extends" then
    let e ← call (.chain false)
    let c ← surroundings
    let args ← if c.typed then optionalTypeArguments call else pure []
    return e.node :: args
  else return []

/-- The interfaces that a class implements. -/
def interfaces (call : Calls) : Rule (List Node) := do
  if ← acceptWord "implements" then commaItems (typeReference call) else return []

/-- A class, from the word `class`. -/
def classRule (call : Calls) (start : Nat) (declares named : Bool) (marks : List Node) :
    Rule Node := do
  expectWord "class"
  let t ← peek
  let id ← listIf (named || (Token.isName t && !Token.isWord t "implements")) nameRule
  let tps ← optionalTypeParameters call
  let parent ← superclass call
  let contracts ← interfaces call
  let members ← classBody call
  return .cls declares marks id.head? (tps ++ parent ++ contracts ++ members) (← spanFrom start)

end BuildMacros.Script.Grammar
