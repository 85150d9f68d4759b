import BuildMacros.Script.Grammar.Functions

/-! # Operands

    What an expression is built from: names, literals, templates, arrays and
    objects, parentheses, functions and classes. Array and object literals can turn
    out to be assignment targets when an equals sign follows; their `Shape` says
    whether they could. A shorthand property with a default is only legal in a
    target, so its place is recorded as pending until it becomes part of one.
-/

namespace BuildMacros.Script.Grammar

/-! ## Section 1: Literals that can become targets -/

/-- The shorthand properties with defaults that a target clears, or nothing when the expression
    cannot be part of a target. -/
def Operand.cleared? (e : Operand) : Option (List Nat) :=
  match e.shape with
  | .simple | .asserted => some []
  | .withDefault => some []
  | .pattern cleared => some cleared
  | _ => none

/-- The shape of a literal whose items clear the given properties. -/
def literalShape (items : List (Option (List Nat))) : Shape :=
  if items.all Option.isSome then .pattern (items.filterMap id).flatten else .other

/-- A spread item is part of a target only in last place. -/
def lastOnly (isLast : Bool) (cleared : Option (List Nat)) : Option (List Nat) :=
  if isLast then cleared else none

/-- An item of a literal: its parts, and what it clears as part of a target. -/
structure LiteralItem where
  parts : List Node
  cleared? : Option (List Nat)

/-- `...` and an expression. What the rest of an object is assigned to is no pattern. -/
def spreadItem (call : Calls) (close : String) : Rule LiteralItem := do
  let start ← nextStart
  expectPunct "..."
  let e ← operand call
  let cleared := match e.shape with
    | .withDefault => none
    | .pattern cleared => if close == "]" then some cleared else none
    | _ => e.cleared?
  let isLast ← atPunct close
  return ⟨[.spread e.node (← spanFrom start)], lastOnly isLast cleared⟩

/-- Items of an array literal, some of which may be left out. -/
def arrayItems (call : Calls) : Nat → Rule (List LiteralItem)
  | 0 => refuse
  | n + 1 => do
    if ← acceptPunct "]" then return []
    if ← acceptPunct "," then return ← arrayItems call n
    let item ← if ← atPunct "..." then spreadItem call "]"
      else do
        let e ← operand call
        pure ⟨[e.node], e.cleared?⟩
    if ← acceptPunct "]" then return [item]
    expectPunct ","
    let more ← arrayItems call n
    return item :: more

/-- An array literal. -/
def arrayLiteral (call : Calls) : Rule Operand := do
  let start ← nextStart
  let c ← surroundings
  expectPunct "["
  let items ← arrayItems call c.limit
  return ⟨.group (items.flatMap LiteralItem.parts) (← spanFrom start),
    literalShape (items.map LiteralItem.cleared?)⟩

/-- A property that stands for the variable of its name, perhaps with a default. -/
def shorthand (call : Calls) (id : Ident) : Rule LiteralItem := do
  require (isFreeWord (← surroundings) id.name)
  match ← initialValue call with
  | [] => return ⟨[.use id], some []⟩
  | init =>
    -- legal only if the literal turns out to be a target
    fun _ s => .ok ⟨.use id :: init, some [id.span.start]⟩
      { s with pending := id.span.start :: s.pending }

/-- `async` in front of the name of a method, on its line. -/
def asyncWord : Rule Bool := ahead do
  expectWord "async"
  let t ← peek
  return (startsPropertyName t || Token.isPunct t "*") && !t.newline

/-- A property, method or accessor of an object literal. -/
def objectItem (call : Calls) : Rule LiteralItem := do
  if ← atPunct "..." then return ← spreadItem call r"}"
  let isAsync ← asyncWord
  if isAsync then
    let _ ← advance
  let isGenerator ← acceptPunct "*"
  let accessor ← if isAsync || isGenerator then pure none else accessorWord
  let key ← propertyName call
  if (← atParameters) then
    let (hasBody, f) ← method call accessor isAsync isGenerator
    require hasBody
    return ⟨key.parts ++ [f], none⟩
  require (!isAsync && !isGenerator && accessor.isNone)
  if ← acceptPunct ":" then
    let e ← operand call
    return ⟨key.parts ++ [e.node], e.cleared?⟩
  match key with
  | .word id => shorthand call id
  | _ => refuse

/-- An object literal. -/
def objectLiteral (call : Calls) : Rule Operand := do
  let start ← nextStart
  expectPunct r"{"
  let items ← commaList (objectItem call) r"}"
  return ⟨.group (items.flatMap LiteralItem.parts) (← spanFrom start),
    literalShape (items.map LiteralItem.cleared?)⟩

/-! ## Section 2: Other operands -/

/-- An expression in parentheses. What can be assigned to still can. -/
def parenthesized (call : Calls) : Rule Operand := do
  let start ← nextStart
  expectPunct "("
  let e ← inner call
  expectPunct ")"
  let shape := if e.shape.isPlace then Shape.simple else .other
  return ⟨.wrap .paren [] e.node [] (← spanFrom start), shape⟩

/-- A regular expression, which the slash at the next token begins. -/
def regex : Rule Operand := do
  let t ← peek
  match regexEnd t.text with
  | some rest =>
    jumpTo rest
    return ⟨.literal (← spanFrom t.span.start), .other⟩
  | none => refuse

/-- A module loaded when it is reached, or what the module knows about itself. -/
def importExpression (call : Calls) : Rule Operand := do
  let start ← nextStart
  expectWord "import"
  if ← acceptPunct "." then
    let word ← wordRule
    if word.name == "meta" then return ⟨.literal (← spanFrom start), .other⟩
    require (word.name == "source" || word.name == "defer")
  expectPunct "("
  let args ← commaList (operand call) ")"
  require (args.length == 1 || args.length == 2)
  return ⟨.group (args.map Operand.node) (← spanFrom start), .other⟩

/-- `super`, which must be called or looked into. -/
def superExpression : Rule Operand := do
  let e ← leaf
  require ((← atPunct "(") || (← atPunct ".") || (← atPunct "["))
  return ⟨e, .other⟩

/-- An expression that a word begins. -/
def wordOperand (call : Calls) (w : String) : Rule Operand := do
  let start ← nextStart
  if ["this", "null", "true", "false"].contains w then return ⟨← leaf, .other⟩
  if w == "super" then return ← superExpression
  if w == "function" then return ⟨← functionExpression call start false, .other⟩
  if w == "class" then return ⟨← classRule call start false false [], .other⟩
  if w == "import" then return ← importExpression call
  if ← atAsyncFunction then
    let _ ← advance
    return ⟨← functionExpression call start true, .other⟩
  return ⟨.use (← nameRule), .simple⟩

/-- An expression that no operator is part of. -/
def primary (call : Calls) : Rule Operand := do
  let t ← peek
  let c ← surroundings
  match t.kind with
  | .word w false => wordOperand call w
  | .word _ true => return ⟨.use (← nameRule), .simple⟩
  | .number => return ⟨← leaf, .other⟩
  | .string value => do
    let t ← advance
    return ⟨.string value t.span, .other⟩
  | .template _ => do
    let item := inner call
    return ⟨← templateRule true (do return (← item).node), .other⟩
  | .punct p =>
    if p == "(" then parenthesized call
    else if p == "[" then arrayLiteral call
    else if p == r"{" then objectLiteral call
    else if p == "/" || p == "/=" then regex
    else if p == "@" then
      let start ← nextStart
      let marks ← decorators call
      return ⟨← classRule call start false false marks, .other⟩
    else if p == "<" && c.markup then return ⟨← call .element, .other⟩
    else refuse
  | _ => refuse

end BuildMacros.Script.Grammar
