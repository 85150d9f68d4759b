import BuildMacros.Script.Grammar.Literals

/-! # Members, calls and instances

    A chain starts with an operand and goes on with members, calls, templates and
    type arguments. Once it has an optional link, the whole chain is wrapped; an
    optional chain cannot be assigned to, and nothing can be constructed from it.
-/

namespace BuildMacros.Script.Grammar

/-! ## Section 1: Arguments -/

/-- One argument of a call. -/
def argument (call : Calls) : Rule Node := do
  let start ← nextStart
  if ← acceptPunct "..." then
    let e ← operand call
    return .spread e.node (← spanFrom start)
  else return (← operand call).node

/-- Arguments in parentheses. -/
def arguments (call : Calls) : Rule (List Node) := do
  expectPunct "("
  commaList (argument call) ")"

/-- Operators that an expression can begin with. -/
def prefixPuncts : List String :=
  ["(", "[", r"{", "+", "-", "!", "~", "++", "--", "/", "/=", "<", "@"]

/-- Words that an operator is written with. -/
def operatorWords : List String := ["in", "instanceof", "as", "satisfies"]

/-- An expression can begin with the token. -/
def startsExpression (t : Token) : Bool :=
  match t.kind with
  | .word w escaped => escaped || !(isReserved w) ||
      ["this", "null", "true", "false", "super", "function", "class", "import", "new", "delete",
        "void", "typeof"].contains w
  | .punct p => prefixPuncts.contains p
  | .eof => false
  | .invalid => false
  | _ => true

/-- An operator with two operands begins with the token. -/
def isBinaryOperator (t : Token) : Bool :=
  match t.kind with
  | .word w false => operatorWords.contains w
  | .punct p => ["??", "||", "&&", "|", "^", "&", "==", "!=", "===", "!==", "<", ">", "<=", "<<",
      "+", "-", "*", "/", "%", "**"].contains p
  | _ => false

/-- Type arguments in an expression: what follows must not make them comparisons. -/
def expressionTypeArguments (call : Calls) : Rule (List Node) := do
  let args ← typeArguments call
  let t ← peek
  let isTemplate := match t.kind with
    | .template _ => true
    | _ => false
  if Token.isPunct t "(" || isTemplate then return args
  require (!(["<", ">", "+", "-"].any (Token.isPunct t)))
  require (t.newline || isBinaryOperator t || !startsExpression t)
  return args

/-- Type arguments in an expression, where types are understood. -/
def attemptTypeArguments (call : Calls) : Rule (Option (List Node)) := do
  let c ← surroundings
  let t ← peek
  if c.typed && (Token.isPunct t "<" || Token.isPunct t "<<") then
    attempt (expressionTypeArguments call)
  else return none

/-! ## Section 2: Links -/

/-- A chain so far. -/
structure Chain where
  node : Node
  /-- It can be assigned to. -/
  assignable : Bool
  /-- It has an optional link. -/
  isOptional : Bool
  /-- Type arguments that no call has taken yet. -/
  typeArgs : List Node

/-- The member of an object that stands after a dot. A private name is no property that can be
    asked for. -/
def memberOf (start : Nat) (object : Node) : Rule Node := do
  let t ← peek
  match t.kind with
  | .privateName =>
    let _ ← advance
    return .group [object] (← spanFrom start)
  | _ =>
    let id ← wordRule
    return .member object id (← spanFrom start)

/-- The node of a chain with its pending type arguments. -/
def Chain.instantiated (x : Chain) (start stop : Nat) : Node :=
  match x.typeArgs with
  | [] => x.node
  | args => .group (x.node :: args) ⟨start, stop⟩

/-- A member link or template; `none` when the chain ends here. -/
def memberLink (call : Calls) (start : Nat) (brackets : Bool) (x : Chain) :
    Rule (Option Chain) := do
  let t ← peek
  let c ← surroundings
  let stop ← lastEnd
  match t.kind with
  | .template _ =>
    require !x.isOptional
    let quasi ← templateRule false (do return (← inner call).node)
    return some ⟨.group (x.node :: x.typeArgs ++ [quasi]) (← spanFrom start), false, false, []⟩
  | .punct p =>
    if p == "." then
      let _ ← advance
      let node ← memberOf start (x.instantiated start stop)
      return some ⟨node, true, x.isOptional, []⟩
    else if p == "[" && brackets then
      let _ ← advance
      let key ← inner call
      expectPunct "]"
      return some ⟨.index (x.instantiated start stop) key.node (← spanFrom start), true,
        x.isOptional, []⟩
    else if p == "!" && c.typed && !t.newline then
      let _ ← advance
      return some ⟨.wrap .nonNull [] (x.instantiated start stop) [] (← spanFrom start),
        x.assignable, x.isOptional, []⟩
    else return none
  | _ => return none

/-- An optional link: a member, an element or a call after `?.`. -/
def optionalLink (call : Calls) (start : Nat) (x : Chain) : Rule Chain := do
  let object := x.instantiated start (← lastEnd)
  expectPunct "?."
  let typeArgs := (← attemptTypeArguments call).getD []
  if ← atPunct "(" then
    let args ← arguments call
    return ⟨.call object typeArgs args true (← spanFrom start), false, true, []⟩
  require typeArgs.isEmpty
  if ← acceptPunct "[" then
    let key ← inner call
    expectPunct "]"
    return ⟨.index object key.node (← spanFrom start), true, true, []⟩
  return ⟨← memberOf start object, true, true, []⟩

/-- The links of a chain; the first argument bounds their number. -/
def links (call : Calls) (start : Nat) (brackets : Bool) : Nat → Chain → Rule Chain
  | 0, _ => refuse
  | n + 1, x => do
    if let some x ← memberLink call start brackets x then return ← links call start brackets n x
    if ← atPunct "?." then
      let x ← optionalLink call start x
      return ← links call start brackets n x
    if ← atPunct "(" then
      let args ← arguments call
      let node := Node.call x.node x.typeArgs args false (← spanFrom start)
      return ← links call start brackets n ⟨node, false, x.isOptional, []⟩
    if x.typeArgs.isEmpty then
      if let some args ← attemptTypeArguments call then
        return ← links call start brackets n { x with assignable := false, typeArgs := args }
    return x

/-! ## Section 3: Chains and instances -/

/-- The member links of a constructed operand; the first argument bounds their number. -/
def constructedLinks (call : Calls) (start : Nat) : Nat → Chain → Rule Chain
  | 0, _ => refuse
  | n + 1, x => do
    if let some x ← memberLink call start true x then return ← constructedLinks call start n x
    require !(← atPunct "?.")
    if x.typeArgs.isEmpty then
      if let some args ← attemptTypeArguments call then
        return ← constructedLinks call start n { x with typeArgs := args }
    return x

/-- `new` with its operand and arguments, or the meta property `new.target`. -/
def instanceRule (call : Calls) : Rule Node := do
  let start ← nextStart
  expectWord "new"
  if ← acceptPunct "." then
    let word ← wordRule
    require (word.name == "target")
    return .literal (← spanFrom start)
  let isLoad ← ahead do
    expectWord "import"
    if ← acceptPunct "." then return !(← atWord "meta")
    return true
  require !isLoad
  call .constructed

/-- What `new` is applied to, and the arguments. -/
def constructedRule (call : Calls) : Rule Node := do
  let start ← nextStart
  let c ← surroundings
  let base ← if ← atWord "new" then instanceRule call else do
    let e ← primary call
    pure e.node
  let x ← constructedLinks call start c.limit ⟨base, false, false, []⟩
  let args ← if ← atPunct "(" then arguments call else pure []
  return .group (x.node :: x.typeArgs ++ args) (← spanFrom start)

/-- A chain of members and calls. In a decorator no brackets belong to it. -/
def chainRule (call : Calls) (decorator : Bool) : Rule Operand := do
  let start ← nextStart
  let c ← surroundings
  let base ← if ← atWord "new" then do pure ⟨← instanceRule call, .other⟩ else primary call
  let x ← links call start (!decorator) c.limit ⟨base.node, base.shape = .simple, false, []⟩
  let stop ← lastEnd
  -- an operand without links keeps its shape
  if x.node.span = base.node.span && x.typeArgs.isEmpty && !x.isOptional then return base
  let node := if x.isOptional then
      { x with node := .chain x.node x.node.span }.instantiated start stop
    else x.instantiated start stop
  return ⟨node, if x.assignable && !x.isOptional && x.typeArgs.isEmpty then .simple else .other⟩

end BuildMacros.Script.Grammar
