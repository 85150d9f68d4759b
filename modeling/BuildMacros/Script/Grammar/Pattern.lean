import BuildMacros.Script.Grammar.Basic

/-! # Patterns, property names and parameters

    Patterns bind names in declarations and parameter lists. They are read as
    patterns from the start; assignment targets, which are written like
    expressions, are the business of `toTarget`.
-/

namespace BuildMacros.Script.Grammar

/-! ## Section 1: Property names -/

/-- A property name may begin with the token. -/
def startsPropertyName (t : Token) : Bool :=
  match t.kind with
  | .word _ _ => true
  | .string _ => true
  | .number => true
  | .punct p => p == "["
  | _ => false

/-- A property name. -/
inductive PropertyName where
  | word (id : Ident)
  | quoted (text : String)
  | number
  | computed (key : Node)
  /-- A private name, with its sign. -/
  | hidden (text : String)

/-- The parts of a property name that are visited. -/
def PropertyName.parts : PropertyName → List Node
  | computed key => [key]
  | _ => []

/-- The name of a property that is written out. -/
def PropertyName.plain? : PropertyName → Option String
  | word id => some id.name
  | quoted text => some text
  | _ => none

/-- A property name: a word, a string, a number or a computed key. -/
def propertyName (call : Calls) : Rule PropertyName := do
  let t ← peek
  match t.kind with
  | .word _ _ => return .word (← wordRule)
  | .string value => do
    let _ ← advance
    return .quoted value
  | .number => do
    let _ ← advance
    return .number
  | _ => do
    expectPunct "["
    let key ← operand call
    expectPunct "]"
    return .computed key.node

/-- The name of a member of a class, which may be private. -/
def memberName (call : Calls) : Rule PropertyName := do
  let t ← peek
  if t.kind == .privateName then
    let _ ← advance
    return .hidden (String.ofList (t.text.take (t.text.length - t.rest.length)))
  else propertyName call

/-! ## Section 2: Patterns -/

/-- An initial value after an equals sign, if there is one. -/
def initialValue (call : Calls) : Rule (List Node) := do
  if ← acceptPunct "=" then
    let e ← operand call
    return [e.node]
  else return []

/-- A pattern with an optional default. -/
def patternElement (call : Calls) : Rule Node := do
  let start ← nextStart
  let target ← call .pattern
  match ← initialValue call with
  | [] => return target
  | init => return .group (target :: init) (← spanFrom start)

/-- Items of an array pattern; an item may be left out, and a rest item comes last. -/
def arrayPatternItems (call : Calls) : Nat → Rule (List Node)
  | 0 => refuse
  | n + 1 => do
    if ← acceptPunct "]" then return []
    if ← acceptPunct "," then return ← arrayPatternItems call n
    if ← acceptPunct "..." then
      let rest ← call .pattern
      expectPunct "]"
      return [rest]
    let item ← patternElement call
    if ← acceptPunct "]" then return [item]
    expectPunct ","
    let more ← arrayPatternItems call n
    return item :: more

/-- One property of an object pattern. -/
def propertyPattern (call : Calls) : Rule (List Node) := do
  let start ← nextStart
  let c ← surroundings
  let key ← propertyName call
  if ← acceptPunct ":" then
    let target ← patternElement call
    return key.parts ++ [target]
  match key with
  | .word id =>
    require (isFreeWord c id.name)
    match ← initialValue call with
    | [] => return [.name id]
    | init => return [.group (.name id :: init) (← spanFrom start)]
  | _ => refuse

/-- Properties of an object pattern; a rest property comes last. -/
def objectPatternItems (call : Calls) : Nat → Rule (List Node)
  | 0 => refuse
  | n + 1 => do
    if ← acceptPunct r"}" then return []
    if ← acceptPunct "..." then
      let id ← nameRule
      expectPunct r"}"
      return [.name id]
    let item ← propertyPattern call
    if ← acceptPunct r"}" then return item
    expectPunct ","
    let more ← objectPatternItems call n
    return item ++ more

/-- A name, an array pattern or an object pattern. -/
def patternRule (call : Calls) : Rule Node := do
  let c ← surroundings
  let start ← nextStart
  if ← acceptPunct "[" then
    let items ← arrayPatternItems call c.limit
    return .group items (← spanFrom start)
  if ← acceptPunct r"{" then
    let items ← objectPatternItems call c.limit
    return .group items (← spanFrom start)
  return .name (← nameRule)

/-! ## Section 3: Annotations and decorators -/

/-- A type after a colon, where types are understood. -/
def optionalTyping (call : Calls) : Rule (List Node) := do
  if ← acceptTypedPunct ":" then
    let t ← call .type
    return [.typing [t]]
  else return []

/-- Decorators in front of a construct. -/
def decorators (call : Calls) : Rule (List Node) :=
  many do
    if ← acceptPunct "@" then
      let e ← call (.chain true)
      return some e.node
    else return none

/-! ## Section 4: Parameters -/

/-- Words in front of a parameter that make it a property of the instance. -/
def parameterModifiers : List String := ["public", "private", "protected", "readonly", "override"]

/-- Modifiers of a parameter: such words before a further name or pattern on the same line. -/
def skipParameterModifiers : Rule Unit := do
  let _ ← many do
    let t ← peek
    let isModifier := match t.kind with
      | .word w false => parameterModifiers.contains w
      | _ => false
    let follows ← ahead do
      let _ ← advance
      let next ← peek
      return !next.newline && (next.isName || next.isPunct "[" || next.isPunct r"{")
    if isModifier && follows then
      let _ ← advance
      return some ()
    else return none
  return ()

/-- One parameter; the flag says that it takes the rest of the arguments. -/
def parameter (call : Calls) : Rule (Bool × Node) := do
  let start ← nextStart
  let c ← surroundings
  let marks ← decorators call
  if c.typed then skipParameterModifiers
  let isRest ← acceptPunct "..."
  let target ← call .pattern
  if c.typed then
    let _ ← acceptPunct "?"
  let typing ← optionalTyping call
  let init ← if isRest then pure [] else initialValue call
  return (isRest, .group (marks ++ target :: typing ++ init) (← spanFrom start))

/-- Parameters up to the closing parenthesis; a rest parameter comes last. -/
def parametersUpTo (call : Calls) : Nat → Rule (List Node)
  | 0 => refuse
  | n + 1 => do
    if ← acceptPunct ")" then return []
    let (isRest, p) ← parameter call
    if ← acceptPunct ")" then return [p]
    require (!isRest)
    expectPunct ","
    let more ← parametersUpTo call n
    return p :: more

/-- The parameter that states the type of `this`, with the comma after it. -/
def thisParameter (call : Calls) : Rule (List Node) := do
  let c ← surroundings
  if c.typed && (← atWord "this") then
    let _ ← advance
    let typing ← optionalTyping call
    if !(← atPunct ")") then expectPunct ","
    return typing
  else return []

/-- A parameter list with its parentheses, after the type of `this`, given how parameters are read
    up to the closing parenthesis. -/
def parameterList (call : Calls) (items : Rule (List Node)) : Rule (List Node) := do
  let start ← nextStart
  expectPunct "("
  let receiver ← thisParameter call
  let items ← within (fun c => { c with allowIn := true }) items
  return receiver ++ [.params items (← spanFrom start)]

/-- A parameter list with any parameters. -/
def parameters (call : Calls) : Rule (List Node) :=
  parameterList call do parametersUpTo call (← surroundings).limit

/-- Functions that are called by reading or writing a property. -/
inductive Accessor where
  | getter
  | setter
deriving DecidableEq

/-- The parameters of an accessor: a getter has none, and a setter has one, which does not take the
    rest of the arguments. -/
def accessorParameters (call : Calls) : Accessor → Rule (List Node)
  | .getter => parameterList call do
    expectPunct ")"
    return []
  | .setter => parameterList call do
    let (isRest, p) ← parameter call
    require !isRest
    let _ ← acceptPunct ","
    expectPunct ")"
    return [p]

end BuildMacros.Script.Grammar
