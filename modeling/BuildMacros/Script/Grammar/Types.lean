import BuildMacros.Script.Grammar.Pattern

/-! # Types

    Types matter for the references, scopes and parameters in them. A name is
    referred to by the leftmost part of a qualified name and by a type query;
    function types, signatures, mapped types and the tested part of a conditional
    type are scopes.
-/

namespace BuildMacros.Script.Grammar

/-! ## Section 1: Arguments and parameters of types -/

/-- An opening angle bracket, also as the first half of `<<`. -/
def openAngle : Rule Unit := do
  let t ← peek
  if Token.isPunct t "<<" then jumpTo (t.text.drop 1) else expectPunct "<"

/-- One or more types between angle brackets. -/
def typeArguments (call : Calls) : Rule (List Node) := do
  openAngle
  let args ← within (fun c => { c with plainTypes := false }) (commaList (call .type) ">")
  require (!args.isEmpty)
  return args

/-- Type arguments on the line of what they belong to, if there are any. -/
def optionalTypeArguments (call : Calls) : Rule (List Node) := do
  let t ← peek
  if !t.newline && (Token.isPunct t "<" || Token.isPunct t "<<") then typeArguments call
  else return []

/-- Words in front of a type parameter. -/
def skipTypeParameterModifiers : Rule Unit := do
  let _ ← many do
    let t ← peek
    if Token.isWord t "const" || Token.isWord t "in" then
      let _ ← advance
      return some ()
    let isOut ← ahead do
      let t ← advance
      let next ← peek
      return Token.isWord t "out" && Token.isName next && !Token.isWord next "extends"
    if isOut then
      let _ ← advance
      return some ()
    else return none
  return ()

/-- A type after a word, if the word is next. -/
def typeAfterWord (call : Calls) (w : String) : Rule (List Node) := do
  listIf (← acceptWord w) (call .type)

/-- One type parameter with its bound and default. -/
def typeParameter (call : Calls) : Rule Node := do
  let start ← nextStart
  skipTypeParameterModifiers
  let id ← nameRule
  let bound ← typeAfterWord call "extends"
  let preset ← listIf (← acceptPunct "=") (call .type)
  return .group (.name id :: bound ++ preset) (← spanFrom start)

/-- One or more type parameters between angle brackets. -/
def typeParameters (call : Calls) : Rule (List Node) := do
  openAngle
  let ps ← within (fun c => { c with plainTypes := false }) (commaList (typeParameter call) ">")
  require (!ps.isEmpty)
  return ps

/-- Type parameters where types are understood, if there are any. -/
def optionalTypeParameters (call : Calls) : Rule (List Node) := do
  let c ← surroundings
  if c.typed && (← atPunct "<") then typeParameters call else return []

/-! ## Section 2: Return types -/

/-- The type that is tested for, after `is` on the line of what is tested. -/
def testedType (call : Calls) : Rule Node := do
  let t ← peek
  require !t.newline
  expectWord "is"
  call .type

/-- A test of a parameter in place of a return type: `x is T`. -/
def typePredicate (call : Calls) : Rule Node := do
  let start ← nextStart
  let _ ← nameRule
  let tested ← testedType call
  return .group [tested] (← spanFrom start)

/-- A return type or a test of a parameter. -/
def returnType (call : Calls) : Rule Node := do
  match ← attempt (typePredicate call) with
  | some p => return p
  | none => call .type

/-- A return type after a colon, where types are understood. -/
def optionalReturnType (call : Calls) : Rule (List Node) := do
  if ← acceptTypedPunct ":" then
    let t ← returnType call
    return [.typing [t]]
  else return []

/-- Type parameters, parameters and return type, given how parameters are read. -/
def signatureWith (call : Calls) (ps : Rule (List Node)) : Rule (List Node) := do
  let tps ← optionalTypeParameters call
  let ps ← ps
  let ret ← optionalReturnType call
  return tps ++ ps ++ ret

/-- Type parameters, parameters and return type of a signature. -/
def signature (call : Calls) : Rule (List Node) := signatureWith call (parameters call)

/-! ## Section 3: Names in types -/

/-- The parts of a qualified name after the first. -/
def qualifiers : Rule (List Unit) :=
  many do
    if ← acceptPunct "." then
      let _ ← wordRule
      return some ()
    else return none

/-- A name in a type. `const` is one in a constant assertion. -/
def typeName : Rule Ident := do
  let t ← peek
  if Token.isWord t "const" then wordRule else nameRule

/-- A reference to a named type. -/
def typeReference (call : Calls) : Rule Node := do
  let start ← nextStart
  let id ← typeName
  let _ ← qualifiers
  let args ← optionalTypeArguments call
  return .group (.use id :: args) (← spanFrom start)

/-- The type of a module: `import('m').T`. -/
def importType (call : Calls) : Rule Node := do
  let start ← nextStart
  expectWord "import"
  expectPunct "("
  let argument ← call .type
  let options ← if ← acceptPunct "," then
      if ← atPunct ")" then pure []
      else do
        let e ← operand call
        let _ ← acceptPunct ","
        pure [e.node]
    else pure []
  expectPunct ")"
  let _ ← qualifiers
  let args ← optionalTypeArguments call
  return .group (argument :: options ++ args) (← spanFrom start)

/-- The type of a value: `typeof a.b`. -/
def typeQuery (call : Calls) : Rule Node := do
  let start ← nextStart
  expectWord "typeof"
  if ← atWord "import" then return ← importType call
  let subject ← if ← acceptWord "this" then pure []
    else do pure [Node.use (← nameRule)]
  let _ ← qualifiers
  let args ← optionalTypeArguments call
  return .group (subject ++ args) (← spanFrom start)

/-! ## Section 4: Object types -/

/-- A member of an object type ends at a semicolon or comma, before the closing brace, or at a
    line break. -/
def endMember : Rule Unit := do
  if ← acceptPunct ";" then return ()
  if ← acceptPunct "," then return ()
  let t ← peek
  require (t.newline || Token.isPunct t r"}")

/-- An index signature begins here. -/
def atIndexSignature : Rule Bool := ahead do
  expectPunct "["
  let _ ← wordRule
  let t ← peek
  return Token.isPunct t ":"

/-- An index signature. -/
def indexSignature (call : Calls) : Rule Node := do
  let start ← nextStart
  expectPunct "["
  let _ ← wordRule
  let key ← optionalTyping call
  expectPunct "]"
  let value ← optionalTyping call
  return .group (key ++ value) (← spanFrom start)

/-- A word that the next token is, followed by a property name. -/
def atWordBeforeProperty (w : String) : Rule Bool := ahead do
  expectWord w
  let t ← peek
  return startsPropertyName t

/-- The name of a member and what follows it: a method is a scope, a property is none. -/
def namedMember (call : Calls) : Rule Node := do
  let start ← nextStart
  let key ← propertyName call
  let _ ← acceptPunct "?"
  if (← atPunct "(") || (← atPunct "<") then
    let sig ← signature call
    return .scope .plain (key.parts ++ sig)
  let typing ← optionalTyping call
  return .group (key.parts ++ typing) (← spanFrom start)

/-- An accessor after `get` or `set`. -/
def accessorMember (call : Calls) : Rule Node := do
  let key ← propertyName call
  return .scope .plain (key.parts ++ (← signature call))

/-- A member without its end. -/
def typeMember (call : Calls) : Rule Node := do
  if (← atPunct "(") || (← atPunct "<") then return .scope .plain (← signature call)
  let constructs ← ahead do
    expectWord "new"
    let t ← peek
    return Token.isPunct t "(" || Token.isPunct t "<"
  if constructs then
    let _ ← advance
    return .scope .plain (← signature call)
  if ← atWordBeforeProperty "readonly" then
    let _ ← advance
  if ← atIndexSignature then return ← indexSignature call
  if (← atWordBeforeProperty "get") || (← atWordBeforeProperty "set") then
    let _ ← advance
    return ← accessorMember call
  namedMember call

/-- The members of an object type or interface, braces included. -/
def typeMembers (call : Calls) : Rule (List Node) := do
  expectPunct r"{"
  within (fun c => { c with plainTypes := false }) (untilPunct (do
    let m ← typeMember call
    endMember
    return m) r"}")

/-- A sign in front of a modifier of a mapped type. -/
def mappedSign (w : String) : Rule Unit := do
  if (← atPunct "+") || (← atPunct "-") then
    let _ ← advance
    if w == "?" then expectPunct "?" else expectWord w
  else if w == "?" then
    let _ ← acceptPunct "?"
  else
    let _ ← acceptWord w

/-- A mapped type begins here. -/
def atMappedType : Rule Bool := ahead do
  expectPunct r"{"
  if (← atPunct "+") || (← atPunct "-") then return true
  if ← atWordBeforeProperty "readonly" then
    let _ ← advance
  expectPunct "["
  let _ ← wordRule
  atWord "in"

/-- A mapped type. -/
def mappedType (call : Calls) : Rule Node :=
  within (fun c => { c with plainTypes := false }) do
    expectPunct r"{"
    mappedSign "readonly"
    expectPunct "["
    let id ← nameRule
    expectWord "in"
    let source ← call .type
    let renamed ← typeAfterWord call "as"
    expectPunct "]"
    mappedSign "?"
    let value ← listIf (← acceptPunct ":") (call .type)
    let _ ← acceptPunct ";"
    let _ ← acceptPunct ","
    expectPunct r"}"
    return .scope .plain (.name id :: source :: renamed ++ value)

/-! ## Section 5: Tuples and parentheses -/

/-- A tuple element with a name begins here. -/
def atNamedElement : Rule Bool := ahead do
  let _ ← acceptPunct "..."
  let _ ← wordRule
  let _ ← acceptPunct "?"
  atPunct ":"

/-- One element of a tuple type. -/
def tupleElement (call : Calls) : Rule Node := do
  if ← atNamedElement then
    let _ ← acceptPunct "..."
    let _ ← wordRule
    let _ ← acceptPunct "?"
    expectPunct ":"
    return ← call .type
  let _ ← acceptPunct "..."
  let t ← call .type
  let _ ← acceptPunct "?"
  return t

/-- A function type begins here and nothing else can. -/
def atFunctionType (call : Calls) : Rule Bool := do
  if ← atPunct "<" then return true
  ahead do
    expectPunct "("
    if (← atPunct ")") || (← atPunct "...") then return true
    skipParameterModifiers
    if !(← acceptWord "this") then
      let _ ← call .pattern
    if (← atPunct ":") || (← atPunct ",") || (← atPunct "?") || (← atPunct "=") then return true
    expectPunct ")"
    atPunct "=>"

/-- A function type without `new`. -/
def functionType (call : Calls) : Rule Node := do
  let tps ← optionalTypeParameters call
  let ps ← parameters call
  expectPunct "=>"
  let ret ← returnType call
  return .scope .plain (tps ++ ps ++ [.typing [ret]])

/-- A constructor type begins here. -/
def atConstructorType : Rule Bool := ahead do
  let _ ← acceptWord "abstract"
  atWord "new"

/-! ## Section 6: Types -/

/-- The type of `this`, or a test of it: `this is T`. -/
def thisType (call : Calls) : Rule Node := do
  let start ← nextStart
  let self ← leaf
  let t ← peek
  if t.newline || !Token.isWord t "is" then return self
  let tested ← testedType call
  return .group [tested] (← spanFrom start)

/-- `asserts` in front of a parameter or `this` on its line. -/
def atAssertedType : Rule Bool := ahead do
  expectWord "asserts"
  let t ← peek
  return !t.newline && (Token.isName t || Token.isWord t "this")

/-- What a function asserts: `asserts x` or `asserts x is T`. -/
def assertedType (call : Calls) : Rule Node := do
  let start ← nextStart
  expectWord "asserts"
  if !(← acceptWord "this") then
    let _ ← nameRule
  let tested ← typeAfterWord call "is"
  return .group tested (← spanFrom start)

/-- Types that are keywords. -/
def typeKeywords : List String := [
  "any", "unknown", "never", "number", "string", "boolean", "symbol", "bigint", "object",
  "undefined", "intrinsic"]

/-- Reserved words that are types. -/
def reservedTypes : List String := ["void", "null", "true", "false"]

/-- The next word is a type by itself. -/
def atTypeKeyword : Rule Bool := ahead do
  let t ← advance
  let next ← peek
  match t.kind with
  | .word w false =>
    return reservedTypes.contains w || (typeKeywords.contains w && !Token.isPunct next ".")
  | _ => return false

/-- A type that no operator is part of. -/
def primaryType (call : Calls) : Rule Node := do
  let start ← nextStart
  let t ← peek
  let loose := fun (r : Rule (List Node)) =>
    within (fun c => { c with plainTypes := false }) r
  match t.kind with
  | .string _ => leaf
  | .number => leaf
  | .template _ => templateRule true (within (fun c => { c with plainTypes := false }) (call .type))
  | .punct p =>
    if p == "-" then
      let _ ← advance
      let n ← peek
      require (n.kind == .number)
      leaf
    else if p == r"{" then
      if ← atMappedType then mappedType call
      else
        let ms ← typeMembers call
        return .group ms (← spanFrom start)
    else if p == "[" then
      let _ ← advance
      let es ← loose (commaList (tupleElement call) "]")
      return .group es (← spanFrom start)
    else if p == "(" then
      let _ ← advance
      let es ← loose (do return [← call .type])
      expectPunct ")"
      return .group es (← spanFrom start)
    else refuse
  | _ =>
    if ← atTypeKeyword then leaf
    else if ← atWord "this" then thisType call
    else if ← atAssertedType then assertedType call
    else if ← atWord "typeof" then typeQuery call
    else if ← atWord "import" then importType call
    else typeReference call

/-- Array and element types after a type. -/
def postfixTypes (call : Calls) (start : Nat) : Nat → Node → Rule Node
  | 0, _ => refuse
  | n + 1, t => do
    let next ← peek
    if Token.isPunct next "[" && !next.newline then
      let _ ← advance
      if ← acceptPunct "]" then
        postfixTypes call start n (.group [t] (← spanFrom start))
      else
        let key ← within (fun c => { c with plainTypes := false }) (call .type)
        expectPunct "]"
        postfixTypes call start n (.group [t, key] (← spanFrom start))
    else return t

/-- A type variable that a conditional type finds, with its bound. -/
def inferredType (call : Calls) : Rule Node := do
  let start ← nextStart
  let c ← surroundings
  let id ← nameRule
  let bound ← attempt do
    expectWord "extends"
    let t ← within (fun c => { c with plainTypes := true }) (call .type)
    -- a question mark makes it the condition of a conditional type
    if !c.plainTypes then require (!(← atPunct "?"))
    return t
  return .group (.name id :: bound.toList) (← spanFrom start)

/-- A type with its prefix operators; the first argument bounds their number. -/
def operatorType (call : Calls) : Nat → Rule Node
  | 0 => refuse
  | n + 1 => do
    let start ← nextStart
    let t ← peek
    if Token.isWord t "keyof" || Token.isWord t "unique" || Token.isWord t "readonly" then
      let _ ← advance
      let t ← operatorType call n
      return .group [t] (← spanFrom start)
    if ← acceptWord "infer" then return ← inferredType call
    let t ← primaryType call
    postfixTypes call start (← surroundings).limit t

/-- Function types may stand in unions and intersections. -/
def memberType (call : Calls) : Rule Node := do
  if ← atFunctionType call then functionType call
  else operatorType call (← surroundings).limit

/-- Types separated by an operator, which may also stand in front. -/
def separatedTypes (op : String) (item : Rule Node) : Rule Node := do
  let start ← nextStart
  let _ ← acceptPunct op
  let first ← item
  let more ← many do
    if ← acceptPunct op then return some (← item) else return none
  match more with
  | [] => return first
  | _ => return .group (first :: more) (← spanFrom start)

/-- A type. -/
def typeRule (call : Calls) : Rule Node := do
  let start ← nextStart
  if ← atConstructorType then
    let _ ← acceptWord "abstract"
    expectWord "new"
    return ← functionType call
  if ← atFunctionType call then return ← functionType call
  let t ← separatedTypes "|" (separatedTypes "&" (memberType call))
  let c ← surroundings
  let next ← peek
  if c.plainTypes || next.newline || !Token.isWord next "extends" then return t
  let _ ← advance
  let bound ← within (fun c => { c with plainTypes := true }) (call .type)
  expectPunct "?"
  let yes ← within (fun c => { c with plainTypes := false }) (call .type)
  expectPunct ":"
  let no ← within (fun c => { c with plainTypes := false }) (call .type)
  return .group [t, .scope .plain [bound, yes], no] (← spanFrom start)

end BuildMacros.Script.Grammar
