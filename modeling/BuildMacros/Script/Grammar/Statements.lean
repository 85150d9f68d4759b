import BuildMacros.Script.Grammar.Modules

/-! # Statements

    Blocks, `switch` bodies, loops with a head, catch clauses and the body of
    `with` are scopes. Where a statement is the body of another one, it may be no
    class, no generator or asynchronous function, and declare variables with `var`
    only.
-/

namespace BuildMacros.Script.Grammar

/-! ## Section 1: Loops -/

/-- An expression in parentheses after a keyword. -/
def condition (call : Calls) : Rule Node := do
  expectPunct "("
  let e ← inner call
  expectPunct ")"
  return e.node

/-- The head of a loop after its first part: over the elements or keys of something, or with a
    test and a step. The first part must allow the former two. -/
def loopHead (call : Calls) (overElements overKeys : Rule Unit) (steps : Rule Unit) :
    Rule (List Node) := do
  if ← atWord "of" then
    overElements
    let _ ← advance
    return [(← operand call).node]
  if ← atWord "in" then
    overKeys
    let _ ← advance
    return [(← inner call).node]
  steps
  expectPunct ";"
  let test ← listIf (!(← atPunct ";")) (inner call)
  expectPunct ";"
  let step ← listIf (!(← atPunct ")")) (inner call)
  return (test ++ step).map Operand.node

/-- The head of a `for` loop inside its parentheses. -/
def forHead (call : Calls) (isAwait : Bool) : Rule (List Node) := do
  let start ← nextStart
  let c ← surroundings
  if let some (kind, words) ← variableKeyword then
    let ds ← within (fun c => { c with allowIn := false }) (declarators call kind words)
    let decl := Node.variableDeclaration kind (ds.map Prod.snd) (← spanFrom start)
    let rest ← loopHead call (return ()) (require !isAwait)
      (require (!isAwait && initialized c kind ds))
    return decl :: rest
  if ← atPunct ";" then return ← loopHead call refuse refuse (require !isAwait)
  -- `async of` could begin an arrow function
  let isAsyncOf ← ahead do
    expectWord "async"
    atWord "of"
  let e ← within (fun c => { c with allowIn := false }) (expression call)
  let rest ← loopHead call
    (do
      toTarget e
      require (isAwait || !isAsyncOf))
    (do
      toTarget e
      require !isAwait)
    (require !isAwait)
  return e.node :: rest

/-- A `for` loop, which is a scope as a whole. -/
def forStatement (call : Calls) : Rule Node := do
  expectWord "for"
  let isAwait ← acceptWord "await"
  require (!isAwait || (← surroundings).inAwait)
  expectPunct "("
  let head ← forHead call isAwait
  expectPunct ")"
  let body ← call (.statement true)
  return .scope .plain (head ++ [body])

/-- A loop with its test in front. -/
def whileStatement (call : Calls) (start : Nat) : Rule Node := do
  expectWord "while"
  let test ← condition call
  let body ← call (.statement true)
  return .group [test, body] (← spanFrom start)

/-- A loop with its test behind. -/
def doStatement (call : Calls) (start : Nat) : Rule Node := do
  expectWord "do"
  let body ← call (.statement true)
  expectWord "while"
  let test ← condition call
  let _ ← acceptPunct ";"
  return .group [body, test] (← spanFrom start)

/-! ## Section 2: Branches -/

/-- A choice between two statements. -/
def ifStatement (call : Calls) (start : Nat) : Rule Node := do
  expectWord "if"
  let test ← condition call
  let yes ← call (.statement true)
  let no ← listIf (← acceptWord "else") (call (.statement true))
  return .group (test :: yes :: no) (← spanFrom start)

/-- One case of a `switch`. -/
def switchCase (call : Calls) : Rule Node := do
  let start ← nextStart
  let test ← if ← acceptWord "default" then pure []
    else do
      expectWord "case"
      pure [(← inner call).node]
  expectPunct ":"
  let body ← many do
    if (← atPunct r"}") || (← atWord "case") || (← atWord "default") then return none
    return some (← call (.statement false))
  return .group (test ++ body) (← spanFrom start)

/-- A choice between cases, which are one scope. -/
def switchStatement (call : Calls) (start : Nat) : Rule Node := do
  expectWord "switch"
  let subject ← condition call
  expectPunct r"{"
  let cases ← untilPunct (switchCase call) r"}"
  return .group [subject, .scope .plain cases] (← spanFrom start)

/-- The parameter of a catch clause. -/
def catchParameter (call : Calls) : Rule Node := do
  let start ← nextStart
  let target ← call .pattern
  let typing ← optionalTyping call
  return .catchParam target typing (← spanFrom start)

/-- A catch clause: a scope for the parameter with the block in it. -/
def catchClause (call : Calls) : Rule Node := do
  expectWord "catch"
  let param ← if ← acceptPunct "(" then do
      let p ← catchParameter call
      expectPunct ")"
      pure [p]
    else pure []
  let body ← block call
  return .scope .ofCatch (param ++ [body])

/-- A block with what happens after a failure, after everything, or both. -/
def tryStatement (call : Calls) (start : Nat) : Rule Node := do
  expectWord "try"
  let body ← block call
  let handler ← listIf (← atWord "catch") (catchClause call)
  let finalizer ← listIf (← acceptWord "finally") (block call)
  require (!handler.isEmpty || !finalizer.isEmpty)
  return .group (body :: handler ++ finalizer) (← spanFrom start)

/-! ## Section 3: Simple statements -/

/-- The end of a function, with an optional value. -/
def returnStatement (call : Calls) (start : Nat) : Rule Node := do
  expectWord "return"
  require (← surroundings).inFunction
  let value ← listIf (!(← canEndStatement)) (expression call)
  endStatement
  return .group (value.map Operand.node) (← spanFrom start)

/-- A failure with a value on the same line. -/
def throwStatement (call : Calls) (start : Nat) : Rule Node := do
  expectWord "throw"
  require !(← peek).newline
  let e ← expression call
  endStatement
  return .group [e.node] (← spanFrom start)

/-- A jump, perhaps to a label. -/
def jumpStatement : Rule Node := do
  let start ← nextStart
  let _ ← advance
  if !(← canEndStatement) then
    let _ ← nameRule
  endStatement
  return .literal (← spanFrom start)

/-- A stop for a debugger. -/
def debuggerStatement : Rule Node := do
  let start ← nextStart
  let _ ← advance
  endStatement
  return .literal (← spanFrom start)

/-- A statement with an object whose properties are variables in it. -/
def withStatement (call : Calls) (start : Nat) : Rule Node := do
  expectWord "with"
  let subject ← condition call
  let body ← call (.statement true)
  return .group [subject, .scope .plain [body]] (← spanFrom start)

/-- A label begins here. -/
def atLabel : Rule Bool := ahead do
  let _ ← nameRule
  atPunct ":"

/-- A statement with a label. -/
def labelled (call : Calls) (start : Nat) : Rule Node := do
  let _ ← advance
  let _ ← advance
  let body ← call (.statement true)
  return .group [body] (← spanFrom start)

/-- An expression as a statement. -/
def expressionStatement (call : Calls) : Rule Node := do
  let e ← expression call
  endStatement
  return .expression e.node

/-! ## Section 4: Statements -/

/-- A statement that its first word decides, if it is one. -/
def keywordStatement? (call : Calls) (start : Nat) (w : String) : Rule (Option Node) := do
  if w == "if" then return some (← ifStatement call start)
  if w == "for" then return some (← forStatement call)
  if w == "while" then return some (← whileStatement call start)
  if w == "do" then return some (← doStatement call start)
  if w == "switch" then return some (← switchStatement call start)
  if w == "try" then return some (← tryStatement call start)
  if w == "return" then return some (← returnStatement call start)
  if w == "throw" then return some (← throwStatement call start)
  if w == "break" || w == "continue" then return some (← jumpStatement)
  if w == "debugger" then return some (← debuggerStatement)
  if w == "with" then return some (← withStatement call start)
  return none

/-- What begins here may be the body of another statement: no class, no generator or asynchronous
    function, and variables only with `var`. -/
def mayBeBody : Rule Bool := do
  let isGenerator ← ahead do
    expectWord "function"
    atPunct "*"
  let isBlockScoped := match ← variableKeyword with
    | some (kind, _) => kind != .var
    | none => false
  return !((← atWord "class") || isGenerator || (← atAsyncFunction) || isBlockScoped)

/-- A statement that its first word decides and that a list of statements may hold, if one begins
    here. -/
def listStatement? (call : Calls) (start : Nat) : Rule (Option Node) := do
  if (← atWord "import") && !(← atImportExpression) then
    return some (← importStatement start)
  if ← atWord "export" then return some (← exportStatement call start)
  declaration? call start

/-- A class with decorators, which may stand in front of `export`. -/
def decorated (call : Calls) (start : Nat) : Rule Node := do
  let marks ← decorators call
  if ← atWord "export" then
    let _ ← advance
    let isDefault ← acceptWord "default"
    let start ← nextStart
    match ← class? call start (!isDefault) marks with
    | some d => return if isDefault then .exportDefault d else .exportDeclaration d false
    | none => refuse
  match ← class? call start true marks with
  | some d => return d
  | none => refuse

/-- A statement. -/
def statementRule (call : Calls) (single : Bool) : Rule Node := do
  let start ← nextStart
  let t ← peek
  match t.kind with
  | .punct r"{" => block call
  | .punct ";" =>
    let _ ← advance
    return .literal (← spanFrom start)
  | .punct "@" =>
    require !single
    decorated call start
  | .word w false =>
    if let some s ← keywordStatement? call start w then return s
    require (!single || (← mayBeBody))
    match ← listStatement? call start with
    | some s => return s
    | none =>
      if ← atLabel then labelled call start else expressionStatement call
  | .word _ true => if ← atLabel then labelled call start else expressionStatement call
  | _ => expressionStatement call

end BuildMacros.Script.Grammar
