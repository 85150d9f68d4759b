import BuildMacros.Script.Grammar.Chains
import BuildMacros.Assoc

/-! # Operators, assignments and arrow functions

    Operators with two operands are read by levels of strength: a loop reads an
    operand and then every operator stronger than its level, with an operand of
    that operator's level to the right. Assignments, conditions and arrow functions
    are weaker than all of them.

    A parenthesis can begin an arrow function. That reading is tried first; where
    it fails, the place is noted and not tried again.
-/

namespace BuildMacros.Script.Grammar

/-! ## Section 1: Operators with one operand -/

/-- Words that are operators with one operand. -/
def unaryWords : List String := ["delete", "void", "typeof"]

/-- A type in angle brackets in front of an operand. What can be assigned to still can. -/
def assertion (call : Calls) : Rule Operand := do
  let start ← nextStart
  openAngle
  let t ← within (fun c => { c with plainTypes := false }) (call .type)
  expectPunct ">"
  let e ← call .unary
  let shape := if e.shape.isPlace then Shape.asserted else .prefixed
  return ⟨.wrap .assertion [t] e.node [] (← spanFrom start), shape⟩

/-- An operand, perhaps with an operator behind it. -/
def postfixed (call : Calls) : Rule Operand := do
  let start ← nextStart
  let e ← call (.chain false)
  let t ← peek
  if !t.newline && (Token.isPunct t "++" || Token.isPunct t "--") then
    require e.shape.isPlace
    let _ ← advance
    return ⟨.group [e.node] (← spanFrom start), .other⟩
  return e

/-- A private name is an operand of `in` only. -/
def privateOperand : Rule Operand := do
  let e ← leaf
  require (← atWord "in")
  return ⟨e, .other⟩

/-- The word `await` with a name, word or literal behind it on its line: where it is no operator
    it cannot be a name either. -/
def atMisplacedAwait : Rule Bool := ahead do
  expectWord "await"
  let t ← peek
  let isOperand := match t.kind with
    | .word w _ => w != "in" && w != "instanceof"
    | .string _ => true
    | .number => true
    | _ => false
  return isOperand && !t.newline

/-- An operand with the operators in front of it. -/
def unaryRule (call : Calls) : Rule Operand := do
  let start ← nextStart
  let c ← surroundings
  let t ← peek
  match t.kind with
  | .word w false =>
    if unaryWords.contains w then
      let _ ← advance
      let e ← call .unary
      return ⟨.group [e.node] (← spanFrom start), .prefixed⟩
    else if w == "await" && c.inAwait then
      let _ ← advance
      let e ← call .unary
      return ⟨.await e.node (← spanFrom start), .prefixed⟩
    else
      require (!(← atMisplacedAwait))
      postfixed call
  | .privateName => privateOperand
  | .punct p =>
    if ["!", "~", "+", "-"].contains p then
      let _ ← advance
      let e ← call .unary
      return ⟨.group [e.node] (← spanFrom start), .prefixed⟩
    else if p == "++" || p == "--" then
      let _ ← advance
      let e ← call .unary
      require e.shape.isPlace
      return ⟨.group [e.node] (← spanFrom start), .other⟩
    else if (p == "<" || p == "<<") && c.typed && !c.markup then assertion call
    else postfixed call
  | _ => postfixed call

/-! ## Section 2: Operators with two operands -/

/-- Operators with two operands and their levels; the level tells how strongly one binds. -/
def operatorLevels : List (String × Nat) := [
  ("??", 1), ("||", 2), ("&&", 3), ("|", 4), ("^", 5), ("&", 6),
  ("==", 7), ("!=", 7), ("===", 7), ("!==", 7),
  ("<", 8), (">", 8), ("<=", 8), (">=", 8), ("instanceof", 8), ("in", 8), ("as", 8),
  ("satisfies", 8),
  ("<<", 9), (">>", 9), (">>>", 9), ("+", 10), ("-", 10), ("*", 11), ("/", 11), ("%", 11),
  ("**", 12)]

/-- The operator that the next token begins, and the text after it. -/
def operatorAhead (c : Surroundings) (t : Token) : Option (String × List Char) :=
  match t.kind with
  | .word w false =>
    if w == "in" then (if c.allowIn then some (w, t.rest) else none)
    else if w == "instanceof" then some (w, t.rest)
    else if (w == "as" || w == "satisfies") && c.typed && !t.newline then some (w, t.rest)
    else none
  | .punct ">" => angleOperator t.text
  | .punct p => some (p, t.rest)
  | _ => none

/-- An operator with two operands ahead that binds more tightly than a level: its text, its own
    level, and the text after it. -/
def strongerOperator (c : Surroundings) (t : Token) (level : Nat) :
    Option (String × Nat × List Char) :=
  match operatorAhead c t with
  | some (op, rest) =>
    match Assoc.get? operatorLevels op with
    | some own => if level < own then some (op, own, rest) else none
    | none => none
  | none => none

/-- Shape of the result of an operator. -/
def resultShape (op : String) : Shape :=
  if op == "??" then .coalescing
  else if op == "||" || op == "&&" then .logical
  else .other

/-- Whether an operator takes an operand of some shape. `??` does not mix with `&&` and `||`, and
    what stands left of `**` has no operator in front. -/
def takes (op : String) (left : Shape) : Bool :=
  if op == "??" then left != .logical
  else if op == "||" || op == "&&" then left != .coalescing
  else if op == "**" then left != .prefixed && left != .asserted
  else true

/-- A type behind an expression. -/
def typedOperand (call : Calls) (start : Nat) (op : String) (e : Operand) : Rule Operand := do
  let t ← within (fun c => { c with plainTypes := false }) (call .type)
  let how := if op == "as" then Wrapper.asType else .satisfies
  let shape := if e.shape.isPlace then Shape.simple else .other
  return ⟨.wrap how [] e.node [t] (← spanFrom start), shape⟩

/-- Goes on after an operand with every operator stronger than the level. -/
def operators (call : Calls) (start level : Nat) : Nat → Operand → Rule Operand
  | 0, _ => refuse
  | n + 1, e => do
    let t ← peek
    let c ← surroundings
    match strongerOperator c t level with
    | none => return e
    | some (op, own, rest) =>
      jumpTo rest
      if op == "as" || op == "satisfies" then
        let e ← typedOperand call start op e
        operators call start level n e
      else
        require (takes op e.shape)
        -- `**` groups to the right, all others to the left
        let right ← call (.binary (if op == "**" then own - 1 else own))
        require (op == "**" || takes op right.shape)
        operators call start level n
          ⟨.group [e.node, right.node] (← spanFrom start), resultShape op⟩

/-- An expression of operators stronger than a level. -/
def binaryRule (call : Calls) (level : Nat) : Rule Operand := do
  let start ← nextStart
  let e ← call .unary
  operators call start level (← surroundings).limit e

/-! ## Section 3: Arrow functions -/

/-- An arrow function after its head. -/
def arrowBody (call : Calls) (isAsync annotated : Bool) : Rule (List Node) := do
  if ← atPunct r"{" then functionBody call isAsync false
  else
    let e ← within (fun c => { c with inAwait := isAsync, inYield := false })
      (call (.assignment annotated))
    return [e.node]

/-- The arrow, which stands on the line of what is before it. -/
def arrowSign : Rule Unit := do
  let t ← peek
  require !t.newline
  expectPunct "=>"

/-- An arrow function whose only parameter is a bare name. -/
def bareArrow (call : Calls) (start : Nat) (isAsync annotated : Bool) : Rule Operand := do
  let id ← within (fun c => { c with inYield := false }) nameRule
  arrowSign
  let body ← arrowBody call isAsync annotated
  return ⟨.arrow (.params [.name id] id.span :: body) (← spanFrom start), .other⟩

/-- An arrow function with parentheses. Where a colon could also mean something else, one with a
    return type must be followed by that colon. -/
def fullArrow (call : Calls) (start : Nat) (isAsync annotated : Bool) : Rule Operand := do
  let head := inside isAsync false
  let outer ← surroundings
  let tps ← within head (optionalTypeParameters call)
  let ps ← within head (parameters call)
  let ret ← within head (optionalReturnType call)
  arrowSign
  let body ← within (fun c => { c with inFunction := outer.inFunction })
    (arrowBody call isAsync annotated)
  if !annotated && !ret.isEmpty then require (← atPunct ":")
  return ⟨.arrow (tps ++ ps ++ ret ++ body) (← spanFrom start), .other⟩

/-- An attempt at an arrow function that is made once per place. -/
def arrowOnce (r : Rule Operand) : Rule (Option Operand) := do
  let start ← nextStart
  let s ← state
  if s.notArrows.contains start then return none
  match ← attempt r with
  | some e => return some e
  | none =>
    fun _ s => .ok none { s with notArrows := start :: s.notArrows }

/-- Type parameters of an arrow function and not a markup element: a name followed by a comma, a
    default or a bound. -/
def atArrowTypeParameters : Rule Bool := ahead do
  expectPunct "<"
  let _ ← acceptWord "const"
  let _ ← nameRule
  if (← atPunct ",") || (← atPunct "=") then return true
  if ← acceptWord "extends" then
    let t ← peek
    return !(Token.isPunct t "=" || Token.isPunct t ">" || Token.isPunct t "/")
  return false

/-- `async` in front of an arrow function whose only parameter is a bare name. -/
def atAsyncName : Rule Bool := ahead do
  expectWord "async"
  let t ← peek
  let _ ← nameRule
  return !t.newline && (← atPunct "=>")

/-- `async` in front of parentheses or type parameters. -/
def atAsyncParameters : Rule Bool := ahead do
  expectWord "async"
  let t ← peek
  return (← atParameters) && !t.newline

/-- A bare name in front of an arrow. -/
def atBareArrow : Rule Bool := ahead do
  let _ ← nameRule
  let t ← peek
  return Token.isPunct t "=>" && !t.newline

/-- An arrow function, if one begins here. -/
def arrow? (call : Calls) (annotated : Bool) : Rule (Option Operand) := do
  let start ← nextStart
  let c ← surroundings
  if ← atBareArrow then return some (← bareArrow call start false annotated)
  if ← atAsyncName then
    let _ ← advance
    return some (← bareArrow call start true annotated)
  if ← atAsyncParameters then
    return ← arrowOnce do
      let _ ← advance
      fullArrow call start true annotated
  if ← atPunct "(" then return ← arrowOnce (fullArrow call start false annotated)
  if c.typed && (← atPunct "<") then
    if c.markup && !(← atArrowTypeParameters) then return none
    return ← arrowOnce (fullArrow call start false annotated)
  return none

/-! ## Section 4: Assignments and conditions -/

/-- Operators that assign the result of another operator. -/
def compoundAssignments : List String := [
  "+=", "-=", "**=", "*=", "/=", "%=", "<<=", ">>=", ">>>=", "&&=", "||=", "??=", "&=", "|=", "^="]

/-- The operator text at the next token. -/
def operatorText (t : Token) : Option (String × List Char) :=
  match t.kind with
  | .punct ">" => angleOperator t.text
  | .punct p => some (p, t.rest)
  | _ => none

/-- `yield` with its operand, which is optional. -/
def yieldExpression (call : Calls) (annotated : Bool) : Rule Operand := do
  let start ← nextStart
  expectWord "yield"
  let t ← peek
  if t.newline then return ⟨.literal (← spanFrom start), .other⟩
  let delegates ← acceptPunct "*"
  let t ← peek
  if delegates || startsExpression t then
    let e ← call (.assignment annotated)
    return ⟨.group [e.node] (← spanFrom start), .other⟩
  else return ⟨.literal (← spanFrom start), .other⟩

/-- The rest of a conditional expression after its condition. -/
def conditional (call : Calls) (start : Nat) (annotated : Bool) (e : Operand) : Rule Operand := do
  expectPunct "?"
  let yes ← within (fun c => { c with allowIn := true }) (call (.assignment false))
  expectPunct ":"
  let no ← call (.assignment annotated)
  return ⟨.group [e.node, yes.node, no.node] (← spanFrom start), .other⟩

/-- The rest of an assignment after its target. -/
def assignTo (call : Calls) (start : Nat) (annotated : Bool) (e : Operand) : Rule Operand := do
  let t ← peek
  match operatorText t with
  | some (op, rest) =>
    if op == "=" then
      toTarget e
      jumpTo rest
      let value ← call (.assignment annotated)
      return ⟨.group [e.node, value.node] (← spanFrom start), .withDefault⟩
    else if compoundAssignments.contains op then
      require e.shape.isPlace
      jumpTo rest
      let value ← call (.assignment annotated)
      return ⟨.group [e.node, value.node] (← spanFrom start), .other⟩
    else return e
  | none => return e

/-- An expression without commas. -/
def assignmentRule (call : Calls) (annotated : Bool) : Rule Operand := do
  let start ← nextStart
  let c ← surroundings
  if c.inYield && (← atWord "yield") then return ← yieldExpression call annotated
  if let some e ← arrow? call annotated then return e
  let e ← call (.binary 0)
  if ← atPunct "?" then return ← conditional call start annotated e
  assignTo call start annotated e

end BuildMacros.Script.Grammar
