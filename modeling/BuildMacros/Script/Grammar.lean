import BuildMacros.Script.Grammar.Statements
import BuildMacros.Script.Grammar.Markup
import BuildMacros.Script.Dialect
import BuildMacros.Script.Outline

/-! # Reading a module

    `Program.parse?` reads a whole module in a dialect. The rules of the grammar
    call each other through their nonterminals; here the knot is tied, with a fuel
    that no text exhausts before its tokens: between two turns through the same
    nonterminal at least one token is read, and a token is at least one character.

    What is read is a module: scripts that are none, such as one with `return` outside
    of functions, are refused. Rules of the language that relate distant places are no
    part of the grammar. So labels without a loop, names that are declared twice and
    private names of no class are read, and so are the words that only strict code
    reserves. Patterns of regular expressions are passed over; the accessors of an object
    type may have any parameters.
-/

namespace BuildMacros.Script

open BuildMacros.Text

namespace Grammar

/-- The rule of every nonterminal, with a bound for the depth of nesting. -/
def rules : Nat → Calls
  | 0, _, _ => refuse
  | n + 1, _, goal => match goal with
    | .statement single => statementRule (rules n) single
    | .assignment annotated => assignmentRule (rules n) annotated
    | .binary level => binaryRule (rules n) level
    | .unary => unaryRule (rules n)
    | .chain decorator => chainRule (rules n) decorator
    | .constructed => constructedRule (rules n)
    | .type => typeRule (rules n)
    | .pattern => patternRule (rules n)
    | .element => elementRule (rules n)

/-- The statements of a module up to its end. -/
def moduleBody (fuel : Nat) : Rule (List Node) := do
  let body ← many do
    let t ← peek
    if t.kind == .eof then return none
    return some (← rules fuel (.statement false))
  let s ← state
  require s.pending.isEmpty
  return body

/-- The surroundings of a module. -/
def Surroundings.ofModule (d : Dialect) (limit : Nat) : Surroundings where
  typed := d.typed
  markup := d.markup
  allowIn := true
  inAwait := true
  inYield := false
  inFunction := false
  ambient := false
  plainTypes := false
  limit := limit

/-- The state in front of a text at an offset. -/
def State.ofText (pos : Nat) (cs : List Char) : State :=
  ⟨cs, pos, scanToken pos cs, [], []⟩

/-- A first line that names an interpreter is no part of the script. -/
def dropInterpreterLine (cs : List Char) : List Char :=
  match cs with
  | '#' :: '!' :: rest => rest.dropWhile fun c => !isLineBreak c
  | _ => cs

/-- A string that stands alone at the head of a module is a directive. -/
def isDirective : Node → Bool
  | .expression (.string _ _) => true
  | _ => false

/-- The names that a statement exports. -/
def exportedNames : Node → List String
  | .exportDeclaration (.variableDeclaration _ declarators _) _ =>
    (boundNamesOf (targetsOutline declarators)).map Ident.name
  | .exportDeclaration (.function _ id _ _) _ => (id.map Ident.name).toList
  | .exportDeclaration (.cls _ _ id _ _) _ => (id.map Ident.name).toList
  | .exportNames specifiers _ _ => specifiers.map fun s => s.exported.id.name
  | .exportDefault _ => ["default"]
  | _ => []

end Grammar

open Grammar in
/-- The syntax tree of a module; nothing when the text is none. Without types no name is exported
    twice; where there are types, values and types share names. -/
def Program.parse? (d : Dialect) (text : List Char) : Option Program :=
  let body := dropInterpreterLine text
  let start := State.ofText (byteLength text - byteLength body) body
  match moduleBody (6 * text.length + 16) (.ofModule d (text.length + 2)) start with
  | .ok body _ =>
    if d.typed || (body.flatMap exportedNames).Nodup then some ⟨body.dropWhile isDirective⟩
    else none
  | .refused _ => none

end BuildMacros.Script
