import BuildMacros.Script.Node

/-! # Rules of the grammar

    A `Rule` reads part of a script: given the surroundings and the state of the
    scan it answers a value and the next state, or refuses. Rules that refuse leave
    nothing behind but the record of places that were found not to begin an arrow
    function, which keeps repeated attempts from growing with the depth of nesting.

    Rules call each other through `Calls`, a function from the nonterminals that
    the grammar is recursive in to their rules. Every rule is an ordinary
    definition over `Calls`; the recursion is tied in `BuildMacros.Script.Grammar`,
    where each turn through a nonterminal costs one unit of fuel.
-/

namespace BuildMacros.Script.Grammar

open BuildMacros.Text

/-! ## Section 1: State and surroundings -/

/-- The state of a scan. -/
structure State where
  /-- The text after the last token that was read. -/
  here : List Char
  /-- The offset of that text. -/
  pos : Nat
  /-- The next token. -/
  token : Token
  /-- Starts of parentheses that begin no arrow function. -/
  notArrows : List Nat
  /-- Shorthand properties with a default that have not become part of an assignment target. -/
  pending : List Nat

/-- What surrounds the construct being read. -/
structure Surroundings where
  /-- Type syntax is understood. -/
  typed : Bool
  /-- Markup is understood. -/
  markup : Bool
  /-- `in` is an operator. -/
  allowIn : Bool
  inAwait : Bool
  inYield : Bool
  /-- Inside a function body. -/
  inFunction : Bool
  /-- Inside a declaration that describes something defined elsewhere. -/
  ambient : Bool
  /-- A type may not be conditional here. -/
  plainTypes : Bool
  /-- More than the number of characters of the script; bounds every loop. -/
  limit : Nat

/-- The answer of a rule. -/
inductive Reply (α : Type) where
  | ok (a : α) (s : State)
  | refused (notArrows : List Nat)

/-- A rule of the grammar. -/
def Rule (α : Type) := Surroundings → State → Reply α

namespace Rule

/-- Answers a value and reads nothing. -/
def pure {α : Type} (a : α) : Rule α := fun _ s => .ok a s

/-- One rule after another. -/
def bind {α β : Type} (r : Rule α) (f : α → Rule β) : Rule β := fun c s =>
  match r c s with
  | .ok a s => f a c s
  | .refused m => .refused m

instance : Monad Rule where
  pure := pure
  bind := bind

end Rule

/-- Refuses. -/
def refuse {α : Type} : Rule α := fun _ s => .refused s.notArrows

/-- The surroundings. -/
def surroundings : Rule Surroundings := fun c s => .ok c s

/-- A rule in other surroundings. -/
def within {α : Type} (f : Surroundings → Surroundings) (r : Rule α) : Rule α :=
  fun c s => r (f c) s

/-- The state. -/
def state : Rule State := fun _ s => .ok s s

/-- Tries a rule; when it refuses, nothing was read. -/
def attempt {α : Type} (r : Rule α) : Rule (Option α) := fun c s =>
  match r c s with
  | .ok a s' => .ok (some a) s'
  | .refused m => .ok none { s with notArrows := m }

/-- Answers whether a condition holds after a rule, and reads nothing. -/
def ahead (r : Rule Bool) : Rule Bool := fun c s =>
  match r c s with
  | .ok b _ => .ok b s
  | .refused _ => .ok false s

/-! ## Section 2: Tokens -/

/-- The next token. -/
def peek : Rule Token := fun _ s => .ok s.token s

/-- The state behind the next token. -/
def State.behind (s : State) : State :=
  { s with
    here := s.token.rest
    pos := s.token.span.stop
    token := scanToken s.token.span.stop s.token.rest }

/-- Reads the next token. -/
def advance : Rule Token := fun _ s => .ok s.token s.behind

/-- Moves to a later place of the text, given the text from there on. -/
def jumpTo (rest : List Char) : Rule Unit := fun _ s =>
  let pos := s.pos + (byteLength s.here - byteLength rest)
  .ok () { s with here := rest, pos := pos, token := scanToken pos rest }

/-- Offset of the end of the last token that was read. -/
def lastEnd : Rule Nat := fun _ s => .ok s.pos s

/-- Offset at which the next token starts. -/
def nextStart : Rule Nat := fun _ s => .ok s.token.span.start s

/-- The span from an offset to the end of the last token. -/
def spanFrom (start : Nat) : Rule Span := fun _ s => .ok ⟨start, s.pos⟩ s

/-- The next token is the given operator. -/
def atPunct (p : String) : Rule Bool := fun _ s => .ok (Token.isPunct s.token p) s

/-- The next token is the given word. -/
def atWord (w : String) : Rule Bool := fun _ s => .ok (Token.isWord s.token w) s

/-- Reads the given operator if it is next. -/
def acceptPunct (p : String) : Rule Bool := fun _ s =>
  if Token.isPunct s.token p then .ok true s.behind else .ok false s

/-- Reads the given word if it is next. -/
def acceptWord (w : String) : Rule Bool := fun _ s =>
  if Token.isWord s.token w then .ok true s.behind else .ok false s

/-- Reads the given operator if it is next, where types are understood. -/
def acceptTypedPunct (p : String) : Rule Bool := do
  if (← surroundings).typed then acceptPunct p else return false

/-- Reads the given word if it is next, where types are understood. -/
def acceptTypedWord (w : String) : Rule Bool := do
  if (← surroundings).typed then acceptWord w else return false

/-- Reads the given operator. -/
def expectPunct (p : String) : Rule Unit := fun _ s =>
  if Token.isPunct s.token p then .ok () s.behind else .refused s.notArrows

/-- Reads the given word. -/
def expectWord (w : String) : Rule Unit := fun _ s =>
  if Token.isWord s.token w then .ok () s.behind else .refused s.notArrows

/-- Refuses unless the condition holds. -/
def require (b : Bool) : Rule Unit := if b then pure () else refuse

/-- A statement ends at a semicolon, which is read, before a closing brace, at the end of the
    script, or at a line break. -/
def endStatement : Rule Unit := do
  if ← acceptPunct ";" then return ()
  let t ← peek
  require (t.newline || Token.isPunct t r"}" || t.kind == .eof)

/-- A statement could end here. -/
def canEndStatement : Rule Bool := do
  let t ← peek
  return t.newline || Token.isPunct t ";" || Token.isPunct t r"}" || t.kind == .eof

/-! ## Section 3: Names -/

/-- A word that can be bound or referred to. `await` is none in a module and in an asynchronous
    function, `yield` none in a generator. -/
def isFreeWord (c : Surroundings) (w : String) : Bool :=
  !isReserved w && !(w == "await" && c.inAwait) && !(w == "yield" && c.inYield)

/-- A name that can be bound or referred to. -/
def nameRule : Rule Ident := do
  let t ← peek
  let c ← surroundings
  match t.kind with
  | .word w _ =>
    require (isFreeWord c w)
    let t ← advance
    return ⟨w, t.span⟩
  | _ => refuse

/-- Any word, as the name of a property. -/
def wordRule : Rule Ident := do
  let t ← peek
  match t.kind with
  | .word w _ =>
    let t ← advance
    return ⟨w, t.span⟩
  | _ => refuse

/-! ## Section 4: Loops -/

/-- Repeats a step until it answers nothing. -/
def manyUpTo {α : Type} (step : Rule (Option α)) : Nat → Rule (List α)
  | 0 => refuse
  | n + 1 => do
    match ← step with
    | none => return []
    | some a =>
      let more ← manyUpTo step n
      return a :: more

/-- Repeats a step until it answers nothing. -/
def many {α : Type} (step : Rule (Option α)) : Rule (List α) := do
  manyUpTo step (← surroundings).limit

/-- Items separated by commas up to a closing operator, which is read. A comma may follow the
    last item. -/
def commaListUpTo {α : Type} (item : Rule α) (close : String) : Nat → Rule (List α)
  | 0 => refuse
  | n + 1 => do
    if ← acceptPunct close then return []
    let a ← item
    if ← acceptPunct close then return [a]
    expectPunct ","
    let more ← commaListUpTo item close n
    return a :: more

/-- Items separated by commas up to a closing operator, which is read. -/
def commaList {α : Type} (item : Rule α) (close : String) : Rule (List α) := do
  commaListUpTo item close (← surroundings).limit

/-- One or more items separated by commas. -/
def commaItemsUpTo {α : Type} (item : Rule α) : Nat → Rule (List α)
  | 0 => refuse
  | n + 1 => do
    let a ← item
    if ← acceptPunct "," then
      let more ← commaItemsUpTo item n
      return a :: more
    else return [a]

/-- One or more items separated by commas. -/
def commaItems {α : Type} (item : Rule α) : Rule (List α) := do
  commaItemsUpTo item (← surroundings).limit

/-- Items up to a closing operator, which is read. -/
def untilPunct {α : Type} (item : Rule α) (close : String) : Rule (List α) :=
  many do
    if ← acceptPunct close then return none
    let a ← item
    return some a

/-- The result of a rule as a list, or nothing when a condition fails. -/
def listIf {α : Type} (b : Bool) (r : Rule α) : Rule (List α) :=
  if b then do return [← r] else pure []

/-! ## Section 5: Expressions as operands -/

/-- What may be done with an expression besides taking its value. -/
inductive Shape where
  /-- It can be assigned to. -/
  | simple
  /-- It can be assigned to, but begins with a type in angle brackets. -/
  | asserted
  /-- An array or object literal that can be read as a pattern; the offsets are its shorthand
      properties with defaults. -/
  | pattern (pending : List Nat)
  /-- An assignment that can be read as a pattern with a default. -/
  | withDefault
  /-- Begins with a unary operator. -/
  | prefixed
  /-- `&&` or `||` at the top. -/
  | logical
  /-- `??` at the top. -/
  | coalescing
  | other
deriving DecidableEq, Repr, Inhabited

/-- The expression stands for a variable or a property. -/
def Shape.isPlace : Shape → Bool
  | simple | asserted => true
  | _ => false

/-- An expression with its shape. -/
structure Operand where
  node : Node
  shape : Shape
deriving Inhabited

/-- The expression is a name. -/
def Operand.isName (e : Operand) : Bool :=
  match e.node with
  | .use _ => true
  | _ => false

/-- Turns an expression into an assignment target, if it can be one. -/
def toTarget (e : Operand) : Rule Unit := fun _ s =>
  match e.shape with
  | .simple | .asserted => .ok () s
  | .pattern cleared => .ok () { s with pending := s.pending.filter fun p => !cleared.contains p }
  | _ => .refused s.notArrows

/-! ## Section 6: Nonterminals -/

/-- The nonterminals through which the grammar is recursive. -/
inductive Goal : Type → Type where
  /-- A statement; `single` where it is the body of another one. -/
  | statement (single : Bool) : Goal Node
  /-- An expression without commas. With `annotated`, an arrow function may state its return type
      although a colon could also mean something else. -/
  | assignment (annotated : Bool) : Goal Operand
  /-- An expression of operators that bind more tightly than a level. -/
  | binary (level : Nat) : Goal Operand
  | unary : Goal Operand
  /-- A chain of members and calls; in a decorator no brackets belong to it. -/
  | chain (decorator : Bool) : Goal Operand
  /-- What `new` is applied to. -/
  | constructed : Goal Node
  | type : Goal Node
  /-- A pattern that binds names. -/
  | pattern : Goal Node
  /-- A markup element, from its opening angle bracket. -/
  | element : Goal Node

/-- The rules of the nonterminals. -/
abbrev Calls := {α : Type} → Goal α → Rule α

/-- An expression without commas in brackets of some kind. -/
def operand (call : Calls) : Rule Operand :=
  within (fun c => { c with allowIn := true }) (call (.assignment true))

/-- An expression, commas included. -/
def expression (call : Calls) : Rule Operand := do
  let start ← nextStart
  let es ← commaItems (call (.assignment true))
  match es with
  | [e] => return e
  | _ => return ⟨.group (es.map Operand.node) (← spanFrom start), .other⟩

/-- An expression in brackets, where `in` is an operator. -/
def inner (call : Calls) : Rule Operand :=
  within (fun c => { c with allowIn := true }) (expression call)

/-- A leaf made of the next token. -/
def leaf : Rule Node := do
  let t ← advance
  return .literal t.span

/-! ## Section 7: Templates -/

/-- Parts of a template after its head was read: an embedded item, a brace, and the text up to the
    next item. -/
def templateItems (strict : Bool) (item : Rule Node) : Nat → Rule (List Node)
  | 0 => refuse
  | n + 1 => do
    let a ← item
    let t ← peek
    require (Token.isPunct t r"}")
    match templateChars strict (t.rest.length + 1) t.rest with
    | some (closed, rest) =>
      jumpTo rest
      if closed then return [a]
      let more ← templateItems strict item n
      return a :: more
    | none => refuse

/-- A template with the given kind of embedded items. -/
def templateRule (strict : Bool) (item : Rule Node) : Rule Node := do
  let t ← peek
  let c ← surroundings
  match templateChars strict (t.text.length + 1) (t.text.drop 1) with
  | some (closed, rest) =>
    let start := t.span.start
    jumpTo rest
    let parts ← if closed then pure [] else templateItems strict item c.limit
    return .template parts (← spanFrom start)
  | none => refuse

end BuildMacros.Script.Grammar
