import BuildMacros.Script.Node
import BuildMacros.NameFilter

/-! # Calls whose callee is known

    A `StaticCall` describes a call whose callee is a name, or a member of a name
    with a fixed key: `f()`, `ns.f()`, `ns['f']()`. Parentheses and type operators
    around the callee, or around the name it is a member of, change nothing.
    Deeper members, computed keys and every other callee are not static.
-/

namespace BuildMacros.Script

/-! ## Section 1: Wrappers -/

/-- The expression inside all its wrappers. -/
def Node.unwrap : Node → Node
  | .wrap _ _ inner _ _ => inner.unwrap
  | n => n

/-- The node is a wrapped expression. -/
def Node.isWrapped : Node → Bool
  | .wrap _ _ _ _ _ => true
  | _ => false

/-- The name that an expression is, wrappers aside. -/
def Node.wrappedName? (n : Node) : Option String :=
  match n.unwrap with
  | .use id => some id.name
  | _ => none

/-! ## Section 2: Callees -/

/-- Which node is replaced when a callee is redirected. -/
inductive CalleeForm where
  /-- The name `f` of `f()`. -/
  | identifier
  /-- All of a wrapped callee. -/
  | wrapped
  /-- The key `f` of `ns.f()`. -/
  | property
  /-- All of `ns['f']`. -/
  | computed
deriving DecidableEq, Repr

/-- A callee that is known. -/
structure Callee where
  name : String
  /-- The name that it is a member of. -/
  qualifier : Option String
  form : CalleeForm
  /-- Where the node stands that is replaced when the callee is redirected. -/
  span : Span
deriving DecidableEq, Repr

/-- A callee without wrappers around it. -/
def Node.bareCallee? : Node → Option Callee
  | .use id => some ⟨id.name, none, .identifier, id.span⟩
  | .member object property _ =>
    object.wrappedName?.map fun q => ⟨property.name, some q, .property, property.span⟩
  | .index object (.string key _) span =>
    object.wrappedName?.map fun q => ⟨key, some q, .computed, span⟩
  | _ => none

/-- A callee. When it is wrapped, redirecting it replaces all of it. -/
def Node.callee? (n : Node) : Option Callee :=
  if n.isWrapped then n.unwrap.bareCallee?.map fun c => { c with form := .wrapped, span := n.span }
  else n.bareCallee?

/-! ## Section 3: Calls -/

/-- A call whose callee is known. -/
structure StaticCall where
  callee : Callee
  args : List Node
  /-- The call is written `?.(`. -/
  isOptional : Bool
  /-- Where the whole call stands. -/
  span : Span

namespace StaticCall

/-- The name that decides what is called. -/
def binding (c : StaticCall) : String := c.callee.qualifier.getD c.callee.name

/-- The argument spreads a list. -/
def isSpread : Node → Bool
  | .spread _ _ => true
  | _ => false

/-- The argument is a string or template. -/
def isText : Node → Bool
  | .string _ _ => true
  | .template _ _ => true
  | _ => false

/-- Some argument spreads a list. -/
def hasSpread (c : StaticCall) : Bool := c.args.any isSpread

/-- The argument at an index is a string or template. -/
def hasTextAt (c : StaticCall) (i : Nat) : Bool := (c.args[i]?).any isText

end StaticCall

/-- The static call that a call expression is, if its name passes. -/
def Node.staticCall? (filter : NameFilter) : Node → Option StaticCall
  | .call callee _ args optional span =>
    match callee.callee? with
    | some c => if filter.accepts c.name then some ⟨c, args, optional, span⟩ else none
    | none => none
  | _ => none

/-- The call behind wrappers, waits and one optional chain. -/
def Node.innerCall? : Node → Option Node
  | .wrap _ _ inner _ _ => inner.innerCall?
  | .await inner _ => inner.innerCall?
  | .call callee typeArgs args optional span => some (.call callee typeArgs args optional span)
  | .chain (.call callee typeArgs args optional span) _ =>
    some (.call callee typeArgs args optional span)
  | _ => none

/-- The static call behind wrappers, waits and one optional chain, if its name passes. -/
def Node.staticFunctionCall? (filter : NameFilter) (n : Node) : Option StaticCall :=
  n.innerCall?.bind (·.staticCall? filter)

end BuildMacros.Script
