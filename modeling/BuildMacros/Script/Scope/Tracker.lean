import BuildMacros.Script.Outline
import BuildMacros.Assoc

/-! # The tree of scopes

    A `Tracker` grows while a module is walked: `enter` opens a scope inside the
    innermost open one, `leave` closes it, `declare` records a name. Scopes are
    numbered in the order in which they are entered, so the scope around another
    one has the smaller number. After the walk the tracker is frozen; then it only
    answers questions.

    Of several declarations of a name in one scope the first counts, but an import
    gives way to a local declaration.
-/

namespace BuildMacros.Script

/-! ## Section 1: Types -/

/-- A binding and the number of the scope that owns it. -/
structure Declaration extends Binding where
  scope : Nat
deriving DecidableEq, Repr, Inhabited

namespace Declaration

/-- What the name is imported as, if it is imported. -/
def import? (d : Declaration) : Option ImportBinding :=
  match d.kind with
  | .imported b => some b
  | _ => none

/-- The name is imported. -/
def isImport (d : Declaration) : Bool := d.import?.isSome

/-- What the name is imported as, imports of types excepted. -/
def valueImport? (d : Declaration) : Option ImportBinding := d.import?.filter fun b => !b.typeOnly

end Declaration

/-- One scope. -/
structure Scope where
  /-- The scope around it. -/
  parent : Option Nat
  flags : ScopeFlags
  declarations : Assoc String Declaration
deriving Repr, Inhabited

/-- The scopes of a module. -/
structure Tracker where
  /-- All scopes by their numbers. -/
  scopes : List Scope
  /-- The open scopes, innermost first. -/
  stack : List Nat
  frozen : Bool
  /-- Declarations stay when their scope is left. -/
  preserve : Bool
deriving Repr, Inhabited

/-- Misuse of a tracker. -/
inductive ScopeFault where
  /-- A frozen tracker enters no scope. -/
  | frozenEnter
  /-- A frozen tracker declares nothing. -/
  | frozenDeclare (name : String)
  /-- A declaration names a scope that does not exist. -/
  | noSuchScope
  /-- A replay enters a scope that the walk did not. -/
  | diverged
deriving DecidableEq, Repr

/-- Wording of a misuse, where it has one. -/
def ScopeFault.message? : ScopeFault → Option String
  | frozenEnter => some "scope tracker is frozen; use a ScopeCursor to replay scopes"
  | frozenDeclare name =>
    some ("cannot declare \x60" ++ name ++ "\x60 after the scope tracker has been frozen")
  | _ => none

namespace Tracker

/-- Number of the scope that is entered first. -/
def root : Nat := 0

/-- A tracker that has seen nothing. -/
def new (preserve : Bool) : Tracker := ⟨[], [], false, preserve⟩

/-- Number of scopes. -/
def count (t : Tracker) : Nat := t.scopes.length

/-- The innermost open scope. -/
def current? (t : Tracker) : Option Nat := t.stack.head?

/-- The innermost open scope, or the root when none is open. -/
def here (t : Tracker) : Nat := t.current?.getD root

/-- The scope that a `var` declares in: the nearest open one of a module, function or static
    block. -/
def hoistTarget? (t : Tracker) : Option Nat :=
  t.stack.find? fun id => (t.scopes[id]?).any (·.flags.hoists)

/-! ## Section 2: Growth -/

/-- Enters a new scope. -/
def push (t : Tracker) (flags : ScopeFlags) : Tracker :=
  { t with scopes := t.scopes ++ [⟨t.current?, flags, []⟩], stack := t.count :: t.stack }

/-- Leaves the innermost scope; without an open scope nothing happens. -/
def leave (t : Tracker) : Tracker :=
  match t.stack with
  | [] => t
  | id :: stack =>
    { t with
      stack := stack
      scopes := if t.preserve then t.scopes
        else t.scopes.modify id fun s => { s with declarations := [] } }

/-- Whether a declaration takes the place of what its scope knows about the name. -/
def replaces (known : Option Declaration) (d : Declaration) : Bool :=
  match known with
  | none => true
  | some other => other.isImport && !d.isImport

/-- A scope with one more declaration. -/
def addTo (s : Scope) (d : Declaration) : Scope :=
  if replaces (s.declarations.get? d.name) d then
    { s with declarations := s.declarations.insert d.name d }
  else s

/-- Records a declaration in its scope. -/
def record (t : Tracker) (d : Declaration) : Tracker :=
  { t with scopes := t.scopes.modify d.scope (addTo · d) }

/-- Ends the growth; all scopes are left. -/
def freeze (t : Tracker) : Tracker := { t with frozen := true, stack := [] }

/-- Enters a new scope and answers its number. -/
def enter (t : Tracker) (flags : ScopeFlags) : Except ScopeFault (Nat × Tracker) :=
  if t.frozen then .error .frozenEnter else .ok (t.count, t.push flags)

/-- Records a declaration in its scope. -/
def declare (t : Tracker) (d : Declaration) : Except ScopeFault Tracker :=
  if t.frozen then .error (.frozenDeclare d.name)
  else if d.scope < t.count then .ok (t.record d)
  else .error .noSuchScope

/-! ## Section 3: Questions -/

/-- The scope around a scope. -/
def parent? (t : Tracker) (id : Nat) : Option Nat := (t.scopes[id]?).bind Scope.parent

/-- A scope and the scopes around it, nearest first; the first argument bounds their number. -/
def chainUpTo (t : Tracker) : Nat → Nat → List Nat
  | 0, _ => []
  | n + 1, id => id :: match t.parent? id with
    | some p => chainUpTo t n p
    | none => []

/-- A scope and the scopes around it, nearest first. Their numbers fall, so there are no more of
    them than the number of the first. -/
def chain (t : Tracker) (id : Nat) : List Nat := t.chainUpTo (id + 1) id

/-- What one scope knows about a name. -/
def own? (t : Tracker) (name : String) (id : Nat) : Option Declaration :=
  (t.scopes[id]?).bind fun s => s.declarations.get? name

/-- The declaration of a name that is visible in a scope: the one of the nearest scope that knows
    the name. -/
def getFrom? (t : Tracker) (id : Nat) (name : String) : Option Declaration :=
  (t.chain id).findSome? (t.own? name)

/-- The declaration of a name that is visible in the innermost open scope. -/
def get? (t : Tracker) (name : String) : Option Declaration := t.getFrom? t.here name

/-- A scope is another one or lies inside it. -/
def isWithin (t : Tracker) (id ancestor : Nat) : Bool := (t.chain id).contains ancestor

end Tracker

/-! ## Section 4: The walk -/

/-- The scope that a binding belongs to at some moment of the walk. Imports belong to the module
    wherever they stand. -/
def Binding.owner (b : Binding) (t : Tracker) : Nat :=
  match b.kind with
  | .imported _ => Tracker.root
  | .variable .var => t.hoistTarget?.getD Tracker.root
  | _ => t.here

/-- The tracker after one moment of the walk. -/
def Tracker.step (t : Tracker) : Event → Tracker
  | .enter flags => t.push flags
  | .leave => t.leave
  | .declare b => t.record ⟨b, b.owner t⟩
  | .use _ => t
  | .call _ => t
  | .await => t

/-- The frozen scopes of a module. -/
def Tracker.collect (p : Program) : Tracker :=
  (p.events.foldl Tracker.step (Tracker.new true)).freeze

end BuildMacros.Script
