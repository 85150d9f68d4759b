import BuildMacros.Script.Scope.Tracker

/-! # A second walk through the scopes

    A `Cursor` follows the walk that filled a tracker. It counts the scopes that it
    enters, so it is always in the scope in which the first walk was at the same
    moment; but its questions are answered from the finished tracker, which also
    knows the declarations that stand later in the text.
-/

namespace BuildMacros.Script

/-- A place in a repeated walk. -/
structure Cursor where
  tracker : Tracker
  /-- The open scopes, innermost first. -/
  stack : List Nat
  /-- Number of the scope that is entered next. -/
  next : Nat
deriving Repr, Inhabited

namespace Cursor

/-- The start of a walk. -/
def new (t : Tracker) : Cursor := ⟨t, [], 0⟩

/-- The innermost open scope, or the root when none is open. -/
def current (c : Cursor) : Nat := c.stack.head?.getD Tracker.root

/-- The next scope has the given properties. -/
def expects (c : Cursor) (flags : ScopeFlags) : Bool :=
  (c.tracker.scopes[c.next]?).any (·.flags = flags)

/-- Enters the next scope. -/
def push (c : Cursor) : Cursor := { c with stack := c.next :: c.stack, next := c.next + 1 }

/-- Enters the next scope, which must have the given properties. -/
def enter (c : Cursor) (flags : ScopeFlags) : Except ScopeFault Cursor :=
  if c.expects flags then .ok c.push else .error .diverged

/-- Leaves the innermost scope; without an open scope nothing happens. -/
def leave (c : Cursor) : Cursor := { c with stack := c.stack.tail }

/-- The declaration of a name that is visible here. -/
def get? (c : Cursor) (name : String) : Option Declaration :=
  c.tracker.getFrom? c.current name

/-- The place after one moment of the walk. -/
def step (c : Cursor) : Event → Cursor
  | .enter _ => c.push
  | .leave => c.leave
  | _ => c

/-- Every moment of a walk with the place at which it occurs. -/
def replay (c : Cursor) : List Event → List (Cursor × Event)
  | [] => []
  | e :: es => (c, e) :: replay (c.step e) es

end Cursor

/-- A moment of a walk over a module: what is met, and in which scope. -/
structure Moment where
  event : Event
  scope : Nat
deriving Inhabited

/-- The moments of a walk over a module whose scopes are known. -/
def Program.moments (p : Program) (t : Tracker) : List Moment :=
  ((Cursor.new t).replay p.events).map fun (c, e) => ⟨e, c.current⟩

end BuildMacros.Script
