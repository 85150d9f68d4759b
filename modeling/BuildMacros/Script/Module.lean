import BuildMacros.Error
import BuildMacros.Script.Block
import BuildMacros.Script.Grammar
import BuildMacros.Script.Scope.Cursor

/-! # Parsed modules

    A module as the passes look at it: the block that is parsed, its syntax tree,
    and its scopes. Spans count from the start of the block; `inFile` moves them to
    the whole text.
-/

namespace BuildMacros.Script

/-- A module that parses. -/
structure Module where
  block : Block
  program : Program
  scopes : Tracker

namespace Module

/-- Parses a block of a module in its own language, or else in the one of the module's id. -/
def ofBlock (id : String) (b : Block) : Except Failure Module :=
  match Program.parse? (dialect id b.lang) b.content.toList with
  | some p => .ok ⟨b, p, .collect p⟩
  | none => .error (.unparsable id none)

/-- Parses the part of a module that is looked at. -/
def parse (code id : String) : Except Failure Module := ofBlock id (locate code id)

/-- What a walk over the module meets, and in which scopes. -/
def moments (m : Module) : List Moment := m.program.moments m.scopes

/-- An offset in the block as an offset in the whole text. -/
def inFile (m : Module) (pos : Nat) : Nat := pos + m.block.offset

/-- The text of a span of the block. -/
def textAt (m : Module) (span : Span) : String :=
  String.ofList (Text.slice m.block.content.toList span.start span.stop)

end Module

end BuildMacros.Script
