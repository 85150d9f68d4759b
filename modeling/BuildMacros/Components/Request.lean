import BuildMacros.Text.Basic

/-! # Requested components

    A name that a component is asked for by may begin with `Lazy` or `lazy-`, and
    after that with a word for the moment at which the component hydrates. What is
    left is the name of the component.
-/

namespace BuildMacros.Components

open BuildMacros.Text

/-! ## Section 1: Strategies -/

/-- When a component that was rendered by the server hydrates. -/
inductive Strategy where
  | idle
  | visible
  | interaction
  | mediaQuery
  | condition
  | never
  | time
deriving DecidableEq, Repr

/-- The word for a strategy in the name of a component. -/
def Strategy.word : Strategy → String
  | idle => "Idle"
  | visible => "Visible"
  | interaction => "Interaction"
  | mediaQuery => "MediaQuery"
  | condition => "If"
  | never => "Never"
  | time => "Time"

/-- Words that select a strategy; they are tried in this order. -/
def modifiers : List (String × Strategy) := [
  ("Idle", .idle), ("Visible", .visible), ("idle-", .idle), ("visible-", .visible),
  ("Interaction", .interaction), ("interaction-", .interaction),
  ("MediaQuery", .mediaQuery), ("media-query-", .mediaQuery),
  ("If", .condition), ("if-", .condition), ("Never", .never), ("never-", .never),
  ("Time", .time), ("time-", .time)]

/-! ## Section 2: Requests -/

/-- A word that a name begins with, and the strategy that it selects. -/
structure Modifier where
  word : String
  strategy : Strategy
deriving DecidableEq, Repr

/-- A requested name in its parts. -/
structure Request where
  /-- The component is loaded when it is needed. -/
  isLazy : Bool
  modifier : Option Modifier
  name : String
deriving DecidableEq, Repr

/-- What follows the mark of lazy names: `lazy-`, or `Lazy` before a capital letter. -/
def afterLazy? (cs : List Char) : Option (List Char) :=
  match strip? "lazy-".toList cs with
  | some rest => some rest
  | none =>
    match strip? "Lazy".toList cs with
    | some rest => if rest.head?.any Char.isUpper then some rest else none
    | none => none

/-- The first modifier that a name begins with, and the rest of the name. -/
def modifier? (cs : List Char) : List (String × Strategy) → Option (Modifier × List Char)
  | [] => none
  | (word, strategy) :: more =>
    match strip? word.toList cs with
    | some rest => some (⟨word, strategy⟩, rest)
    | none => modifier? cs more

/-- The parts of a requested name. Only lazy names have modifiers. -/
def Request.parse (raw : String) : Request :=
  match afterLazy? raw.toList with
  | none => ⟨false, none, raw⟩
  | some rest =>
    match modifier? rest modifiers with
    | some (m, name) => ⟨true, some m, String.ofList name⟩
    | none => ⟨true, none, String.ofList rest⟩

end BuildMacros.Components
