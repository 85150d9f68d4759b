import BuildMacros.Config.Basic
import BuildMacros.Specifier

/-! # Factories

    Functions that make keyed functions, by their names. Of two entries for one
    name the first counts.
-/

namespace BuildMacros

/-- A factory whose source is resolved. -/
structure Factory where
  name : String
  /-- Comparison key of the module that it comes from. -/
  source : String
  argumentLength : UInt64
deriving DecidableEq, Repr

/-- Factories by name. -/
structure FactoryRegistry where
  byName : Assoc String Factory
deriving DecidableEq, Repr

namespace FactoryRegistry

/-- The registry with one more entry. -/
def add (aliases : AliasTable) (r : FactoryRegistry) (e : FactoryEntry) : FactoryRegistry :=
  if r.byName.has e.name then r
  else
    let source := Path.stripExtension (aliases.resolve e.source)
    ⟨r.byName.insert e.name ⟨e.name, source, e.argumentLength⟩⟩

/-- The registry of a list of entries. -/
def ofEntries (aliases : AliasTable) (es : List FactoryEntry) : FactoryRegistry :=
  es.foldl (add aliases) ⟨[]⟩

/-- The factory of a name. -/
def get? (r : FactoryRegistry) (name : String) : Option Factory := r.byName.get? name

/-- The names of all factories. -/
def names (r : FactoryRegistry) : List String := r.byName.keys

/-- Some name occurs in a text. -/
def isMentionedIn (r : FactoryRegistry) (code : String) : Bool :=
  r.names.any fun name => Text.contains name.toList code.toList

/-- No factory is registered. -/
def isEmpty (r : FactoryRegistry) : Bool := r.names.isEmpty

end FactoryRegistry

end BuildMacros
