import BuildMacros.Config.Basic
import BuildMacros.Error
import BuildMacros.Pattern.Reader
import BuildMacros.Specifier

/-! # Keyed functions

    Functions whose calls get a key. A `KeyedStore` collects entries and only
    grows; sealing it resolves all sources and makes a `KeyedRegistry`, which only
    answers questions. So whoever holds a registry holds all entries.

    Of two entries for one name and one source the first counts. A default export
    is called by the name of its file, so its entry is found under that name; an
    importer may call it anything.
-/

namespace BuildMacros

/-! ## Section 1: Types -/

/-- A keyed function whose source is resolved. -/
structure KeyedFunction where
  /-- Name that the function is called by. -/
  name : String
  /-- Name in the module that it comes from, `default` for default exports. -/
  exportName : String
  /-- Comparison key of that module; nothing for patterns and functions without a source. -/
  source : Option String
  argumentLength : UInt64
deriving DecidableEq, Repr

/-- Entries collected before any key is given. -/
structure KeyedStore where
  entries : List KeyedEntry
deriving DecidableEq, Repr

/-- Sealed entries. -/
structure KeyedRegistry where
  /-- By name and comparison key of the module. -/
  byPath : Assoc (String × String) KeyedFunction
  /-- By name, with the patterns of modules in the order of the entries. -/
  byPattern : List (Pattern × KeyedFunction)
  /-- By name alone. -/
  sourceless : Assoc String KeyedFunction
  /-- Stems of the files whose default exports are keyed. -/
  defaultStems : List String

namespace KeyedRegistry

/-! ## Section 2: Building -/

/-- No entries. -/
def empty : KeyedRegistry := ⟨[], [], [], []⟩

/-- A map with a value for a key, unless it has one. -/
def insertNew {α β : Type} [BEq α] (m : Assoc α β) (k : α) (v : β) : Assoc α β :=
  if m.has k then m else m.insert k v

/-- Name that an entry's function is called by. -/
def callName (name resolved : String) : String :=
  if name = "default" then Naming.defaultExportName resolved else name

/-- The registry with a function of a module. -/
def addPath (r : KeyedRegistry) (aliases : AliasTable) (e : KeyedEntry) (source : String) :
    KeyedRegistry :=
  let resolved := Path.stripExtension (aliases.resolve source)
  let name := callName e.name resolved
  { r with
    byPath := insertNew r.byPath (name, resolved) ⟨name, e.name, some resolved, e.argumentLength⟩
    defaultStems :=
      if e.name = "default" then r.defaultStems ++ [Naming.fileStem resolved] else r.defaultStems }

/-- The function of an entry whose source is no module. -/
def looseFunction (e : KeyedEntry) : KeyedFunction := ⟨e.name, e.name, none, e.argumentLength⟩

/-- The registry with one more entry. What is wrong with a pattern that cannot be read is left
    open. -/
def add (aliases : AliasTable) (r : KeyedRegistry) (e : KeyedEntry) :
    Except Failure KeyedRegistry :=
  match e.source with
  | some (.path source) => .ok (r.addPath aliases e source)
  | some (.pattern text) =>
    match Pattern.parse text with
    | some p => .ok { r with byPattern := r.byPattern ++ [(p, looseFunction e)] }
    | none => .error (.config (.invalidPattern e.name))
  | none => .ok { r with sourceless := insertNew r.sourceless e.name (looseFunction e) }

/-- The registry of a list of entries; the first invalid pattern is reported. -/
def ofEntries (aliases : AliasTable) (es : List KeyedEntry) : Except Failure KeyedRegistry :=
  es.foldlM (add aliases) empty

/-! ## Section 3: Questions -/

/-- The function of a name that a module exports: by its path, or else by the first pattern that
    matches. -/
def get? (r : KeyedRegistry) (name source : String) : Option KeyedFunction :=
  match r.byPath.get? (name, source) with
  | some f => some f
  | none => (r.byPattern.find? fun e => e.2.name == name && e.1.isMatch source).map Prod.snd

/-- The function of a name that has no source. -/
def sourceless? (r : KeyedRegistry) (name : String) : Option KeyedFunction := r.sourceless.get? name

/-- Some function is registered for the module. -/
def isSource (r : KeyedRegistry) (source : String) : Bool := r.byPath.any fun e => e.1.2 == source

/-- The names of all functions, sorted. -/
def names (r : KeyedRegistry) : List String :=
  let all := r.byPath.map (·.1.1) ++ r.byPattern.map (·.2.name) ++ r.sourceless.keys
  all.eraseDups.mergeSort fun a b => decide (a ≤ b)

/-- Some name, or the stem of some default export's file, occurs in a text. -/
def isMentionedIn (r : KeyedRegistry) (code : String) : Bool :=
  (r.names ++ r.defaultStems).any fun name => Text.contains name.toList code.toList

/-- No function is registered. -/
def isEmpty (r : KeyedRegistry) : Bool := r.names.isEmpty

end KeyedRegistry

namespace KeyedStore

/-- A store with more entries. -/
def append (s : KeyedStore) (more : List KeyedEntry) : KeyedStore := ⟨s.entries ++ more⟩

/-- Number of entries. -/
def size (s : KeyedStore) : Nat := s.entries.length

/-- The registry of all entries. -/
def toRegistry (s : KeyedStore) (aliases : AliasTable) : Except Failure KeyedRegistry :=
  KeyedRegistry.ofEntries aliases s.entries

end KeyedStore

end BuildMacros
