import BuildMacros.Assoc
import BuildMacros.Import.Scan
import BuildMacros.Specifier

/-! # What the imports of a module bind

    From the records of a module: for each local name the export it stands for,
    and for each source the local names that hold the whole module. Type imports
    bind no value and are left out; a later record overrides an earlier one.
-/

namespace BuildMacros.Import

/-- The export a local name stands for. -/
structure Direct where
  /-- Name in the source module, `default` for default imports. -/
  exported : String
  /-- Comparison key of the source. -/
  source : String
deriving DecidableEq, Repr

/-- Values bound by the imports of one module. -/
structure Table where
  /-- Local names of named and default imports. -/
  direct : Assoc String Direct
  /-- Comparison keys of sources, with the local names of default and namespace imports. -/
  namespaces : Assoc String (List String)
deriving DecidableEq, Repr

namespace Table

/-- No imports. -/
def empty : Table := ⟨[], []⟩

/-- Binds a local name to an export. -/
def bind (t : Table) (localName exported source : String) : Table :=
  { t with direct := t.direct.insert localName ⟨exported, source⟩ }

/-- Notes that a local name holds the whole module. -/
def hold (t : Table) (source localName : String) : Table :=
  let names := (t.namespaces.get? source).getD []
  { t with
    namespaces :=
      t.namespaces.insert source
        (if names.contains localName then names else names ++ [localName]) }

/-- The local name holds the module with the given comparison key. -/
def hasNamespace (t : Table) (source localName : String) : Bool :=
  ((t.namespaces.get? source).getD []).contains localName

/-- Adds the bindings of one record. -/
def add (r : Resolver) (t : Table) (rec : Record) : Table :=
  if rec.clause.typeOnly then t
  else
    let source := r.resolve rec.specifier
    let t := rec.clause.named.foldl (fun t n => t.bind n.localName n.imported source) t
    let t := match rec.clause.default with
      | some name => (t.bind name "default" source).hold source name
      | none => t
    match rec.clause.namespaceName with
    | some name => t.hold source name
    | none => t

/-- Table of a list of records. -/
def ofRecords (r : Resolver) (records : List Record) : Table := records.foldl (add r) empty

end Table

end BuildMacros.Import
