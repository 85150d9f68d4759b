import BuildMacros.Json.Basic
import BuildMacros.SourceMap.Mappings

/-! # Source maps, version 3

    A map of one generated file with one source, whose text it carries along.
-/

namespace BuildMacros

/-- A source map. -/
structure SourceMap where
  version : Nat
  file : String
  sources : List String
  sourcesContent : List String
  names : List String
  mappings : String
deriving DecidableEq, Repr

namespace SourceMap

/-- Map of a file onto its own earlier text. -/
def new (file content mappings : String) : SourceMap :=
  ⟨3, file, [file], [content], [], mappings⟩

/-- Fields in the order in which they are written. -/
def toJson (m : SourceMap) : Json :=
  .object [
    ("version", .nat m.version),
    ("file", .string m.file),
    ("sources", .ofList .string m.sources),
    ("sourcesContent", .ofList .string m.sourcesContent),
    ("names", .ofList .string m.names),
    ("mappings", .string m.mappings)]

end SourceMap

end BuildMacros
