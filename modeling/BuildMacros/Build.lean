import BuildMacros.Components.Loading
import BuildMacros.Config.Decode
import BuildMacros.Factories.Redirection
import BuildMacros.Keys.Injection
import BuildMacros.PageMeta
import BuildMacros.Template.Hydration

/-! # Builds

    A build goes through two phases. While it is open, files are scanned for
    functions made by factories, and the store of keyed functions grows. Sealing it
    makes a registry of the store; a sealed build transforms files, each on its
    own.

    A file that does not parse is left as it is. Every other failure is reported.
-/

namespace BuildMacros

open BuildMacros.Script

/-! ## Section 1: Files -/

/-- A file with its module id. -/
structure SourceFile where
  id : String
  code : String
deriving DecidableEq, Repr

/-- A source file in configuration data. -/
def SourceFile.decode : Config.Reader SourceFile :=
  Config.structured "SourceFile" [Config.field "id" Config.text, Config.field "code" Config.text]
    fun fs => do
      let id ← fs.required "id" Config.text
      let code ← fs.required "code" Config.text
      return ⟨id, code⟩

/-- What became of a file. -/
structure FileOutput where
  id : String
  /-- The new text; nothing when no pass changed the file. -/
  code : Option String
  /-- A map for each pass that changed the file and made one, in the order of the passes. -/
  maps : List SourceMap
  error : Option Report
deriving DecidableEq, Repr

/-- A file that no pass changed. -/
def FileOutput.unchanged (id : String) : FileOutput := ⟨id, none, [], none⟩

/-- A file whose transformation failed. -/
def FileOutput.failed (id : String) (f : Failure) : FileOutput := ⟨id, none, [], some f.report⟩

/-- Some pass changed the file. -/
def FileOutput.isChanged (o : FileOutput) : Bool := o.code.isSome

/-! ## Section 2: Open builds -/

/-- A build that still collects keyed functions. -/
structure Build where
  options : TransformOptions
  loader : Option LoaderOptions
  pageMeta : PageMetaOptions
  factories : FactoryRegistry
  components : ComponentRegistry
  store : KeyedStore

/-- A build whose registries are final. -/
structure SealedBuild where
  options : TransformOptions
  loader : Option LoaderOptions
  pageMeta : PageMetaOptions
  factories : FactoryRegistry
  components : ComponentRegistry
  keyed : KeyedRegistry

/-- A result, where failures that may be passed over count as a given value. -/
def Failure.orSkip {α : Type} (skipped : α) : Except Failure α → Except Failure α
  | .ok a => .ok a
  | .error f => if f.isRecoverable then .ok skipped else .error f

namespace Build

/-- The aliases of a build. -/
def aliases (options : TransformOptions) : AliasTable := .ofMap options.aliases.entries

/-- A build that has scanned nothing. -/
def new (c : BuildConfig) : Build :=
  ⟨c.options, c.loader, c.pageMeta, .ofEntries (aliases c.options) c.factories,
    .ofList c.components, ⟨c.keyedFunctions⟩⟩

/-- The keyed functions that a file defines by factories. -/
def scanFile (b : Build) (f : SourceFile) : Except Failure (List KeyedEntry) :=
  if shouldTransform f.id then
    Failure.orSkip [] (Factories.scan b.factories b.options f.code f.id)
  else .ok []

/-- Scans files in their order, and answers the build with what was found, the number of functions
    found, and the failure that ended the scan, if one did. What was found before it stays. -/
def scan (b : Build) : List SourceFile → Build × Nat × Option Failure
  | [] => (b, 0, none)
  | f :: fs =>
    match b.scanFile f with
    | .error e => (b, 0, some e)
    | .ok entries =>
      let (b, more, failure) := scan { b with store := b.store.append entries } fs
      (b, entries.length + more, failure)

/-- Closes the store and opens the build for transformations. -/
def toSealed (b : Build) : Except Failure SealedBuild := do
  let keyed ← b.store.toRegistry (aliases b.options)
  return ⟨b.options, b.loader, b.pageMeta, b.factories, b.components, keyed⟩

end Build

/-! ## Section 3: Passes -/

/-- A pass over one file. -/
abbrev Pass := String → String → Except Failure Output

/-- A text and the maps made on the way to it. -/
structure Draft where
  code : String
  maps : List SourceMap
deriving DecidableEq, Repr

/-- A text after a pass over it. -/
def Draft.after (d : Draft) : Output → Draft
  | .unchanged => d
  | .edited code map => ⟨code, d.maps ++ map.toList⟩

/-- A text after several passes, each over what the one before it left. -/
def Draft.run (id : String) : List Pass → Draft → Except Failure Draft
  | [], d => .ok d
  | p :: ps, d => do
    let out ← p d.code id
    run id ps (d.after out)

namespace SealedBuild

/-- The pass that hydrates components, when there are any. -/
def hydration (b : SealedBuild) : List Pass :=
  if b.components.components.isEmpty then []
  else [Template.hydrate b.components b.options.sourcemap]

/-- The pass that loads components, when the file asks the runtime for them. -/
def loading (b : SealedBuild) (id : String) : List Pass :=
  match b.loader with
  | some o => if shouldResolveComponents id then [Components.load b.components o] else []
  | none => []

/-- The passes over a file in their order: hydration, factories, keys, components. -/
def passes (b : SealedBuild) (id : String) : List Pass :=
  b.hydration ++ [Factories.redirectFactories b.factories b.options, Keys.inject b.keyed b.options]
    ++ b.loading id

/-- What a request for the metadata of a page is answered with. -/
def answerMeta (b : SealedBuild) (code id : String) : Except Failure FileOutput := do
  let out ← Failure.orSkip .unchanged
    (PageMeta.extract b.pageMeta b.options.sourcemap code id)
  return ⟨id, out.code?, out.map?.toList, none⟩

/-- What the passes make of a file. -/
def runPasses (b : SealedBuild) (code id : String) : Except Failure FileOutput := do
  let d ← Draft.run id (b.passes id) ⟨code, []⟩
  if d.maps.isEmpty && d.code = code then return .unchanged id
  return ⟨id, some d.code, d.maps, none⟩

/-- Transforms a file. A request for metadata is answered with metadata alone; files that no pass
    looks at and files that do not parse are left as they are. -/
def transform (b : SealedBuild) (code id : String) : Except Failure FileOutput :=
  if isMacroRequest id then b.answerMeta code id
  else if shouldTransform id then Failure.orSkip (.unchanged id) (b.runPasses code id)
  else .ok (.unchanged id)

/-- Transforms files; a failure is reported with its file. -/
def transformAll (b : SealedBuild) (files : List SourceFile) : List FileOutput :=
  files.map fun f =>
    match b.transform f.code f.id with
    | .ok out => out
    | .error e => .failed f.id e

end SealedBuild

/-- Scans files, seals the build and transforms the files. -/
def runBuild (c : BuildConfig) (files : List SourceFile) : Except Failure (List FileOutput) := do
  match (Build.new c).scan files with
  | (_, _, some failure) => throw failure
  | (b, _, none) =>
    let sealedBuild ← b.toSealed
    return sealedBuild.transformAll files

end BuildMacros
