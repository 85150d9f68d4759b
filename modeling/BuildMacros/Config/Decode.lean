import BuildMacros.Config.Basic
import BuildMacros.Config.Fields

/-! # Configuration from JSON

    One reader per structure of the configuration. The shape of a structure lists
    its fields in the order of their declaration, which is the order of the items
    when it is written as an array and the order in which missing fields are
    noticed.
-/

namespace BuildMacros

open BuildMacros.Config

/-! ## Section 1: Registered functions -/

/-- The pattern of a source, from an object or from an array of one item. -/
def SourceSpec.patternText? : Json → Option String
  | .object fields =>
    match fields.filter (·.1 == "pattern") with
    | [(_, .string s)] => some s
    | _ => none
  | .array [.string s] => some s
  | _ => none

/-- A source: a text is a path, anything else must have a pattern. -/
def SourceSpec.decode : Reader SourceSpec
  | .string s => .ok (.path s)
  | j =>
    match patternText? j with
    | some s => .ok (.pattern s)
    | none => .error .noSourceForm

/-- A keyed function. -/
def KeyedEntry.decode : Reader KeyedEntry :=
  structured "KeyedFunctionEntry"
    [field "name" text, field "source" (optional SourceSpec.decode), field "argumentLength" size]
    fun fs => do
      let name ← fs.required "name" text
      let source ← fs.withDefault "source" (optional SourceSpec.decode) none
      let argumentLength ← fs.required "argumentLength" size
      return ⟨name, source, argumentLength⟩

/-- A factory. -/
def FactoryEntry.decode : Reader FactoryEntry :=
  structured "FactoryEntry"
    [field "name" text, field "source" text, field "argumentLength" size]
    fun fs => do
      let name ← fs.required "name" text
      let source ← fs.required "source" text
      let argumentLength ← fs.required "argumentLength" size
      return ⟨name, source, argumentLength⟩

/-! ## Section 2: Components -/

/-- The words for component modes. -/
def ComponentMode.words : List (String × ComponentMode) :=
  [("client", .client), ("server", .server), ("all", .all)]

/-- A component mode. -/
def ComponentMode.decode : Reader ComponentMode := oneOf ComponentMode.words

/-- The words for bundles. -/
def Bundle.words : List (String × Bundle) := [("client", .client), ("server", .server)]

/-- A bundle. -/
def Bundle.decode : Reader Bundle := oneOf Bundle.words

/-- A component. -/
def Component.decode : Reader Component :=
  structured "Component"
    [field "pascalName" text, field "filePath" text, field "mode" ComponentMode.decode,
      field "export" text, field "priority" signed32, field "_raw" boolean]
    fun fs => do
      let pascalName ← fs.required "pascalName" text
      let filePath ← fs.required "filePath" text
      let mode ← fs.withDefault "mode" ComponentMode.decode .all
      let exportName ← fs.withDefault "export" text defaultExport
      let priority ← fs.withDefault "priority" signed32 0
      let raw ← fs.withDefault "_raw" boolean false
      return ⟨pascalName, filePath, mode, exportName, priority, raw⟩

/-! ## Section 3: Options -/

/-- Options of the passes over scripts. -/
def TransformOptions.decode : Reader TransformOptions :=
  structured "TransformOptions"
    [field "rootDir" (optional text), field "alias" dictionary, field "autoImports" dictionary,
      field "sourcemap" boolean, field "factoryMarker" text]
    fun fs => do
      let rootDir ← fs.withDefault "rootDir" (optional text) none
      let aliases ← fs.withDefault "alias" dictionary .empty
      let autoImports ← fs.withDefault "autoImports" dictionary .empty
      let sourcemap ← fs.withDefault "sourcemap" boolean false
      let factoryMarker ← fs.withDefault "factoryMarker" text defaultFactoryMarker
      return ⟨rootDir, aliases, autoImports, sourcemap, factoryMarker⟩

/-- Options of the component loader. -/
def LoaderOptions.decode : Reader LoaderOptions :=
  structured "ComponentLoaderOptions"
    [field "mode" Bundle.decode, field "serverComponentRuntime" text,
      field "clientDelayedComponentRuntime" text, field "clientOnlyRuntime" text,
      field "experimentalComponentIslands" boolean, field "sourcemap" boolean]
    fun fs => do
      let bundle ← fs.withDefault "mode" Bundle.decode .client
      let serverRuntime ← fs.required "serverComponentRuntime" text
      let delayedRuntime ← fs.required "clientDelayedComponentRuntime" text
      let clientOnlyRuntime ← fs.withDefault "clientOnlyRuntime" text defaultClientOnlyRuntime
      let islands ← fs.withDefault "experimentalComponentIslands" boolean false
      let sourcemap ← fs.withDefault "sourcemap" boolean false
      return ⟨bundle, serverRuntime, delayedRuntime, clientOnlyRuntime, islands, sourcemap⟩

/-- Options of page metadata. -/
def PageMetaOptions.decode : Reader PageMetaOptions :=
  structured "PageMetaOptions" [field "dev" boolean] fun fs => do
    let dev ← fs.withDefault "dev" boolean false
    return ⟨dev⟩

/-- A whole configuration. -/
def BuildConfig.decode : Reader BuildConfig :=
  structured "BuildConfig"
    [field "keyedFunctions" (list KeyedEntry.decode), field "factories" (list FactoryEntry.decode),
      field "components" (list Component.decode), field "options" TransformOptions.decode,
      field "loader" (optional LoaderOptions.decode), field "pageMeta" PageMetaOptions.decode]
    fun fs => do
      let keyedFunctions ← fs.withDefault "keyedFunctions" (list KeyedEntry.decode) []
      let factories ← fs.withDefault "factories" (list FactoryEntry.decode) []
      let components ← fs.withDefault "components" (list Component.decode) []
      let options ← fs.withDefault "options" TransformOptions.decode .default
      let loader ← fs.withDefault "loader" (optional LoaderOptions.decode) none
      let pageMeta ← fs.withDefault "pageMeta" PageMetaOptions.decode ⟨false⟩
      return ⟨keyedFunctions, factories, components, options, loader, pageMeta⟩

/-! ## Section 4: Texts and files -/

/-- A fault in configuration data as a failure. -/
def Config.Result.orFail {α : Type} : Config.Result α → Except Failure α
  | .ok a => .ok a
  | .error fault => .error (.config fault)

/-- The configuration that a text describes. -/
def BuildConfig.ofText (text : String) : Except Failure BuildConfig :=
  match Json.parse text with
  | some j => Config.Result.orFail (decode j)
  | none => .error (.config .malformed)

/-- Why a file that does not exist cannot be read. -/
def Config.noSuchFile : String := "No such file or directory (os error 2)"

/-- The configuration in a file, given what reading the file answers: its text, or the reason why
    there is none. -/
def BuildConfig.ofFile (path : String) (contents : Except String String) :
    Except Failure BuildConfig :=
  match contents with
  | .ok text => ofText text
  | .error reason => .error (.config (.unreadable path reason))

end BuildMacros
