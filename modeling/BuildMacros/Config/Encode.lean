import BuildMacros.Config.Decode

/-! # Configuration as JSON

    Every field is written, in the order of its declaration; what is absent is
    `null`. Words are the ones that are read.
-/

namespace BuildMacros

/-- A dictionary as an object. -/
def Dictionary.encode (d : Dictionary) : Json :=
  .object (d.entries.map fun (k, v) => (k, .string v))

/-- A path as a text, a pattern as an object. -/
def SourceSpec.encode : SourceSpec → Json
  | .path source => .string source
  | .pattern text => .object [("pattern", .string text)]

/-- A keyed function. -/
def KeyedEntry.encode (e : KeyedEntry) : Json :=
  .object [
    ("name", .string e.name),
    ("source", .ofOption SourceSpec.encode e.source),
    ("argumentLength", .nat e.argumentLength.toNat)]

/-- A factory. -/
def FactoryEntry.encode (e : FactoryEntry) : Json :=
  .object [
    ("name", .string e.name),
    ("source", .string e.source),
    ("argumentLength", .nat e.argumentLength.toNat)]

/-- The word for a component mode. -/
def ComponentMode.text : ComponentMode → String
  | client => "client"
  | server => "server"
  | all => "all"

/-- The word for a bundle. -/
def Bundle.text : Bundle → String
  | client => "client"
  | server => "server"

/-- A component. -/
def Component.encode (c : Component) : Json :=
  .object [
    ("pascalName", .string c.pascalName),
    ("filePath", .string c.filePath),
    ("mode", .string c.mode.text),
    ("export", .string c.exportName),
    ("priority", .int c.priority.toInt),
    ("_raw", .bool c.raw)]

/-- Options of the passes over scripts. -/
def TransformOptions.encode (o : TransformOptions) : Json :=
  .object [
    ("rootDir", .ofOption .string o.rootDir),
    ("alias", o.aliases.encode),
    ("autoImports", o.autoImports.encode),
    ("sourcemap", .bool o.sourcemap),
    ("factoryMarker", .string o.factoryMarker)]

/-- Options of the component loader. -/
def LoaderOptions.encode (o : LoaderOptions) : Json :=
  .object [
    ("mode", .string o.bundle.text),
    ("serverComponentRuntime", .string o.serverRuntime),
    ("clientDelayedComponentRuntime", .string o.delayedRuntime),
    ("clientOnlyRuntime", .string o.clientOnlyRuntime),
    ("experimentalComponentIslands", .bool o.islands),
    ("sourcemap", .bool o.sourcemap)]

/-- Options of page metadata. -/
def PageMetaOptions.encode (o : PageMetaOptions) : Json := .object [("dev", .bool o.dev)]

/-- A whole configuration. -/
def BuildConfig.encode (c : BuildConfig) : Json :=
  .object [
    ("keyedFunctions", .ofList KeyedEntry.encode c.keyedFunctions),
    ("factories", .ofList FactoryEntry.encode c.factories),
    ("components", .ofList Component.encode c.components),
    ("options", c.options.encode),
    ("loader", .ofOption LoaderOptions.encode c.loader),
    ("pageMeta", c.pageMeta.encode)]

/-- The text of a configuration. -/
def BuildConfig.toText (c : BuildConfig) : String := c.encode.render

end BuildMacros
