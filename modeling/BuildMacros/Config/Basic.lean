import BuildMacros.Dictionary

/-! # Build configuration

    What the host hands over once per build: the functions that take a key, the
    factories that make such functions, the components, and options of the passes.
    Lengths and priorities have the widths that the host's data format gives them.
-/

namespace BuildMacros

/-! ## Section 1: Registered functions -/

/-- Where a keyed function comes from: a module, or all modules that match a pattern. -/
inductive SourceSpec where
  | path (source : String)
  | pattern (text : String)
deriving DecidableEq, Repr

/-- A function whose calls get a key as a last argument. -/
structure KeyedEntry where
  name : String
  /-- Nothing for functions that are known by name only. -/
  source : Option SourceSpec
  /-- Number of arguments of a call with its key. -/
  argumentLength : UInt64
deriving DecidableEq, Repr

/-- A function that makes keyed functions. -/
structure FactoryEntry where
  name : String
  source : String
  /-- Number of arguments of a call with its key, for the functions it makes. -/
  argumentLength : UInt64
deriving DecidableEq, Repr

/-! ## Section 2: Components -/

/-- The bundles that a component is meant for. -/
inductive ComponentMode where
  | client
  | server
  | all
deriving DecidableEq, Repr

/-- A registered component. -/
structure Component where
  pascalName : String
  filePath : String
  mode : ComponentMode
  /-- Name of the export that is the component. -/
  exportName : String
  priority : Int32
  /-- Imported as it is and never wrapped. -/
  raw : Bool
deriving DecidableEq, Repr

/-- The bundle that is being built. -/
inductive Bundle where
  | client
  | server
deriving DecidableEq, Repr

/-- A component of the mode can be used in the bundle as it is. -/
def Bundle.accepts : Bundle → ComponentMode → Bool
  | _, .all => true
  | .client, .client => true
  | .server, .server => true
  | _, _ => false

/-! ## Section 3: Options -/

/-- Name of the export of components that are the default export of their file. -/
def defaultExport : String := "default"

/-- Name of the property that a factory call is redirected to. -/
def defaultFactoryMarker : String := "__nuxt_factory"

/-- Module of the component that renders in the client only. -/
def defaultClientOnlyRuntime : String := "#app/components/client-only"

/-- Options of the passes over scripts. -/
structure TransformOptions where
  /-- Keys are made from paths relative to this directory. -/
  rootDir : Option String
  /-- Alias to path. -/
  aliases : Dictionary
  /-- Name to the module that it is taken from when it is not imported. -/
  autoImports : Dictionary
  sourcemap : Bool
  /-- Name of the property that a factory call is redirected to. -/
  factoryMarker : String
deriving DecidableEq

/-- Options when nothing is stated. -/
def TransformOptions.default : TransformOptions :=
  ⟨none, .empty, .empty, false, defaultFactoryMarker⟩

/-- Options of the component loader. -/
structure LoaderOptions where
  bundle : Bundle
  /-- Module that renders components of the server. -/
  serverRuntime : String
  /-- Module that makes lazily hydrated components. -/
  delayedRuntime : String
  /-- Module of the component that renders in the client only. -/
  clientOnlyRuntime : String
  islands : Bool
  sourcemap : Bool
deriving DecidableEq, Repr

/-- Options of the component loader when only the bundle is stated. -/
def LoaderOptions.new (bundle : Bundle) : LoaderOptions :=
  ⟨bundle, "#app/components/nuxt-island", "#app/components/client-delayed-component",
    defaultClientOnlyRuntime, false, false⟩

/-- Options of page metadata. -/
structure PageMetaOptions where
  /-- Modules are replaced while they run. -/
  dev : Bool
deriving DecidableEq, Repr

/-- All that a build needs. -/
structure BuildConfig where
  keyedFunctions : List KeyedEntry
  factories : List FactoryEntry
  components : List Component
  options : TransformOptions
  /-- Nothing when components are not loaded. -/
  loader : Option LoaderOptions
  pageMeta : PageMetaOptions
deriving DecidableEq

end BuildMacros
