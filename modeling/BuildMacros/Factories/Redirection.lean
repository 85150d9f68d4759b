import BuildMacros.Factories.Calls
import BuildMacros.Splice

/-! # Scanning for factories and redirecting their calls

    A scan turns the exported factory calls of a module into entries for keyed
    functions that the module defines. Redirecting sends the same calls to the
    factory's implementation, which is a property of the factory: `f()` becomes
    `f.marker()`, and `f?.()` becomes `f?.marker()`.
-/

namespace BuildMacros.Factories

open BuildMacros.Script

/-- The exported factory calls of a text, which is parsed only if it names a factory. -/
def callsIn (registry : FactoryRegistry) (options : TransformOptions) (code id : String) :
    Except Failure (Option (Module × List FactoryCall)) := do
  if registry.isEmpty || !registry.isMentionedIn code then return none
  let m ← Module.parse code id
  let calls ← find registry options id m
  return some (m, calls)

/-- The keyed function that a factory call makes. -/
def FactoryCall.entry (id : String) (c : FactoryCall) : KeyedEntry :=
  ⟨c.functionName, some (.path (Path.clean id)), c.factory.argumentLength⟩

/-- The keyed functions that a module defines by factories. -/
def scan (registry : FactoryRegistry) (options : TransformOptions) (code id : String) :
    Except Failure (List KeyedEntry) := do
  match ← callsIn registry options code id with
  | some (_, calls) => return calls.map (FactoryCall.entry id)
  | none => return []

/-- Redirects one callee to the property named by the marker. An optional link right behind the
    callee comes to stand before the property. -/
def redirect (marker : String) (m : Module) (s : Splicer) (c : Callee) : Except Failure Splicer :=
  let start := m.inFile c.span.start
  let stop := m.inFile c.span.stop
  let isOptional := Text.startsWith ['?', '.'] (Text.dropBytes stop s.source.toList)
  let replacesName := c.form == .identifier || c.form == .property
  if replacesName then
    let name := m.textAt c.span
    if isOptional then s.overwrite start (stop + 2) (name ++ "?." ++ marker)
    else s.overwrite start stop (name ++ "." ++ marker)
  else if isOptional then s.insert (stop + 2) marker
  else s.insert stop ("." ++ marker)

/-- Redirects callees, each place once. -/
def redirectAll (marker : String) (m : Module) : List Span → Splicer → List Callee →
    Except Failure Splicer
  | _, s, [] => .ok s
  | seen, s, c :: cs =>
    if seen.contains c.span then redirectAll marker m seen s cs
    else do
      let s ← redirect marker m s c
      redirectAll marker m (c.span :: seen) s cs

/-- The text with its exported factory calls redirected. -/
def redirectFactories (registry : FactoryRegistry) (options : TransformOptions) (code id : String) :
    Except Failure Output := do
  match ← callsIn registry options code id with
  | some (m, calls) =>
    let s ← redirectAll options.factoryMarker m [] (Splicer.new code)
      (calls.map FactoryCall.callee)
    return s.output id options.sourcemap
  | none => return .unchanged

end BuildMacros.Factories
