import BuildMacros.Assoc
import BuildMacros.Config.Basic
import BuildMacros.Naming

/-! # Components

    Registered components, at most one for each name and mode. Where several claim
    a pair, the first one of the highest priority keeps it, in the place of the
    first that claimed it.
-/

namespace BuildMacros

/-- Components after the choice between rivals. -/
structure ComponentRegistry where
  components : List Component
deriving DecidableEq, Repr

namespace ComponentRegistry

/-! ## Section 1: Building -/

/-- What only one component is kept for. -/
def place (c : Component) : String × ComponentMode := (c.pascalName, c.mode)

/-- The components kept so far, and where in the list the one of each place stands. -/
structure Winners where
  components : List Component
  index : Assoc (String × ComponentMode) Nat

/-- The winners with one more component. It is looked up where its place is held: it takes the
    place of a rival of lower priority and gives way to any other rival. -/
def Winners.enter (w : Winners) (c : Component) : Winners :=
  match w.index.get? (place c) with
  | some i =>
    match w.components[i]? with
    | some current =>
      if current.priority < c.priority then { w with components := w.components.set i c } else w
    -- the index never points outside the list
    | none => w
  | none => ⟨w.components ++ [c], w.index.insert (place c) w.components.length⟩

/-- The registry of a list of components. -/
def ofList (cs : List Component) : ComponentRegistry :=
  ⟨(cs.foldl Winners.enter ⟨[], []⟩).components⟩

/-! ## Section 2: Questions -/

/-- Some component has the name. -/
def contains (r : ComponentRegistry) (pascalName : String) : Bool :=
  r.components.any (·.pascalName == pascalName)

/-- Some component has the name and the mode. -/
def hasVariant (r : ComponentRegistry) (pascalName : String) (mode : ComponentMode) : Bool :=
  r.components.any fun c => c.pascalName == pascalName && c.mode == mode

/-- The name that a requested name is registered under. -/
def registeredName (name : String) : String :=
  String.ofList ((Naming.pascalCase name).toList.filter fun c => c != '"' && c != '\'')

/-- Index of the component for a requested name in a bundle: one that the bundle can use as it is;
    failing that, in the client one of the other mode, in the server the placeholder. -/
def find? (r : ComponentRegistry) (name : String) (bundle : Bundle) : Option Nat :=
  let id := registeredName name
  let usable := r.components.findIdx? fun c => c.pascalName == id && bundle.accepts c.mode
  match usable, r.components.findIdx? (·.pascalName == id) with
  | some i, _ => some i
  | none, none => none
  | none, some i =>
    match bundle with
    | .client => some i
    | .server => r.components.findIdx? (·.pascalName == "ServerPlaceholder")

end ComponentRegistry

end BuildMacros
