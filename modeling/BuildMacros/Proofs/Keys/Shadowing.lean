import BuildMacros.Proofs.Keys.Entitlement
import BuildMacros.Proofs.Scope.OwnNames

/-! # Shadowed names

    Every node of a module is asked once whether it is a call that takes a key
    (`keyAt?`), by the declaration that scopes lead to. A call whose name is declared
    in a scope inside the module takes none, whatever the root imports under that
    name. Own names of expressions are no declarations: a call of such a name is
    judged by what the name means outside of the expression.
-/

namespace BuildMacros.Keys

open BuildMacros.Script

/-! ## Section 1: One decision for each node -/

/-- The call that takes a key at a node, if there is one. -/
def keyAt? (s : Site) (p : Program) (x : Spot) : Option StaticCall :=
  (x.node.staticCall? s.filter).filter fun c =>
    s.takesKey c (p.visible? x.scopes c.binding)

/-- **The calls that take a key**, node by node. -/
theorem keyedCalls_eq (s : Site) (b : Block) (p : Program) :
    keyedCalls s (parsed b p) = p.spots.filterMap (keyAt? s p) := by
  refine p.filterMap_calls (fun node look =>
    (node.staticCall? s.filter).filter fun c => s.takesKey c (look c.binding)) ?_
  intro n look hcall
  cases n with
  | call callee typeArgs args optional span => exact absurd rfl hcall
  | _ => rfl

theorem keyedCalls_of_parse {code id : String} {m : Module} (h : Module.parse code id = .ok m)
    (s : Site) : keyedCalls s m = m.program.spots.filterMap (keyAt? s m.program) := by
  conv_lhs => rw [eq_parsed_of_parse h, keyedCalls_eq]

theorem mem_keyedCalls_iff {code id : String} {m : Module} (h : Module.parse code id = .ok m)
    {s : Site} {c : StaticCall} :
    c ∈ keyedCalls s m ↔ ∃ x ∈ m.program.spots, keyAt? s m.program x = some c := by
  rw [keyedCalls_of_parse h, List.mem_filterMap]

/-! ## Section 2: Names declared inside the module -/

/-- A call of a name that a scope inside the module declares takes no key. -/
theorem takesKey_of_local {p : Program} {d : Declaration} (hd : d ∈ p.declarations)
    (hlocal : d.scope ≠ Tracker.root) (s : Site) (c : StaticCall) :
    s.takesKey c (some d) = false := by
  have himport : d.valueImport? = none := by
    cases hvalue : d.valueImport? with
    | none => rfl
    | some b =>
      exact absurd (Program.scope_of_import? hd (Declaration.kind_of_valueImport? hvalue).1) hlocal
  have hexport : s.isLocalExport c.callee (some d) = false := by
    rw [Site.isLocalExport, Option.any_some, beq_eq_false_iff_ne.mpr hlocal, Bool.and_false]
  have hsource : s.sourceOf? c.callee (some d) = none :=
    Site.sourceOf?_of_unbound hexport (by rw [Option.bind_some, himport])
  rw [Site.takesKey, Site.resolve?, hsource]
  rfl

/-- **Which shadowed calls take a key.** Every node of the module is decided on by itself. Where
    the language binds the name of a call inside the module, the call takes no key when the
    binding is a declaration; when it is the own name of an expression, the call takes a key
    exactly if it would take one by what the name means outside of the expression. -/
theorem keyAt?_of_bound (s : Site) (b : Block) (p : Program) :
    keyedCalls s (parsed b p) = p.framedSpots.filterMap (fun x => keyAt? s p x.spot) ∧
      ∀ x ∈ p.framedSpots, ∀ c, x.node.staticCall? s.filter = some c →
        ∀ meaning, p.bound? c.binding x.frames = some meaning → meaning.isLocal = true →
          (keyAt? s p x.spot).isSome =
            match meaning with
            | .declared _ => false
            | .own outside =>
              s.takesKey c (p.visible? (outside.map Frame.scope) c.binding) := by
  constructor
  · rw [keyedCalls_eq, ← p.map_spot_framedSpots, List.filterMap_map]
    rfl
  · intro x _ c hc meaning hbound hlocal
    have hvisible := Program.visible?_of_bound? hbound
    have hdecided : (keyAt? s p x.spot).isSome = s.takesKey c (p.pastOwn? c.binding meaning) := by
      have hnode : x.spot.node.staticCall? s.filter = some c := hc
      rw [← hvisible, keyAt?, hnode, Option.filter_some]
      cases htakes : s.takesKey c (p.visible? x.spot.scopes c.binding) with
      | true =>
        rw [if_pos rfl]
        exact htakes.symm
      | false =>
        rw [if_neg Bool.false_ne_true]
        exact htakes.symm
    rw [hdecided]
    cases meaning with
    | declared d =>
      have hscope : d.scope ≠ Tracker.root := by
        simpa [Meaning.isLocal] using hlocal
      exact takesKey_of_local (Program.mem_of_bound? hbound) hscope s c
    | own outside => rfl

/-! ## Section 3: A call of an own name -/

/-- A function expression that is called by its own name inside itself. The function of that name
    that the module imports is never called. -/
def ownNameCode : String :=
  "import { useKey } from '#app'\nconst f = function useKey() { useKey() }"

/-- The call inside the function. -/
def ownCall : Node := .call (.use ⟨"useKey", ⟨60, 66⟩⟩) [] [] false ⟨60, 68⟩

/-- The function around the call. -/
def ownFunction : Node :=
  .function .expression (some ⟨"useKey", ⟨49, 55⟩⟩) [.params [] ⟨55, 57⟩, .expression ownCall]
    ⟨40, 70⟩

/-- The tree of that module. -/
def ownNameProgram : Program :=
  ⟨[.importing [.named "useKey" ⟨"useKey", ⟨9, 15⟩⟩ false] "#app" false ⟨0, 29⟩,
    .variableDeclaration .const [.declarator (.name ⟨"f", ⟨36, 37⟩⟩) [] [ownFunction]] ⟨30, 70⟩]⟩

/-- The call of the own name is judged by the import outside of the function, and takes a key. -/
theorem keyAt?_of_bound_sample :
    let b : Block := ⟨ownNameCode, 0, none⟩
    let s := siteOf sampleRegistry .default "/app/a.ts" (parsed b ownNameProgram)
    ∃ x ∈ ownNameProgram.framedSpots, x.node = ownCall ∧
      (keyAt? s ownNameProgram x.spot).isSome = true := by
  intro b s
  let x : FramedSpot :=
    ⟨ownCall, [⟨⟨1, .ofFunction⟩, some "useKey"⟩, .plain .module]⟩
  have hx : x ∈ ownNameProgram.framedSpots := List.mem_of_getElem? (i := 7) rfl
  have haccepts : s.filter.accepts "useKey" = true := by decide +kernel
  have hcall : x.node.staticCall? s.filter =
      some ⟨⟨"useKey", none, .identifier, ⟨60, 66⟩⟩, [], false, ⟨60, 68⟩⟩ := if_pos haccepts
  have hbound : ownNameProgram.bound? "useKey" x.frames = some (.own [.plain .module]) := by
    have hfree : ownNameProgram.owned? "useKey" 1 = none := by decide
    simp only [Program.bound?, x, hfree, if_true]
  refine ⟨x, hx, rfl, ?_⟩
  rw [(keyAt?_of_bound s b ownNameProgram).2 x hx _ hcall _ hbound rfl]
  decide +kernel

/-- The calls of a module that take a key although their name is bound inside the module. -/
def shadowedKeys (s : Site) (p : Program) : List StaticCall :=
  p.framedSpots.filterMap fun x =>
    (keyAt? s p x.spot).filter fun c => (p.bound? c.binding x.frames).any Meaning.isLocal

/-- **A shadowed call gets a key**: in the file as it is written, the call of the own name is taken
    for a call of the import. -/
theorem own_name_keyed :
    (Module.parse ownNameCode "/app/a.ts").toOption.map (fun m =>
        (shadowedKeys (siteOf sampleRegistry .default "/app/a.ts" m) m.program).map
          StaticCall.span) = some [⟨60, 68⟩] ∧
      (inject sampleRegistry .default ownNameCode "/app/a.ts").toOption.map Output.isChanged =
        some true := by
  decide +kernel

end BuildMacros.Keys
