import BuildMacros.Proofs.Scope.Lexical

/-! # Own names

    The name of a function or class expression is bound by the language inside the
    expression, and only there: around its parameters and body, and inside everything
    that is declared in an outer scope. No scope of `Lexical` owns such a name, so it
    is not seen by `visible?`.

    `framed` walks the tree once more and keeps, with each scope around a node, the
    own name of the expression that begins the scope; without these names it is
    `inside` (`map_spot_framed`). `bound?` is what a name is bound to by the language.
    It differs from `visible?` in own names only.
-/

namespace BuildMacros.Script

/-! ## Section 1: Scopes with own names -/

/-- The own name of an expression. -/
def Node.ownName? : Node → Option String
  | .function .expression id _ _ => id.map Ident.name
  | .cls false _ id _ _ => id.map Ident.name
  | _ => none

/-- A scope around a node, and the own name of the expression that begins it. -/
structure Frame where
  scope : Enclosing
  ownName : Option String
deriving DecidableEq, Repr

/-- A scope that no named expression begins. -/
def Frame.plain (scope : Enclosing) : Frame := ⟨scope, none⟩

/-- A node and the frames around it, innermost first. -/
structure FramedSpot where
  node : Node
  frames : List Frame

/-- The node with the scopes around it. -/
def FramedSpot.spot (s : FramedSpot) : Spot := ⟨s.node, s.frames.map Frame.scope⟩

mutual

/-- The nodes inside a node, with the frames around them. `next` is the number of the scope that
    begins next. -/
def Node.framed (frames : List Frame) (next : Nat) : Node → List FramedSpot
  | .use _ => []
  | .name _ => []
  | .literal _ => []
  | .string _ _ => []
  | .template parts _ => framedAll frames next parts
  | .wrap _ before inner after _ =>
    let next' := next + scopeCountAll before
    framedAll frames next before ++ (⟨inner, frames⟩ :: inner.framed frames next' ++
      framedAll frames (next' + inner.scopeCount) after)
  | .await inner _ => ⟨inner, frames⟩ :: inner.framed frames next
  | .spread inner _ => ⟨inner, frames⟩ :: inner.framed frames next
  | .member object _ _ => ⟨object, frames⟩ :: object.framed frames next
  | .index object key _ =>
    ⟨object, frames⟩ :: object.framed frames next ++
      ⟨key, frames⟩ :: key.framed frames (next + object.scopeCount)
  | .call callee typeArgs args _ _ =>
    let next' := next + callee.scopeCount
    ⟨callee, frames⟩ :: callee.framed frames next ++
      (framedAll frames next' typeArgs ++ framedAll frames (next' + scopeCountAll typeArgs) args)
  | .chain inner _ => ⟨inner, frames⟩ :: inner.framed frames next
  | .function role id parts span =>
    framedAll (⟨⟨next, .ofFunction⟩, Node.ownName? (.function role id parts span)⟩ :: frames)
      (next + 1) parts
  | .arrow parts _ => framedAll (.plain ⟨next, .ofArrow⟩ :: frames) (next + 1) parts
  | .cls declares decorators id parts span =>
    let next' := next + scopeCountAll decorators
    framedAll frames next decorators ++
      framedAll
        (⟨⟨next', .plain⟩, Node.ownName? (.cls declares decorators id parts span)⟩ :: frames)
        (next' + 1) parts
  | .params items _ => framedAll frames next items
  | .typing parts => framedAll frames next parts
  | .scope flags parts => framedAll (.plain ⟨next, flags⟩ :: frames) (next + 1) parts
  | .catchParam pattern typing _ =>
    ⟨pattern, frames⟩ :: pattern.framed frames next ++
      framedAll frames (next + pattern.scopeCount) typing
  | .variableDeclaration _ declarators _ => framedAll frames next declarators
  | .declarator target typing init =>
    let next' := next + target.scopeCount
    ⟨target, frames⟩ :: target.framed frames next ++
      (framedAll frames next' typing ++ framedAll frames (next' + scopeCountAll typing) init)
  | .importing _ _ _ _ => []
  | .exportDeclaration declaration _ => ⟨declaration, frames⟩ :: declaration.framed frames next
  | .exportNames _ _ _ => []
  | .exportDefault value => ⟨value, frames⟩ :: value.framed frames next
  | .exportAssign value => ⟨value, frames⟩ :: value.framed frames next
  | .expression value => ⟨value, frames⟩ :: value.framed frames next
  | .group parts _ => framedAll frames next parts

/-- The nodes of a list and the nodes inside them, with the frames around them. -/
def framedAll (frames : List Frame) (next : Nat) : List Node → List FramedSpot
  | [] => []
  | n :: ns => ⟨n, frames⟩ :: n.framed frames next ++ framedAll frames (next + n.scopeCount) ns

end

mutual

/-- Without own names, frames are the scopes around a node. -/
theorem map_spot_framed (frames : List Frame) (next : Nat) (n : Node) :
    (n.framed frames next).map FramedSpot.spot = n.inside (frames.map Frame.scope) next := by
  cases n <;>
    simp only [Node.framed, Node.inside, List.map_nil, List.map_append, List.map_cons,
      FramedSpot.spot, Frame.plain, map_spot_framed, map_spot_framedAll]

theorem map_spot_framedAll (frames : List Frame) (next : Nat) (ns : List Node) :
    (framedAll frames next ns).map FramedSpot.spot =
      spotsAll (frames.map Frame.scope) next ns := by
  cases ns with
  | nil => rfl
  | cons n ns =>
    simp only [framedAll, spotsAll, List.map_append, List.map_cons, FramedSpot.spot,
      map_spot_framed, map_spot_framedAll]

end

/-- The nodes of a module with the frames around them, in visit order. -/
def Program.framedSpots (p : Program) : List FramedSpot :=
  framedAll [.plain .module] (Tracker.root + 1) p.body

/-- They are the spots of the module. -/
theorem Program.map_spot_framedSpots (p : Program) :
    p.framedSpots.map FramedSpot.spot = p.spots := map_spot_framedAll _ _ p.body

/-! ## Section 2: What a name is bound to -/

/-- What the language binds a name to. -/
inductive Meaning where
  /-- A declaration. -/
  | declared (d : Declaration)
  /-- The expression whose own name it is; the frames are those around the expression. -/
  | own (outside : List Frame)

namespace Meaning

/-- The binding is not one of the module's root scope. -/
def isLocal : Meaning → Bool
  | declared d => d.scope != Tracker.root
  | own _ => true

end Meaning

/-- What a name is bound to among the given frames: the nearest of them that owns it, by a
    declaration or by the name of the expression itself. -/
def Program.bound? (p : Program) (name : String) : List Frame → Option Meaning
  | [] => none
  | f :: fs =>
    match p.owned? name f.scope.number with
    | some d => some (.declared d)
    | none => if f.ownName = some name then some (.own fs) else p.bound? name fs

/-- The declaration that scopes alone lead to where a name has a meaning: past an own name, it is
    what is visible outside of the expression. -/
def Program.pastOwn? (p : Program) (name : String) : Meaning → Option Declaration
  | .declared d => some d
  | .own outside => p.visible? (outside.map Frame.scope) name

/-- **Own names are not seen** by scopes. -/
theorem Program.visible?_of_bound? {p : Program} {name : String} {frames : List Frame}
    {b : Meaning} (h : p.bound? name frames = some b) :
    p.visible? (frames.map Frame.scope) name = p.pastOwn? name b := by
  induction frames with
  | nil => cases h
  | cons f fs ih =>
    unfold Program.bound? at h
    rw [List.map_cons, visible?, List.findSome?_cons]
    cases howned : p.owned? name f.scope.number with
    | some d =>
      rw [howned] at h
      cases h
      rfl
    | none =>
      rw [howned] at h
      dsimp only at h ⊢
      split at h
      · cases h
        rfl
      · exact ih h

/-- What a scope owns is one of the declarations of the name in it. -/
theorem Program.mem_filter_of_owned? {p : Program} {name : String} {scope : Nat} {d : Declaration}
    (h : p.owned? name scope = some d) :
    d ∈ p.declarations.filter fun d => d.name == name && d.scope == scope := by
  unfold Program.owned? Declaration.pick at h
  rcases Option.or_eq_some_iff.mp h with hfind | ⟨-, hhead⟩
  · exact List.mem_of_find?_eq_some hfind
  · exact List.mem_of_mem_head? hhead

/-- What a scope owns is a declaration of the module, owned by that scope. -/
theorem Program.mem_of_owned? {p : Program} {name : String} {scope : Nat} {d : Declaration}
    (h : p.owned? name scope = some d) : d ∈ p.declarations ∧ d.scope = scope := by
  obtain ⟨hd, hscope⟩ := List.mem_filter.mp (Program.mem_filter_of_owned? h)
  rw [Bool.and_eq_true, beq_iff_eq, beq_iff_eq] at hscope
  exact ⟨hd, hscope.2⟩

theorem Program.name_of_owned? {p : Program} {name : String} {scope : Nat} {d : Declaration}
    (h : p.owned? name scope = some d) : d.name = name := by
  have hsame := (List.mem_filter.mp (Program.mem_filter_of_owned? h)).2
  rw [Bool.and_eq_true, beq_iff_eq] at hsame
  exact hsame.1

theorem Program.mem_of_bound? {p : Program} {name : String} {frames : List Frame}
    {d : Declaration} (h : p.bound? name frames = some (.declared d)) : d ∈ p.declarations := by
  induction frames with
  | nil => cases h
  | cons f fs ih =>
    unfold Program.bound? at h
    split at h
    · next howned =>
      cases h
      exact (Program.mem_of_owned? howned).1
    · split at h
      · cases h
      · exact ih h

/-- What a value import says about its declaration. -/
theorem Declaration.kind_of_valueImport? {d : Declaration} {b : ImportBinding}
    (h : d.valueImport? = some b) : d.kind = .imported b ∧ b.typeOnly = false := by
  rw [Declaration.valueImport?, Option.filter_eq_some_iff] at h
  obtain ⟨himport, hvalue⟩ := h
  refine ⟨?_, by simpa using hvalue⟩
  unfold Declaration.import? at himport
  split at himport
  · next heq =>
    injection himport with himport
    rw [heq, himport]
  · cases himport

theorem Declaration.valueImport?_of_kind {d : Declaration} {b : ImportBinding}
    (hkind : d.kind = .imported b) (hvalue : b.typeOnly = false) : d.valueImport? = some b := by
  unfold valueImport? import?
  rw [hkind, Option.filter_some, hvalue]
  rfl

/-- Only the root scope owns imports. -/
theorem Program.scope_of_import? {p : Program} {d : Declaration} (hd : d ∈ p.declarations)
    {b : ImportBinding} (h : d.kind = .imported b) : d.scope = Tracker.root := by
  obtain ⟨s, -, hs⟩ := List.mem_flatMap.mp hd
  obtain ⟨binding, -, hbinding⟩ := List.mem_filterMap.mp hs
  obtain ⟨owner, howner, rfl⟩ := Option.map_eq_some_iff.mp hbinding
  unfold Binding.owner? at howner
  rw [h] at howner
  cases howner
  rfl

/-- A value import that is visible is one of the module. -/
theorem Program.scope_of_visible_import? {p : Program} {scopes : List Enclosing} {name : String}
    {d : Declaration} (hvisible : p.visible? scopes name = some d) {b : ImportBinding}
    (himport : d.valueImport? = some b) : d.scope = Tracker.root := by
  obtain ⟨s, -, howned⟩ := List.exists_of_findSome?_eq_some hvisible
  exact Program.scope_of_import? (Program.mem_of_owned? howned).1
    (Declaration.kind_of_valueImport? himport).1

end BuildMacros.Script
