import BuildMacros.Proofs.Keys.Shadowing

/-! # Trees with keys

    What a tree is once some of its calls have a key: the same tree, in which each of
    these calls has one more argument behind its own. Spans are left out, because keys
    move what stands behind them (`Program.keyed`).

    Scopes, declarations, callees and exports are those of the tree without keys. So
    the calls that take a key in a tree with keys are known: a call that has got one
    takes no other, and every other call is judged as before (`keyedCalls_eq_nil`).
-/

namespace BuildMacros.Script

/-! ## Section 1: Trees -/

/-- No place. -/
def Span.nowhere : Span := ⟨0, 0⟩

/-- The name without its place. -/
def Ident.bare (id : Ident) : Ident := ⟨id.name, .nowhere⟩

/-- The binding without its place. -/
def ImportSpecifier.bare : ImportSpecifier → ImportSpecifier
  | .named imported id typeOnly => .named imported id.bare typeOnly
  | .default id => .default id.bare
  | .whole id => .whole id.bare

/-- The entry without its places. -/
def ExportSpecifier.bare (s : ExportSpecifier) : ExportSpecifier :=
  ⟨⟨s.inner.id.bare, s.inner.isQuoted⟩, ⟨s.exported.id.bare, s.exported.isQuoted⟩, s.typeOnly⟩

/-- The key of a call as an argument. -/
def keyArgument (key? : Span → Option String) (span : Span) : List Node :=
  (key? span).toList.map fun key => .string key .nowhere

mutual

/-- The node without spans, in which each call whose span has a key has that key behind its other
    arguments. -/
def Node.keyed (key? : Span → Option String) : Node → Node
  | .use id => .use id.bare
  | .name id => .name id.bare
  | .literal _ => .literal .nowhere
  | .string value _ => .string value .nowhere
  | .template parts _ => .template (keyedAll key? parts) .nowhere
  | .wrap how before inner after _ =>
    .wrap how (keyedAll key? before) (inner.keyed key?) (keyedAll key? after) .nowhere
  | .await inner _ => .await (inner.keyed key?) .nowhere
  | .spread inner _ => .spread (inner.keyed key?) .nowhere
  | .member object property _ => .member (object.keyed key?) property.bare .nowhere
  | .index object key _ => .index (object.keyed key?) (key.keyed key?) .nowhere
  | .call callee typeArgs args optional span =>
    .call (callee.keyed key?) (keyedAll key? typeArgs)
      (keyedAll key? args ++ keyArgument key? span) optional .nowhere
  | .chain inner _ => .chain (inner.keyed key?) .nowhere
  | .function role id parts _ =>
    .function role (id.map Ident.bare) (keyedAll key? parts) .nowhere
  | .arrow parts _ => .arrow (keyedAll key? parts) .nowhere
  | .cls declares decorators id parts _ =>
    .cls declares (keyedAll key? decorators) (id.map Ident.bare) (keyedAll key? parts) .nowhere
  | .params items _ => .params (keyedAll key? items) .nowhere
  | .typing parts => .typing (keyedAll key? parts)
  | .scope flags parts => .scope flags (keyedAll key? parts)
  | .catchParam pattern typing _ =>
    .catchParam (pattern.keyed key?) (keyedAll key? typing) .nowhere
  | .variableDeclaration kind declarators _ =>
    .variableDeclaration kind (keyedAll key? declarators) .nowhere
  | .declarator target typing init =>
    .declarator (target.keyed key?) (keyedAll key? typing) (keyedAll key? init)
  | .importing specifiers source typeOnly _ =>
    .importing (specifiers.map ImportSpecifier.bare) source typeOnly .nowhere
  | .exportDeclaration declaration typeOnly =>
    .exportDeclaration (declaration.keyed key?) typeOnly
  | .exportNames specifiers source typeOnly =>
    .exportNames (specifiers.map ExportSpecifier.bare) source typeOnly
  | .exportDefault value => .exportDefault (value.keyed key?)
  | .exportAssign value => .exportAssign (value.keyed key?)
  | .expression value => .expression (value.keyed key?)
  | .group parts _ => .group (keyedAll key? parts) .nowhere

/-- All nodes of a list, without spans and with keys. -/
def keyedAll (key? : Span → Option String) : List Node → List Node
  | [] => []
  | n :: ns => n.keyed key? :: keyedAll key? ns

end

/-- The module without spans and with keys. -/
def Program.keyed (key? : Span → Option String) (p : Program) : Program := ⟨keyedAll key? p.body⟩

/-- The module without spans. -/
def Program.bare (p : Program) : Program := p.keyed fun _ => none

variable (key? : Span → Option String)

theorem keyedAll_eq_map (ns : List Node) : keyedAll key? ns = ns.map (Node.keyed key?) := by
  induction ns with
  | nil => rfl
  | cons n ns ih => rw [keyedAll, ih, List.map_cons]

/-! ## Section 2: Scopes -/

theorem scopeCountAll_append (ns ms : List Node) :
    scopeCountAll (ns ++ ms) = scopeCountAll ns + scopeCountAll ms := by
  induction ns with
  | nil => simp [scopeCountAll]
  | cons n ns ih => simp [scopeCountAll, ih, Nat.add_assoc]

theorem boundNamesAll_append (ns ms : List Node) :
    boundNamesAll (ns ++ ms) = boundNamesAll ns ++ boundNamesAll ms := by
  induction ns with
  | nil => simp [boundNamesAll]
  | cons n ns ih => simp [boundNamesAll, ih]

theorem spotsAll_append (scopes : List Enclosing) (next : Nat) (ns ms : List Node) :
    spotsAll scopes next (ns ++ ms) =
      spotsAll scopes next ns ++ spotsAll scopes (next + scopeCountAll ns) ms := by
  induction ns generalizing next with
  | nil => simp [spotsAll, scopeCountAll]
  | cons n ns ih => simp [spotsAll, scopeCountAll, ih, Nat.add_assoc]

/-- A key has no scopes in it. -/
theorem scopeCountAll_keyArgument (span : Span) : scopeCountAll (keyArgument key? span) = 0 := by
  unfold keyArgument
  cases key? span <;> rfl

/-- A key binds no names. -/
theorem boundNamesAll_keyArgument (span : Span) : boundNamesAll (keyArgument key? span) = [] := by
  unfold keyArgument
  cases key? span <;> rfl

mutual

theorem scopeCount_keyed (n : Node) : (n.keyed key?).scopeCount = n.scopeCount := by
  cases n <;>
    simp only [Node.keyed, Node.scopeCount, scopeCountAll_append, scopeCountAll_keyArgument,
      scopeCount_keyed, scopeCountAll_keyed, Nat.add_zero]

theorem scopeCountAll_keyed (ns : List Node) :
    scopeCountAll (keyedAll key? ns) = scopeCountAll ns := by
  cases ns with
  | nil => rfl
  | cons n ns => simp only [keyedAll, scopeCountAll, scopeCount_keyed, scopeCountAll_keyed]

end

mutual

theorem boundNames_keyed (n : Node) :
    (n.keyed key?).boundNames = n.boundNames.map Ident.bare := by
  cases n <;>
    simp only [Node.keyed, Node.boundNames, boundNamesAll_append, boundNamesAll_keyArgument,
      boundNames_keyed, boundNamesAll_keyed, List.map_append, List.map_nil, List.map_cons,
      List.append_nil]

theorem boundNamesAll_keyed (ns : List Node) :
    boundNamesAll (keyedAll key? ns) = (boundNamesAll ns).map Ident.bare := by
  cases ns with
  | nil => rfl
  | cons n ns =>
    simp only [keyedAll, boundNamesAll, boundNames_keyed, boundNamesAll_keyed, List.map_append]

end

/-- The node is no text that stands for itself. -/
def Spot.isDark (s : Spot) : Bool :=
  match s.node with
  | .string _ _ => false
  | _ => true

/-- The node without spans and with keys, where it stood. -/
def Spot.keyed (s : Spot) : Spot := ⟨s.node.keyed key?, s.scopes⟩

/-- The node, unless it is a text. -/
def Spot.dark (s : Spot) : List Spot := [s].filter Spot.isDark

theorem filter_isDark_cons (s : Spot) (spots : List Spot) :
    (s :: spots).filter Spot.isDark = s.dark ++ spots.filter Spot.isDark :=
  List.filter_append [s] spots

theorem dark_keyed (n : Node) (scopes : List Enclosing) :
    Spot.dark ⟨n.keyed key?, scopes⟩ = (Spot.dark ⟨n, scopes⟩).map (Spot.keyed key?) := by
  cases n <;> rfl

theorem filter_spotsAll_keyArgument (span : Span) (scopes : List Enclosing) (next : Nat) :
    (spotsAll scopes next (keyArgument key? span)).filter Spot.isDark = [] := by
  unfold keyArgument
  cases key? span <;> rfl

mutual

/-- **Keys leave the scopes as they are**: apart from texts, the nodes inside a node are the same,
    with the same scopes around them. -/
theorem filter_inside_keyed (scopes : List Enclosing) (next : Nat) (n : Node) :
    ((n.keyed key?).inside scopes next).filter Spot.isDark =
      ((n.inside scopes next).filter Spot.isDark).map (Spot.keyed key?) := by
  cases n <;>
    simp only [Node.keyed, Node.inside, List.filter_append, List.filter_nil, List.map_nil,
      List.map_append, List.cons_append, List.append_nil, filter_isDark_cons, dark_keyed,
      spotsAll_append, filter_spotsAll_keyArgument, scopeCount_keyed, scopeCountAll_keyed,
      filter_inside_keyed, filter_spotsAll_keyed]

theorem filter_spotsAll_keyed (scopes : List Enclosing) (next : Nat) (ns : List Node) :
    (spotsAll scopes next (keyedAll key? ns)).filter Spot.isDark =
      ((spotsAll scopes next ns).filter Spot.isDark).map (Spot.keyed key?) := by
  cases ns with
  | nil => rfl
  | cons n ns =>
    simp only [keyedAll, spotsAll, List.filter_append, List.map_append, List.cons_append,
      filter_isDark_cons, dark_keyed, scopeCount_keyed, filter_inside_keyed,
      filter_spotsAll_keyed]

end

/-! ## Section 3: Declarations -/

/-- The binding without its places. -/
def Binding.bare (b : Binding) : Binding := ⟨b.name, b.kind, .nowhere, .nowhere⟩

/-- The declaration without its places. -/
def Declaration.bare (d : Declaration) : Declaration := ⟨d.toBinding.bare, d.scope⟩

theorem bindAll_bare (kind : BindingKind) (node : Span) (ids : List Ident) :
    bindAll kind .nowhere (ids.map Ident.bare) = (bindAll kind node ids).map Binding.bare := by
  simp [bindAll, Binding.bare, Ident.bare]

theorem targetNames_keyed (n : Node) :
    (n.keyed key?).targetNames = n.targetNames.map Ident.bare := by
  cases n with
  | declarator target typing init => exact boundNames_keyed key? target
  | _ => rfl

theorem flatMap_targetNames_keyed (ns : List Node) :
    (keyedAll key? ns).flatMap Node.targetNames =
      (ns.flatMap Node.targetNames).map Ident.bare := by
  induction ns with
  | nil => rfl
  | cons n ns ih => simp [keyedAll, targetNames_keyed, ih]

/-- A node binds the same names. -/
theorem bindings_keyed (n : Node) :
    (n.keyed key?).bindings = n.bindings.map Binding.bare := by
  cases n with
  | function role id parts span =>
    cases role <;> cases id <;> rfl
  | cls declares decorators id parts span =>
    cases declares <;> cases id <;> rfl
  | params items span =>
    simp only [Node.keyed, Node.bindings, boundNamesAll_keyed]
    exact bindAll_bare _ _ _
  | catchParam pattern typing span =>
    simp only [Node.keyed, Node.bindings, boundNames_keyed]
    exact bindAll_bare _ _ _
  | variableDeclaration kind declarators span =>
    simp only [Node.keyed, Node.bindings, flatMap_targetNames_keyed]
    exact bindAll_bare _ _ _
  | importing specifiers source typeOnly span =>
    simp only [Node.keyed, Node.bindings, List.map_map]
    refine List.map_congr_left fun x _ => ?_
    cases x <;> rfl
  | _ => rfl

theorem spotDeclarations_keyed (s : Spot) :
    (s.keyed key?).declarations = s.declarations.map Declaration.bare := by
  simp only [Spot.declarations, Spot.keyed, bindings_keyed, List.filterMap_map,
    List.map_filterMap]
  refine List.filterMap_congr fun b _ => ?_
  show (b.bare.owner? s.scopes).map _ = ((b.owner? s.scopes).map _).map _
  rw [Option.map_map]
  rfl

/-- Texts declare nothing. -/
theorem flatMap_declarations_filter (spots : List Spot) :
    (spots.filter Spot.isDark).flatMap Spot.declarations = spots.flatMap Spot.declarations := by
  -- a text is the only node that is left out
  have hdark : ∀ s : Spot, s.dark.flatMap Spot.declarations = s.declarations := by
    intro s
    obtain ⟨n, scopes⟩ := s
    cases n with
    | string value span => rfl
    | _ => exact List.flatMap_singleton _ _
  induction spots with
  | nil => rfl
  | cons s spots ih =>
    rw [filter_isDark_cons, List.flatMap_append, ih, hdark, List.flatMap_cons]

theorem Program.filter_spots_keyed (p : Program) :
    (p.keyed key?).spots.filter Spot.isDark =
      (p.spots.filter Spot.isDark).map (Spot.keyed key?) :=
  filter_spotsAll_keyed key? _ _ p.body

theorem Program.declarations_keyed (p : Program) :
    (p.keyed key?).declarations = p.declarations.map Declaration.bare := by
  rw [Program.declarations, ← flatMap_declarations_filter, Program.filter_spots_keyed,
    List.flatMap_map, Program.declarations, ← flatMap_declarations_filter, List.map_flatMap]
  exact List.flatMap_congr fun s _ => spotDeclarations_keyed key? s

theorem pick_bare (ds : List Declaration) :
    Declaration.pick (ds.map Declaration.bare) = (Declaration.pick ds).map Declaration.bare := by
  simp only [Declaration.pick, List.find?_map, List.head?_map, Option.map_or]
  rfl

/-- **Names mean the same**: what is visible under a name is the same declaration. -/
theorem Program.visible?_keyed (p : Program) (scopes : List Enclosing) (name : String) :
    (p.keyed key?).visible? scopes name = (p.visible? scopes name).map Declaration.bare := by
  have howned : ∀ scope, (p.keyed key?).owned? name scope =
      (p.owned? name scope).map Declaration.bare := by
    intro scope
    rw [Program.owned?, Program.declarations_keyed, List.filter_map, pick_bare]
    rfl
  induction scopes with
  | nil => rfl
  | cons s scopes ih =>
    rw [Program.visible?, List.findSome?_cons, howned, Program.visible?, List.findSome?_cons]
    cases p.owned? name s.number with
    | some d => rfl
    | none => exact ih

/-! ## Section 4: Calls -/

/-- The callee without its place. -/
def Callee.bare (c : Callee) : Callee := { c with span := .nowhere }

/-- The call without spans and with keys. -/
def StaticCall.keyed (c : StaticCall) : StaticCall :=
  ⟨c.callee.bare, keyedAll key? c.args ++ keyArgument key? c.span, c.isOptional, .nowhere⟩

theorem unwrap_keyed (n : Node) : (n.keyed key?).unwrap = n.unwrap.keyed key? := by
  cases n with
  | wrap how before inner after span =>
    simp only [Node.keyed, Node.unwrap]
    exact unwrap_keyed inner
  | _ => rfl

theorem wrappedName?_keyed (n : Node) : (n.keyed key?).wrappedName? = n.wrappedName? := by
  unfold Node.wrappedName?
  rw [unwrap_keyed]
  cases n.unwrap <;> rfl

theorem bareCallee?_keyed (n : Node) :
    (n.keyed key?).bareCallee? = n.bareCallee?.map Callee.bare := by
  cases n with
  | member object property span =>
    simp only [Node.keyed, Node.bareCallee?, wrappedName?_keyed, Option.map_map]
    rfl
  | index object key span =>
    cases key with
    | string value span =>
      simp only [Node.keyed, Node.bareCallee?, wrappedName?_keyed, Option.map_map]
      rfl
    | _ => rfl
  | _ => rfl

theorem callee?_keyed (n : Node) : (n.keyed key?).callee? = n.callee?.map Callee.bare := by
  have hwrapped : (n.keyed key?).isWrapped = n.isWrapped := by
    cases n <;> rfl
  have hspan : (n.keyed key?).span = .nowhere := by
    cases n <;> rfl
  unfold Node.callee?
  rw [hwrapped, unwrap_keyed, bareCallee?_keyed, bareCallee?_keyed, hspan]
  split
  · rw [Option.map_map, Option.map_map]
    rfl
  · rfl

theorem staticCall?_keyed (filter : NameFilter) (n : Node) :
    (n.keyed key?).staticCall? filter = (n.staticCall? filter).map (StaticCall.keyed key?) := by
  cases n with
  | call callee typeArgs args optional span =>
    simp only [Node.keyed, Node.staticCall?, callee?_keyed]
    cases callee.callee? with
    | none => rfl
    | some c =>
      simp only [Option.map_some, Callee.bare]
      split <;> rfl
  | _ => rfl

/-! ## Section 5: Exports -/

theorem declaredNames_keyed (n : Node) : (n.keyed key?).declaredNames = n.declaredNames := by
  cases n with
  | variableDeclaration kind declarators span =>
    simp only [Node.keyed, Node.declaredNames, keyedAll_eq_map, List.filterMap_map]
    refine List.filterMap_congr fun d _ => ?_
    cases d with
    | declarator target typing init => cases target <;> rfl
    | _ => rfl
  | function role id parts span => cases id <;> rfl
  | cls declares decorators id parts span => cases id <;> rfl
  | _ => rfl

theorem exportPairs_keyed (n : Node) : (n.keyed key?).exportPairs = n.exportPairs := by
  cases n with
  | exportDeclaration declaration typeOnly =>
    simp only [Node.keyed, Node.exportPairs, declaredNames_keyed]
  | exportNames specifiers source typeOnly =>
    simp only [Node.keyed, Node.exportPairs, List.filterMap_map]
    rfl
  | exportDefault value =>
    have hname : (value.keyed key?).defaultName? = value.defaultName? := by
      cases value with
      | function role id parts span => cases id <;> rfl
      | cls declares decorators id parts span => cases id <;> rfl
      | _ => rfl
    simp only [Node.keyed, Node.exportPairs, hname]
  | exportAssign value => cases value <;> rfl
  | _ => rfl

theorem flatMap_exportPairs_keyed (p : Program) :
    (p.keyed key?).body.flatMap Node.exportPairs = p.body.flatMap Node.exportPairs := by
  rw [Program.keyed, keyedAll_eq_map, List.flatMap_map]
  exact List.flatMap_congr fun n _ => exportPairs_keyed key? n

end BuildMacros.Script

namespace BuildMacros.Keys

open BuildMacros.Script

variable (key? : Span → Option String)

/-! ## Section 6: Which calls take a key -/

/-- Without a key of its own a call has the same arguments, as far as the decision goes: their
    number, which of them spread lists or are texts, and the text of the last one. -/
theorem takesKey_keyed_of_none {c : StaticCall} (hnone : key? c.span = none) (s : Site)
    (decl : Option Declaration) :
    s.takesKey (c.keyed key?) (decl.map Declaration.bare) = s.takesKey c decl := by
  have hargs : (c.keyed key?).args = c.args.map (Node.keyed key?) := by
    simp [StaticCall.keyed, keyArgument, hnone, keyedAll_eq_map]
  have hspread : ∀ n : Node, StaticCall.isSpread (n.keyed key?) = StaticCall.isSpread n := by
    intro n
    cases n <;> rfl
  have htext : ∀ n : Node, StaticCall.isText (n.keyed key?) = StaticCall.isText n := by
    intro n
    cases n <;> rfl
  have hfull : ∀ f, Site.isFull (c.keyed key?) f = Site.isFull c f := by
    intro f
    simp [Site.isFull, StaticCall.hasSpread, hargs, Function.comp_def, hspread]
  have hat : (c.keyed key?).hasTextAt = c.hasTextAt := by
    funext i
    rw [StaticCall.hasTextAt, StaticCall.hasTextAt, hargs, List.getElem?_map]
    cases c.args[i]? with
    | none => rfl
    | some n => exact htext n
  have hstated : ∀ f, Site.hasStatedKey (c.keyed key?) f = Site.hasStatedKey c f := by
    intro f
    rw [Site.hasStatedKey, Site.hasStatedKey, hat, hargs, List.length_map]
  -- the last argument is a text before and after, or neither
  have hends : Site.endsWithKey (c.keyed key?) = Site.endsWithKey c := by
    rw [Site.endsWithKey, Site.endsWithKey, hargs, List.getLast?_map]
    cases c.args.getLast? with
    | none => rfl
    | some n => cases n <;> rfl
  have hresolve : s.resolve? (c.keyed key?) (decl.map Declaration.bare) = s.resolve? c decl := by
    -- the declaration is asked for its scope and for what it imports, not for its place
    have hbare : ∀ f, s.bare? (c.keyed key?) (decl.map Declaration.bare) f = s.bare? c decl f := by
      intro f
      rw [Site.bare?, Site.bare?, hfull]
      cases decl <;> rfl
    cases decl with
    | none =>
      simp only [Site.resolve?, hbare, hfull]
      rfl
    | some d =>
      simp only [Site.resolve?, hbare, hfull]
      rfl
  rw [Site.takesKey, Site.takesKey, hresolve]
  simp only [hstated, hends]

/-- A call that has got a key takes no other. -/
theorem takesKey_keyed_of_some {c : StaticCall} {key : String} (hkey : key? c.span = some key)
    (hform : isKey key = true) (s : Site) (decl : Option Declaration) :
    s.takesKey (c.keyed key?) decl = false := by
  have hargs : (c.keyed key?).args.getLast? = some (.string key .nowhere) := by
    simp [StaticCall.keyed, keyArgument, hkey]
  have hends : Site.endsWithKey (c.keyed key?) = true := by
    rw [Site.endsWithKey, hargs]
    exact hform
  rw [Site.takesKey]
  cases s.resolve? (c.keyed key?) decl with
  | none => rfl
  | some f => simp [hends]

variable {key?}

/-- **A module with keys takes no more keys**: when the calls of a module that take a key have
    got one, no call of the module that has the same tree with these keys takes any. -/
theorem keyedCalls_eq_nil {s : Site} {b b' : Block} {p p' : Program}
    (htree : p'.bare = p.keyed key?)
    (hkeys : ∀ c ∈ keyedCalls s (parsed b p), key? c.span ≠ none)
    (hform : ∀ span key, key? span = some key → isKey key = true) :
    keyedCalls s (parsed b' p') = [] := by
  rw [keyedCalls_eq, List.filterMap_eq_nil_iff]
  intro x hx
  refine Option.eq_none_iff_forall_ne_some.mpr fun c' hc' => ?_
  rw [keyAt?, Option.filter_eq_some_iff] at hc'
  obtain ⟨hcall', htakes'⟩ := hc'
  -- the call is one of the module without keys
  obtain ⟨y, hy, hxy⟩ : ∃ y ∈ p.spots, y.keyed key? = x.keyed fun _ => none := by
    have hdark : x.isDark = true := by
      obtain ⟨n, scopes⟩ := x
      cases n with
      | string value span => cases hcall'
      | _ => rfl
    have hmem : x.keyed (fun _ => none) ∈ (p'.spots.filter Spot.isDark).map
        (Spot.keyed fun _ => none) :=
      List.mem_map_of_mem (List.mem_filter.mpr ⟨hx, hdark⟩)
    rw [← Program.filter_spots_keyed, ← Program.bare, htree, Program.filter_spots_keyed] at hmem
    obtain ⟨y, hy, hxy⟩ := List.mem_map.mp hmem
    exact ⟨y, (List.mem_filter.mp hy).1, hxy⟩
  obtain ⟨hnode, hscopes⟩ : y.node.keyed key? = (x.node.keyed fun _ => none) ∧
      y.scopes = x.scopes := Spot.mk.inj hxy
  obtain ⟨c, hcall, hc⟩ : ∃ c, y.node.staticCall? s.filter = some c ∧
      c.keyed key? = c'.keyed fun _ => none := by
    have hstatic := staticCall?_keyed (fun _ => none) s.filter x.node
    rw [hcall', ← hnode, staticCall?_keyed, Option.map_some, Option.map_eq_some_iff] at hstatic
    exact hstatic
  have hvisible : (p'.visible? x.scopes c'.binding).map Declaration.bare =
      (p.visible? y.scopes c.binding).map Declaration.bare := by
    have hbinding : c'.binding = c.binding := by
      have hcallee := congrArg StaticCall.binding hc
      exact hcallee.symm
    rw [← Program.visible?_keyed (fun _ => none), ← Program.bare, htree,
      Program.visible?_keyed, hscopes, hbinding]
  rw [← takesKey_keyed_of_none (fun _ => none) rfl, ← hc, hvisible] at htakes'
  cases hkey : key? c.span with
  | some key =>
    rw [takesKey_keyed_of_some key? hkey (hform _ _ hkey)] at htakes'
    cases htakes'
  | none =>
    rw [takesKey_keyed_of_none key? hkey] at htakes'
    refine hkeys c ?_ hkey
    rw [keyedCalls_eq]
    refine List.mem_filterMap.mpr ⟨y, hy, ?_⟩
    rw [keyAt?, hcall, Option.filter_some, if_pos htakes']

end BuildMacros.Keys
