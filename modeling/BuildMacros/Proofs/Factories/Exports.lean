import BuildMacros.Factories.Redirection

/-! # The scan finds exported factory calls

    What a module exports is said here about its tree alone (`Exported`), and which
    factory a callee stands for about its imports alone (`Denotes`). The scan is right
    to look for the two one after the other: a call that is exported under a name is a
    candidate, a candidate that denotes a factory is found, and what is found becomes
    an entry. The entry of a default export bears the name of its file.
-/

namespace BuildMacros.Factories

open BuildMacros.Script

/-! ## Section 1: Exported calls -/

/-- The module exports under a name what a call of the callee gives. -/
inductive Exported (m : Module) (filter : NameFilter) : String → Callee → Prop where
  /-- A variable is exported where it is declared. -/
  | declared {kind : VariableKind} {declarators typing more : List Node} {span : Span}
      {typeOnly : Bool} {id : Ident} {init : Node} {call : StaticCall}
      (hstatement : .exportDeclaration (.variableDeclaration kind declarators span) typeOnly ∈
        m.program.body)
      (hdeclarator : .declarator (.name id) typing (init :: more) ∈ declarators)
      (hcall : directCall? filter init = some call) (hname : id.name ≠ "default") :
      Exported m filter id.name call.callee
  /-- An export list names a variable that is declared at the root. -/
  | listed {specifiers : List ExportSpecifier} {s : ExportSpecifier} {typeOnly : Bool}
      {d : Declaration} {kind : VariableKind} {declarators typing more : List Node} {id : Ident}
      {init : Node} {call : StaticCall}
      (hstatement : .exportNames specifiers none typeOnly ∈ m.program.body)
      (hspecifier : s ∈ specifiers) (hinner : s.inner.isQuoted = false)
      (hexported : s.exported.isQuoted = false)
      (hvisible : m.scopes.getFrom? Tracker.root s.inner.id.name = some d)
      (hkind : d.kind = .variable kind)
      (hdeclared : m.program.body.findSome? (declaratorsAt? d.node) = some declarators)
      (hdeclarator : .declarator (.name id) typing (init :: more) ∈ declarators)
      (hname : id.name = s.inner.id.name) (hcall : directCall? filter init = some call) :
      Exported m filter s.exported.id.name call.callee
  /-- The call is the default export. -/
  | default {value : Node} {call : StaticCall} (hstatement : .exportDefault value ∈ m.program.body)
      (hcall : value.staticCall? filter = some call) :
      Exported m filter "default" call.callee

theorem declaratorCall?_eq {filter : NameFilter} {id : Ident} {typing more : List Node}
    {init : Node} {call : StaticCall} (h : directCall? filter init = some call) :
    declaratorCall? filter (.declarator (.name id) typing (init :: more)) =
      some (id.name, call.callee) := by
  rw [declaratorCall?, h]
  rfl

theorem exportedAs_of_ne {id name : String} (h : name ≠ "default") : exportedAs id name = name :=
  if_neg h

/-- **Exported calls are candidates**, default exports under the name of their file. -/
theorem Exported.mem_candidates {m : Module} {filter : NameFilter} {e : String} {c : Callee}
    (h : Exported m filter e c) (id : String) :
    ⟨exportedAs id e, c⟩ ∈ m.program.body.flatMap (candidates m filter id) := by
  cases h with
  | @declared _ declarators _ _ _ _ v _ call hstatement hdeclarator hcall hname =>
    have hfound : (v.name, call.callee) ∈ declarators.filterMap (declaratorCall? filter) :=
      List.mem_filterMap.mpr ⟨_, hdeclarator, declaratorCall?_eq hcall⟩
    rw [exportedAs_of_ne hname]
    exact List.mem_flatMap.mpr ⟨_, hstatement, List.mem_map.mpr ⟨_, hfound, rfl⟩⟩
  | @listed specifiers s _ d _ declarators _ _ v _ call hstatement hspecifier hinner hexported
      hvisible hkind hdeclared hdeclarator hname hcall =>
    have hfound : (v.name, call.callee) ∈ declarators.filterMap (declaratorCall? filter) :=
      List.mem_filterMap.mpr ⟨_, hdeclarator, declaratorCall?_eq hcall⟩
    refine List.mem_flatMap.mpr ⟨_, hstatement, List.mem_flatMap.mpr ⟨s, hspecifier, ?_⟩⟩
    rw [Factories.listed, hinner, hexported, Bool.or_false, if_neg Bool.false_ne_true]
    simp only [hvisible, hkind, hdeclared, Option.getD_some]
    exact List.mem_filterMap.mpr ⟨_, hfound, if_pos hname⟩
  | default hstatement hcall =>
    refine List.mem_flatMap.mpr ⟨_, hstatement, List.mem_map.mpr ⟨_, ?_, rfl⟩⟩
    exact Option.mem_toList.mpr hcall

/-! ## Section 2: Factories that callees stand for -/

/-- The callee stands for the factory, by what the module declares at its root. -/
inductive Denotes (x : Context) (m : Module) (c : Callee) (f : Factory) : Prop where
  /-- The name is imported as a value, by the name of the factory and from its module. -/
  | imported {d : Declaration} {b : ImportBinding} {name : String} (hbare : c.qualifier = none)
      (hvisible : m.scopes.getFrom? Tracker.root c.name = some d)
      (himport : d.valueImport? = some b) (hname : b.imported = .named name)
      (hfound : x.registry.get? name = some f) (hsource : x.resolver.resolve b.source = f.source)
  /-- The name is a member of the factory's module, which is imported as a whole. -/
  | member {q : String} {d : Declaration} {b : ImportBinding} (hqualifier : c.qualifier = some q)
      (hvisible : m.scopes.getFrom? Tracker.root q = some d)
      (himport : d.valueImport? = some b) (hwhole : b.imported = .whole)
      (hfound : x.registry.get? c.name = some f) (hsource : x.resolver.resolve b.source = f.source)
  /-- Nothing declares the name, and it is imported automatically from the factory's module. -/
  | automatic {source : String} (hbare : c.qualifier = none)
      (hvisible : m.scopes.getFrom? Tracker.root c.name = none)
      (hfound : x.registry.get? c.name = some f) (hauto : x.autoImports.get? f.name = some source)
      (hsource : x.resolver.resolve source = f.source)

theorem Denotes.factoryOf {x : Context} {m : Module} {c : Callee} {f : Factory}
    (h : Denotes x m c f) (id name : String) : x.factoryOf m id ⟨name, c⟩ = .ok (some f) := by
  unfold Context.factoryOf
  cases h with
  | imported hbare hvisible himport hname hfound hsource =>
    simp only [hbare, Option.getD_none, hvisible, himport, Option.bind_some, Context.imported?,
      hname, hfound, hsource, Option.filter_some, beq_self_eq_true, if_true]
  | member hqualifier hvisible himport hwhole hfound hsource =>
    simp only [hqualifier, Option.getD_some, hvisible, himport, Option.bind_some,
      Context.imported?, hwhole, hfound, hsource, Option.filter_some, beq_self_eq_true, if_true]
  | automatic hbare hvisible hfound hauto hsource =>
    simp only [hbare, Option.getD_none, hvisible, Option.isSome_none, Bool.false_eq_true, if_false,
      Context.autoImported, hfound, hauto, Option.any_some, hsource, beq_self_eq_true, if_true]

/-- What an import of a callee is resolved to, the callee denotes. -/
theorem denotes_of_imported? {x : Context} {m : Module} {c : Callee} {f : Factory} {name : String}
    {d : Declaration} {b : ImportBinding}
    (hvisible : m.scopes.getFrom? Tracker.root (c.qualifier.getD c.name) = some d)
    (himport : d.valueImport? = some b) (h : x.imported? ⟨name, c⟩ b = some f) :
    Denotes x m c f := by
  unfold Context.imported? at h
  obtain ⟨hfound, hsource⟩ := Option.filter_eq_some_iff.mp h
  have hsource : x.resolver.resolve b.source = f.source := beq_iff_eq.mp hsource
  split at hfound
  · next n hqualifier hname =>
    have hbare : c.qualifier = none := hqualifier
    rw [hbare] at hvisible
    exact .imported hbare hvisible himport hname hfound hsource
  · next q hqualifier hwhole =>
    have hmember : c.qualifier = some q := hqualifier
    rw [hmember] at hvisible
    exact .member hmember hvisible himport hwhole hfound hsource
  · cases hfound

/-- What comes out of several candidates: the call of the first one, if it is resolved to a factory,
    and the calls of the others. -/
theorem exists_of_resolveAll_cons {x : Context} {m : Module} {id : String} {e : Candidate}
    {es : List Candidate} {calls : List FactoryCall} (h : x.resolveAll m id (e :: es) = .ok calls) :
    ∃ found more, x.factoryOf m id e = .ok found ∧ x.resolveAll m id es = .ok more ∧
      calls = (found.map fun f => ⟨e.functionName, e.callee, f⟩).toList ++ more := by
  unfold Context.resolveAll at h
  obtain ⟨found, hfirst, h⟩ := exists_of_bind_eq_ok h
  obtain ⟨more, hmore, h⟩ := exists_of_bind_eq_ok h
  cases h
  exact ⟨found, more, hfirst, hmore, rfl⟩

/-- The failure of several candidates is the one of some candidate. -/
theorem exists_factoryOf_of_resolveAll {x : Context} {m : Module} {id : String}
    {es : List Candidate} {failure : Failure} (h : x.resolveAll m id es = .error failure) :
    ∃ e ∈ es, x.factoryOf m id e = .error failure := by
  induction es with
  | nil => cases h
  | cons e es ih =>
    unfold Context.resolveAll at h
    cases hfirst : x.factoryOf m id e with
    | error failure' =>
      rw [hfirst] at h
      cases h
      exact ⟨e, List.mem_cons_self, hfirst⟩
    | ok found =>
      cases hmore : x.resolveAll m id es with
      | error failure' =>
        rw [hfirst, hmore] at h
        cases h
        obtain ⟨e', he', hfailed⟩ := ih hmore
        exact ⟨e', List.mem_cons_of_mem _ he', hfailed⟩
      | ok more =>
        rw [hfirst, hmore] at h
        cases h

/-- A candidate that is resolved to a factory is among the calls that are found. -/
theorem mem_resolveAll {x : Context} {m : Module} {id : String} {cs : List Candidate}
    {calls : List FactoryCall} (h : x.resolveAll m id cs = .ok calls) {c : Candidate} (hc : c ∈ cs)
    {f : Factory} (hf : x.factoryOf m id c = .ok (some f)) :
    ⟨c.functionName, c.callee, f⟩ ∈ calls := by
  induction cs generalizing calls with
  | nil => cases hc
  | cons c' cs ih =>
    obtain ⟨found, more, hfirst, hmore, rfl⟩ := exists_of_resolveAll_cons h
    rcases List.mem_cons.mp hc with rfl | hc
    · rw [hf] at hfirst
      cases hfirst
      exact List.mem_append_left _ (List.mem_singleton_self _)
    · exact List.mem_append_right _ (ih hmore hc)

/-! ## Section 3: Scanning one file -/

theorem isEmpty_of_isMentionedIn {registry : FactoryRegistry} {code : String}
    (h : registry.isMentionedIn code = true) : registry.isEmpty = false := by
  obtain ⟨name, hname, -⟩ := List.any_eq_true.mp h
  exact List.isEmpty_eq_false_iff_exists_mem.mpr ⟨name, hname⟩

/-- Scanning a text that is looked at and parses. -/
theorem scan_eq {registry : FactoryRegistry} {options : TransformOptions} {code id : String}
    {m : Module} (hmentioned : registry.isMentionedIn code = true)
    (hparse : Module.parse code id = .ok m) :
    scan registry options code id =
      (find registry options id m).map fun calls => calls.map (FactoryCall.entry id) := by
  have hcalls : callsIn registry options code id =
      (find registry options id m).map fun calls => some (m, calls) := by
    unfold callsIn
    rw [isEmpty_of_isMentionedIn hmentioned, hmentioned, hparse]
    rfl
  unfold scan
  rw [hcalls]
  cases find registry options id m <;> rfl

/-- Resolving calls fails for reasons that are reported. -/
theorem isRecoverable_of_resolveAll {x : Context} {m : Module} {id : String} {cs : List Candidate}
    {failure : Failure} (h : x.resolveAll m id cs = .error failure) :
    failure.isRecoverable = false := by
  obtain ⟨c, -, hfailed⟩ := exists_factoryOf_of_resolveAll h
  unfold Context.factoryOf at hfailed
  split at hfailed
  · split at hfailed
    · cases hfailed
    · unfold Context.autoImported at hfailed
      split at hfailed
      · cases hfailed
        rfl
      · cases hfailed
  · cases hfailed

/-- **The scan finds exported factory calls**: a call that denotes a factory and is exported
    becomes an entry of its file, with the length that the factory gives. -/
theorem mem_of_find {registry : FactoryRegistry} {options : TransformOptions} {id : String}
    {m : Module} {e : String} {c : Callee} {f : Factory}
    (hexported : Exported m (Context.new registry options id m.block.content).filter e c)
    (hdenotes : Denotes (.new registry options id m.block.content) m c f)
    {calls : List FactoryCall} (h : find registry options id m = .ok calls) :
    ⟨exportedAs id e, some (.path (Path.clean id)), f.argumentLength⟩ ∈
      calls.map (FactoryCall.entry id) :=
  List.mem_map.mpr
    ⟨_, mem_resolveAll h (hexported.mem_candidates id) (hdenotes.factoryOf id _), rfl⟩

end BuildMacros.Factories
