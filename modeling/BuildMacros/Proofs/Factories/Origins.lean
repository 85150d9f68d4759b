import BuildMacros.Proofs.Factories.Exports
import BuildMacros.Proofs.Pattern.Names
import BuildMacros.Proofs.Scope.OwnNames
import BuildMacros.Proofs.Script.Blocks
import BuildMacros.Proofs.Script.StaticCalls

/-! # Where factory calls come from

    A factory call that is found is read off the tree at one of three places: the initial
    value of a variable that is exported where it is declared, the initial value of a
    root variable that an export list names, or a default export (`Origin`). A candidate
    is nothing else (`mem_candidates_iff`).

    What the callee stands for is said with the name and the source of a factory alone
    (`StandsFor`), not with a registry. The two agree because a registry stores every
    factory under its own name. So the calls that are found are known exactly.
-/

namespace BuildMacros

open BuildMacros.Script

/-! ## Section 1: Registries of factories -/

namespace FactoryRegistry

/-- Every factory is stored under its own name. -/
def Faithful (r : FactoryRegistry) : Prop := ∀ name f, r.get? name = some f → f.name = name

theorem Faithful.add {r : FactoryRegistry} (h : r.Faithful) (aliases : AliasTable)
    (e : FactoryEntry) : (r.add aliases e).Faithful := by
  intro name f hf
  unfold FactoryRegistry.add at hf
  split at hf
  · exact h name f hf
  · unfold get? at hf
    by_cases hname : name = e.name
    · subst hname
      rw [Assoc.get?_insert_self] at hf
      cases hf
      rfl
    · rw [Assoc.get?_insert_of_ne _ _ hname] at hf
      exact h name f hf

/-- **The registry of a list of entries is faithful.** -/
theorem faithful_ofEntries (aliases : AliasTable) (es : List FactoryEntry) :
    (ofEntries aliases es).Faithful := by
  -- from any faithful registry: every entry adds to what the earlier ones have made
  have hfold : ∀ (es : List FactoryEntry) (r : FactoryRegistry), r.Faithful →
      (es.foldl (FactoryRegistry.add aliases) r).Faithful := by
    intro es
    induction es with
    | nil => exact fun r hr => hr
    | cons e es ih => exact fun r hr => ih _ (hr.add aliases e)
  apply hfold
  intro name f hf
  cases hf

end FactoryRegistry

/-! ## Section 2: Calls and their callees -/

namespace Script

/-- Wrappers aside, the expression is a name, or a member of a name under a key that is written
    out. -/
inductive Spells : Node → Option String → String → Prop where
  | name {n : Node} {id : Ident} (h : n.unwrap = .use id) : Spells n none id.name
  | member {n object : Node} {property id : Ident} {span : Span}
      (h : n.unwrap = .member object property span) (hobject : object.unwrap = .use id) :
      Spells n (some id.name) property.name
  | quoted {n object : Node} {key : String} {keySpan span : Span} {id : Ident}
      (h : n.unwrap = .index object (.string key keySpan) span)
      (hobject : object.unwrap = .use id) : Spells n (some id.name) key

theorem spells_of_names {n inner : Node} {c : Callee} (hinner : n.Wraps inner)
    (h : inner.Names c) : Spells n c.qualifier c.name := by
  have hunwrap : n.unwrap = inner :=
    (Node.wraps_iff_of_isWrapped_eq_false h.isWrapped_eq_false).mp hinner
  have huse {object : Node} {q : Ident} (hobject : object.Wraps (.use q)) :
      object.unwrap = .use q := (Node.wraps_iff_of_isWrapped_eq_false rfl).mp hobject
  cases h with
  | name id => exact .name hunwrap
  | member property span hobject => exact .member hunwrap (huse hobject)
  | key key keySpan span hobject => exact .quoted hunwrap (huse hobject)

/-- A callee that is known is spelled out. -/
theorem spells_of_callee? {n : Node} {c : Callee} (h : n.callee? = some c) :
    Spells n c.qualifier c.name := by
  cases Node.callee?_eq_some_iff.mp h with
  | bare hnames => exact spells_of_names (.refl n) hnames
  | wrapped _ hinner hnames =>
    have hspells := spells_of_names hinner hnames
    exact hspells

/-- The node is a call of the callee, which is spelled out. -/
inductive CallOf : Node → Callee → Prop where
  | intro {f : Node} {typeArgs args : List Node} {optional : Bool} {span : Span} {c : Callee}
      (hcallee : f.callee? = some c) (hspelled : Spells f c.qualifier c.name) :
      CallOf (.call f typeArgs args optional span) c

/-- The node is a call of the callee, or a chain of links that ends in one. -/
inductive DirectCallOf : Node → Callee → Prop where
  | call {n : Node} {c : Callee} (h : CallOf n c) : DirectCallOf n c
  | chain {n : Node} {span : Span} {c : Callee} (h : CallOf n c) : DirectCallOf (.chain n span) c

theorem exists_staticCall?_iff {filter : NameFilter} {n : Node} {c : Callee} :
    (∃ call, n.staticCall? filter = some call ∧ call.callee = c) ↔
      CallOf n c ∧ filter.accepts c.name = true := by
  constructor
  · rintro ⟨call, hcall, rfl⟩
    obtain ⟨callee, typeArgs, rfl, hdesignates, haccepts⟩ := Node.staticCall?_eq_some_iff.mp hcall
    have hcallee := Node.callee?_eq_some_iff.mpr hdesignates
    exact ⟨.intro hcallee (spells_of_callee? hcallee), haccepts⟩
  · rintro ⟨hof, haccepts⟩
    cases hof with
    | @intro f typeArgs args optional span _ hcallee _ =>
      refine ⟨⟨c, args, optional, span⟩, ?_, rfl⟩
      rw [Node.staticCall?, hcallee]
      exact if_pos haccepts

end Script

namespace Factories

theorem exists_directCall?_iff {filter : NameFilter} {n : Node} {c : Callee} :
    (∃ call, directCall? filter n = some call ∧ call.callee = c) ↔
      DirectCallOf n c ∧ filter.accepts c.name = true := by
  constructor
  · rintro ⟨call, hcall, rfl⟩
    unfold directCall? at hcall
    split at hcall
    · obtain ⟨hof, haccepts⟩ := exists_staticCall?_iff.mp ⟨call, hcall, rfl⟩
      exact ⟨.chain hof, haccepts⟩
    · obtain ⟨hof, haccepts⟩ := exists_staticCall?_iff.mp ⟨call, hcall, rfl⟩
      exact ⟨.call hof, haccepts⟩
  · rintro ⟨hdirect, haccepts⟩
    cases hdirect with
    | call hof =>
      obtain ⟨call, hcall, hcallee⟩ := exists_staticCall?_iff.mpr ⟨hof, haccepts⟩
      refine ⟨call, ?_, hcallee⟩
      -- a call is no chain
      cases hof
      exact hcall
    | chain hof => exact exists_staticCall?_iff.mpr ⟨hof, haccepts⟩

/-! ## Section 3: Origins -/

/-- The variable is declared with a direct call of the callee as its initial value. -/
inductive MadeBy : Node → String → Callee → Prop where
  | intro {v : Ident} {typing more : List Node} {init : Node} {c : Callee}
      (h : DirectCallOf init c) : MadeBy (.declarator (.name v) typing (init :: more)) v.name c

/-- The statement declares variables, by these declarators, behind `export` or not. -/
inductive Declares : Node → List Node → Prop where
  | plain (kind : VariableKind) (declarators : List Node) (span : Span) :
      Declares (.variableDeclaration kind declarators span) declarators
  | exported (kind : VariableKind) (declarators : List Node) (span : Span) (typeOnly : Bool) :
      Declares (.exportDeclaration (.variableDeclaration kind declarators span) typeOnly)
        declarators

/-- The module exports under a name what a call of the callee gives. A default export bears the
    name of the file. -/
inductive Origin (m : Module) (id : String) : String → Callee → Prop where
  /-- A variable is exported where it is declared. -/
  | declared {kind : VariableKind} {declarators : List Node} {span : Span} {typeOnly : Bool}
      {d : Node} {name : String} {c : Callee}
      (hstatement : .exportDeclaration (.variableDeclaration kind declarators span) typeOnly ∈
        m.program.body)
      (hd : d ∈ declarators) (hmade : MadeBy d name c) : Origin m id name c
  /-- An export list names a variable; the declaration that the root scope has of the name is the
      one of a statement at the root. -/
  | listed {specifiers : List ExportSpecifier} {typeOnly : Bool} {s : ExportSpecifier}
      {declaration : Declaration} {kind : VariableKind} {n d : Node} {declarators : List Node}
      {c : Callee}
      (hlist : .exportNames specifiers none typeOnly ∈ m.program.body) (hs : s ∈ specifiers)
      (hinner : s.inner.isQuoted = false) (hexported : s.exported.isQuoted = false)
      (hroot : m.scopes.getFrom? Tracker.root s.inner.id.name = some declaration)
      (hkind : declaration.kind = .variable kind)
      (hn : n ∈ m.program.body) (hdeclares : Declares n declarators)
      (hfirst : m.program.body.findSome? (declaratorsAt? declaration.node) = some declarators)
      (hd : d ∈ declarators) (hmade : MadeBy d s.inner.id.name c) :
      Origin m id (exportedAs id s.exported.id.name) c
  /-- The call is the default export. -/
  | default {value : Node} {c : Callee} (hstatement : .exportDefault value ∈ m.program.body)
      (hcall : CallOf value c) : Origin m id (Naming.defaultExportName (Path.clean id)) c

theorem declaratorCall?_iff {filter : NameFilter} {d : Node} {name : String} {c : Callee} :
    declaratorCall? filter d = some (name, c) ↔ MadeBy d name c ∧ filter.accepts c.name = true := by
  constructor
  · intro h
    unfold declaratorCall? at h
    split at h
    · obtain ⟨call, hcall, hpair⟩ := Option.map_eq_some_iff.mp h
      cases hpair
      obtain ⟨hdirect, haccepts⟩ := exists_directCall?_iff.mp ⟨call, hcall, rfl⟩
      exact ⟨.intro hdirect, haccepts⟩
    · cases h
  · rintro ⟨⟨hdirect⟩, haccepts⟩
    obtain ⟨call, hcall, rfl⟩ := exists_directCall?_iff.mpr ⟨hdirect, haccepts⟩
    exact declaratorCall?_eq hcall

theorem mem_filterMap_declaratorCall?_iff {filter : NameFilter} {declarators : List Node}
    {name : String} {c : Callee} :
    (name, c) ∈ declarators.filterMap (declaratorCall? filter) ↔
      (∃ d ∈ declarators, MadeBy d name c) ∧ filter.accepts c.name = true := by
  rw [List.mem_filterMap]
  constructor
  · rintro ⟨d, hd, h⟩
    obtain ⟨hmade, haccepts⟩ := declaratorCall?_iff.mp h
    exact ⟨⟨d, hd, hmade⟩, haccepts⟩
  · rintro ⟨⟨d, hd, hmade⟩, haccepts⟩
    exact ⟨d, hd, declaratorCall?_iff.mpr ⟨hmade, haccepts⟩⟩

theorem declares_of_declaratorsAt? {span : Span} {n : Node} {declarators : List Node}
    (h : declaratorsAt? span n = some declarators) : Declares n declarators := by
  unfold declaratorsAt? at h
  split at h
  · split at h
    · cases h
      exact .plain _ _ _
    · cases h
  · split at h
    · cases h
      exact .exported _ _ _ _
    · cases h
  · cases h

/-- What an entry of an export list leads to. -/
theorem mem_listed_iff {m : Module} {filter : NameFilter} {id : String} {s : ExportSpecifier}
    {e : Candidate} :
    e ∈ listed m filter id s ↔
      s.inner.isQuoted = false ∧ s.exported.isQuoted = false ∧
        e.functionName = exportedAs id s.exported.id.name ∧
        ∃ declaration kind declarators,
          m.scopes.getFrom? Tracker.root s.inner.id.name = some declaration ∧
          declaration.kind = .variable kind ∧
          m.program.body.findSome? (declaratorsAt? declaration.node) = some declarators ∧
          (∃ d ∈ declarators, MadeBy d s.inner.id.name e.callee) ∧
          filter.accepts e.callee.name = true := by
  obtain ⟨name, callee⟩ := e
  constructor
  -- one check after the other: no name is quoted, the root scope has a variable of the name, and
  -- the declarators are those of the first statement that can have declared it
  · intro h
    unfold listed at h
    split at h
    · cases h
    · next hquoted =>
      rw [Bool.or_eq_true, not_or, Bool.not_eq_true, Bool.not_eq_true] at hquoted
      split at h
      · next declaration hroot =>
        split at h
        · next kind hkind =>
          dsimp only at h
          obtain ⟨⟨inner, callee'⟩, hmem, hsome⟩ := List.mem_filterMap.mp h
          dsimp only at hsome
          split at hsome
          · next hinner =>
            cases hsome
            subst hinner
            cases hfirst : m.program.body.findSome? (declaratorsAt? declaration.node) with
            | none =>
              rw [hfirst] at hmem
              cases hmem
            | some declarators =>
              rw [hfirst] at hmem
              obtain ⟨hmade, haccepts⟩ := mem_filterMap_declaratorCall?_iff.mp hmem
              exact ⟨hquoted.1, hquoted.2, rfl, declaration, kind, declarators, hroot, hkind,
                hfirst, hmade, haccepts⟩
          · cases hsome
        · cases h
      · cases h
  · rintro ⟨hinner, hexported, hname, declaration, kind, declarators, hroot, hkind, hfirst, hmade,
      haccepts⟩
    dsimp only at hname
    unfold listed
    rw [hinner, hexported, Bool.or_false, if_neg Bool.false_ne_true]
    simp only [hroot, hkind, hfirst, Option.getD_some]
    refine List.mem_filterMap.mpr
      ⟨_, mem_filterMap_declaratorCall?_iff.mpr ⟨hmade, haccepts⟩, ?_⟩
    rw [if_pos rfl, hname]

/-- **What a candidate is**: a call that is exported at one of the three places, by a name that is
    looked at. -/
theorem mem_candidates_iff {m : Module} {filter : NameFilter} {id : String} {e : Candidate} :
    e ∈ m.program.body.flatMap (candidates m filter id) ↔
      Origin m id e.functionName e.callee ∧ filter.accepts e.callee.name = true := by
  rw [List.mem_flatMap]
  constructor
  -- one case for each kind of statement that exports values
  · rintro ⟨n, hn, h⟩
    unfold candidates at h
    split at h
    · obtain ⟨⟨inner, callee⟩, hmem, rfl⟩ := List.mem_map.mp h
      obtain ⟨⟨d, hd, hmade⟩, haccepts⟩ := mem_filterMap_declaratorCall?_iff.mp hmem
      exact ⟨.declared hn hd hmade, haccepts⟩
    · obtain ⟨s, hs, h⟩ := List.mem_flatMap.mp h
      obtain ⟨hinner, hexported, hname, declaration, kind, declarators, hroot, hkind, hfirst,
        ⟨d, hd, hmade⟩, haccepts⟩ := mem_listed_iff.mp h
      obtain ⟨n', hn', hat⟩ := List.exists_of_findSome?_eq_some hfirst
      rw [hname]
      exact ⟨.listed hn hs hinner hexported hroot hkind hn' (declares_of_declaratorsAt? hat) hfirst
        hd hmade, haccepts⟩
    · obtain ⟨call, hcall, rfl⟩ := List.mem_map.mp h
      obtain ⟨hof, haccepts⟩ :=
        exists_staticCall?_iff.mp ⟨call, Option.mem_toList.mp hcall, rfl⟩
      exact ⟨.default hn hof, haccepts⟩
    · cases h
  · obtain ⟨name, callee⟩ := e
    rintro ⟨horigin, haccepts⟩
    dsimp only at horigin haccepts
    cases horigin with
    | declared hstatement hd hmade =>
      refine ⟨_, hstatement, List.mem_map.mpr ⟨(name, callee), ?_, rfl⟩⟩
      exact mem_filterMap_declaratorCall?_iff.mpr ⟨⟨_, hd, hmade⟩, haccepts⟩
    | listed hlist hs hinner hexported hroot hkind hn hdeclares hfirst hd hmade =>
      refine ⟨_, hlist, List.mem_flatMap.mpr ⟨_, hs, mem_listed_iff.mpr ?_⟩⟩
      exact ⟨hinner, hexported, rfl, _, _, _, hroot, hkind, hfirst, ⟨_, hd, hmade⟩, haccepts⟩
    | default hstatement hcall =>
      obtain ⟨call, hstatic, rfl⟩ := exists_staticCall?_iff.mpr ⟨hcall, haccepts⟩
      exact ⟨_, hstatement, List.mem_map.mpr ⟨call, Option.mem_toList.mpr hstatic, rfl⟩⟩

/-! ## Section 4: What callees stand for -/

/-- The callee stands for the factory by what the module declares at its root, said with the name
    and the source of the factory alone. -/
inductive StandsFor (resolver : Resolver) (autoImports : Dictionary) (m : Module) (c : Callee)
    (f : Factory) : Prop where
  /-- A plain name, imported as a value by the name of the factory and from its module. -/
  | imported {d : Declaration} {source : String} (hbare : c.qualifier = none)
      (hroot : m.scopes.getFrom? Tracker.root c.name = some d)
      (hkind : d.kind = .imported ⟨source, .named f.name, false⟩)
      (hsource : resolver.resolve source = f.source) : StandsFor resolver autoImports m c f
  /-- A member with the name of the factory, of the factory's module imported as a whole. -/
  | member {q : String} {d : Declaration} {source : String} (hqualifier : c.qualifier = some q)
      (hname : c.name = f.name) (hroot : m.scopes.getFrom? Tracker.root q = some d)
      (hkind : d.kind = .imported ⟨source, .whole, false⟩)
      (hsource : resolver.resolve source = f.source) : StandsFor resolver autoImports m c f
  /-- The plain name of the factory, which nothing declares and which is imported automatically
      from its module. -/
  | automatic {source : String} (hbare : c.qualifier = none) (hname : c.name = f.name)
      (hroot : m.scopes.getFrom? Tracker.root c.name = none)
      (hauto : autoImports.get? f.name = some source)
      (hsource : resolver.resolve source = f.source) : StandsFor resolver autoImports m c f

/-- In a faithful registry, a callee denotes a factory when it stands for it and the factory is
    registered. -/
theorem denotes_iff {x : Context} (hfaithful : x.registry.Faithful) {m : Module} {c : Callee}
    {f : Factory} :
    Denotes x m c f ↔ x.registry.get? f.name = some f ∧
      StandsFor x.resolver x.autoImports m c f := by
  constructor
  -- the registry has a factory under its own name only, so the name that it is found under is it
  · intro h
    cases h with
    | @imported d b name hbare hvisible himport hname hfound hsource =>
      have hself : f.name = name := hfaithful name f hfound
      obtain ⟨hkind, hvalue⟩ := Declaration.kind_of_valueImport? himport
      obtain ⟨source, imported, typeOnly⟩ := b
      dsimp only at hname hvalue hsource
      subst hname hvalue hself
      exact ⟨hfound, .imported hbare hvisible hkind hsource⟩
    | @member q d b hqualifier hvisible himport hwhole hfound hsource =>
      have hself : f.name = c.name := hfaithful c.name f hfound
      obtain ⟨hkind, hvalue⟩ := Declaration.kind_of_valueImport? himport
      obtain ⟨source, imported, typeOnly⟩ := b
      dsimp only at hwhole hvalue hsource
      subst hwhole hvalue
      rw [← hself] at hfound
      exact ⟨hfound, .member hqualifier hself.symm hvisible hkind hsource⟩
    | automatic hbare hvisible hfound hauto hsource =>
      have hself : f.name = c.name := hfaithful c.name f hfound
      rw [← hself] at hfound
      exact ⟨hfound, .automatic hbare hself.symm hvisible hauto hsource⟩
  · rintro ⟨hfound, h⟩
    cases h with
    | imported hbare hroot hkind hsource =>
      exact .imported hbare hroot (Declaration.valueImport?_of_kind hkind rfl) rfl hfound hsource
    | member hqualifier hname hroot hkind hsource =>
      rw [← hname] at hfound
      exact .member hqualifier hroot (Declaration.valueImport?_of_kind hkind rfl) rfl hfound hsource
    | automatic hbare hname hroot hauto hsource =>
      refine .automatic hbare hroot ?_ hauto hsource
      rwa [hname]

/-- What a candidate is resolved to. -/
theorem factoryOf_iff {x : Context} {m : Module} {id : String} {e : Candidate} {f : Factory} :
    x.factoryOf m id e = .ok (some f) ↔ Denotes x m e.callee f := by
  obtain ⟨name, c⟩ := e
  constructor
  · intro h
    unfold Context.factoryOf at h
    split at h
    -- nothing is declared at the root: a plain name may still be imported automatically
    · next hroot =>
      by_cases hqualified : c.qualifier.isSome = true
      · rw [if_pos hqualified] at h
        cases h
      · rw [if_neg hqualified] at h
        have hbare : c.qualifier = none := by simpa using hqualified
        rw [hbare, Option.getD_none] at hroot
        unfold Context.autoImported at h
        split at h
        · cases h
        · next f' hfound =>
          simp only [Except.ok.injEq] at h
          split at h
          · next hauto =>
            cases h
            obtain ⟨source, hget, hsource⟩ := (Option.any_eq_true _ _).mp hauto
            exact .automatic hbare hroot hfound hget (beq_iff_eq.mp hsource)
          · cases h
    -- what is declared there decides alone
    · next d hroot =>
      simp only [Except.ok.injEq] at h
      obtain ⟨b, himport, hb⟩ := Option.bind_eq_some_iff.mp h
      exact denotes_of_imported? hroot himport hb
  · exact fun h => h.factoryOf id name

/-- The calls that are found are the candidates that are resolved to a factory. -/
theorem mem_resolveAll_iff {x : Context} {m : Module} {id : String} {es : List Candidate}
    {calls : List FactoryCall} (h : x.resolveAll m id es = .ok calls) (call : FactoryCall) :
    call ∈ calls ↔
      ⟨call.functionName, call.callee⟩ ∈ es ∧ Denotes x m call.callee call.factory := by
  constructor
  · intro hcall
    induction es generalizing calls with
    | nil =>
      cases h
      cases hcall
    | cons e es ih =>
      obtain ⟨found, more, hfirst, hmore, rfl⟩ := exists_of_resolveAll_cons h
      rcases List.mem_append.mp hcall with hcall | hcall
      · obtain ⟨f, rfl, rfl⟩ := Option.map_eq_some_iff.mp (Option.mem_toList.mp hcall)
        exact ⟨List.mem_cons_self, factoryOf_iff.mp hfirst⟩
      · obtain ⟨hmem, hdenotes⟩ := ih hmore hcall
        exact ⟨List.mem_cons_of_mem _ hmem, hdenotes⟩
  · rintro ⟨hmem, hdenotes⟩
    exact mem_resolveAll h hmem (factoryOf_iff.mpr hdenotes)

/-! ## Section 5: The calls that are found -/

/-- The name is looked at: a factory is registered under it, or the text seems to import a
    registered factory as it. -/
def Context.Notices (x : Context) (name : String) : Prop :=
  name ∈ x.registry.names ∨
    ∃ d, (name, d) ∈ x.imports.direct ∧ (x.registry.get? d.exported).isSome = true

theorem accepts_filter_iff {x : Context} {name : String} :
    x.filter.accepts name = true ↔ x.Notices name := by
  unfold Context.filter Context.Notices
  rw [NameFilter.accepts_ofNames, List.mem_append]
  refine or_congr_right ?_
  constructor
  · intro h
    obtain ⟨⟨n, d⟩, hmem, rfl⟩ := List.mem_map.mp h
    obtain ⟨hdirect, hregistered⟩ := List.mem_filter.mp hmem
    exact ⟨d, hdirect, hregistered⟩
  · rintro ⟨d, hdirect, hregistered⟩
    exact List.mem_map.mpr ⟨(name, d), List.mem_filter.mpr ⟨hdirect, hregistered⟩, rfl⟩

/-- **Which factory calls are found**: the calls by a name that is looked at, exported at one of the
    three places, whose callee stands for a registered factory. So a callee that the module
    declares at its root is a value import, and no default import. -/
theorem mem_find_iff (aliases : AliasTable) (entries : List FactoryEntry)
    (options : TransformOptions) (id : String) (m : Module) (calls : List FactoryCall)
    (h : find (.ofEntries aliases entries) options id m = .ok calls) :
    let x := Context.new (.ofEntries aliases entries) options id m.block.content
    (∀ call, call ∈ calls ↔
      Origin m id call.functionName call.callee ∧ x.Notices call.callee.name ∧
        x.registry.get? call.factory.name = some call.factory ∧
        StandsFor x.resolver options.autoImports m call.callee call.factory) ∧
      ∀ call ∈ calls, ∀ d,
        m.scopes.getFrom? Tracker.root (call.callee.qualifier.getD call.callee.name) = some d →
        ∃ b, d.kind = .imported b ∧ b.typeOnly = false ∧ b.imported ≠ .default := by
  intro x
  have hfaithful : x.registry.Faithful := FactoryRegistry.faithful_ofEntries aliases entries
  have hcalls : ∀ call, call ∈ calls ↔
      Origin m id call.functionName call.callee ∧ x.Notices call.callee.name ∧
        x.registry.get? call.factory.name = some call.factory ∧
        StandsFor x.resolver options.autoImports m call.callee call.factory := by
    intro call
    rw [mem_resolveAll_iff h, mem_candidates_iff, accepts_filter_iff, denotes_iff hfaithful,
      and_assoc]
    rfl
  refine ⟨hcalls, fun call hcall d hroot => ?_⟩
  obtain ⟨-, -, -, hstands⟩ := (hcalls call).mp hcall
  cases hstands with
  | imported hbare hroot' hkind _ =>
    rw [hbare, Option.getD_none, hroot'] at hroot
    cases hroot
    exact ⟨_, hkind, rfl, by simp⟩
  | member hqualifier _ hroot' hkind _ =>
    rw [hqualifier, Option.getD_some, hroot'] at hroot
    cases hroot
    exact ⟨_, hkind, rfl, by simp⟩
  | automatic hbare _ hroot' _ _ =>
    rw [hbare, Option.getD_none, hroot'] at hroot
    cases hroot

/-- A file that has one factory in three ways: imported under another name, as a member of its
    module, and automatically. -/
def waysCode : String :=
  "import { make as m1 } from '#m'\nimport * as ns from '#m'\nconst v = m1()\n" ++
    "export { v as a }\nexport const c = ns['make']?.()\nexport default make()"

/-- The factory. -/
def waysEntries : List FactoryEntry := [⟨"make", "#m", 3⟩]

/-- Options by which it is imported automatically. -/
def waysOptions : TransformOptions :=
  ⟨none, .empty, Dictionary.empty.insert "make" "#m", false, defaultFactoryMarker⟩

/-- All three calls are found, each at its own place. -/
theorem mem_find_iff_ways :
    ∃ m calls, Module.parse waysCode "/b.ts" = .ok m ∧
      find (.ofEntries (.ofMap []) waysEntries) waysOptions "/b.ts" m = .ok calls ∧
      calls.map FactoryCall.functionName = ["a", "c", "b"] ∧
      ∀ call ∈ calls, Origin m "/b.ts" call.functionName call.callee ∧
        StandsFor (Resolver.new (.ofMap []) "/b.ts") waysOptions.autoImports m call.callee
          call.factory := by
  have hchars : waysCode.toList = _ := toList_append_ofList String.toList_ofList _
  have hnames : ((Module.parse waysCode "/b.ts").toOption.bind fun m =>
      (find (.ofEntries (.ofMap []) waysEntries) waysOptions "/b.ts" m).toOption.map
        (List.map FactoryCall.functionName)) = some ["a", "c", "b"] := by
    rw [Module.toOption_parse_script hchars (by decide)]
    simp only [Option.bind_map, Function.comp_def, find, Context.new, Import.findImports, hchars]
    decide +kernel
  obtain ⟨m, hm, hnames⟩ := Option.bind_eq_some_iff.mp hnames
  obtain ⟨calls, hcalls, hnames⟩ := Option.map_eq_some_iff.mp hnames
  have hcalls := eq_ok_of_toOption hcalls
  refine ⟨m, calls, eq_ok_of_toOption hm, hcalls, hnames, fun call hcall => ?_⟩
  obtain ⟨hiff, -⟩ := mem_find_iff _ _ _ _ _ _ hcalls
  obtain ⟨horigin, -, -, hstands⟩ := (hiff call).mp hcall
  exact ⟨horigin, hstands⟩

end Factories

end BuildMacros
