import BuildMacros.Proofs.Keys.Imported
import BuildMacros.Proofs.Registry.Interchange
import BuildMacros.Proofs.Splice.Insertions

/-! # Texts that mention no registered name

    Before the pass that gives keys parses a text, it asks whether the text mentions the
    name of a keyed function, or the stem of a file whose default export is keyed. If it
    does not, the text is left as it is. The question is meant to save time and nothing
    else.

    It is harmless for every function that is called by its own name, because a name that
    a call, an import or an export uses stands in the text (`Module.Written` leaves out
    names that are spelled with escapes). A default export has no name of its own. The
    file itself may declare it under any name, and an importer may call it anything. The
    importer's specifier shows the stem of the file, unless an alias stands for the path.
    So there are texts that mention nothing and still call a keyed function. `Overlooked`
    says which calls these are, and that there are no others is
    `injectUnasked_eq_inject_iff`.
-/

namespace BuildMacros.Keys

open BuildMacros.Script

/-! ## Section 1: The pass without its question -/

/-- The pass that gives keys, without asking what the text mentions. -/
def injectUnasked (registry : KeyedRegistry) (options : TransformOptions) (code id : String) :
    Except Failure Output := do
  let m ← Module.parse code id
  let path := Path.relativeTo options.rootDir (Path.clean id)
  let s ← (insertions (siteOf registry options id m) path m).foldlM
    (fun s (pos, text) => s.insert pos text) (Splicer.new code)
  return s.output id options.sourcemap

theorem inject_eq (registry : KeyedRegistry) (options : TransformOptions) (code id : String) :
    inject registry options code id =
      if registry.isEmpty || !registry.isMentionedIn code then .ok .unchanged
      else injectUnasked registry options code id := by
  unfold inject injectUnasked
  split <;> rfl

/-- What is made of a text that parses. -/
theorem injectUnasked_eq_map {registry : KeyedRegistry} {options : TransformOptions}
    {code id : String} {m : Module} (hparse : Module.parse code id = .ok m) :
    injectUnasked registry options code id =
      ((insertions (siteOf registry options id m)
        (Path.relativeTo options.rootDir (Path.clean id)) m).foldlM
          (fun (s : Splicer) x => s.insert x.1 x.2) (.new code)).map
            (Splicer.output · id options.sourcemap) := by
  unfold injectUnasked
  rw [hparse]
  rfl

/-- The pass leaves a text that parses as it is exactly if it has nothing to insert. -/
theorem injectUnasked_eq_unchanged_iff {registry : KeyedRegistry} {options : TransformOptions}
    {code id : String} {m : Module} (hparse : Module.parse code id = .ok m) :
    injectUnasked registry options code id = .ok .unchanged ↔
      keyedCalls (siteOf registry options id m) m = [] := by
  let edits := insertions (siteOf registry options id m)
    (Path.relativeTo options.rootDir (Path.clean id)) m
  have hrun : injectUnasked registry options code id =
      (edits.foldlM (fun (s : Splicer) x => s.insert x.1 x.2) (.new code)).map
        (Splicer.output · id options.sourcemap) := injectUnasked_eq_map hparse
  have hedits : edits = [] ↔ keyedCalls (siteOf registry options id m) m = [] := by
    show List.map _ (List.zipIdx _ 1) = [] ↔ _
    rw [List.map_eq_nil_iff, List.zipIdx_eq_nil_iff]
  rw [hrun, ← hedits]
  constructor
  · intro h
    cases hs : edits.foldlM (fun (s : Splicer) x => s.insert x.1 x.2) (.new code) with
    | error f =>
      rw [hs] at h
      cases h
    | ok s =>
      rw [hs] at h
      have houtput : s.output id options.sourcemap = .unchanged := Except.ok.inj h
      have hchanged : s.hasChanged = false := by
        unfold Splicer.output at houtput
        split at houtput
        · cases houtput
        · next hno => exact Bool.eq_false_iff.mpr hno
      -- every insertion that is accepted stays among the edits
      rw [Splicer.eq_of_foldlM_insert hs, Splicer.hasChanged, Bool.or_eq_false_iff] at hchanged
      have hnil : edits.map Edit.insertion = [] := by simpa [Splicer.new] using hchanged.2
      exact List.map_eq_nil_iff.mp hnil
  · intro h
    rw [h]
    rfl

/-! ## Section 2: Names that are not mentioned -/

end BuildMacros.Keys

namespace BuildMacros.Script

/-- The names that calls and exports of a module use stand in the file, letter by letter. A name
    that is spelled with escapes does not. -/
structure Module.Written (m : Module) (code : String) : Prop where
  calls : ∀ x ∈ m.program.spots, ∀ c, x.node.knownCall? = some c →
    Text.contains c.callee.name.toList code.toList = true
  exports : ∀ p ∈ m.program.body.flatMap Node.exportPairs, p.exported = "default" ∨
    Text.contains p.exported.toList code.toList = true

instance (m : Module) (code : String) : Decidable (m.Written code) :=
  decidable_of_iff ((∀ x ∈ m.program.spots, ∀ c ∈ x.node.knownCall?,
      Text.contains c.callee.name.toList code.toList = true) ∧
    ∀ p ∈ m.program.body.flatMap Node.exportPairs, p.exported = "default" ∨
      Text.contains p.exported.toList code.toList = true)
    ⟨fun h => ⟨h.1, h.2⟩, fun h => ⟨h.calls, h.exports⟩⟩

end BuildMacros.Script

namespace BuildMacros.KeyedRegistry

variable {r : KeyedRegistry} {code : String}

/-- A function that is found without a source makes its name one that texts are searched for. -/
theorem mem_names_of_sourceless? {name : String} {f : KeyedFunction}
    (h : r.sourceless? name = some f) : name ∈ r.names := by
  have hkey : name ∈ r.sourceless.keys := List.mem_map.mpr ⟨_, Assoc.mem_of_get? h, rfl⟩
  rw [names, List.mem_mergeSort, List.mem_eraseDups]
  exact List.mem_append_right _ hkey

/-- A file whose default export is found is one whose stem texts are searched for. -/
theorem fileStem_mem_defaultStems {aliases : AliasTable} {es : List KeyedEntry}
    (h : ofEntries aliases es = .ok r) {name key file : String} {f : KeyedFunction}
    (hf : r.get? name key = some f) (hdefault : f.exportName = "default")
    (hsource : f.source = some file) : Naming.fileStem file ∈ r.defaultStems := by
  rw [(holds_ofEntries h).stems]
  rw [get?_ofEntries h, Option.or_eq_some_iff] at hf
  rcases hf with hpath | ⟨-, hpattern⟩
  · obtain ⟨e, he, hplaced⟩ := List.mem_filterMap.mp (Assoc.mem_of_get? hpath)
    refine List.mem_filterMap.mpr ⟨e, he, ?_⟩
    have hname : f.exportName = e.name := (KeyedEntry.eq_of_placed? hplaced).2.2.1
    have hkey : f.source = some key := by
      unfold KeyedEntry.placed? at hplaced
      split at hplaced
      · cases hplaced
        rfl
      · cases hplaced
    rw [hkey] at hsource
    cases hsource
    rw [KeyedEntry.stem?, (KeyedEntry.key?_of_placed? hplaced).1, ← hname]
    exact if_pos hdefault
  -- a function that is found by a pattern has no file
  · obtain ⟨⟨p, g⟩, hfind, rfl⟩ := Option.map_eq_some_iff.mp hpattern
    obtain ⟨e, -, hpatterned⟩ := List.mem_filterMap.mp (List.mem_of_find?_eq_some hfind)
    unfold KeyedEntry.patterned? at hpatterned
    split at hpatterned
    · obtain ⟨q, -, hpair⟩ := Option.map_eq_some_iff.mp hpatterned
      cases hpair
      cases hsource
    · cases hpatterned

variable (hmentioned : r.isMentionedIn code = false)

include hmentioned

/-- What stands in a text that mentions nothing is no name of a function. -/
theorem not_mem_names_of_contains {name : String}
    (hname : Text.contains name.toList code.toList = true) : name ∉ r.names := by
  intro hmem
  have hany := List.any_eq_false.mp hmentioned name (List.mem_append_left _ hmem)
  exact hany hname

theorem get?_eq_none_of_contains {name : String}
    (hname : Text.contains name.toList code.toList = true) (source : String) :
    r.get? name source = none := by
  cases hfound : r.get? name source with
  | none => rfl
  | some f => exact absurd (mem_names_of_get? hfound) (not_mem_names_of_contains hmentioned hname)

theorem sourceless?_eq_none_of_contains {name : String}
    (hname : Text.contains name.toList code.toList = true) : r.sourceless? name = none := by
  cases hfound : r.sourceless? name with
  | none => rfl
  | some f =>
    exact absurd (mem_names_of_sourceless? hfound) (not_mem_names_of_contains hmentioned hname)

end BuildMacros.KeyedRegistry

namespace BuildMacros.Keys

open BuildMacros.Script

/-! ## Section 3: Calls of default exports -/

section

variable (registry : KeyedRegistry) (options : TransformOptions) (id : String) (m : Module)

/-- The module is registered, and exports the name as its default. -/
structure ExportsDefault (name : String) : Prop where
  source : registry.isSource (Path.stripExtension (Path.clean id)) = true
  exported : ⟨name, "default"⟩ ∈ m.program.body.flatMap Node.exportPairs

/-- A call of a plain name calls a default export, and the registry has a function for it. -/
inductive CallsDefault (x : Spot) (name : String) (f : KeyedFunction) : Prop where
  /-- The default export of the module itself. -/
  | own {d : Declaration} (hexports : ExportsDefault registry id m name)
      (hvisible : m.program.visible? x.scopes name = some d) (hroot : d.scope = Tracker.root)
      (hfound : registry.get? (Naming.defaultExportName (Path.clean id))
        (Path.stripExtension (Path.clean id)) = some f)
  /-- What the text imports as a default export, while the declaration is an import that asks for
      the function. -/
  | imported {d : Declaration} {b : ImportBinding} {source : String}
      (hforeign : ¬ExportsDefault registry id m name)
      (hvisible : m.program.visible? x.scopes name = some d) (himport : d.valueImport? = some b)
      (hwritten : (siteOf registry options id m).imports.direct.get? name =
        some ⟨"default", source⟩)
      (hfound : registry.get? (Naming.defaultExportName source)
        ((siteOf registry options id m).resolver.resolve b.source) = some f)
      (hexported : exportedAs? b.imported = some f.exportName)

/-- A call that would take a key, though the text mentions no name. -/
structure Overlooked (x : Spot) (c : StaticCall) : Prop where
  mem : x ∈ m.program.spots
  call : x.node.knownCall? = some c
  bare : c.callee.qualifier = none
  found : ∃ f, CallsDefault registry options id m x c.callee.name f ∧ Keyless c f

end

/-- Exports that are either registered under one and the same name or not at all. -/
theorem get?_foldl_exports {named : ExportPair → Option String} {called : String}
    {pairs : List ExportPair}
    (h : ∀ p ∈ pairs, named p = if p.exported = "default" then some called else none)
    (start : Assoc String String) (name : String) :
    (pairs.foldl (fun m p => match named p with
        | some value => Assoc.insert m p.inner value
        | none => m) start).get? name =
      if (⟨name, "default"⟩ : ExportPair) ∈ pairs then some called else start.get? name := by
  rw [Assoc.get?_foldl_insert ExportPair.inner named
    (fun m p v hp => by rw [hp]) (fun m p hp => by rw [hp])]
  have hmem : ∀ p, p ∈ pairs.filter (fun p => p.inner == name && (named p).isSome) ↔
      p ∈ pairs ∧ p = ⟨name, "default"⟩ := by
    intro p
    rw [List.mem_filter, Bool.and_eq_true, beq_iff_eq]
    refine and_congr_right fun hp => ?_
    rw [h p hp, ExportPair.mk.injEq]
    by_cases hdefault : p.exported = "default" <;> simp [hdefault]
  cases hlast : (pairs.filter fun p => p.inner == name && (named p).isSome).getLast? with
  | none =>
    have hnone : (⟨name, "default"⟩ : ExportPair) ∉ pairs := by
      intro hp
      have hfiltered := (hmem _).mpr ⟨hp, rfl⟩
      rw [List.getLast?_eq_none_iff.mp hlast] at hfiltered
      cases hfiltered
    rw [if_neg hnone]
    rfl
  | some p =>
    obtain ⟨hp, rfl⟩ := (hmem p).mp (List.mem_of_getLast? hlast)
    rw [Option.bind_some, h _ hp, if_pos rfl, if_pos hp]
    rfl

/-! ## Section 4: What a call finds -/

section

variable {registry : KeyedRegistry} {options : TransformOptions} {code id : String} {m : Module}
  (hmentioned : registry.isMentionedIn code = false) (hwritten : m.Written code)

include hmentioned hwritten

/-- The module knows its own default export, and no other export of its own. -/
theorem localExports_get?_eq_some_iff {name called : String} :
    (siteOf registry options id m).localExports.get? name = some called ↔
      ExportsDefault registry id m name ∧ called = Naming.defaultExportName (Path.clean id) := by
  have hnamed : ∀ p ∈ m.program.body.flatMap Node.exportPairs,
      exportedName? registry id (Path.stripExtension (Path.clean id)) p =
        if p.exported = "default" then some (Naming.defaultExportName (Path.clean id))
        else none := by
    -- the name of any other export stands in the text, so it is not registered
    intro p hp
    unfold exportedName?
    by_cases hdefault : p.exported = "default"
    · rw [if_pos hdefault, if_pos hdefault]
    · have hcontains := (hwritten.exports p hp).resolve_left hdefault
      rw [if_neg hdefault, if_neg hdefault,
        KeyedRegistry.get?_eq_none_of_contains hmentioned hcontains]
      rfl
  have hlocal : (siteOf registry options id m).localExports.get? name =
      if registry.isSource (Path.stripExtension (Path.clean id)) = true then
        if (⟨name, "default"⟩ : ExportPair) ∈ m.program.body.flatMap Node.exportPairs then
          some (Naming.defaultExportName (Path.clean id))
        else none
      else none := by
    show (registeredExports registry id _ _).get? name = _
    unfold registeredExports
    split
    · exact get?_foldl_exports hnamed [] name
    · rfl
  rw [hlocal]
  constructor
  · intro h
    rw [Option.ite_none_right_eq_some, Option.ite_none_right_eq_some] at h
    exact ⟨⟨h.1, h.2.1⟩, (Option.some.inj h.2.2).symm⟩
  · rintro ⟨hexports, rfl⟩
    rw [if_pos hexports.source, if_pos hexports.exported]

theorem localExports_has_eq_false_iff {name : String} :
    (siteOf registry options id m).localExports.has name = false ↔
      ¬ExportsDefault registry id m name := by
  rw [Assoc.has_eq_false_iff]
  constructor
  · intro hnone hexports
    have hsome : (siteOf registry options id m).localExports.get? name =
        some (Naming.defaultExportName (Path.clean id)) :=
      (localExports_get?_eq_some_iff hmentioned hwritten).mpr ⟨hexports, rfl⟩
    rw [hnone] at hsome
    cases hsome
  · intro hforeign
    cases hget : (siteOf registry options id m).localExports.get? name with
    | none => rfl
    | some called =>
      exact absurd ((localExports_get?_eq_some_iff hmentioned hwritten).mp hget).1 hforeign

end

section

variable {registry : KeyedRegistry} {options : TransformOptions} {code id : String} {m : Module}
  {c : StaticCall} (hmentioned : registry.isMentionedIn code = false)
  (hname : Text.contains c.callee.name.toList code.toList = true)

include hmentioned hname

/-- A member of a namespace is called by its own name. -/
theorem resolve?_of_qualifier {q : String} (hq : c.callee.qualifier = some q)
    (decl : Option Declaration) : (siteOf registry options id m).resolve? c decl = none := by
  unfold Site.resolve?
  split
  · next source _ =>
    have hlookup : (siteOf registry options id m).lookup? c.callee source = none := by
      unfold Site.lookup?
      rw [hq, Option.isSome_some, if_pos rfl]
      exact KeyedRegistry.get?_eq_none_of_contains hmentioned hname source
    rw [hlookup]
    rfl
  · rw [hq, Option.isNone_some, Bool.and_false, if_neg Bool.false_ne_true]

/-- A name that is neither exported nor imported as a value could only be imported automatically,
    under its own name. -/
theorem resolve?_of_other {decl : Option Declaration}
    (hlocal : (siteOf registry options id m).isLocalExport c.callee decl = false)
    (himport : decl.bind Declaration.valueImport? = none) :
    (siteOf registry options id m).resolve? c decl = none := by
  have hsource : (siteOf registry options id m).sourceOf? c.callee decl = none :=
    Site.sourceOf?_of_unbound hlocal himport
  have hauto : (siteOf registry options id m).autoImported? c.callee.name = none := by
    unfold Site.autoImported?
    split
    · next source _ =>
      have hget : (siteOf registry options id m).registry.get? c.callee.name
          ((siteOf registry options id m).resolver.resolve source) = none :=
        KeyedRegistry.get?_eq_none_of_contains hmentioned hname _
      rw [hget]
      exact KeyedRegistry.sourceless?_eq_none_of_contains hmentioned hname
    · rfl
  unfold Site.resolve?
  rw [hsource, hauto]
  show (if _ then Option.filter _ none else none) = none
  split <;> rfl

variable (hbare : c.callee.qualifier = none)
  (hexport : (siteOf registry options id m).localExports.has c.callee.name = false)

include hbare hexport

/-- A name that the module does not export is looked up as what the text shows that it imports. If
    that is not a default export, the text has the name that is looked up. -/
theorem lookup?_eq_some_iff (hparse : Module.parse code id = .ok m) {key : String}
    {f : KeyedFunction} :
    (siteOf registry options id m).lookup? c.callee key = some f ↔
      ∃ source, (siteOf registry options id m).imports.direct.get? c.callee.name =
          some ⟨"default", source⟩ ∧
        registry.get? (Naming.defaultExportName source) key = some f := by
  have hforeign := Assoc.has_eq_false_iff.mp hexport
  unfold Site.lookup?
  rw [hbare, Option.isSome_none, if_neg Bool.false_ne_true, hforeign]
  cases hdirect : (siteOf registry options id m).imports.direct.get? c.callee.name with
  | none =>
    -- without an import, the name of the call itself is looked up
    have hget : (siteOf registry options id m).registry.get? c.callee.name key = none :=
      KeyedRegistry.get?_eq_none_of_contains hmentioned hname key
    constructor
    · intro h
      rw [hget] at h
      cases h
    · rintro ⟨source, hsource, -⟩
      cases hsource
  | some d =>
    show registry.get? (importedName d.exported d.source) key = some f ↔ _
    unfold importedName
    by_cases hdefault : d.exported = "default"
    · rw [if_pos hdefault]
      constructor
      · intro h
        exact ⟨d.source, by rw [← hdefault], h⟩
      · rintro ⟨source, hsource, hfound⟩
        rw [Option.some.inj hsource]
        exact hfound
    · have hcontains := (contains_of_direct hparse hdirect).resolve_left hdefault
      rw [if_neg hdefault, KeyedRegistry.get?_eq_none_of_contains hmentioned hcontains]
      constructor
      · intro h
        cases h
      · rintro ⟨source, hsource, -⟩
        exact absurd (congrArg Import.Direct.exported (Option.some.inj hsource)) hdefault

end

section

variable {registry : KeyedRegistry} {options : TransformOptions} {code id : String} {m : Module}
  {c : StaticCall} (hmentioned : registry.isMentionedIn code = false) (hwritten : m.Written code)
  (hbare : c.callee.qualifier = none)

include hmentioned hwritten hbare

/-- A name that the module exports as its default is looked up under the name of the file. -/
theorem resolve?_of_exportsDefault {d : Declaration}
    (hexports : ExportsDefault registry id m c.callee.name) (hroot : d.scope = Tracker.root) :
    (siteOf registry options id m).resolve? c (some d) =
      (registry.get? (Naming.defaultExportName (Path.clean id))
        (Path.stripExtension (Path.clean id))).filter fun f => !Site.isFull c f := by
  have hget : (siteOf registry options id m).localExports.get? c.callee.name =
      some (Naming.defaultExportName (Path.clean id)) :=
    (localExports_get?_eq_some_iff hmentioned hwritten).mpr ⟨hexports, rfl⟩
  have hlocal : (siteOf registry options id m).isLocalExport c.callee (some d) = true := by
    rw [Site.isLocalExport, hbare, Assoc.has, hget, Option.any_some, hroot]
    rfl
  -- exports of the module come before its imports in a lookup
  have hlookup : ∀ key, (siteOf registry options id m).lookup? c.callee key =
      registry.get? (Naming.defaultExportName (Path.clean id)) key := by
    intro key
    unfold Site.lookup?
    rw [hbare, hget]
    rfl
  rw [Site.resolve?_of_export hlocal, hlookup]
  rfl

/-- The module's own default export, called where nothing shadows it. -/
theorem isLocalExport_iff {decl : Option Declaration} :
    (siteOf registry options id m).isLocalExport c.callee decl = true ↔
      ExportsDefault registry id m c.callee.name ∧ ∃ d, decl = some d ∧ d.scope = Tracker.root := by
  rw [Site.isLocalExport, hbare, Option.isNone_none, Bool.true_and, Bool.and_eq_true,
    ← Bool.not_eq_false, localExports_has_eq_false_iff hmentioned hwritten, not_not,
    Option.any_eq_true]
  simp only [beq_iff_eq]

/-- **What a call of a plain name finds** in a text that mentions nothing: the function of a default
    export, or nothing. -/
theorem resolve?_eq_some_iff (hparse : Module.parse code id = .ok m) {x : Spot}
    (hname : Text.contains c.callee.name.toList code.toList = true) {f : KeyedFunction} :
    (siteOf registry options id m).resolve? c (m.program.visible? x.scopes c.callee.name) = some f ↔
      CallsDefault registry options id m x c.callee.name f ∧ Site.isFull c f = false := by
  have hlocal : (siteOf registry options id m).isLocalExport c.callee
      (m.program.visible? x.scopes c.callee.name) = true ↔
        ExportsDefault registry id m c.callee.name ∧
          ∃ d, m.program.visible? x.scopes c.callee.name = some d ∧ d.scope = Tracker.root :=
    isLocalExport_iff hmentioned hwritten hbare
  by_cases hown : (siteOf registry options id m).isLocalExport c.callee
      (m.program.visible? x.scopes c.callee.name) = true
  -- the module's own default export, where it is not shadowed
  · obtain ⟨hexports, d, hvisible, hroot⟩ := hlocal.mp hown
    rw [hvisible, resolve?_of_exportsDefault hmentioned hwritten hbare hexports hroot,
      Option.filter_eq_some_iff, Bool.not_eq_true']
    constructor
    · rintro ⟨hfound, hfull⟩
      exact ⟨.own hexports hvisible hroot hfound, hfull⟩
    · rintro ⟨hcalls, hfull⟩
      cases hcalls with
      | own _ _ _ hfound => exact ⟨hfound, hfull⟩
      | imported hforeign => exact absurd hexports hforeign
  -- otherwise an import decides
  · have hnotOwn : ∀ d, m.program.visible? x.scopes c.callee.name = some d →
        d.scope = Tracker.root → ¬ExportsDefault registry id m c.callee.name :=
      fun d hvisible hroot hexports => hown (hlocal.mpr ⟨hexports, d, hvisible, hroot⟩)
    cases himport : (m.program.visible? x.scopes c.callee.name).bind Declaration.valueImport? with
    | none =>
      -- nothing is found, and neither constructor of a default call fits
      rw [resolve?_of_other hmentioned hname (Bool.eq_false_iff.mpr hown) himport]
      constructor
      · intro h
        cases h
      · rintro ⟨hcalls, -⟩
        cases hcalls with
        | own hexports hvisible hroot => exact absurd hexports (hnotOwn _ hvisible hroot)
        | imported _ hvisible hvalue =>
          rw [hvisible, Option.bind_some, hvalue] at himport
          cases himport
    | some b =>
      obtain ⟨d, hvisible, hvalue⟩ := Option.bind_eq_some_iff.mp himport
      have hforeign := hnotOwn d hvisible (Program.scope_of_visible_import? hvisible hvalue)
      have hexport : (siteOf registry options id m).localExports.has c.callee.name = false :=
        (localExports_has_eq_false_iff hmentioned hwritten).mpr hforeign
      rw [Site.resolve?_of_valueImport hbare hexport himport, Option.filter_eq_some_iff,
        lookup?_eq_some_iff hmentioned hname hbare hexport hparse, Bool.and_eq_true,
        Bool.not_eq_true', Site.imports?_iff]
      constructor
      · rintro ⟨⟨source, hdirect, hfound⟩, hfull, hasks⟩
        exact ⟨.imported hforeign hvisible hvalue hdirect hfound hasks, hfull⟩
      · rintro ⟨hcalls, hfull⟩
        cases hcalls with
        | own hexports => exact absurd hexports hforeign
        | imported _ hvisible' hvalue' hdirect hfound hasks =>
          rw [hvisible] at hvisible'
          cases hvisible'
          rw [hvalue] at hvalue'
          cases hvalue'
          exact ⟨⟨_, hdirect, hfound⟩, hfull, hasks⟩

end

/-! ## Section 5: Calls that are overlooked -/

section

variable {registry : KeyedRegistry} {options : TransformOptions} {code id : String} {m : Module}

/-- What a name calls as a default export makes it a name that is worth a look. -/
theorem CallsDefault.accepts {x : Spot} {name : String} {f : KeyedFunction}
    (h : CallsDefault registry options id m x name f)
    (hmentioned : registry.isMentionedIn code = false) (hwritten : m.Written code) :
    (siteOf registry options id m).filter.accepts name = true := by
  apply NameFilter.accepts_ofNames.mpr
  cases h with
  | own hexports =>
    have hget : (siteOf registry options id m).localExports.get? name =
        some (Naming.defaultExportName (Path.clean id)) :=
      (localExports_get?_eq_some_iff hmentioned hwritten).mpr ⟨hexports, rfl⟩
    exact List.mem_append_right _ (List.mem_map.mpr ⟨_, Assoc.mem_of_get? hget, rfl⟩)
  | imported _ _ _ hdirect hfound =>
    refine List.mem_append_left _ (List.mem_append_right _ ?_)
    refine List.mem_map.mpr ⟨_, List.mem_filter.mpr ⟨Assoc.mem_of_get? hdirect, ?_⟩, rfl⟩
    exact List.contains_iff_mem.mpr (KeyedRegistry.mem_names_of_get? hfound)

variable (hparse : Module.parse code id = .ok m) (hmentioned : registry.isMentionedIn code = false)
  (hwritten : m.Written code)

include hparse hmentioned hwritten

/-- In a text that mentions nothing, the calls that take a key are the overlooked ones. -/
theorem keyAt?_eq_some_iff_overlooked {x : Spot} (hx : x ∈ m.program.spots) {c : StaticCall} :
    keyAt? (siteOf registry options id m) m.program x = some c ↔
      Overlooked registry options id m x c := by
  rw [keyAt?_eq_some_iff]
  constructor
  · rintro ⟨hcall, -, htakes⟩
    have hname := hwritten.calls x hx c hcall
    obtain ⟨f, hresolve, hstated, hkeyed⟩ := Site.takesKey_iff.mp htakes
    cases hqualifier : c.callee.qualifier with
    | some q =>
      rw [resolve?_of_qualifier hmentioned hname hqualifier] at hresolve
      cases hresolve
    | none =>
      rw [StaticCall.binding, hqualifier, Option.getD_none,
        resolve?_eq_some_iff hmentioned hwritten hqualifier hparse hname] at hresolve
      obtain ⟨hcalls, hfull⟩ := hresolve
      exact ⟨hx, hcall, hqualifier, f, hcalls, keyless_iff.mpr ⟨hfull, hstated, hkeyed⟩⟩
  · intro h
    have hname := hwritten.calls x hx c h.call
    obtain ⟨f, hcalls, hkeyless⟩ := h.found
    obtain ⟨hfull, hstated, hkeyed⟩ := keyless_iff.mp hkeyless
    refine ⟨h.call, hcalls.accepts hmentioned hwritten,
      Site.takesKey_iff.mpr ⟨f, ?_, hstated, hkeyed⟩⟩
    rw [StaticCall.binding, h.bare, Option.getD_none,
      resolve?_eq_some_iff hmentioned hwritten h.bare hparse hname]
    exact ⟨hcalls, hfull⟩

theorem mem_keyedCalls_iff_overlooked {c : StaticCall} :
    c ∈ keyedCalls (siteOf registry options id m) m ↔
      ∃ x, Overlooked registry options id m x c := by
  rw [mem_keyedCalls_iff hparse]
  constructor
  · rintro ⟨x, hx, hkey⟩
    exact ⟨x, (keyAt?_eq_some_iff_overlooked hparse hmentioned hwritten hx).mp hkey⟩
  · rintro ⟨x, h⟩
    exact ⟨x, h.mem, (keyAt?_eq_some_iff_overlooked hparse hmentioned hwritten h.mem).mpr h⟩

/-- **When the question is harmless.** Of a text that parses and mentions no registered name, the
    pass without its question would give keys to the overlooked calls and to no others. So leaving
    the question out changes the result exactly if there is such a call. -/
theorem injectUnasked_eq_inject_iff :
    inject registry options code id = .ok .unchanged ∧
      (∀ c, c ∈ keyedCalls (siteOf registry options id m) m ↔
        ∃ x, Overlooked registry options id m x c) ∧
      (injectUnasked registry options code id = inject registry options code id ↔
        ∀ x c, ¬Overlooked registry options id m x c) := by
  have hunchanged : inject registry options code id = .ok .unchanged := by
    rw [inject_eq, hmentioned, Bool.not_false, Bool.or_true, if_pos rfl]
  have hmem : ∀ c, c ∈ keyedCalls (siteOf registry options id m) m ↔
      ∃ x, Overlooked registry options id m x c :=
    fun c => mem_keyedCalls_iff_overlooked hparse hmentioned hwritten
  refine ⟨hunchanged, hmem, ?_⟩
  rw [hunchanged, injectUnasked_eq_unchanged_iff hparse, List.eq_nil_iff_forall_not_mem]
  constructor
  · intro hnone x c h
    exact hnone c ((hmem c).mpr ⟨x, h⟩)
  · intro hnone c hc
    obtain ⟨x, h⟩ := (hmem c).mp hc
    exact hnone x c h

end

/-- **What the stems are for.** A registry is made of entries, and the file whose default export an
    overlooked call calls is known. Then the stem of that file does not occur in the text: no
    specifier in it ends with the name of the file. -/
theorem CallsDefault.not_contains_stem {aliases : AliasTable} {es : List KeyedEntry}
    {registry : KeyedRegistry} {options : TransformOptions} {code id : String} {m : Module}
    {x : Spot} {name file : String} {f : KeyedFunction}
    (hsealed : KeyedRegistry.ofEntries aliases es = .ok registry)
    (hmentioned : registry.isMentionedIn code = false)
    (h : CallsDefault registry options id m x name f) (hdefault : f.exportName = "default")
    (hsource : f.source = some file) :
    Text.contains (Naming.fileStem file).toList code.toList = false := by
  have hfound : ∃ called key, registry.get? called key = some f := by
    cases h with
    | own _ _ _ hfound => exact ⟨_, _, hfound⟩
    | imported _ _ _ _ hfound => exact ⟨_, _, hfound⟩
  obtain ⟨called, key, hfound⟩ := hfound
  have hstem := KeyedRegistry.fileStem_mem_defaultStems hsealed hfound hdefault hsource
  exact Bool.eq_false_iff.mpr
    (List.any_eq_false.mp hmentioned _ (List.mem_append_right _ hstem))

/-! ## Section 6: A default export behind an alias -/

/-- The default export of a file, whose calls take a key. -/
def thingEntry : KeyedEntry := ⟨"default", some (.path "/app/composables/use-thing.ts"), 3⟩

/-- An alias for the whole path of the file. -/
def thingOptions : TransformOptions :=
  ⟨some "/app", ⟨[("#thing", "/app/composables/use-thing")], by decide +kernel⟩, .empty, false,
    defaultFactoryMarker⟩

/-- The registry with the entry. -/
def thingRegistry : Except Failure KeyedRegistry :=
  KeyedRegistry.ofEntries (.ofMap thingOptions.aliases.entries) [thingEntry]

/-- The file itself, where its default export calls itself. -/
def ownThingCode : String := "export default function t() { t() }\n"

/-- The call in the file is overlooked. -/
theorem injectUnasked_eq_inject_iff_own :
    ∃ registry m, thingRegistry = .ok registry ∧
      Module.parse ownThingCode "/app/composables/use-thing.ts" = .ok m ∧
      registry.isMentionedIn ownThingCode = false ∧ m.Written ownThingCode ∧
      ∃ x c, Overlooked registry thingOptions "/app/composables/use-thing.ts" m x c ∧
        c.span = ⟨30, 33⟩ := by
  have hrun : (thingRegistry.toOption.any fun registry =>
      (Module.parse ownThingCode "/app/composables/use-thing.ts").toOption.any fun m =>
        !registry.isMentionedIn ownThingCode && decide (m.Written ownThingCode) &&
          (keyedCalls (siteOf registry thingOptions "/app/composables/use-thing.ts" m) m).any
            fun c => c.span == ⟨30, 33⟩) = true := by
    decide +kernel
  obtain ⟨registry, hregistry, hrun⟩ := (Option.any_eq_true _ _).mp hrun
  obtain ⟨m, hparse, hrun⟩ := (Option.any_eq_true _ _).mp hrun
  rw [Bool.and_eq_true, Bool.and_eq_true, Bool.not_eq_true'] at hrun
  obtain ⟨⟨hmentioned, hwritten⟩, hcalls⟩ := hrun
  have hparse := eq_ok_of_toOption hparse
  have hwritten := of_decide_eq_true hwritten
  obtain ⟨c, hc, hspan⟩ := List.any_eq_true.mp hcalls
  obtain ⟨x, h⟩ := ((injectUnasked_eq_inject_iff hparse hmentioned hwritten).2.1 c).mp hc
  exact ⟨registry, m, eq_ok_of_toOption hregistry, hparse, hmentioned, hwritten, x, c, h,
    beq_iff_eq.mp hspan⟩

/-- A file that imports the default export through the alias. -/
def aliasedCode : String := "import t from '#thing'\nt()\n"

/-- **A mention that is missed**: the text has no registered name and no stem of a file, so it is
    left as it is. Without the question its call would take a key. -/
theorem aliased_default_missed :
    ∃ registry m, thingRegistry = .ok registry ∧
      Module.parse aliasedCode "/app/pages/a.ts" = .ok m ∧
      registry.isMentionedIn aliasedCode = false ∧
      keyedCalls (siteOf registry thingOptions "/app/pages/a.ts" m) m ≠ [] ∧
      inject registry thingOptions aliasedCode "/app/pages/a.ts" = .ok .unchanged ∧
      injectUnasked registry thingOptions aliasedCode "/app/pages/a.ts" =
        .ok (.edited "import t from '#thing'\nt('$7b758e46a7')\n" none) := by
  have hrun : (thingRegistry.toOption.any fun registry =>
      (Module.parse aliasedCode "/app/pages/a.ts").toOption.any fun m =>
        !registry.isMentionedIn aliasedCode &&
          !(keyedCalls (siteOf registry thingOptions "/app/pages/a.ts" m) m).isEmpty &&
          decide (inject registry thingOptions aliasedCode "/app/pages/a.ts" = .ok .unchanged ∧
            injectUnasked registry thingOptions aliasedCode "/app/pages/a.ts" =
              .ok (.edited "import t from '#thing'\nt('$7b758e46a7')\n" none))) = true := by
    decide +kernel
  obtain ⟨registry, hregistry, hrun⟩ := (Option.any_eq_true _ _).mp hrun
  obtain ⟨m, hparse, hrun⟩ := (Option.any_eq_true _ _).mp hrun
  rw [Bool.and_eq_true, Bool.and_eq_true, Bool.not_eq_true', Bool.not_eq_true'] at hrun
  obtain ⟨⟨hmentioned, hcalls⟩, hpasses⟩ := hrun
  obtain ⟨hunchanged, hedited⟩ := of_decide_eq_true hpasses
  exact ⟨registry, m, eq_ok_of_toOption hregistry, eq_ok_of_toOption hparse, hmentioned,
    List.isEmpty_eq_false_iff.mp hcalls, hunchanged, hedited⟩

end BuildMacros.Keys
