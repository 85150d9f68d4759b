import BuildMacros.Keys.Injection
import BuildMacros.Proofs.Assoc
import BuildMacros.Proofs.Scope.OwnNames
import BuildMacros.Proofs.Scope.Replay

/-! # Which calls get a key

    A call by a plain name gets a key only for a reason that can be read off the
    module: either the name is imported as a value, and what it is imported as is
    registered for the module that it comes from; or nothing declares the name, and
    it is imported automatically. `Entitled` says so about the declaration that
    `Lexical` finds for the name, so a name that is shadowed, imported as a type or
    imported from elsewhere gets no key. Names that the file itself exports as
    registered functions have a rule of their own and are left aside.

    Besides, the call has room for a key and does not state one (`Keyless`).
-/

namespace BuildMacros.Keys

open BuildMacros.Script

/-! ## Section 1: Reasons for a key -/

/-- The name under which a module exports what is imported; a whole module has none. -/
def exportedAs? : ImportedName → Option String
  | .named name => some name
  | .default => some "default"
  | .whole => none

/-- Why a call of a plain name is a call of a registered function, given the declaration of the
    name that is visible at the call. -/
inductive Entitled (registry : KeyedRegistry) (options : TransformOptions) (resolver : Resolver)
    (name : String) : Option Declaration → KeyedFunction → Prop where
  /-- The name is imported as a value, and the registry has the function for the module that it
      comes from, under the name that the module exports it by. -/
  | imported {d : Declaration} {b : ImportBinding} {called : String} {f : KeyedFunction}
      (himport : d.kind = .imported b) (hvalue : b.typeOnly = false)
      (hfound : registry.get? called (resolver.resolve b.source) = some f)
      (hexported : exportedAs? b.imported = some f.exportName) :
      Entitled registry options resolver name (some d) f
  /-- Nothing declares the name, it is imported automatically, and the registry has the function
      for the module that it is taken from or without a source. -/
  | automatic {source : String} {f : KeyedFunction}
      (hsource : options.autoImports.get? name = some source)
      (hfound : registry.get? name (resolver.resolve source) = some f ∨
        registry.sourceless? name = some f) :
      Entitled registry options resolver name none f

/-- A call leaves room for a key of a function and does not state one. -/
structure Keyless (c : StaticCall) (f : KeyedFunction) : Prop where
  room : c.args.length < f.argumentLength.toNat ∨ ∃ a ∈ c.args, StaticCall.isSpread a = true
  unstated : ∀ place ∈ places f.name, ∀ i, place.index? c.args.length = some i →
    ∀ a, c.args[i]? = some a → StaticCall.isText a = false
  unkeyed : ∀ value span, c.args.getLast? = some (.string value span) → isKey value = false

/-! ## Section 2: What the checks say -/

namespace Site

theorem room_of_not_isFull {c : StaticCall} {f : KeyedFunction} (h : isFull c f = false) :
    c.args.length < f.argumentLength.toNat ∨ ∃ a ∈ c.args, StaticCall.isSpread a = true := by
  rw [isFull, Bool.and_eq_false_iff, decide_eq_false_iff_not, Bool.not_eq_false'] at h
  rcases h with h | h
  · exact .inl (by omega)
  · exact .inr (List.any_eq_true.mp h)

theorem unstated_of_not_hasStatedKey {c : StaticCall} {f : KeyedFunction}
    (h : hasStatedKey c f = false) : ∀ place ∈ places f.name, ∀ i,
      place.index? c.args.length = some i → ∀ a, c.args[i]? = some a →
        StaticCall.isText a = false := by
  intro place hplace i hi a ha
  have hnone := List.any_eq_false.mp h place hplace
  rw [hi, Option.any_some, StaticCall.hasTextAt, ha, Option.any_some] at hnone
  exact Bool.eq_false_iff.mpr hnone

theorem unkeyed_of_not_endsWithKey {c : StaticCall} (h : endsWithKey c = false) :
    ∀ value span, c.args.getLast? = some (.string value span) → isKey value = false := by
  intro value span hlast
  rw [endsWithKey, hlast] at h
  exact h

/-- The import binds the function when it asks for the name by which its module exports it. -/
theorem imports?_iff {f : KeyedFunction} {b : ImportBinding} :
    imports? f b = true ↔ exportedAs? b.imported = some f.exportName := by
  unfold imports?
  cases b.imported with
  | whole =>
    constructor <;> intro h <;> cases h
  | _ => rw [exportedAs?, Option.some_inj, beq_iff_eq, eq_comm]

theorem takesKey_iff {s : Site} {c : StaticCall} {decl : Option Declaration} :
    s.takesKey c decl = true ↔ ∃ f, s.resolve? c decl = some f ∧ hasStatedKey c f = false ∧
      endsWithKey c = false := by
  rw [takesKey, Option.any_eq_true]
  simp only [Bool.and_eq_true, Bool.not_eq_true']

/-! ## Section 3: Where a function is looked up -/

section

variable {s : Site} {c : StaticCall} {decl : Option Declaration}

theorem isLocalExport_of_qualifier {q : String} (hq : c.callee.qualifier = some q)
    (decl : Option Declaration) : s.isLocalExport c.callee decl = false := by
  rw [isLocalExport, hq]
  rfl

theorem sourceOf?_of_export (hlocal : s.isLocalExport c.callee decl = true) :
    s.sourceOf? c.callee decl = some s.fileKey := by
  rw [sourceOf?, if_pos hlocal]

theorem sourceOf?_of_import {b : ImportBinding} (hlocal : s.isLocalExport c.callee decl = false)
    (himport : decl.bind Declaration.valueImport? = some b) :
    s.sourceOf? c.callee decl = some (s.resolver.resolve b.source) := by
  rw [sourceOf?, hlocal, himport]
  rfl

/-- What is neither exported nor imported leads to no module. -/
theorem sourceOf?_of_unbound (hlocal : s.isLocalExport c.callee decl = false)
    (himport : decl.bind Declaration.valueImport? = none) : s.sourceOf? c.callee decl = none := by
  rw [sourceOf?, hlocal, himport]
  rfl

/-- An export of the module itself. -/
theorem resolve?_of_export (hlocal : s.isLocalExport c.callee decl = true) :
    s.resolve? c decl = (s.lookup? c.callee s.fileKey).filter fun f => !isFull c f := by
  have hbare : c.callee.qualifier = none := by
    rw [isLocalExport, Bool.and_eq_true, Bool.and_eq_true, Option.isNone_iff_eq_none] at hlocal
    exact hlocal.1.1
  simp only [resolve?, sourceOf?_of_export hlocal, hbare, bare?, hlocal, Bool.or_true, if_true]
  cases s.lookup? c.callee s.fileKey with
  | none => rfl
  | some f =>
    rw [Option.bind_some, Option.filter_some]
    cases isFull c f <;> rfl

/-- A name that is imported as a value and not exported: the module of the import decides where the
    function is looked up, and the call passes when it has room and the import asks for the
    function. -/
theorem resolve?_of_import {b : ImportBinding} (hbare : c.callee.qualifier = none)
    (hlocal : s.isLocalExport c.callee decl = false)
    (hdecl : decl.bind Declaration.valueImport? = some b) :
    s.resolve? c decl = (s.lookup? c.callee (s.resolver.resolve b.source)).filter fun f =>
      !isFull c f && imports? f b := by
  simp only [resolve?, sourceOf?_of_import hlocal hdecl, hbare, bare?, hdecl, hlocal,
    Option.any_some, Bool.or_false]
  cases s.lookup? c.callee (s.resolver.resolve b.source) with
  | none => rfl
  | some f =>
    rw [Option.bind_some, Option.filter_some]
    cases isFull c f <;> rfl

/-- A plain name that is neither exported nor imported. -/
theorem resolve?_of_unbound (hbare : c.callee.qualifier = none)
    (hlocal : s.isLocalExport c.callee decl = false)
    (himport : decl.bind Declaration.valueImport? = none) :
    s.resolve? c decl =
      if decl = none then (s.autoImported? c.callee.name).filter fun f => !isFull c f
      else none := by
  simp only [resolve?, sourceOf?_of_unbound hlocal himport, hbare, Option.isNone_none,
    Bool.and_true, Option.isNone_iff_eq_none]

end

/-! ## Section 4: Calls by a plain name -/

section

variable {s : Site} {c : StaticCall} (hbare : c.callee.qualifier = none)
  (hexport : s.localExports.has c.callee.name = false)

include hexport in
theorem isLocalExport_eq_false (decl : Option Declaration) :
    s.isLocalExport c.callee decl = false := by
  rw [isLocalExport, hexport, Bool.and_false, Bool.false_and]

include hbare hexport

/-- Whatever name a call is looked up by, it is looked up in the module that is asked about. -/
theorem get?_of_lookup? {source : String} {f : KeyedFunction}
    (h : s.lookup? c.callee source = some f) :
    ∃ called, s.registry.get? called source = some f := by
  have hnone := Assoc.has_eq_false_iff.mp hexport
  unfold lookup? at h
  rw [hbare, Option.isSome_none, if_neg Bool.false_ne_true, hnone] at h
  cases hdirect : s.imports.direct.get? c.callee.name with
  | some d =>
    rw [hdirect] at h
    exact ⟨_, h⟩
  | none =>
    rw [hdirect] at h
    exact ⟨_, h⟩

/-- A name that is imported as a value is judged by its import. -/
theorem resolve?_of_valueImport {decl : Option Declaration} {b : ImportBinding}
    (hdecl : decl.bind Declaration.valueImport? = some b) :
    s.resolve? c decl = (s.lookup? c.callee (s.resolver.resolve b.source)).filter fun f =>
      !isFull c f && imports? f b :=
  resolve?_of_import hbare (isLocalExport_eq_false hexport decl) hdecl

/-- What is found for a name that is imported as a value is registered for the module that it comes
    from, and imported under its own name. -/
theorem imported_of_resolve? {decl : Option Declaration} {b : ImportBinding} {f : KeyedFunction}
    (hdecl : decl.bind Declaration.valueImport? = some b) (h : s.resolve? c decl = some f) :
    (∃ called, s.registry.get? called (s.resolver.resolve b.source) = some f) ∧
      exportedAs? b.imported = some f.exportName ∧ isFull c f = false := by
  rw [resolve?_of_valueImport hbare hexport hdecl] at h
  obtain ⟨hlookup, hchecks⟩ := Option.filter_eq_some_iff.mp h
  rw [Bool.and_eq_true, Bool.not_eq_true'] at hchecks
  exact ⟨get?_of_lookup? hbare hexport hlookup, imports?_iff.mp hchecks.2, hchecks.1⟩

/-- A name that is not imported as a value: nothing declares it, and it is imported
    automatically. -/
theorem automatic_of_resolve? {decl : Option Declaration} {f : KeyedFunction}
    (hdecl : decl.bind Declaration.valueImport? = none) (h : s.resolve? c decl = some f) :
    decl = none ∧ (∃ source, s.autoImports.get? c.callee.name = some source ∧
        (s.registry.get? c.callee.name (s.resolver.resolve source) = some f ∨
          s.registry.sourceless? c.callee.name = some f)) ∧ isFull c f = false := by
  -- without a module to look in, only a name that nothing declares is left
  rw [resolve?_of_unbound hbare (isLocalExport_eq_false hexport decl) hdecl] at h
  cases decl with
  | some d => cases h
  | none =>
    obtain ⟨hauto, hfull⟩ := Option.filter_eq_some_iff.mp h
    refine ⟨rfl, ?_, by simpa using hfull⟩
    unfold autoImported? at hauto
    cases hsource : s.autoImports.get? c.callee.name with
    | none => simp [hsource] at hauto
    | some source =>
      refine ⟨source, rfl, ?_⟩
      cases hget : s.registry.get? c.callee.name (s.resolver.resolve source) with
      | some g =>
        simp only [hsource, hget, Option.some.injEq] at hauto
        exact .inl (congrArg some hauto)
      | none =>
        simp only [hsource, hget] at hauto
        exact .inr hauto

end

end Site

/-! ## Section 5: Every key has a reason -/

/-- A call by a plain name that takes a key is entitled to it by the declaration of its name. -/
theorem entitled_of_takesKey {registry : KeyedRegistry} {options : TransformOptions} {id : String}
    {m : Module} {c : StaticCall} (hbare : c.callee.qualifier = none)
    (hexport : (siteOf registry options id m).localExports.has c.callee.name = false)
    {decl : Option Declaration} (h : (siteOf registry options id m).takesKey c decl = true) :
    ∃ f, Keyless c f ∧ Entitled registry options
      (.new (.ofMap options.aliases.entries) id) c.callee.name decl f := by
  obtain ⟨f, hresolve, hstated, hkeyed⟩ := Site.takesKey_iff.mp h
  have hkeyless : Site.isFull c f = false → Keyless c f := fun hfull =>
    ⟨Site.room_of_not_isFull hfull, Site.unstated_of_not_hasStatedKey hstated,
      Site.unkeyed_of_not_endsWithKey hkeyed⟩
  refine ⟨f, ?_⟩
  -- either the declaration is a value import, or there may be none at all
  cases hdecl : decl.bind Declaration.valueImport? with
  | some b =>
    obtain ⟨⟨called, hfound⟩, hexported, hfull⟩ :=
      Site.imported_of_resolve? hbare hexport hdecl hresolve
    obtain ⟨d, rfl, hvalue⟩ := Option.bind_eq_some_iff.mp hdecl
    obtain ⟨hkind, hvalue⟩ := Declaration.kind_of_valueImport? hvalue
    exact ⟨hkeyless hfull, .imported hkind hvalue hfound hexported⟩
  | none =>
    obtain ⟨rfl, ⟨source, hsource, hfound⟩, hfull⟩ :=
      Site.automatic_of_resolve? hbare hexport hdecl hresolve
    exact ⟨hkeyless hfull, .automatic hsource hfound⟩

/-- A call that takes a key is a node of the module, and takes it by what its name refers to
    there. -/
theorem exists_spot_of_mem_keyedCalls {s : Site} {m : Module} (hm : m.scopes = .collect m.program)
    {c : StaticCall} (hc : c ∈ keyedCalls s m) :
    ∃ spot ∈ m.program.spots, spot.node.staticCall? s.filter = some c ∧
      s.takesKey c (m.program.visible? spot.scopes c.binding) = true := by
  obtain ⟨x, hx, hcall⟩ := List.mem_filterMap.mp hc
  cases hevent : x.event with
  | call node =>
    rw [hevent] at hcall
    obtain ⟨hstatic, htakes⟩ := Option.filter_eq_some_iff.mp hcall
    rw [Module.moments, hm] at hx
    obtain ⟨spot, hspot, hnode, hvisible⟩ := exists_spot_of_call hx hevent
    refine ⟨spot, hspot, ?_, ?_⟩
    · rw [hnode]
      exact hstatic
    · rw [← hvisible, ← hm]
      exact htakes
  | _ => simp [hevent] at hcall

/-- A module as parsing leaves it: a block, its tree, and the scopes collected from the tree. -/
def parsed (b : Block) (p : Program) : Module := ⟨b, p, .collect p⟩

theorem eq_parsed_of_parse {code id : String} {m : Module} (h : Module.parse code id = .ok m) :
    m = parsed (locate code id) m.program := by
  unfold Module.parse Module.ofBlock at h
  cases hparse : Program.parse? (dialect id (locate code id).lang)
      (locate code id).content.toList with
  | none =>
    rw [hparse] at h
    cases h
  | some p =>
    rw [hparse] at h
    rw [← Except.ok.inj h]
    rfl

theorem parse_eq_parsed {code id : String} {b : Block} {p : Program} (hlocate : locate code id = b)
    (hparse : Program.parse? (dialect id b.lang) b.content.toList = some p) :
    Module.parse code id = .ok (parsed b p) := by
  unfold Module.parse Module.ofBlock
  rw [hlocate, hparse]
  rfl

theorem getElem?_insertions (s : Site) (path : String) (m : Module) (i : Nat) :
    (insertions s path m)[i]? = ((keyedCalls s m)[i]?).map (insertion m path (i + 1)) := by
  rw [insertions, List.getElem?_map, List.getElem?_zipIdx, Option.map_map, Nat.add_comm 1 i]
  rfl

/-- **Every key has a reason.** Whatever the registry, the options and the module: when a key is
    inserted at a call by a plain name that is not one of the registered exports of the file, then
    the call is a node of the module which leaves room for a key and states none, and the
    declaration that is visible for the name at that node, or the lack of one, entitles the call
    to a key. -/
theorem entitled_of_insertion (registry : KeyedRegistry) (options : TransformOptions)
    (id path : String) (b : Block) (p : Program) {i : Nat} {c : StaticCall}
    (hc : (keyedCalls (siteOf registry options id (parsed b p)) (parsed b p))[i]? = some c)
    (hbare : c.callee.qualifier = none)
    (hexport : (siteOf registry options id (parsed b p)).localExports.has c.callee.name = false) :
    (insertions (siteOf registry options id (parsed b p)) path (parsed b p))[i]? =
        some (insertion (parsed b p) path (i + 1) c) ∧
      ∃ spot ∈ p.spots,
        spot.node.staticCall? (siteOf registry options id (parsed b p)).filter = some c ∧
        ∃ f, Keyless c f ∧ Entitled registry options (.new (.ofMap options.aliases.entries) id)
          c.callee.name (p.visible? spot.scopes c.callee.name) f := by
  refine ⟨?_, ?_⟩
  · rw [getElem?_insertions, hc]
    rfl
  · obtain ⟨spot, hspot, hstatic, htakes⟩ :=
      exists_spot_of_mem_keyedCalls (m := parsed b p) rfl (List.mem_of_getElem? hc)
    -- without a qualifier the name itself decides what is called
    have hbinding : c.binding = c.callee.name := by
      rw [StaticCall.binding, hbare]
      rfl
    rw [hbinding] at htakes
    exact ⟨spot, hspot, hstatic, entitled_of_takesKey hbare hexport htakes⟩

/-- A function that takes one argument and gets a key. -/
def sampleRegistry : KeyedRegistry :=
  ⟨[(("useKey", "#app"), ⟨"useKey", "useKey", some "#app", 1⟩)], [], [], []⟩

/-- A module that imports the function under another name and calls it. -/
def sampleBlock : Block := ⟨"import { useKey as k } from '#app'\nk()", 0, none⟩

/-- The tree of that module. -/
def sampleProgram : Program :=
  ⟨[.importing [.named "useKey" ⟨"k", ⟨19, 20⟩⟩ false] "#app" false ⟨0, 34⟩,
    .expression (.call (.use ⟨"k", ⟨35, 36⟩⟩) [] [] false ⟨35, 38⟩)]⟩

/-- What the module contributes. -/
def sampleSite : Site := siteOf sampleRegistry .default "a.ts" (parsed sampleBlock sampleProgram)

/-- The call of the renamed import gets a key, and the import is the reason. -/
theorem entitled_sample : ∃ c, c.callee.name = "k" ∧
    (insertions sampleSite "a.ts" (parsed sampleBlock sampleProgram))[0]? =
        some (insertion (parsed sampleBlock sampleProgram) "a.ts" 1 c) ∧
      ∃ spot ∈ sampleProgram.spots, spot.node.staticCall? sampleSite.filter = some c ∧
        ∃ f, Keyless c f ∧ Entitled sampleRegistry .default
          (.new (.ofMap TransformOptions.default.aliases.entries) "a.ts")
          c.callee.name (sampleProgram.visible? spot.scopes c.callee.name) f := by
  have hcalls : ((keyedCalls sampleSite (parsed sampleBlock sampleProgram))[0]?).map
      StaticCall.callee = some ⟨"k", none, .identifier, ⟨35, 36⟩⟩ := by
    decide +kernel
  have hexport : sampleSite.localExports.has "k" = false := by
    decide +kernel
  obtain ⟨c, hc, hcallee⟩ := Option.map_eq_some_iff.mp hcalls
  have hname : c.callee.name = "k" := congrArg Callee.name hcallee
  refine ⟨c, hname, entitled_of_insertion sampleRegistry .default "a.ts" "a.ts" sampleBlock
    sampleProgram hc (congrArg Callee.qualifier hcallee) ?_⟩
  rw [hname]
  exact hexport

end BuildMacros.Keys
