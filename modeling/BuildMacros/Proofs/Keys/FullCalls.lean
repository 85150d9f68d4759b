import BuildMacros.Proofs.Keys.Mentions

/-! # Calls with all their arguments

    A call that has all the arguments that its function takes should get no key: the key
    would be an argument too many. Which function a call names does not depend on its
    arguments (`Site.Calls`), and there are four ways to name one: as an import, as an
    export of the module itself, as a member of a namespace, and automatically.

    On three of the ways the arguments are counted. On the way through a namespace they are
    not. So a full call takes a key exactly if its callee is a member of a namespace and the
    call states no key (`keyAt?_of_full`).
-/

namespace BuildMacros.Keys

open BuildMacros.Script

namespace Site

/-! ## Section 1: Which function a call names -/

/-- The ways in which a call names a registered function, given the declaration that is visible for
    its name. The arguments of the call play no part. -/
inductive Calls (s : Site) (c : StaticCall) (decl : Option Declaration) (f : KeyedFunction) :
    Prop where
  /-- A plain name that is imported, by the name under which its module exports the function. -/
  | imported {b : ImportBinding} (hbare : c.callee.qualifier = none)
      (hforeign : s.isLocalExport c.callee decl = false)
      (himport : decl.bind Declaration.valueImport? = some b)
      (hasks : exportedAs? b.imported = some f.exportName)
      (hfound : s.lookup? c.callee (s.resolver.resolve b.source) = some f)
  /-- A name that the module declares at its root and exports. -/
  | exported (hlocal : s.isLocalExport c.callee decl = true)
      (hfound : s.lookup? c.callee s.fileKey = some f)
  /-- A member of a name that holds the whole of a module. -/
  | member {b : ImportBinding} {q : String} (hmember : c.callee.qualifier = some q)
      (himport : decl.bind Declaration.valueImport? = some b) (hwhole : b.imported = .whole)
      (hheld : s.imports.hasNamespace (s.resolver.resolve b.source) q = true)
      (hfound : s.lookup? c.callee (s.resolver.resolve b.source) = some f)
  /-- A plain name that nothing declares. -/
  | automatic (hbare : c.callee.qualifier = none) (hfree : decl = none)
      (hfound : s.autoImported? c.callee.name = some f)

variable {s : Site} {c : StaticCall} {decl : Option Declaration} {f g : KeyedFunction}

/-- All ways lead to a function in a module, or else to one that is imported automatically. -/
theorem Calls.found (h : s.Calls c decl f) :
    (∃ source, s.sourceOf? c.callee decl = some source ∧ s.lookup? c.callee source = some f) ∨
      s.sourceOf? c.callee decl = none ∧ s.autoImported? c.callee.name = some f := by
  cases h with
  | imported _ hforeign himport _ hfound =>
    exact .inl ⟨_, sourceOf?_of_import hforeign himport, hfound⟩
  | exported hlocal hfound => exact .inl ⟨_, sourceOf?_of_export hlocal, hfound⟩
  | member hmember himport _ _ hfound =>
    have hforeign := s.isLocalExport_of_qualifier hmember decl
    exact .inl ⟨_, sourceOf?_of_import hforeign himport, hfound⟩
  | automatic _ hfree hfound =>
    subst hfree
    have hforeign : s.isLocalExport c.callee none = false := by
      rw [isLocalExport, Option.any_none, Bool.and_false]
    exact .inr ⟨sourceOf?_of_unbound hforeign rfl, hfound⟩

/-- A call names one function. -/
theorem Calls.unique (hf : s.Calls c decl f) (hg : s.Calls c decl g) : f = g := by
  rcases hf.found with ⟨source, hsource, hf⟩ | ⟨hnone, hf⟩
  · rcases hg.found with ⟨source', hsource', hg⟩ | ⟨hnone, -⟩
    · obtain rfl : source = source' := Option.some.inj (hsource.symm.trans hsource')
      exact Option.some.inj (hf.symm.trans hg)
    · rw [hnone] at hsource
      cases hsource
  · rcases hg.found with ⟨source, hsource, -⟩ | ⟨-, hg⟩
    · rw [hnone] at hsource
      cases hsource
    · exact Option.some.inj (hf.symm.trans hg)

/-! ## Section 2: Where arguments are counted -/

theorem calls_iff_of_export (hlocal : s.isLocalExport c.callee decl = true) :
    s.Calls c decl f ↔ s.lookup? c.callee s.fileKey = some f := by
  refine ⟨fun h => ?_, .exported hlocal⟩
  have hsource := sourceOf?_of_export hlocal
  rcases h.found with ⟨source, hsource', hfound⟩ | ⟨hnone, -⟩
  · obtain rfl := Option.some.inj (hsource.symm.trans hsource')
    exact hfound
  · rw [hsource] at hnone
    cases hnone

/-- A member of a namespace. Its arguments are not counted. -/
theorem resolve?_of_member {q : String} (hq : c.callee.qualifier = some q) :
    s.resolve? c decl = (decl.bind Declaration.valueImport?).bind fun b =>
      if b.imported = .whole ∧ s.imports.hasNamespace (s.resolver.resolve b.source) q = true then
        s.lookup? c.callee (s.resolver.resolve b.source)
      else none := by
  have hlocal := s.isLocalExport_of_qualifier hq decl
  cases himport : decl.bind Declaration.valueImport? with
  | none =>
    simp only [resolve?, sourceOf?_of_unbound hlocal himport, hq, Option.isNone_some,
      Bool.and_false]
    rfl
  | some b =>
    simp only [resolve?, sourceOf?_of_import hlocal himport, hq, member?, himport,
      Option.any_some, Bool.and_eq_true, beq_iff_eq, Option.bind_some]
    by_cases hheld : b.imported = .whole ∧
        s.imports.hasNamespace (s.resolver.resolve b.source) q = true
    · simp only [if_pos hheld, Option.bind_fun_some]
    · simp only [if_neg hheld, Option.bind_fun_none]

theorem calls_iff_of_member {q : String} (hq : c.callee.qualifier = some q) :
    s.Calls c decl f ↔ ∃ b, decl.bind Declaration.valueImport? = some b ∧
      (b.imported = .whole ∧ s.imports.hasNamespace (s.resolver.resolve b.source) q = true) ∧
        s.lookup? c.callee (s.resolver.resolve b.source) = some f := by
  constructor
  · intro h
    cases h with
    | member hmember himport hwhole hheld hfound =>
      obtain rfl := Option.some.inj (hq.symm.trans hmember)
      exact ⟨_, himport, ⟨hwhole, hheld⟩, hfound⟩
    | imported hbare => rw [hq] at hbare; cases hbare
    | automatic hbare => rw [hq] at hbare; cases hbare
    | exported hlocal => rw [s.isLocalExport_of_qualifier hq decl] at hlocal; cases hlocal
  · rintro ⟨b, himport, ⟨hwhole, hheld⟩, hfound⟩
    exact .member hq himport hwhole hheld hfound

theorem calls_iff_of_import {b : ImportBinding} (hbare : c.callee.qualifier = none)
    (hlocal : s.isLocalExport c.callee decl = false)
    (himport : decl.bind Declaration.valueImport? = some b) :
    s.Calls c decl f ↔ s.lookup? c.callee (s.resolver.resolve b.source) = some f ∧
      exportedAs? b.imported = some f.exportName := by
  constructor
  · intro h
    cases h with
    | imported _ _ himport' hasks hfound =>
      obtain rfl := Option.some.inj (himport.symm.trans himport')
      exact ⟨hfound, hasks⟩
    | exported hexport => rw [hlocal] at hexport; cases hexport
    | member hmember => rw [hbare] at hmember; cases hmember
    | automatic _ hfree => rw [hfree] at himport; cases himport
  · rintro ⟨hfound, hasks⟩
    exact .imported hbare hlocal himport hasks hfound

theorem calls_iff_of_unbound (hbare : c.callee.qualifier = none)
    (hlocal : s.isLocalExport c.callee decl = false)
    (himport : decl.bind Declaration.valueImport? = none) :
    s.Calls c decl f ↔ decl = none ∧ s.autoImported? c.callee.name = some f := by
  constructor
  · intro h
    cases h with
    | automatic _ hfree hfound => exact ⟨hfree, hfound⟩
    | imported _ _ himport' => rw [himport] at himport'; cases himport'
    | exported hexport => rw [hlocal] at hexport; cases hexport
    | member hmember => rw [hbare] at hmember; cases hmember
  · rintro ⟨hfree, hfound⟩
    exact .automatic hbare hfree hfound

/-- **What a call finds** is the function that it names. A call of a plain name finds it only if
    there is room for a key. -/
theorem resolve?_eq_some_iff_calls :
    s.resolve? c decl = some f ↔
      s.Calls c decl f ∧ (c.callee.qualifier = none → isFull c f = false) := by
  cases hq : c.callee.qualifier with
  | some q =>
    have hnever : (some q = none → isFull c f = false) := fun h => by cases h
    rw [resolve?_of_member hq, calls_iff_of_member hq, and_iff_left hnever,
      Option.bind_eq_some_iff]
    simp only [Option.ite_none_right_eq_some]
  | none =>
    rw [forall_prop_of_true rfl]
    by_cases hlocal : s.isLocalExport c.callee decl = true
    · rw [resolve?_of_export hlocal, calls_iff_of_export hlocal, Option.filter_eq_some_iff,
        Bool.not_eq_true']
    · rw [Bool.not_eq_true] at hlocal
      cases himport : decl.bind Declaration.valueImport? with
      | some b =>
        rw [resolve?_of_import hq hlocal himport, calls_iff_of_import hq hlocal himport,
          Option.filter_eq_some_iff, Bool.and_eq_true, Bool.not_eq_true', imports?_iff, and_assoc,
          and_comm (a := isFull c f = false)]
      | none =>
        rw [resolve?_of_unbound hq hlocal himport, calls_iff_of_unbound hq hlocal himport,
          Option.ite_none_right_eq_some, Option.filter_eq_some_iff, Bool.not_eq_true', and_assoc]

/-! ## Section 3: The calls worth a look -/

/-- What is found in a module is called by a name that is worth a look. -/
theorem accepts_of_lookup? {callee : Callee} {source : String}
    (h : s.lookup? callee source = some f) : s.filter.accepts callee.name = true := by
  apply NameFilter.accepts_ofNames.mpr
  have hnames : s.registry.get? callee.name source = some f → callee.name ∈ s.localNames :=
    fun hget => List.mem_append_left _
      (List.mem_append_left _ (KeyedRegistry.mem_names_of_get? hget))
  unfold lookup? at h
  split at h
  · exact hnames h
  · split at h
    · next hexport =>
      exact List.mem_append_right _ (List.mem_map.mpr ⟨_, Assoc.mem_of_get? hexport, rfl⟩)
    · split at h
      · next hdirect =>
        refine List.mem_append_left _ (List.mem_append_right _ (List.mem_map.mpr
          ⟨_, List.mem_filter.mpr ⟨Assoc.mem_of_get? hdirect, ?_⟩, rfl⟩))
        exact List.contains_iff_mem.mpr (KeyedRegistry.mem_names_of_get? h)
      · exact hnames h

/-- **No function is passed over by its name.** -/
theorem Calls.accepts (h : s.Calls c decl f) : s.filter.accepts c.callee.name = true := by
  rcases h.found with ⟨source, -, hfound⟩ | ⟨-, hauto⟩
  · exact accepts_of_lookup? hfound
  · apply NameFilter.accepts_ofNames.mpr
    refine List.mem_append_left _ (List.mem_append_left _ ?_)
    unfold autoImported? at hauto
    split at hauto
    · split at hauto
      · next hget =>
        exact KeyedRegistry.mem_names_of_get? hget
      · exact KeyedRegistry.mem_names_of_sourceless? hauto
    · cases hauto

end Site

/-! ## Section 4: Full calls -/

/-- **Which calls take a key**: those that name a function, leave room for a key if the name is a
    plain one, and state no key. -/
theorem keyAt?_eq_some_iff_calls {s : Site} {p : Program} {x : Spot} {c : StaticCall} :
    keyAt? s p x = some c ↔ x.node.knownCall? = some c ∧
      ∃ f, s.Calls c (p.visible? x.scopes c.binding) f ∧
        (c.callee.qualifier = none → Site.isFull c f = false) ∧
        Site.hasStatedKey c f = false ∧ Site.endsWithKey c = false := by
  rw [keyAt?_eq_some_iff]
  refine and_congr_right fun _ => ?_
  constructor
  · rintro ⟨-, htakes⟩
    obtain ⟨f, hresolve, hstated, hkeyed⟩ := Site.takesKey_iff.mp htakes
    obtain ⟨hcalls, hroom⟩ := Site.resolve?_eq_some_iff_calls.mp hresolve
    exact ⟨f, hcalls, hroom, hstated, hkeyed⟩
  · rintro ⟨f, hcalls, hroom, hstated, hkeyed⟩
    refine ⟨hcalls.accepts, Site.takesKey_iff.mpr ⟨f, ?_, hstated, hkeyed⟩⟩
    exact Site.resolve?_eq_some_iff_calls.mpr ⟨hcalls, hroom⟩

/-- **Full calls**: whatever the registry, the options and the module, keys are inserted node by
    node, and only at calls that name a registered function. A call that has all the arguments of
    the function that it names, and spreads none, takes a key exactly if it is a member of a
    namespace and states no key. So a full call by a plain name never takes one, be it imported,
    exported by the module itself or imported automatically. -/
theorem keyAt?_of_full (registry : KeyedRegistry) (options : TransformOptions) (id : String)
    (b : Block) (p : Program) :
    let s := siteOf registry options id (parsed b p)
    keyedCalls s (parsed b p) = p.spots.filterMap (keyAt? s p) ∧
      (∀ x c, keyAt? s p x = some c → ∃ f, s.Calls c (p.visible? x.scopes c.binding) f) ∧
      ∀ x c f, x.node.knownCall? = some c → s.Calls c (p.visible? x.scopes c.binding) f →
        f.argumentLength.toNat ≤ c.args.length → (∀ a ∈ c.args, StaticCall.isSpread a = false) →
          (keyAt? s p x = some c ↔ c.callee.qualifier ≠ none ∧ Site.hasStatedKey c f = false ∧
            Site.endsWithKey c = false) := by
  intro s
  refine ⟨keyedCalls_eq s b p, fun x c hkey => ?_, fun x c f hcall hcalls hlength hspread => ?_⟩
  · obtain ⟨-, f, hcalls, -⟩ := keyAt?_eq_some_iff_calls.mp hkey
    exact ⟨f, hcalls⟩
  have hfull : Site.isFull c f = true := by
    have hnone : c.hasSpread = false :=
      List.any_eq_false.mpr fun a ha => Bool.eq_false_iff.mp (hspread a ha)
    rw [Site.isFull, hnone, Bool.not_false, Bool.and_true]
    exact decide_eq_true hlength
  rw [keyAt?_eq_some_iff_calls]
  constructor
  · rintro ⟨-, g, hnamed, hroom, hstated, hkeyed⟩
    obtain rfl := hcalls.unique hnamed
    refine ⟨fun hbare => ?_, hstated, hkeyed⟩
    rw [hroom hbare] at hfull
    cases hfull
  · rintro ⟨hmember, hstated, hkeyed⟩
    exact ⟨hcall, f, hcalls, fun hbare => absurd hbare hmember, hstated, hkeyed⟩

/-! ## Section 5: A full call through a namespace -/

/-- A module that calls a function with the one argument that it takes, through a namespace. -/
def fullCode : String := "import * as app from '#app'\napp.useKey(1)"

/-- The call. -/
def fullCall : StaticCall :=
  ⟨⟨"useKey", some "app", .property, ⟨32, 38⟩⟩, [.literal ⟨39, 40⟩], false, ⟨28, 41⟩⟩

/-- The call as a node. -/
def fullNode : Node :=
  .call (.member (.use ⟨"app", ⟨28, 31⟩⟩) ⟨"useKey", ⟨32, 38⟩⟩ ⟨28, 38⟩) [] [.literal ⟨39, 40⟩]
    false ⟨28, 41⟩

/-- The tree of that module. -/
def fullProgram : Program :=
  ⟨[.importing [.whole ⟨"app", ⟨12, 15⟩⟩] "#app" false ⟨0, 27⟩, .expression fullNode]⟩

/-- The call has the one argument that its function takes, and takes a key. -/
theorem keyAt?_of_full_namespace :
    let b : Block := ⟨fullCode, 0, none⟩
    let s := siteOf sampleRegistry .default "/app/a.ts" (parsed b fullProgram)
    ∃ x ∈ fullProgram.spots, ∃ f, x.node.knownCall? = some fullCall ∧
      s.Calls fullCall (fullProgram.visible? x.scopes "app") f ∧
      f.argumentLength.toNat ≤ fullCall.args.length ∧
      (∀ a ∈ fullCall.args, StaticCall.isSpread a = false) ∧
      keyAt? s fullProgram x = some fullCall := by
  intro b s
  let x : Spot := ⟨fullNode, [.module]⟩
  let f : KeyedFunction := ⟨"useKey", "useKey", some "#app", 1⟩
  have hx : x ∈ fullProgram.spots := List.mem_of_getElem? (i := 2) rfl
  have himport : (fullProgram.visible? x.scopes "app").bind Declaration.valueImport? =
      some ⟨"#app", .whole, false⟩ := by
    decide +kernel
  have hheld : s.imports.hasNamespace (s.resolver.resolve "#app") "app" = true := by
    decide +kernel
  have hfound : s.lookup? fullCall.callee (s.resolver.resolve "#app") = some f := by
    decide +kernel
  have hcalls : s.Calls fullCall (fullProgram.visible? x.scopes "app") f :=
    .member rfl himport rfl hheld hfound
  have hlength : f.argumentLength.toNat ≤ fullCall.args.length := by decide
  have hspread : ∀ a ∈ fullCall.args, StaticCall.isSpread a = false := by
    simp [fullCall, StaticCall.isSpread]
  have hkey := (keyAt?_of_full sampleRegistry .default "/app/a.ts" b fullProgram).2.2 x fullCall f
    rfl hcalls hlength hspread
  refine ⟨x, hx, f, rfl, hcalls, hlength, hspread, hkey.mpr ⟨?_, ?_, ?_⟩⟩
  · exact fun h => by cases h
  · decide +kernel
  · rfl

/-- **An argument too many**: the call through the namespace gets a key, as its last argument. The
    same call of an imported name gets none. -/
theorem full_member_keyed :
    (inject sampleRegistry .default fullCode "/app/a.ts").toOption =
        some (.edited "import * as app from '#app'\napp.useKey(1, '$bde2c1be0a')" none) ∧
      (inject sampleRegistry .default "import { useKey } from '#app'\nuseKey(1)"
        "/app/a.ts").toOption = some .unchanged := by
  decide +kernel

end BuildMacros.Keys
