import BuildMacros.Proofs.Keys.Members

/-! # Calls of a module's own exports

    A module that is registered may call what it exports. Such a call should get a key if some
    export of the local name is registered for the file, whatever else the name is exported as.

    The pass keeps one export for each local name: the last one that it does not drop
    (`decisive?`). An export is dropped if no entry answers for its name, but the default
    export never is. And the entry that answers for the export that is kept need not be about
    this export: default exports are asked for by the name that is made from the file, and this
    name can be that of another export, or one that no entry has. `givesKey_own_iff` says
    exactly when a key is given, and that the rule holds where every export that is kept is
    answered by an entry of its own.
-/

namespace BuildMacros

/-! ## Section 1: Entries for exports -/

namespace KeyedEntry

variable {aliases : AliasTable} {es : List KeyedEntry} {e : KeyedEntry} {name key : String}

/-- Some entry answers for a name that an entry for the module has, unless it is `default`. -/
theorem exists_answering (he : e ∈ es) (hconcerns : e.concerns aliases key = true)
    (hname : e.name = name) (hnamed : name ≠ "default") :
    ∃ e', answering aliases name key es = some e' := by
  apply Option.ne_none_iff_exists'.mp
  intro hnone
  rw [answering, Option.or_eq_none_iff, List.find?_eq_none, List.find?_eq_none] at hnone
  obtain ⟨hpath, hpattern⟩ := hnone
  unfold concerns at hconcerns
  split at hconcerns
  · next source hsource =>
    apply hpath e he
    have hkey : e.key? aliases = some key := by
      rw [key?, hsource]
      exact congrArg some (beq_iff_eq.mp hconcerns)
    have hcalled : e.calledName aliases = name := by
      rw [calledName, hkey]
      show KeyedRegistry.callName e.name key = name
      rw [KeyedRegistry.callName, hname, if_neg hnamed]
    rw [isAtPath, hkey, hcalled, beq_self_eq_true, beq_self_eq_true, Bool.and_self]
  · next text hsource =>
    apply hpattern e he
    rw [isAtPattern, hsource]
    show (e.name == name && _) = true
    rw [hname, beq_self_eq_true, hconcerns, Bool.and_self]
  · cases hconcerns

end KeyedEntry

namespace Keys

open BuildMacros.Script

/-- Comparison key of a file, as a module. -/
def fileKey (file : String) : String := Path.stripExtension (Path.clean file)

section

variable (aliases : AliasTable) (es : List KeyedEntry) (file : String)

/-- The entry that answers for an export of a file. -/
def entryOf? (p : ExportPair) : Option KeyedEntry :=
  KeyedEntry.answering aliases (importedName p.exported (Path.clean file)) (fileKey file) es

/-- The export is not dropped: it is the default export, or an entry answers for it. -/
def isKept (p : ExportPair) : Bool :=
  p.exported == "default" || (entryOf? aliases es file p).isSome

/-- Some entry is about the file and has the name of the export. -/
def IsRegistered (p : ExportPair) : Prop :=
  ∃ e ∈ es, e.concerns aliases (fileKey file) = true ∧ e.name = p.exported

/-- The exports of a local name, in the order of the text. -/
def exportsOf (m : Module) (name : String) : List ExportPair :=
  (m.program.body.flatMap Node.exportPairs).filter fun p => p.inner == name

/-- The export that decides on calls of a local name: the last one that is kept. -/
def decisive? (m : Module) (name : String) : Option ExportPair :=
  ((exportsOf m name).filter (isKept aliases es file)).getLast?

end

/-- A call by a plain name that the module declares at its root and does not import. -/
structure CallsOwn (p : Program) (x : Spot) (c : StaticCall) : Prop where
  mem : x ∈ p.spots
  call : x.node.knownCall? = some c
  bare : c.callee.qualifier = none
  own : ∃ d, p.visible? x.scopes c.callee.name = some d ∧ d.scope = Tracker.root ∧
    d.isImport = false

section

variable {aliases : AliasTable} {es : List KeyedEntry} {file : String} {m : Module}
  {name : String} {p : ExportPair}

/-- What is registered is kept. -/
theorem isKept_of_isRegistered (h : IsRegistered aliases es file p) :
    isKept aliases es file p = true := by
  rw [isKept, Bool.or_eq_true, beq_iff_eq]
  by_cases hdefault : p.exported = "default"
  · exact .inl hdefault
  · right
    obtain ⟨e, he, hconcerns, hname⟩ := h
    rw [entryOf?, importedName, if_neg hdefault]
    exact Option.isSome_iff_exists.mpr (KeyedEntry.exists_answering he hconcerns hname hdefault)

/-- An export that is answered by an entry of its name is registered. -/
theorem isRegistered_of_entryOf? {e : KeyedEntry} (h : entryOf? aliases es file p = some e)
    (hname : e.name = p.exported) : IsRegistered aliases es file p := by
  obtain ⟨he, hconcerns, -⟩ := KeyedEntry.of_answering h
  exact ⟨e, he, hconcerns, hname⟩

theorem mem_of_decisive? (h : decisive? aliases es file m name = some p) :
    p ∈ exportsOf m name ∧ isKept aliases es file p = true :=
  List.mem_filter.mp (List.mem_of_getLast? h)

/-- If an export is kept, then some export decides. -/
theorem exists_decisive? (hp : p ∈ exportsOf m name) (hkept : isKept aliases es file p = true) :
    ∃ q, decisive? aliases es file m name = some q := by
  apply Option.ne_none_iff_exists'.mp
  intro hnone
  have hmem : p ∈ (exportsOf m name).filter (isKept aliases es file) :=
    List.mem_filter.mpr ⟨hp, hkept⟩
  rw [List.getLast?_eq_none_iff.mp hnone] at hmem
  cases hmem

end

/-! ## Section 2: The exports that a site knows -/

section

variable {aliases : AliasTable} {es : List KeyedEntry} {registry : KeyedRegistry}
  (hsealed : KeyedRegistry.ofEntries aliases es = .ok registry)

include hsealed

/-- An export is called by the name that it is asked for by, if it is kept. -/
theorem exportedName?_eq (file : String) (p : ExportPair) :
    exportedName? registry file (fileKey file) p =
      if isKept aliases es file p = true then some (importedName p.exported (Path.clean file))
      else none := by
  unfold exportedName?
  by_cases hdefault : p.exported = "default"
  · rw [if_pos hdefault, isKept, hdefault, beq_self_eq_true, Bool.true_or, if_pos rfl,
      importedName, if_pos rfl]
  · rw [if_neg hdefault, isKept, beq_eq_false_iff_ne.mpr hdefault, Bool.false_or, entryOf?,
      importedName, if_neg hdefault, KeyedRegistry.get?_eq_answering hsealed]
    cases hanswers : KeyedEntry.answering aliases p.exported (fileKey file) es with
    | none => rfl
    | some e => exact congrArg some (KeyedEntry.of_answering hanswers).2.2.1

/-- A site knows a local name by the export that decides. -/
theorem localExports_get?_eq (options : TransformOptions) (file : String) (m : Module)
    (name : String) :
    (siteOf registry options file m).localExports.get? name =
      if registry.isSource (fileKey file) = true then
        (decisive? aliases es file m name).map fun p => importedName p.exported (Path.clean file)
      else none := by
  show (registeredExports registry file (fileKey file) _).get? name = _
  unfold registeredExports
  split
  · rw [Assoc.get?_foldl_insert ExportPair.inner (exportedName? registry file (fileKey file))
      (fun m p v hp => by rw [hp]) (fun m p hp => by rw [hp])]
    have hfilter : (m.program.body.flatMap Node.exportPairs).filter (fun p => p.inner == name &&
        (exportedName? registry file (fileKey file) p).isSome) =
          (exportsOf m name).filter (isKept aliases es file) := by
      rw [exportsOf, List.filter_filter]
      apply List.filter_congr
      intro p _
      rw [exportedName?_eq hsealed, Bool.and_comm]
      cases isKept aliases es file p <;> rfl
    rw [hfilter, decisive?]
    cases hlast : ((exportsOf m name).filter (isKept aliases es file)).getLast? with
    | none => rfl
    | some p =>
      have hkept := (mem_of_decisive? hlast).2
      rw [Option.bind_some, exportedName?_eq hsealed, if_pos hkept]
      rfl
  · rfl

/-- **Which function an own call names**: the one of the entry that answers for the export that
    decides. -/
theorem calls_own_iff (options : TransformOptions) {file : String} {m : Module} {x : Spot}
    {c : StaticCall} {f : KeyedFunction} (h : CallsOwn m.program x c) :
    (siteOf registry options file m).Calls c (m.program.visible? x.scopes c.binding) f ↔
      registry.isSource (fileKey file) = true ∧
        ∃ p e, decisive? aliases es file m c.callee.name = some p ∧
          entryOf? aliases es file p = some e ∧ f = e.function aliases := by
  obtain ⟨d, hvisible, hroot, hforeign⟩ := h.own
  have hbinding : c.binding = c.callee.name := by
    rw [StaticCall.binding, h.bare]
    rfl
  have hget := localExports_get?_eq hsealed options file m c.callee.name
  have hlocal : (siteOf registry options file m).isLocalExport c.callee (some d) =
      (siteOf registry options file m).localExports.has c.callee.name := by
    rw [Site.isLocalExport, h.bare, Option.any_some, hroot, beq_self_eq_true, Bool.and_true]
    rfl
  rw [hbinding, hvisible]
  by_cases hknown : registry.isSource (fileKey file) = true ∧
      ∃ p, decisive? aliases es file m c.callee.name = some p
  · obtain ⟨hsource, p, hp⟩ := hknown
    rw [if_pos hsource, hp, Option.map_some] at hget
    rw [Assoc.has, hget, Option.isSome_some] at hlocal
    have hlookup : (siteOf registry options file m).lookup? c.callee (fileKey file) =
        (entryOf? aliases es file p).map (KeyedEntry.function aliases) := by
      unfold Site.lookup?
      rw [h.bare, hget]
      exact KeyedRegistry.get?_eq_answering hsealed _ _
    rw [Site.calls_iff_of_export hlocal]
    show (siteOf registry options file m).lookup? c.callee (fileKey file) = some f ↔ _
    rw [hlookup, Option.map_eq_some_iff]
    constructor
    · rintro ⟨e, he, rfl⟩
      exact ⟨hsource, p, e, hp, he, rfl⟩
    · rintro ⟨-, q, e, hq, he, rfl⟩
      obtain rfl := Option.some.inj (hp.symm.trans hq)
      exact ⟨e, he, rfl⟩
  · -- a name that is not known stands for nothing
    have hnone : (siteOf registry options file m).localExports.get? c.callee.name = none := by
      rw [hget]
      split
      · next hsource =>
        rw [Option.map_eq_none_iff]
        by_contra hp
        exact hknown ⟨hsource, Option.ne_none_iff_exists'.mp hp⟩
      · rfl
    rw [Assoc.has, hnone, Option.isSome_none] at hlocal
    have himport : (some d).bind Declaration.valueImport? = none := by
      rw [Declaration.isImport, Option.isSome_eq_false_iff, Option.isNone_iff_eq_none] at hforeign
      rw [Option.bind_some, Declaration.valueImport?, hforeign]
      rfl
    rw [Site.calls_iff_of_unbound h.bare hlocal himport]
    constructor
    · rintro ⟨hfree, -⟩
      cases hfree
    · rintro ⟨hsource, p, -, hp, -⟩
      exact absurd ⟨hsource, p, hp⟩ hknown

end

/-! ## Section 3: Keys for own exports -/

/-- **Keys for own exports.** A registry is made of entries, a file parses, and a call names what
    the file declares at its root and does not import. The pass gives a key to the call exactly if
    the file mentions a registered name and is registered, the last export of the local name that
    is kept is answered by an entry, and the call leaves room for a key of the function and states
    none.

    Suppose that each export of the name that is kept is answered by an entry of its own, and that
    the call leaves room for its key. Then it does not matter which export decides: a key is given
    exactly if some export of the name is registered. -/
theorem givesKey_own_iff {aliases : AliasTable} {es : List KeyedEntry} {registry : KeyedRegistry}
    (hsealed : KeyedRegistry.ofEntries aliases es = .ok registry) (options : TransformOptions)
    {code file : String} {m : Module} (hparse : Module.parse code file = .ok m) {x : Spot}
    {c : StaticCall} (hown : CallsOwn m.program x c) :
    (GivesKey registry options code file m x c ↔
      registry.isMentionedIn code = true ∧
        registry.isSource (fileKey file) = true ∧
        ∃ p e, decisive? aliases es file m c.callee.name = some p ∧
          entryOf? aliases es file p = some e ∧ Keyless c (e.function aliases)) ∧
      ((∀ p ∈ exportsOf m c.callee.name, isKept aliases es file p = true →
          ∃ e, entryOf? aliases es file p = some e ∧ e.name = p.exported ∧
            Keyless c (e.function aliases)) →
        registry.isMentionedIn code = true →
        registry.isSource (fileKey file) = true →
        (GivesKey registry options code file m x c ↔
          ∃ p ∈ exportsOf m c.callee.name, IsRegistered aliases es file p)) := by
  have hgives : GivesKey registry options code file m x c ↔
      registry.isMentionedIn code = true ∧
        registry.isSource (fileKey file) = true ∧
        ∃ p e, decisive? aliases es file m c.callee.name = some p ∧
          entryOf? aliases es file p = some e ∧ Keyless c (e.function aliases) := by
    constructor
    · intro h
      obtain ⟨-, f, hcalls, hroom, hstated, hkeyed⟩ := keyAt?_eq_some_iff_calls.mp h.keyed
      obtain ⟨hsource, p, e, hp, he, rfl⟩ := (calls_own_iff hsealed options hown).mp hcalls
      exact ⟨h.mentioned, hsource, p, e, hp, he,
        keyless_iff.mpr ⟨hroom hown.bare, hstated, hkeyed⟩⟩
    · rintro ⟨hmentioned, hsource, p, e, hp, he, hkeyless⟩
      obtain ⟨hroom, hstated, hkeyed⟩ := keyless_iff.mp hkeyless
      have hcalls := (calls_own_iff hsealed options hown).mpr
        ⟨hsource, p, e, hp, he, rfl⟩
      have hfound : registry.get? (importedName p.exported (Path.clean file)) (fileKey file) =
          some (e.function aliases) := by
        rw [KeyedRegistry.get?_eq_answering hsealed]
        exact Option.map_eq_some_iff.mpr ⟨e, he, rfl⟩
      exact ⟨isEmpty_of_get? hfound, hmentioned, hparse, hown.mem,
        keyAt?_eq_some_iff_calls.mpr ⟨hown.call, _, hcalls, fun _ => hroom, hstated, hkeyed⟩⟩
  refine ⟨hgives, fun hanswered hmentioned hsource => ?_⟩
  rw [hgives]
  constructor
  · rintro ⟨-, -, p, -, hp, -⟩
    obtain ⟨hexported, hkept⟩ := mem_of_decisive? hp
    obtain ⟨e, he, hname, -⟩ := hanswered p hexported hkept
    exact ⟨p, hexported, isRegistered_of_entryOf? he hname⟩
  · rintro ⟨p, hexported, hregistered⟩
    obtain ⟨q, hq⟩ := exists_decisive? hexported (isKept_of_isRegistered hregistered)
    obtain ⟨hqexported, hqkept⟩ := mem_of_decisive? hq
    obtain ⟨e, he, -, hkeyless⟩ := hanswered q hqexported hqkept
    exact ⟨hmentioned, hsource, q, e, hq, he, hkeyless⟩

/-! ## Section 4: One function under several names -/

/-- An entry for a function of the file that `fileEntry` is about. -/
def keyEntry : KeyedEntry := ⟨"useKey", some (.path "/app/composables/use-thing.ts"), 1⟩

/-- A module that exports a function under two names and calls it. -/
def twiceCode : String := "function f() {}\nexport { f as useKey, f as other }\nf()\n"

/-- The name that is not registered is dropped, and the call is given a key. -/
theorem givesKey_own_iff_twice :
    ∃ registry m x c,
      KeyedRegistry.ofEntries (.ofMap rootedOptions.aliases.entries) [keyEntry] = .ok registry ∧
      Module.parse twiceCode "/app/composables/use-thing.ts" = .ok m ∧ CallsOwn m.program x c ∧
      exportsOf m c.callee.name = [⟨"f", "useKey"⟩, ⟨"f", "other"⟩] ∧
      GivesKey registry rootedOptions twiceCode "/app/composables/use-thing.ts" m x c := by
  let aliases : AliasTable := .ofMap rootedOptions.aliases.entries
  let f : KeyedFunction := keyEntry.function aliases
  have hrun : ((KeyedRegistry.ofEntries aliases [keyEntry]).toOption.any fun registry =>
      (Module.parse twiceCode "/app/composables/use-thing.ts").toOption.any fun m =>
        (registry.isMentionedIn twiceCode &&
            registry.isSource (fileKey "/app/composables/use-thing.ts")) &&
          m.program.spots.any fun x => x.node.knownCall?.any fun c =>
            decide (exportsOf m c.callee.name = [⟨"f", "useKey"⟩, ⟨"f", "other"⟩]) &&
              (c.callee.qualifier.isNone && (m.program.visible? x.scopes c.callee.name).any
                fun d => d.scope == Tracker.root && !d.isImport) &&
              (!Site.isFull c f && !Site.hasStatedKey c f && !Site.endsWithKey c)) = true := by
    decide +kernel
  obtain ⟨registry, hsealed, hrun⟩ := exists_ok_of_any hrun
  obtain ⟨m, hparse, hrun⟩ := exists_ok_of_any hrun
  simp only [Bool.and_eq_true, List.any_eq_true, Option.any_eq_true, decide_eq_true_eq,
    Bool.not_eq_true', beq_iff_eq, Option.isNone_iff_eq_none] at hrun
  obtain ⟨⟨hmentioned, hsource⟩, x, hx, c, hcall, ⟨hexports, hbare, d, hvisible, hroot, hforeign⟩,
    ⟨hroom, hstated⟩, hkeyed⟩ := hrun
  have hown : CallsOwn m.program x c := ⟨hx, hcall, hbare, d, hvisible, hroot, hforeign⟩
  have hanswers : entryOf? aliases [keyEntry] "/app/composables/use-thing.ts" ⟨"f", "useKey"⟩ =
      some keyEntry := by
    decide +kernel
  have hdropped : isKept aliases [keyEntry] "/app/composables/use-thing.ts" ⟨"f", "other"⟩ =
      false := by
    decide +kernel
  have hanswered : ∀ p ∈ exportsOf m c.callee.name,
      isKept aliases [keyEntry] "/app/composables/use-thing.ts" p = true →
        ∃ e, entryOf? aliases [keyEntry] "/app/composables/use-thing.ts" p = some e ∧
          e.name = p.exported ∧ Keyless c (e.function aliases) := by
    intro p hp hkept
    rw [hexports, List.mem_cons, List.mem_singleton] at hp
    rcases hp with rfl | rfl
    · exact ⟨keyEntry, hanswers, rfl, keyless_iff.mpr ⟨hroom, hstated, hkeyed⟩⟩
    · rw [hdropped] at hkept
      cases hkept
  refine ⟨registry, m, x, c, hsealed, hparse, hown, hexports, ?_⟩
  apply ((givesKey_own_iff hsealed rootedOptions hparse hown).2 hanswered hmentioned hsource).mpr
  refine ⟨⟨"f", "useKey"⟩, ?_, isRegistered_of_entryOf? hanswers rfl⟩
  rw [hexports]
  exact List.mem_cons_self

/-- What the pass makes of a text if one function with one argument is registered for the file. -/
def injectAlone (name code file : String) : Except Failure Output :=
  (KeyedRegistry.ofEntries (.ofMap rootedOptions.aliases.entries)
    [⟨name, some (.path file), 1⟩]).bind fun registry => inject registry rootedOptions code file

/-- **Exports that are taken for others.** A registered export gives no key if the same function is
    also the default export, and stands before it in the list, nor if it is the default export of a
    file with a dot in its name. A default export that is not registered gives one if the name made
    from the file is that of a registered function, and so does an export of this name if only the
    default export is registered. -/
theorem own_exports_mistaken :
    injectAlone "useKey" "function f() {}\nexport { f as useKey, f as default }\nf()\n"
        "/app/composables/use-thing.ts" = .ok .unchanged ∧
      injectAlone "default" "export default function fooClient() {}\nfooClient()\n"
        "/app/composables/foo.client.ts" = .ok .unchanged ∧
      injectAlone "useThing" "export default function useThing() {}\nuseThing()\n"
        "/app/composables/use-thing.ts" =
          .ok (.edited "export default function useThing() {}\nuseThing('$b8f729fbda')\n"
            none) ∧
      injectAlone "default" "export function useThing() {}\nuseThing()\n"
        "/app/composables/use-thing.ts" =
          .ok (.edited "export function useThing() {}\nuseThing('$b8f729fbda')\n" none) := by
  refine ⟨?_, ?_, ?_, ?_⟩ <;> decide +kernel

end Keys

end BuildMacros
