import BuildMacros.Proofs.Keys.FullCalls
import BuildMacros.Proofs.Registry.Scanning

/-! # Calls of members

    A call of a member, `ns.name()` or `ns['name']()`, is a call of what a module exports as
    `name`. It should get a key only if the module is registered with an export of that name.
    All of this is checked but the last word. The function is looked up by the name that it
    is called by, and a default export is called by the name of its file. So a member of that
    name is taken for the default export (`givesKey_member_iff`).
-/

namespace BuildMacros

/-! ## Section 1: Entries that answer -/

namespace KeyedEntry

variable {aliases : AliasTable} {es : List KeyedEntry} {e : KeyedEntry} {name key : String}

/-- The entry is about the default export of a module, and the name is made from the module's
    file. -/
structure IsDefaultOf (aliases : AliasTable) (key name : String) (e : KeyedEntry) : Prop where
  path : e.key? aliases = some key
  exported : e.name = "default"
  called : name = Naming.defaultExportName key

theorem concerns_of_key? (h : e.key? aliases = some key) : e.concerns aliases key = true := by
  unfold key? at h
  split at h
  · next source hsource =>
    cases h
    simp [concerns, hsource]
  · cases h

/-- An entry with a path is called by its own name, or it is about a default export. -/
theorem name_of_isAtPath (h : e.isAtPath aliases name key = true) :
    e.key? aliases = some key ∧ e.calledName aliases = name ∧
      (e.name = name ∨ e.IsDefaultOf aliases key name) := by
  rw [isAtPath, Bool.and_eq_true, beq_iff_eq, beq_iff_eq] at h
  obtain ⟨hkey, hcalled⟩ := h
  refine ⟨hkey, hcalled, ?_⟩
  have hname : KeyedRegistry.callName e.name key = name := by
    rw [calledName, hkey] at hcalled
    exact hcalled
  rw [KeyedRegistry.callName] at hname
  split at hname
  · next hdefault => exact .inr ⟨hkey, hdefault, hname.symm⟩
  · exact .inl hname

theorem name_of_isAtPattern (aliases : AliasTable) (h : e.isAtPattern name key = true) :
    e.name = name ∧ e.concerns aliases key = true ∧ e.key? aliases = none := by
  unfold isAtPattern at h
  split at h
  · next text hsource =>
    rw [Bool.and_eq_true, beq_iff_eq] at h
    refine ⟨h.1, ?_, by simp [key?, hsource]⟩
    simp only [concerns, hsource, h.2]
  · cases h

/-- **Which entry answers**: one for the module that has the name, or else the one for the default
    export of the module, if the name is made from the module's file. -/
theorem of_answering (h : answering aliases name key es = some e) :
    e ∈ es ∧ e.concerns aliases key = true ∧ e.calledName aliases = name ∧
      (e.name = name ∨ e.IsDefaultOf aliases key name) := by
  rw [answering, Option.or_eq_some_iff] at h
  rcases h with hpath | ⟨-, hpattern⟩
  · obtain ⟨hkey, hcalled, hname⟩ := name_of_isAtPath (List.find?_some hpath)
    exact ⟨List.mem_of_find?_eq_some hpath, concerns_of_key? hkey, hcalled, hname⟩
  · obtain ⟨hname, hconcerns, hkey⟩ := name_of_isAtPattern aliases (List.find?_some hpattern)
    have hcalled : e.calledName aliases = name := by
      rw [calledName, hkey]
      exact hname
    exact ⟨List.mem_of_find?_eq_some hpattern, hconcerns, hcalled, .inl hname⟩

end KeyedEntry

namespace Keys

open BuildMacros.Script

/-! ## Section 2: Calls that are given keys -/

/-- A name that is found in a module makes the registry worth a look. -/
theorem isEmpty_of_get? {r : KeyedRegistry} {name key : String} {f : KeyedFunction}
    (h : r.get? name key = some f) : r.isEmpty = false :=
  List.isEmpty_eq_false_iff_exists_mem.mpr ⟨name, KeyedRegistry.mem_names_of_get? h⟩

/-- The nearest declaration of a name at a node is the import of all of a module, and the text
    shows this import. -/
structure HoldsModule (s : Site) (p : Program) (x : Spot) (name source : String) : Prop where
  imported : ∃ d b, p.visible? x.scopes name = some d ∧ d.kind = .imported b ∧
    b.typeOnly = false ∧ b.imported = .whole ∧ s.resolver.resolve b.source = source
  written : s.imports.hasNamespace source name = true

namespace Site

variable {s : Site} {p : Program} {x : Spot} {c : StaticCall} {ns : String} {f : KeyedFunction}

/-- A call of a member names what its module has under the name of the member. -/
theorem calls_member_iff (hns : c.callee.qualifier = some ns) :
    s.Calls c (p.visible? x.scopes c.binding) f ↔
      ∃ source, HoldsModule s p x ns source ∧ s.registry.get? c.callee.name source = some f := by
  have hbinding : c.binding = ns := by
    rw [StaticCall.binding, hns]
    rfl
  have hlookup : ∀ source, s.lookup? c.callee source = s.registry.get? c.callee.name source := by
    intro source
    rw [lookup?, hns, Option.isSome_some, if_pos rfl]
  rw [calls_iff_of_member hns, hbinding]
  constructor
  · rintro ⟨b, himport, ⟨hwhole, hheld⟩, hfound⟩
    obtain ⟨d, hvisible, hvalue⟩ := Option.bind_eq_some_iff.mp himport
    obtain ⟨hkind, htype⟩ := Declaration.kind_of_valueImport? hvalue
    rw [hlookup] at hfound
    exact ⟨_, ⟨⟨d, b, hvisible, hkind, htype, hwhole, rfl⟩, hheld⟩, hfound⟩
  · rintro ⟨source, ⟨⟨d, b, hvisible, hkind, htype, hwhole, rfl⟩, hheld⟩, hfound⟩
    refine ⟨b, ?_, ⟨hwhole, hheld⟩, ?_⟩
    · rw [hvisible, Option.bind_some]
      exact Declaration.valueImport?_of_kind hkind htype
    · rw [hlookup]
      exact hfound

end Site

/-- **Keys for members of namespaces.** A registry is made of entries, and a file parses. The pass
    gives a key to a call of a member exactly if the file mentions a registered name, the nearest
    declaration of the qualifier imports all of a module, some entry answers for the member and
    that module, and the call states no key. The entry has the name of the member, or it is about
    the default export of the module and the member has the name that is made from the file. -/
theorem givesKey_member_iff {aliases : AliasTable} {es : List KeyedEntry}
    {registry : KeyedRegistry} (hsealed : KeyedRegistry.ofEntries aliases es = .ok registry)
    (options : TransformOptions) {code file : String} {m : Module}
    (hparse : Module.parse code file = .ok m) {x : Spot} (hx : x ∈ m.program.spots)
    {c : StaticCall} {ns : String} (hns : c.callee.qualifier = some ns) :
    GivesKey registry options code file m x c ↔
      registry.isMentionedIn code = true ∧ x.node.knownCall? = some c ∧
        ∃ source e, HoldsModule (siteOf registry options file m) m.program x ns source ∧
          KeyedEntry.answering aliases c.callee.name source es = some e ∧
          (e.name = c.callee.name ∨ e.IsDefaultOf aliases source c.callee.name) ∧
          Site.hasStatedKey c (e.function aliases) = false ∧ Site.endsWithKey c = false := by
  have hget : ∀ source, registry.get? c.callee.name source =
      (KeyedEntry.answering aliases c.callee.name source es).map (KeyedEntry.function aliases) :=
    KeyedRegistry.get?_eq_answering hsealed c.callee.name
  constructor
  · intro h
    obtain ⟨hcall, f, hcalls, -, hstated, hkeyed⟩ := keyAt?_eq_some_iff_calls.mp h.keyed
    obtain ⟨source, hholds, hfound⟩ := (Site.calls_member_iff hns).mp hcalls
    obtain ⟨e, hanswers, rfl⟩ := Option.map_eq_some_iff.mp ((hget source).symm.trans hfound)
    exact ⟨h.mentioned, hcall, source, e, hholds, hanswers,
      (KeyedEntry.of_answering hanswers).2.2.2, hstated, hkeyed⟩
  · rintro ⟨hmentioned, hcall, source, e, hholds, hanswers, -, hstated, hkeyed⟩
    have hfound : registry.get? c.callee.name source = some (e.function aliases) := by
      rw [hget, hanswers]
      rfl
    refine ⟨isEmpty_of_get? hfound, hmentioned, hparse, hx, keyAt?_eq_some_iff_calls.mpr
      ⟨hcall, _, (Site.calls_member_iff hns).mpr ⟨source, hholds, hfound⟩, ?_, hstated, hkeyed⟩⟩
    intro hbare
    rw [hns] at hbare
    cases hbare

/-! ## Section 3: A member named like a file -/

/-- The default export of a file, whose calls take a key. -/
def fileEntry : KeyedEntry := ⟨"default", some (.path "/app/composables/use-thing.ts"), 1⟩

/-- Options that tell where the project is. -/
def rootedOptions : TransformOptions :=
  ⟨some "/app", .empty, .empty, false, defaultFactoryMarker⟩

/-- The registry with the entry. -/
def fileRegistry : Except Failure KeyedRegistry :=
  KeyedRegistry.ofEntries (.ofMap rootedOptions.aliases.entries) [fileEntry]

/-- A module that calls a member of the file. The member has the name that is made from the file,
    and is not the default export. -/
def memberCode : String := "import * as t from '../composables/use-thing'\nt.useThing()\n"

/-- The call is given a key, and the entry that answers is about the default export. -/
theorem givesKey_member_iff_file :
    ∃ registry m x c, fileRegistry = .ok registry ∧
      Module.parse memberCode "/app/pages/a.ts" = .ok m ∧ x ∈ m.program.spots ∧
      c.callee.qualifier = some "t" ∧
      GivesKey registry rootedOptions memberCode "/app/pages/a.ts" m x c ∧
      ∃ source e, HoldsModule (siteOf registry rootedOptions "/app/pages/a.ts" m) m.program x "t"
          source ∧
        e ∈ [fileEntry] ∧ e.IsDefaultOf (.ofMap rootedOptions.aliases.entries) source
          c.callee.name := by
  have hrun : (fileRegistry.toOption.any fun registry =>
      (Module.parse memberCode "/app/pages/a.ts").toOption.any fun m =>
        !registry.isEmpty && registry.isMentionedIn memberCode &&
          (keyedCalls (siteOf registry rootedOptions "/app/pages/a.ts" m) m).any fun c =>
            c.callee.qualifier == some "t" && c.callee.name != "default") = true := by
    decide +kernel
  obtain ⟨registry, hregistry, hrun⟩ := exists_ok_of_any hrun
  obtain ⟨m, hparse, hrun⟩ := exists_ok_of_any hrun
  rw [Bool.and_eq_true, Bool.and_eq_true, Bool.not_eq_true'] at hrun
  obtain ⟨⟨hregistered, hmentioned⟩, hcalls⟩ := hrun
  obtain ⟨c, hc, hcallee⟩ := List.any_eq_true.mp hcalls
  rw [Bool.and_eq_true, beq_iff_eq, bne_iff_ne] at hcallee
  obtain ⟨x, hx, hkey⟩ := (mem_keyedCalls_iff hparse).mp hc
  have hgives : GivesKey registry rootedOptions memberCode "/app/pages/a.ts" m x c :=
    ⟨hregistered, hmentioned, hparse, hx, hkey⟩
  obtain ⟨-, -, source, e, hholds, hanswers, hname, -⟩ :=
    (givesKey_member_iff hregistry rootedOptions hparse hx hcallee.1).mp hgives
  have he := (KeyedEntry.of_answering hanswers).1
  refine ⟨registry, m, x, c, hregistry, hparse, hx, hcallee.1, hgives, source, e, hholds, he, ?_⟩
  -- the only entry has another name than the member
  refine hname.resolve_left fun hsame => hcallee.2 ?_
  rw [← hsame, List.mem_singleton.mp he]
  rfl

/-- **A member is taken for the default export.** The call of the member is given a key, although no
    entry has the name of the member. Imported by its name, the same function gets none. -/
theorem default_member_keyed :
    ∃ registry, fileRegistry = .ok registry ∧ (∀ e ∈ [fileEntry], e.name ≠ "useThing") ∧
      inject registry rootedOptions memberCode "/app/pages/a.ts" =
        .ok (.edited "import * as t from '../composables/use-thing'\nt.useThing('$7b758e46a7')\n"
          none) ∧
      inject registry rootedOptions
        "import { useThing } from '../composables/use-thing'\nuseThing()\n"
        "/app/pages/a.ts" = .ok .unchanged := by
  have hmember : (fileRegistry.toOption.any fun registry =>
      decide (inject registry rootedOptions memberCode "/app/pages/a.ts" =
        .ok (.edited "import * as t from '../composables/use-thing'\nt.useThing('$7b758e46a7')\n"
          none))) = true := by
    decide +kernel
  have himported : (fileRegistry.toOption.any fun registry =>
      decide (inject registry rootedOptions
        "import { useThing } from '../composables/use-thing'\nuseThing()\n"
        "/app/pages/a.ts" = .ok .unchanged)) = true := by
    decide +kernel
  obtain ⟨registry, hregistry, hmember⟩ := exists_ok_of_any hmember
  rw [hregistry] at himported
  exact ⟨registry, hregistry, by decide, of_decide_eq_true hmember, of_decide_eq_true himported⟩

end Keys

end BuildMacros
