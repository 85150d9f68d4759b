import BuildMacros.Proofs.Build.Phases
import BuildMacros.Proofs.Factories.Exports
import BuildMacros.Proofs.Keys.Imported
import BuildMacros.Proofs.Specifiers

/-! # Keys for functions that factories make

    One file exports what a factory makes, another one imports it and calls it. Three
    parts of a build have to agree about the name: the scan names an entry for the
    export, the registry stores a function under a name and an export name, and the pass
    that gives keys looks the import up by the one and compares the other.

    For named exports all three are the name of the export. For a default export the
    scan names the entry after the file, so this is also what the registry has as the
    export name, while the import asks for `default`. The call of a default import
    therefore takes a key only when some other entry, named `default`, is about the file.
-/

namespace BuildMacros

open BuildMacros.Script BuildMacros.Keys BuildMacros.Factories

/-! ## Section 1: Runs of a build -/

/-- A build of files that gets past its scan and its sealing. -/
structure Run (config : BuildConfig) (files : List SourceFile) where
  scanned : Build
  count : Nat
  final : SealedBuild
  hscan : (Build.new config).scan files = (scanned, count, none)
  hsealed : scanned.toSealed = .ok final

namespace Run

variable {config : BuildConfig} {files : List SourceFile}

theorem options_eq (r : Run config files) :
    r.scanned.options = config.options ∧ r.final.options = config.options := by
  obtain ⟨found, -, hscanned, -⟩ := Build.scan_eq r.hscan
  have hoptions : r.scanned.options = config.options := by
    rw [hscanned]
    rfl
  exact ⟨hoptions, (Build.toSealed_eq r.hsealed).2.1.trans hoptions⟩

/-- The registry of a run is made of the entries that were given and found. -/
theorem ofEntries_eq (r : Run config files) :
    KeyedRegistry.ofEntries (Build.aliases config.options) r.scanned.store.entries =
      .ok r.final.keyed := by
  rw [← r.options_eq.1]
  exact (Build.toSealed_eq r.hsealed).1

/-- **The builds with an output** are the runs. -/
theorem runBuild_iff {outs : List FileOutput} :
    runBuild config files = .ok outs ↔
      ∃ r : Run config files, outs = r.final.transformAll files := by
  constructor
  · intro h
    unfold runBuild at h
    rcases hscan : (Build.new config).scan files with ⟨b, n, failure⟩
    rw [hscan] at h
    cases failure with
    | some e => cases h
    | none =>
      cases hsealed : b.toSealed with
      | error e =>
        simp only [hsealed] at h
        cases h
      | ok s =>
        simp only [hsealed] at h
        cases h
        exact ⟨⟨b, n, s, hscan, hsealed⟩, rfl⟩
  · rintro ⟨r, rfl⟩
    exact runBuild_eq r.hscan r.hsealed

/-- A run gives a key to a call of one of its files: the pass that gives keys, at work on what
    hydration and redirection made of the file, gives one to the call. -/
structure GivesKey (r : Run config files) (file : SourceFile) (m : Module) (x : Spot)
    (c : StaticCall) : Prop where
  mem : file ∈ files
  looked : shouldTransform file.id = true
  draft : ∃ d, r.final.keyDraft file = .ok d ∧
    Keys.GivesKey r.final.keyed config.options d.code file.id m x c

/-- What a key given by a run is: one of the insertions that the passes over the file make in its
    `keyDraft`. -/
theorem GivesKey.edits {r : Run config files} {file : SourceFile} {m : Module} {x : Spot}
    {c : StaticCall} (h : r.GivesKey file m x c) :
    ∃ (d : Draft) (edits : List (Nat × String)) (count : Nat), r.final.keyDraft file = .ok d ∧
      insertion m (Path.relativeTo config.options.rootDir (Path.clean file.id)) count c ∈ edits ∧
      Draft.run file.id (r.final.passes file.id) ⟨file.code, []⟩ =
        ((edits.foldlM (fun (s : Splicer) (pos, text) => s.insert pos text)
          (.new d.code)).map (Splicer.output · file.id config.options.sourcemap)).bind fun out =>
            Draft.run file.id (r.final.loading file.id) (d.after out) := by
  obtain ⟨d, hdraft, hkey⟩ := h.draft
  obtain ⟨⟨count, hmem⟩, hinject⟩ := hkey.inserts
  refine ⟨d, _, count, hdraft, hmem, ?_⟩
  rw [SealedBuild.run_passes_eq, hdraft, ← hinject, ← r.options_eq.2]
  rfl

end Run

/-! ## Section 2: The two files -/

section

variable {config : BuildConfig} {files : List SourceFile}

/-- The file exports under the name `e` what a call of the factory makes. -/
structure Makes (config : BuildConfig) (file : SourceFile) (e : String) (f : Factory) : Prop where
  looked : shouldTransform file.id = true
  mentioned : (Build.new config).factories.isMentionedIn file.code = true
  spared : (Build.aliases config.options).Spares (Path.clean file.id)
  exports : ∃ m callee, Module.parse file.code file.id = .ok m ∧
    let x := Context.new (Build.new config).factories config.options file.id m.block.content
    Exported m x.filter e callee ∧ Denotes x m callee f

/-- A node of the file, as the run gives keys in it, is a call of a name that is imported from
    another file, where it is exported as `e`. -/
structure Uses (r : Run config files) (file maker : SourceFile) (m : Module) (x : Spot)
    (c : StaticCall) (b : ImportBinding) (e : String) : Prop where
  mem : file ∈ files
  looked : shouldTransform file.id = true
  draft : ∃ d, r.final.keyDraft file = .ok d ∧ Module.parse d.code file.id = .ok m
  call : CallsImport (siteOf r.final.keyed config.options file.id m) m.program x c b e
  names : (Resolver.new (Build.aliases config.options) file.id).Names b.source
    (Path.clean maker.id)

/-- Comparison key of a file. -/
def SourceFile.key (file : SourceFile) : String := Path.stripExtension (Path.clean file.id)

/-- The entry that the scan makes of an export of a file. -/
def Makes.entry (file : SourceFile) (e : String) (f : Factory) : KeyedEntry :=
  ⟨exportedAs file.id e, some (.path (Path.clean file.id)), f.argumentLength⟩

/-- The scan finds the export. -/
theorem Makes.mem_store {file : SourceFile} {e : String} {f : Factory}
    (h : Makes config file e f) (r : Run config files) (hfile : file ∈ files) :
    entry file e f ∈ r.scanned.store.entries := by
  obtain ⟨es, hscan, hmem⟩ := Build.mem_store_of_scan r.hscan hfile
  obtain ⟨m, callee, hparse, hexported, hdenotes⟩ := h.exports
  refine hmem _ ?_
  have hlooked : (Build.new config).scanFile file = Failure.orSkip []
      (Factories.scan (Build.new config).factories config.options file.code file.id) :=
    if_pos h.looked
  rw [hlooked, scan_eq h.mentioned hparse] at hscan
  cases hfind : find (Build.new config).factories config.options file.id m with
  | error failure =>
    -- the file parses, so a failure would have ended the scan
    have hreported := isRecoverable_of_resolveAll hfind
    rw [hfind] at hscan
    simp only [Except.map, Failure.orSkip, hreported, Bool.false_eq_true, if_false] at hscan
    cases hscan
  | ok calls =>
    rw [hfind] at hscan
    cases hscan
    exact mem_of_find hexported hdenotes hfind

/-- What the entry of a named export registers. -/
theorem Makes.placed?_entry {file : SourceFile} {e : String} {f : Factory}
    (h : Makes config file e f) (he : e ≠ "default") :
    (entry file e f).placed? (Build.aliases config.options) =
      some ((e, file.key), ⟨e, e, some file.key, f.argumentLength⟩) := by
  have hname : exportedAs file.id e = e := exportedAs_of_ne he
  simp only [KeyedEntry.placed?, entry, AliasTable.resolve_of_spares h.spared, hname,
    KeyedRegistry.callName, if_neg he]
  rfl

end

/-! ## Section 3: Keys across files -/

section

variable {config : BuildConfig} {files : List SourceFile} {r : Run config files}

/-- The pass that gives keys looks an import up by what it imports and where that is exported. -/
theorem Uses.givesKey_iff {file maker : SourceFile} {m : Module} {x : Spot} {c : StaticCall}
    {b : ImportBinding} {e : String} (h : Uses r file maker m x c b e) :
    ∃ d, r.final.keyDraft file = .ok d ∧ Module.parse d.code file.id = .ok m ∧
      (r.GivesKey file m x c ↔ r.final.keyed.isMentionedIn d.code = true ∧
        ∃ k, r.final.keyed.get? (importedName e maker.key) maker.key = some k ∧
          k.exportName = e ∧ Keyless c k) := by
  obtain ⟨d, hdraft, hparse⟩ := h.draft
  refine ⟨d, hdraft, hparse, ?_⟩
  have hsource : (siteOf r.final.keyed config.options file.id m).resolver.resolve b.source =
      maker.key := h.names.resolve_eq
  have hgives := h.call.givesKey_iff hparse
  rw [hsource] at hgives
  rw [← hgives]
  constructor
  · rintro ⟨-, -, d', hdraft', hgives⟩
    rw [hdraft] at hdraft'
    cases hdraft'
    exact hgives
  · exact fun hgives => ⟨h.mem, h.looked, d, hdraft, hgives⟩

/-- **Keys across files.** A file exports under the name `e` what a factory makes, and another file
    calls what it imports under that name. The build has an output, and its scan finds the export.
    For a named export, the call takes a key exactly when it is `Keyless` for the first function
    that is registered for the name and the file, and that function is exported under the name.
    For a default export, the call takes no key at all, unless an entry named `default` is about
    the file. -/
theorem Run.givesKey_of_made (r : Run config files) {maker file : SourceFile} {e : String}
    {f : Factory} (hmaker : maker ∈ files) (hmakes : Makes config maker e f) {m : Module} {x : Spot}
    {c : StaticCall} {b : ImportBinding} (huses : Uses r file maker m x c b e) :
    let aliases := Build.aliases config.options
    let entries := r.scanned.store.entries
    runBuild config files = .ok (r.final.transformAll files) ∧ Makes.entry maker e f ∈ entries ∧
      (e ≠ "default" → ∃ k,
        Assoc.get? (entries.filterMap (KeyedEntry.placed? aliases)) (e, maker.key) = some k ∧
          (r.GivesKey file m x c ↔ k.exportName = e ∧ Keyless c k)) ∧
      (e = "default" → r.GivesKey file m x c →
        ∃ entry ∈ entries, entry.concerns aliases maker.key = true ∧ entry.name = "default") := by
  intro aliases entries
  have hentry : Makes.entry maker e f ∈ entries := hmakes.mem_store r hmaker
  obtain ⟨d, -, hparse, hgives⟩ := huses.givesKey_iff
  refine ⟨Run.runBuild_iff.mpr ⟨r, rfl⟩, hentry, fun he => ?_, fun he hkey => ?_⟩
  · have hplaced := List.mem_filterMap.mpr ⟨_, hentry, hmakes.placed?_entry he⟩
    obtain ⟨k, hk⟩ := Assoc.exists_get?_of_mem hplaced
    refine ⟨k, hk, ?_⟩
    have hfound : r.final.keyed.get? e maker.key = some k := by
      rw [KeyedRegistry.get?_ofEntries r.ofEntries_eq, hk, Option.some_or]
    have hmentioned := huses.call.isMentionedIn hparse he (KeyedRegistry.mem_names_of_get? hfound)
    have hname : importedName e maker.key = e := if_neg he
    rw [hgives, hname, hfound]
    constructor
    · rintro ⟨-, _, ⟨⟩, hk⟩
      exact hk
    · exact fun hk => ⟨hmentioned, k, rfl, hk⟩
  · obtain ⟨-, k, hfound, hexport, -⟩ := hgives.mp hkey
    obtain ⟨entry, hmem, hconcerns, hname⟩ :=
      KeyedRegistry.exists_entry_of_get? r.ofEntries_eq hfound
    exact ⟨entry, hmem, hconcerns, by rw [hname, hexport, he]⟩

end

/-! ## Section 4: Checks that can be run -/

section

variable {config : BuildConfig} {files : List SourceFile}

/-- The run of a build, if it gets past its scan and its sealing. -/
def Run.attempt? (config : BuildConfig) (files : List SourceFile) : Option (Run config files) :=
  match hscan : (Build.new config).scan files with
  | (_, _, some _) => none
  | (b, n, none) =>
    match hsealed : b.toSealed with
    | .ok s => some ⟨b, n, s, hscan, hsealed⟩
    | .error _ => none

namespace Makes

/-- The callee of a call is imported and denotes the factory. -/
def checkCall (m : Module) (x : Context) (f : Factory) (c : StaticCall) : Bool :=
  (m.scopes.getFrom? Tracker.root (c.callee.qualifier.getD c.callee.name)).any fun d =>
    d.valueImport?.any fun b => x.imported? ⟨"", c.callee⟩ b == some f

/-- A statement exports under a name what a call of an imported factory makes, without a list. -/
def checkStatement (m : Module) (x : Context) (e : String) (f : Factory) : Node → Bool
  | .exportDefault value => e == "default" && (value.staticCall? x.filter).any (checkCall m x f)
  | .exportDeclaration (.variableDeclaration _ declarators _) _ =>
    declarators.any fun
      | .declarator (.name id) _ (init :: _) =>
        id.name == e && e != "default" && (directCall? x.filter init).any (checkCall m x f)
      | _ => false
  | _ => false

/-- The file exports under a name what a call of an imported factory makes, without a list. -/
def check (config : BuildConfig) (file : SourceFile) (e : String) (f : Factory) : Bool :=
  let registry := (Build.new config).factories
  shouldTransform file.id && registry.isMentionedIn file.code &&
    (Module.parse file.code file.id).toOption.any fun m =>
      m.program.body.any
        (checkStatement m (.new registry config.options file.id m.block.content) e f)

theorem denotes_of_checkCall {m : Module} {x : Context} {f : Factory} {c : StaticCall}
    (h : checkCall m x f c = true) : Denotes x m c.callee f := by
  obtain ⟨d, hvisible, h⟩ := (Option.any_eq_true _ _).mp h
  obtain ⟨b, himport, h⟩ := (Option.any_eq_true _ _).mp h
  exact denotes_of_imported? hvisible himport (beq_iff_eq.mp h)

theorem exists_of_checkStatement {m : Module} {x : Context} {e : String} {f : Factory} {n : Node}
    (hn : n ∈ m.program.body) (h : checkStatement m x e f n = true) :
    ∃ callee, Exported m x.filter e callee ∧ Denotes x m callee f := by
  unfold checkStatement at h
  split at h
  · rw [Bool.and_eq_true, beq_iff_eq] at h
    obtain ⟨rfl, h⟩ := h
    obtain ⟨c, hcall, h⟩ := (Option.any_eq_true _ _).mp h
    exact ⟨c.callee, .default hn hcall, denotes_of_checkCall h⟩
  · obtain ⟨d, hd, h⟩ := List.any_eq_true.mp h
    split at h
    · rw [Bool.and_eq_true, Bool.and_eq_true, beq_iff_eq, bne_iff_ne] at h
      obtain ⟨⟨rfl, hne⟩, hinit⟩ := h
      obtain ⟨c, hcall, hdenotes⟩ := (Option.any_eq_true _ _).mp hinit
      exact ⟨c.callee, .declared hn hd hcall hne, denotes_of_checkCall hdenotes⟩
    · cases h
  · cases h

/-- A file that passes the check. -/
theorem of_check {file : SourceFile} {e : String} {f : Factory}
    (hspared : (Build.aliases config.options).Spares (Path.clean file.id))
    (h : check config file e f = true) : Makes config file e f := by
  unfold check at h
  rw [Bool.and_eq_true, Bool.and_eq_true] at h
  obtain ⟨⟨hlooked, hmentioned⟩, h⟩ := h
  obtain ⟨m, hparse, h⟩ := (Option.any_eq_true _ _).mp h
  obtain ⟨n, hn, h⟩ := List.any_eq_true.mp h
  obtain ⟨callee, hexported⟩ := exists_of_checkStatement hn h
  exact ⟨hlooked, hmentioned, hspared, m, callee, eq_ok_of_toOption hparse, hexported⟩

end Makes

/-- A node of the file is a call of an import from the maker, with room for a key of a function. -/
def Uses.check (r : Run config files) (file maker : SourceFile) (b : ImportBinding) (e : String)
    (f : KeyedFunction) : Bool :=
  let resolver := Resolver.new (Build.aliases config.options) file.id
  files.contains file && shouldTransform file.id &&
    Resolver.isRelative b.source.toList &&
    Path.joinTo resolver.directory b.source.toList == (Path.clean maker.id).toList &&
    Text.startsWith ['/'] (Path.clean maker.id).toList &&
    (r.final.keyDraft file).toOption.any fun d =>
      (Module.parse d.code file.id).toOption.any fun m =>
        let s := siteOf r.final.keyed config.options file.id m
        m.program.spots.any fun x => x.node.knownCall?.any fun c =>
          c.callee.qualifier.isNone &&
            (m.program.visible? x.scopes c.callee.name).bind Declaration.valueImport? == some b &&
            exportedAs? b.imported == some e &&
            s.imports.direct.get? c.callee.name == some ⟨e, s.resolver.resolve b.source⟩ &&
            !s.localExports.has c.callee.name && !Site.isFull c f && !Site.hasStatedKey c f &&
            !Site.endsWithKey c

/-- A file in which the check finds a call. -/
theorem Uses.exists_of_check {r : Run config files} {file maker : SourceFile} {b : ImportBinding}
    {e : String} {f : KeyedFunction} (hspared : (Build.aliases config.options).Spares b.source)
    (h : check r file maker b e f = true) :
    ∃ m x c, Uses r file maker m x c b e ∧ Keyless c f := by
  unfold check at h
  simp only [Bool.and_eq_true, beq_iff_eq, List.contains_iff_mem] at h
  obtain ⟨⟨⟨⟨⟨hmem, hlooked⟩, hrelative⟩, hjoined⟩, habsolute⟩, h⟩ := h
  obtain ⟨d, hdraft, h⟩ := (Option.any_eq_true _ _).mp h
  obtain ⟨m, hparse, h⟩ := (Option.any_eq_true _ _).mp h
  obtain ⟨x, hx, h⟩ := List.any_eq_true.mp h
  obtain ⟨c, hcall, h⟩ := (Option.any_eq_true _ _).mp h
  simp only [Bool.and_eq_true, beq_iff_eq, Bool.not_eq_true', Option.isNone_iff_eq_none] at h
  obtain ⟨⟨⟨⟨⟨⟨⟨hbare, hvisible⟩, hexported⟩, hwritten⟩, hforeign⟩, hfull⟩, hstated⟩, hkeyed⟩ := h
  have hdraft := eq_ok_of_toOption hdraft
  have hparse := eq_ok_of_toOption hparse
  exact ⟨m, x, c, ⟨hmem, hlooked, ⟨d, hdraft, hparse⟩,
    ⟨hx, hcall, hbare, hvisible, hexported, hwritten, hforeign⟩,
    ⟨hrelative, hjoined, habsolute, hspared⟩⟩, keyless_iff.mpr ⟨hfull, hstated, hkeyed⟩⟩

end

/-! ## Section 5: A named and a default export -/

/-- A build with one factory and nothing else. -/
def sampleConfig : BuildConfig :=
  ⟨[], [⟨"make", "#m", 3⟩], [],
    ⟨some "/app", .empty, .empty, false, defaultFactoryMarker⟩, none, ⟨false⟩⟩

/-- The factory of that build. -/
def sampleFactory : Factory := ⟨"make", "#m", 3⟩

/-- A file that exports what the factory makes, under a name or as its default. -/
def sampleMaker (lead : String) : SourceFile :=
  ⟨"/app/use-it.ts", "import { make } from '#m'\nexport " ++ lead ++ " make()"⟩

/-- A file that imports the function and calls it. -/
def sampleUser (clause : String) : SourceFile :=
  ⟨"/app/b.ts", "import " ++ clause ++ " from './use-it.ts'\nuseIt()"⟩

/-- What the import of the function binds. -/
def sampleImport (imported : ImportedName) : ImportBinding :=
  ⟨"./use-it.ts", imported, false⟩

/-- The function that the factory makes, exported under a name. -/
def sampleFunction (exportName : String) : KeyedFunction :=
  ⟨"useIt", exportName, some "/app/use-it", 3⟩

theorem spares_sample (s : String) : (Build.aliases sampleConfig.options).Spares s := by
  intro e he
  have hentries : (Build.aliases sampleConfig.options).entries = [] := List.mergeSort_nil
  rw [hentries] at he
  cases he

/-- A run that passes a test. -/
theorem exists_run {config : BuildConfig} {files : List SourceFile} {p : Run config files → Bool}
    (h : (Run.attempt? config files).any p = true) : ∃ r : Run config files, p r = true := by
  obtain ⟨r, -, hr⟩ := (Option.any_eq_true _ _).mp h
  exact ⟨r, hr⟩

/-- The call of a named export takes a key. -/
theorem givesKey_of_made_sample :
    ∃ (r : Run sampleConfig [sampleMaker "const useIt =", sampleUser "{ useIt }"])
      (m : Module) (x : Spot) (c : StaticCall),
      Uses r (sampleUser "{ useIt }") (sampleMaker "const useIt =") m x c
          (sampleImport (.named "useIt")) "useIt" ∧
        r.GivesKey (sampleUser "{ useIt }") m x c := by
  have hmakes : Makes sampleConfig (sampleMaker "const useIt =") "useIt" sampleFactory :=
    Makes.of_check (spares_sample _) (by decide +kernel)
  obtain ⟨r, hr⟩ : ∃ r : Run sampleConfig [sampleMaker "const useIt =", sampleUser "{ useIt }"],
      (Uses.check r (sampleUser "{ useIt }") (sampleMaker "const useIt =")
          (sampleImport (.named "useIt")) "useIt" (sampleFunction "useIt") &&
        Assoc.get? (r.scanned.store.entries.filterMap
          (KeyedEntry.placed? (Build.aliases sampleConfig.options)))
            ("useIt", (sampleMaker "const useIt =").key) ==
          some (sampleFunction "useIt")) = true := exists_run (by decide +kernel)
  rw [Bool.and_eq_true, beq_iff_eq] at hr
  obtain ⟨huse, hfirst⟩ := hr
  obtain ⟨m, x, c, huses, hkeyless⟩ := Uses.exists_of_check (spares_sample _) huse
  obtain ⟨-, -, hnamed, -⟩ := r.givesKey_of_made List.mem_cons_self hmakes huses
  obtain ⟨k, hk, hgives⟩ := hnamed (by decide)
  rw [hfirst] at hk
  cases hk
  exact ⟨r, m, x, c, huses, hgives.mpr ⟨rfl, hkeyless⟩⟩

/-- **A default export takes no key**: the same call of the same function, exported as the default
    of its file and imported as such, is left as it is. -/
theorem default_export_unkeyed :
    ∃ (r : Run sampleConfig [sampleMaker "default", sampleUser "useIt"])
      (m : Module) (x : Spot) (c : StaticCall),
      Makes sampleConfig (sampleMaker "default") "default" sampleFactory ∧
        Uses r (sampleUser "useIt") (sampleMaker "default") m x c (sampleImport .default)
          "default" ∧
        Keyless c (sampleFunction "default") ∧
        ∃ outs, runBuild sampleConfig [sampleMaker "default", sampleUser "useIt"] = .ok outs ∧
          FileOutput.unchanged (sampleUser "useIt").id ∈ outs := by
  have hmakes : Makes sampleConfig (sampleMaker "default") "default" sampleFactory :=
    Makes.of_check (spares_sample _) (by decide +kernel)
  obtain ⟨r, hr⟩ : ∃ r : Run sampleConfig [sampleMaker "default", sampleUser "useIt"],
      (Uses.check r (sampleUser "useIt") (sampleMaker "default") (sampleImport .default) "default"
          (sampleFunction "default") &&
        (r.final.transform (sampleUser "useIt").code (sampleUser "useIt").id).toOption ==
          some (.unchanged (sampleUser "useIt").id)) = true := exists_run (by decide +kernel)
  rw [Bool.and_eq_true, beq_iff_eq] at hr
  obtain ⟨huse, hunchanged⟩ := hr
  obtain ⟨m, x, c, huses, hkeyless⟩ := Uses.exists_of_check (spares_sample _) huse
  refine ⟨r, m, x, c, hmakes, huses, hkeyless, _, Run.runBuild_iff.mpr ⟨r, rfl⟩, ?_⟩
  refine List.mem_map.mpr ⟨sampleUser "useIt", List.mem_cons_of_mem _ List.mem_cons_self, ?_⟩
  rw [eq_ok_of_toOption hunchanged]

end BuildMacros
