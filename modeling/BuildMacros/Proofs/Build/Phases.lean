import BuildMacros.Build

/-! # The phases of a build

    A scan that ends without a failure has looked at every file, and the store has all
    that was found, in the order of the files (`scan_eq`). No file is looked at in the
    light of another one: what is found in it depends on the factories and options of
    the build alone. Sealing keeps everything but the store.

    In a sealed build the passes over a file run one after the other, and the text that
    keys are given in is what hydration and redirection have left (`keyDraft`).
-/

namespace BuildMacros

/-! ## Section 1: Scanning -/

namespace Build

/-- The build with more entries in its store. -/
def withEntries (b : Build) (es : List KeyedEntry) : Build := { b with store := b.store.append es }

theorem scan_cons {b : Build} {f : SourceFile} {es : List KeyedEntry} (h : b.scanFile f = .ok es)
    (files : List SourceFile) :
    b.scan (f :: files) =
      (((b.withEntries es).scan files).1, es.length + ((b.withEntries es).scan files).2.1,
        ((b.withEntries es).scan files).2.2) := by
  rw [scan, h]
  rfl

/-- **A scan without failure**: every file was scanned by itself, and the store has what was found
    behind what it had. -/
theorem scan_eq {b b' : Build} {files : List SourceFile} {n : Nat}
    (h : b.scan files = (b', n, none)) :
    ∃ found : List (List KeyedEntry), files.map b.scanFile = found.map .ok ∧
      b' = b.withEntries found.flatten ∧ n = found.flatten.length := by
  induction files generalizing b n with
  | nil =>
    cases h
    refine ⟨[], rfl, ?_, rfl⟩
    simp [withEntries, KeyedStore.append]
  | cons f files ih =>
    cases hfile : b.scanFile f with
    | error e =>
      rw [scan, hfile] at h
      cases h
    | ok es =>
      rw [scan_cons hfile] at h
      rcases hrest : (b.withEntries es).scan files with ⟨b₁, more, failure⟩
      rw [hrest] at h
      cases h
      obtain ⟨found, hfound, hstore, rfl⟩ := ih hrest
      refine ⟨es :: found, ?_, ?_, ?_⟩
      · rw [List.map_cons, hfile, List.map_cons]
        exact congrArg _ hfound
      · rw [hstore]
        simp [withEntries, KeyedStore.append]
      · simp

/-- What is found in a file is in the store. -/
theorem mem_store_of_scan {b b' : Build} {files : List SourceFile} {n : Nat}
    (h : b.scan files = (b', n, none)) {f : SourceFile} (hf : f ∈ files) :
    ∃ es, b.scanFile f = .ok es ∧ ∀ e ∈ es, e ∈ b'.store.entries := by
  obtain ⟨found, hfound, rfl, -⟩ := scan_eq h
  have hmem : b.scanFile f ∈ found.map Except.ok := hfound ▸ List.mem_map_of_mem hf
  obtain ⟨es, hes, hfile⟩ := List.mem_map.mp hmem
  refine ⟨es, hfile.symm, fun e he => ?_⟩
  exact List.mem_append_right _ (List.mem_flatten.mpr ⟨es, hes, he⟩)

/-- Sealing turns the store into a registry and keeps everything else. -/
theorem toSealed_eq {b : Build} {s : SealedBuild} (h : b.toSealed = .ok s) :
    KeyedRegistry.ofEntries (aliases b.options) b.store.entries = .ok s.keyed ∧
      s.options = b.options ∧ s.factories = b.factories := by
  unfold toSealed at h
  cases hregistry : b.store.toRegistry (aliases b.options) with
  | error e =>
    rw [hregistry] at h
    cases h
  | ok keyed =>
    rw [hregistry] at h
    cases h
    exact ⟨hregistry, rfl, rfl⟩

end Build

/-- A build whose scan and sealing succeed transforms all files. -/
theorem runBuild_eq {c : BuildConfig} {files : List SourceFile} {b : Build} {n : Nat}
    {s : SealedBuild} (hscan : (Build.new c).scan files = (b, n, none))
    (hsealed : b.toSealed = .ok s) : runBuild c files = .ok (s.transformAll files) := by
  unfold runBuild
  rw [hscan]
  simp only [hsealed]
  rfl

/-! ## Section 2: Passes -/

theorem Draft.run_append (id : String) (ps qs : List Pass) (d : Draft) :
    Draft.run id (ps ++ qs) d = (Draft.run id ps d).bind (Draft.run id qs) := by
  induction ps generalizing d with
  | nil => rfl
  | cons p ps ih =>
    rw [List.cons_append, Draft.run, Draft.run]
    cases p d.code id with
    | error e => rfl
    | ok out => exact ih (d.after out)

namespace SealedBuild

/-- What hydration and redirection make of a file: the text that keys are given in. -/
def keyDraft (b : SealedBuild) (f : SourceFile) : Except Failure Draft :=
  Draft.run f.id (b.hydration ++ [Factories.redirectFactories b.factories b.options])
    ⟨f.code, []⟩

/-- The passes over a file give keys in its `keyDraft`. -/
theorem run_passes_eq (b : SealedBuild) (f : SourceFile) :
    Draft.run f.id (b.passes f.id) ⟨f.code, []⟩ =
      (b.keyDraft f).bind (Draft.run f.id (Keys.inject b.keyed b.options :: b.loading f.id)) := by
  have hpasses : b.passes f.id =
      (b.hydration ++ [Factories.redirectFactories b.factories b.options]) ++
        (Keys.inject b.keyed b.options :: b.loading f.id) := by
    simp [passes]
  rw [hpasses, Draft.run_append]
  rfl

end SealedBuild

end BuildMacros
