import BuildMacros.Proofs.Build.Phases
import BuildMacros.Proofs.Registry.Interchange

/-! # The order of the scan

    What a scan finds in a file are entries that name this file as their module
    (`key?_of_mem_found`). Files with different keys therefore share no group of entries:
    two orders of the files, cut into calls in any way, leave stores that can stand for
    each other (`interchangeable_of_perm`), and sealing makes the same of both.

    The order of the entries of the configuration, and of those of one file, is the same
    in both stores. It does count: the first of several entries is kept.
-/

namespace BuildMacros

/-! ## Section 1: Successive calls -/

namespace Build

/-- Scans lists of files, one call for each list. -/
def scanEach (b : Build) : List (List SourceFile) → Except Failure Build
  | [] => .ok b
  | files :: calls =>
    match b.scan files with
    | (_, _, some failure) => .error failure
    | (b', _, none) => b'.scanEach calls

/-- What is found in a file that is scanned without a failure. -/
def found (b : Build) (f : SourceFile) : List KeyedEntry := (b.scanFile f).toOption.getD []

/-- The file is scanned without a failure. -/
def Scans (b : Build) (f : SourceFile) : Prop := b.scanFile f = .ok (b.found f)

variable {b b' : Build} {files : List SourceFile}

theorem scans_of_ok {f : SourceFile} {es : List KeyedEntry} (h : b.scanFile f = .ok es) :
    b.Scans f := by
  unfold Scans found
  rw [h]
  rfl

theorem withEntries_append (b : Build) (es es' : List KeyedEntry) :
    (b.withEntries es).withEntries es' = b.withEntries (es ++ es') := by
  simp [withEntries, KeyedStore.append]

/-- **One call**: it gets to its end exactly if every file is scanned without a failure, and then
    the store has what was found in the files, in their order. -/
theorem scan_none_iff :
    (∃ n, b.scan files = (b', n, none)) ↔
      (∀ f ∈ files, b.Scans f) ∧ b' = b.withEntries (files.flatMap b.found) := by
  induction files generalizing b with
  | nil => simp [scan, withEntries, KeyedStore.append, eq_comm]
  | cons f files ih =>
    cases hfile : b.scanFile f with
    | error e =>
      constructor
      · rintro ⟨n, h⟩
        rw [scan, hfile] at h
        cases h
      · rintro ⟨hall, -⟩
        have hok := hall f List.mem_cons_self
        rw [Scans, hfile] at hok
        cases hok
    | ok es =>
      have hes : es = b.found f := by
        have hok := scans_of_ok hfile
        rw [Scans, hfile] at hok
        exact Except.ok.inj hok
      subst hes
      -- the files behind are scanned by the same factories and options
      have hrest := ih (b := b.withEntries (b.found f))
      rw [scan_cons hfile, List.forall_mem_cons, List.flatMap_cons, ← withEntries_append]
      constructor
      · rintro ⟨n, h⟩
        simp only [Prod.mk.injEq] at h
        obtain ⟨hall, hb'⟩ := hrest.mp ⟨((b.withEntries (b.found f)).scan files).2.1, by
          rw [← h.1, ← h.2.2]⟩
        exact ⟨⟨hfile, hall⟩, hb'⟩
      · rintro ⟨⟨-, hall⟩, hb'⟩
        obtain ⟨n, h⟩ := hrest.mpr ⟨hall, hb'⟩
        exact ⟨_, by rw [h]⟩

/-- **Successive calls** do what one call with all the files does. -/
theorem scanEach_iff {calls : List (List SourceFile)} :
    b.scanEach calls = .ok b' ↔
      (∀ f ∈ calls.flatten, b.Scans f) ∧ b' = b.withEntries (calls.flatten.flatMap b.found) := by
  induction calls generalizing b with
  | nil => simp [scanEach, withEntries, KeyedStore.append, eq_comm]
  | cons files calls ih =>
    rw [List.flatten_cons, List.forall_mem_append, List.flatMap_append, ← withEntries_append]
    unfold scanEach
    rcases hscan : b.scan files with ⟨b₁, n, failure⟩
    cases failure with
    | some failure =>
      constructor
      · rintro ⟨⟩
      · rintro ⟨⟨hall, -⟩, -⟩
        obtain ⟨n', h⟩ : ∃ n', b.scan files = (b.withEntries (files.flatMap b.found), n', none) :=
          scan_none_iff.mpr ⟨hall, rfl⟩
        rw [hscan] at h
        cases h
    | none =>
      obtain ⟨hall, rfl⟩ := scan_none_iff.mp ⟨n, hscan⟩
      show (b.withEntries _).scanEach calls = .ok b' ↔ _
      rw [ih]
      constructor
      · rintro ⟨hmore, hb'⟩
        exact ⟨⟨hall, hmore⟩, hb'⟩
      · rintro ⟨⟨-, hmore⟩, hb'⟩
        exact ⟨hmore, hb'⟩

/-! ## Section 2: What a file contributes -/

/-- Comparison key of a file, with its aliases expanded. -/
def keyOf (b : Build) (f : SourceFile) : String :=
  Path.stripExtension ((aliases b.options).resolve (Path.clean f.id))

/-- What is found in a file is about the file. -/
theorem key?_of_mem_found {f : SourceFile} {e : KeyedEntry} (he : e ∈ b.found f) :
    e.key? (aliases b.options) = some (b.keyOf f) := by
  have hentry : ∃ c : Factories.FactoryCall, e = c.entry f.id := by
    unfold found scanFile at he
    split at he
    · unfold Factories.scan at he
      cases hcalls : Factories.callsIn b.factories b.options f.code f.id with
      | error failure =>
        simp only [hcalls, bind, Except.bind, Failure.orSkip] at he
        split at he <;> cases he
      | ok found =>
        cases found with
        | none => simp [hcalls, bind, Except.bind, pure, Except.pure, Failure.orSkip,
            Except.toOption] at he
        | some x =>
          obtain ⟨m, calls⟩ := x
          simp only [hcalls, bind, Except.bind, pure, Except.pure, Failure.orSkip,
            Except.toOption, Option.getD_some] at he
          obtain ⟨c, -, rfl⟩ := List.mem_map.mp he
          exact ⟨c, rfl⟩
    · cases he
  obtain ⟨c, rfl⟩ := hentry
  rfl

/-- Among files with different keys, one key is the key of at most one file; so the files with
    this key stand in any order of the files in the same order. -/
theorem filter_eq_of_perm {α β : Type} [BEq β] [LawfulBEq β] {g : α → β} {xs ys : List α}
    (h : xs.Perm ys) (hg : (xs.map g).Nodup) (y : β) :
    (xs.filter fun x => g x == y) = ys.filter fun x => g x == y := by
  have hperm := h.filter fun x => g x == y
  have hnodup : ((xs.filter fun x => g x == y).map g).Nodup :=
    hg.sublist (List.filter_sublist.map g)
  have hall : ∀ x ∈ xs.filter fun x => g x == y, g x = y := by
    intro x hx
    simpa using (List.mem_filter.mp hx).2
  generalize (xs.filter fun x => g x == y) = zs at hperm hnodup hall ⊢
  match zs, hall with
  | [], _ => exact hperm.nil_eq
  | [z], _ => exact hperm.singleton_eq
  | z :: z' :: zs, hall =>
    -- two files with one key
    have hz := hall z List.mem_cons_self
    have hz' := hall z' (List.mem_cons_of_mem _ List.mem_cons_self)
    simp [hz, hz'] at hnodup

/-- The entries about one module among what is found in files come from the files with its key. -/
theorem about_found (b : Build) (key : String) (files : List SourceFile) :
    KeyedRegistry.about (aliases b.options) (some key) (files.flatMap b.found) =
      (files.filter fun f => b.keyOf f == key).flatMap b.found := by
  induction files with
  | nil => rfl
  | cons f files ih =>
    rw [List.flatMap_cons, KeyedRegistry.about, List.filter_append, ← KeyedRegistry.about,
      ← KeyedRegistry.about, ih]
    by_cases hkey : b.keyOf f = key
    · have hall : KeyedRegistry.about (aliases b.options) (some key) (b.found f) = b.found f := by
        refine List.filter_eq_self.mpr fun e he => ?_
        simp [key?_of_mem_found he, hkey]
      rw [hall, List.filter_cons_of_pos (by simpa using hkey), List.flatMap_cons]
    · have hnone : KeyedRegistry.about (aliases b.options) (some key) (b.found f) = [] := by
        refine List.filter_eq_nil_iff.mpr fun e he => ?_
        simp [key?_of_mem_found he, hkey]
      rw [hnone, List.nil_append, List.filter_cons_of_neg (by simpa using hkey)]

/-- Two orders of files with different keys leave stores that can stand for each other. -/
theorem interchangeable_of_perm {files files' : List SourceFile} (h : files.Perm files')
    (hkeys : (files.map b.keyOf).Nodup) (es : List KeyedEntry) :
    KeyedRegistry.Interchangeable (aliases b.options) (es ++ files.flatMap b.found)
      (es ++ files'.flatMap b.found) := by
  intro key
  have happend : ∀ more : List KeyedEntry,
      KeyedRegistry.about (aliases b.options) key (es ++ more) =
        KeyedRegistry.about (aliases b.options) key es ++
          KeyedRegistry.about (aliases b.options) key more := fun more => List.filter_append _ _
  rw [happend, happend]
  congr 1
  cases key with
  | some key => rw [about_found, about_found, filter_eq_of_perm h hkeys]
  | none =>
    -- a scan finds no entry without a module
    have hnone : ∀ fs : List SourceFile,
        KeyedRegistry.about (aliases b.options) none (fs.flatMap b.found) = [] := by
      intro fs
      refine List.filter_eq_nil_iff.mpr fun e he => ?_
      obtain ⟨f, -, hf⟩ := List.mem_flatMap.mp he
      simp [key?_of_mem_found hf]
    rw [hnone, hnone]

end Build

/-! ## Section 3: Sealing after either order -/

/-- Two sealings have the same outcome: they fail in the same way, or they make builds that differ
    at most in how their registries are made, not in what these answer. -/
def SameOutcome : Except Failure SealedBuild → Except Failure SealedBuild → Prop
  | .error e, .error e' => e = e'
  | .ok s, .ok s' => s.keyed.SameAnswers s'.keyed ∧ { s with keyed := s'.keyed } = s'
  | _, _ => False

namespace Build

/-- Sealing builds whose stores can stand for each other. -/
theorem sameOutcome_toSealed {b : Build} {es es' : List KeyedEntry}
    (h : KeyedRegistry.Interchangeable (aliases b.options) (b.store.entries ++ es)
      (b.store.entries ++ es')) :
    SameOutcome (b.withEntries es).toSealed (b.withEntries es').toSealed := by
  have hregistry : ∀ xs, (b.withEntries xs).store.toRegistry (aliases b.options) =
      KeyedRegistry.ofEntries (aliases b.options) (b.store.entries ++ xs) := fun xs => rfl
  have hsealed : ∀ xs, (b.withEntries xs).toSealed =
      (KeyedRegistry.ofEntries (aliases b.options) (b.store.entries ++ xs)).map fun keyed =>
        ⟨b.options, b.loader, b.pageMeta, b.factories, b.components, keyed⟩ := by
    intro xs
    rw [← hregistry]
    unfold toSealed
    show ((b.withEntries xs).store.toRegistry (aliases b.options)).bind _ = _
    cases (b.withEntries xs).store.toRegistry (aliases b.options) <;> rfl
  rw [hsealed, hsealed]
  cases hr : KeyedRegistry.ofEntries (aliases b.options) (b.store.entries ++ es) with
  | error e =>
    rw [(h.error_iff e).mp hr]
    exact rfl
  | ok r =>
    cases hr' : KeyedRegistry.ofEntries (aliases b.options) (b.store.entries ++ es') with
    | error e =>
      rw [(h.error_iff e).mpr hr'] at hr
      cases hr
    | ok r' => exact ⟨h.sameAnswers hr hr', rfl⟩

/-- **The order of the scan does not count.** Files whose keys are pairwise different are scanned
    without a failure, in one order and cut into calls in some way. Then they are scanned without a
    failure in every other order and however they are cut, and sealing has the same outcome. -/
theorem sameOutcome_of_perm {config : BuildConfig} {calls calls' : List (List SourceFile)}
    (hperm : calls.flatten.Perm calls'.flatten)
    (hkeys : (calls.flatten.map (new config).keyOf).Nodup) {b : Build}
    (hscan : (new config).scanEach calls = .ok b) :
    ∃ b', (new config).scanEach calls' = .ok b' ∧ SameOutcome b.toSealed b'.toSealed := by
  obtain ⟨hall, rfl⟩ := scanEach_iff.mp hscan
  refine ⟨_, scanEach_iff.mpr ⟨fun f hf => hall f (hperm.mem_iff.mpr hf), rfl⟩, ?_⟩
  exact sameOutcome_toSealed (interchangeable_of_perm hperm hkeys _)

/-! ## Section 4: Two files that export one name -/

/-- A build with two factories, whose functions take two and three arguments. -/
def pairConfig : BuildConfig :=
  ⟨[⟨"default", some (.path "/app/b"), 1⟩], [⟨"make", "#m", 2⟩, ⟨"build", "#m", 3⟩], [],
    .default, none, ⟨false⟩⟩

/-- A file that exports what one of the factories makes. -/
def pairFile (id factory : String) : SourceFile :=
  ⟨id, r"import { " ++ factory ++ r" } from '#m'" ++ "\nexport const useIt = " ++ factory ++ "()"⟩

/-- Two files in one call, and one after the other in two calls. -/
theorem sameOutcome_of_perm_pair :
    ∃ b b', (new pairConfig).scanEach
          [[pairFile "/app/a.ts" "make", pairFile "/app/b.ts" "build"]] = .ok b ∧
      (new pairConfig).scanEach [[pairFile "/app/b.ts" "build"], [pairFile "/app/a.ts" "make"]] =
        .ok b' ∧
      b.store ≠ b'.store ∧ SameOutcome b.toSealed b'.toSealed := by
  obtain ⟨hok, hstores⟩ : ((new pairConfig).scanEach
        [[pairFile "/app/a.ts" "make", pairFile "/app/b.ts" "build"]]).toOption.isSome = true ∧
      ((new pairConfig).scanEach
        [[pairFile "/app/a.ts" "make", pairFile "/app/b.ts" "build"]]).toOption.map Build.store ≠
          ((new pairConfig).scanEach
            [[pairFile "/app/b.ts" "build"], [pairFile "/app/a.ts" "make"]]).toOption.map
              Build.store := by
    decide +kernel
  cases hscan : (new pairConfig).scanEach
      [[pairFile "/app/a.ts" "make", pairFile "/app/b.ts" "build"]] with
  | error e =>
    rw [hscan] at hok
    cases hok
  | ok b =>
    have hperm : [[pairFile "/app/a.ts" "make", pairFile "/app/b.ts" "build"]].flatten.Perm
        [[pairFile "/app/b.ts" "build"], [pairFile "/app/a.ts" "make"]].flatten :=
      List.Perm.swap _ _ _
    obtain ⟨b', hscan', hsame⟩ := sameOutcome_of_perm hperm (by decide +kernel) hscan
    refine ⟨b, b', rfl, hscan', ?_, hsame⟩
    rintro hstore
    rw [hscan, hscan'] at hstores
    exact hstores (congrArg some hstore)

/-- For two files with one key the order does count: the function of the first one is kept. -/
example :
    [[pairFile "/app/a.ts" "make", pairFile "/app/a.js" "build"],
      [pairFile "/app/a.js" "build", pairFile "/app/a.ts" "make"]].map (fun files =>
        ((new pairConfig).scanEach [files]).toOption.bind fun b => b.toSealed.toOption.bind fun s =>
          (s.keyed.get? "useIt" "/app/a").map KeyedFunction.argumentLength) =
      [some 2, some 3] := by
  decide +kernel

end Build

end BuildMacros
