import BuildMacros.Proofs.Build.ScanOrder
import BuildMacros.Proofs.Factories.Phantoms

/-! # Scans that end early

    What is found in a file does not depend on what was found in other files. So all files
    may be looked at before anything is taken into the store, at the same time or in any
    order (`scan_eq_takeIn`). Nobody sees the difference: the store ends up as if the files
    had been looked at one after the other, and the scan had ended at the first failure.

    A file has one of three fates. It is skipped, it ends the scan, or something is found
    in it (`scanFile_cases`). Files before the first one that ends the scan count, those
    behind it do not, even if they have been looked at (`scan_in_order`).
-/

namespace BuildMacros.Build

open BuildMacros.Script

variable {b b' : Build} {f : SourceFile} {e : Failure}

/-! ## Section 1: The fates of a file -/

/-- A file that adds nothing: no pass looks at it, or its script does not parse. -/
def Skips (b : Build) (f : SourceFile) : Prop :=
  shouldTransform f.id = false ∨ ∃ file detail,
    Factories.scan b.factories b.options f.code f.id = .error (.unparsable file detail)

/-- A file that ends a scan: it is looked at, and fails with something else than its syntax. -/
def Stops (b : Build) (f : SourceFile) (e : Failure) : Prop :=
  shouldTransform f.id = true ∧ Factories.scan b.factories b.options f.code f.id = .error e ∧
    ∀ file detail, e ≠ .unparsable file detail

/-- A file that is looked at, and what is found in it. -/
def Finds (b : Build) (f : SourceFile) (es : List KeyedEntry) : Prop :=
  shouldTransform f.id = true ∧ Factories.scan b.factories b.options f.code f.id = .ok es

theorem isRecoverable_iff :
    e.isRecoverable = true ↔ ∃ file detail, e = .unparsable file detail := by
  cases e <;> simp [Failure.isRecoverable]

theorem Skips.scanFile_eq (h : b.Skips f) : b.scanFile f = .ok [] := by
  unfold scanFile
  by_cases hlooked : shouldTransform f.id = true
  · rw [if_pos hlooked]
    obtain hnot | ⟨file, detail, hscan⟩ := h
    · rw [hlooked] at hnot
      cases hnot
    · rw [hscan]
      rfl
  · rw [if_neg hlooked]

theorem Stops.scanFile_eq (h : b.Stops f e) : b.scanFile f = .error e := by
  obtain ⟨hlooked, hscan, hother⟩ := h
  have hfatal : ¬e.isRecoverable = true := by
    intro hrecoverable
    obtain ⟨file, detail, heq⟩ := isRecoverable_iff.mp hrecoverable
    exact hother file detail heq
  rw [scanFile, if_pos hlooked, hscan, Failure.orSkip, if_neg hfatal]

theorem Finds.scanFile_eq {es : List KeyedEntry} (h : b.Finds f es) : b.scanFile f = .ok es := by
  rw [scanFile, if_pos h.1, h.2]
  rfl

/-- **A file has one of three fates.** -/
theorem scanFile_cases (b : Build) (f : SourceFile) :
    b.Skips f ∨ (∃ e, b.Stops f e) ∨ ∃ es, b.Finds f es := by
  by_cases hlooked : shouldTransform f.id = true
  · cases hscan : Factories.scan b.factories b.options f.code f.id with
    | ok es => exact .inr (.inr ⟨es, hlooked, hscan⟩)
    | error e =>
      by_cases hrecoverable : e.isRecoverable = true
      · obtain ⟨file, detail, rfl⟩ := isRecoverable_iff.mp hrecoverable
        exact .inl (.inr ⟨file, detail, hscan⟩)
      · refine .inr (.inl ⟨e, hlooked, hscan, ?_⟩)
        intro file detail heq
        exact hrecoverable (isRecoverable_iff.mpr ⟨file, detail, heq⟩)
  · exact .inl (.inl (by simpa using hlooked))

theorem found_eq {es : List KeyedEntry} (h : b.scanFile f = .ok es) : b.found f = es := by
  rw [found, h]
  rfl

/-- A file is scanned without a failure unless it ends the scan. -/
theorem scans_of_not_stops (h : ∀ e, ¬b.Stops f e) : b.Scans f := by
  rcases b.scanFile_cases f with hskips | ⟨e, hstops⟩ | ⟨es, hfinds⟩
  · exact scans_of_ok hskips.scanFile_eq
  · exact absurd hstops (h e)
  · exact scans_of_ok hfinds.scanFile_eq

/-! ## Section 2: Looking first, taking in afterwards -/

/-- What was found in files is taken into the store, one file after the other, up to the first
    failure. Answers like `scan`. -/
def takeIn (b : Build) : List (Except Failure (List KeyedEntry)) → Build × Nat × Option Failure
  | [] => (b, 0, none)
  | .error e :: _ => (b, 0, some e)
  | .ok es :: rest =>
    let (b', more, failure) := takeIn (b.withEntries es) rest
    (b', es.length + more, failure)

/-- What is found in a file does not depend on the store. -/
theorem scanFile_withEntries (b : Build) (es : List KeyedEntry) :
    (b.withEntries es).scanFile = b.scanFile := rfl

theorem scan_cons_error (h : b.scanFile f = .error e) (files : List SourceFile) :
    b.scan (f :: files) = (b, 0, some e) := by
  rw [scan, h]

/-- **All files may be looked at first**, with the build as it is at the start. -/
theorem scan_eq_takeIn (b : Build) (files : List SourceFile) :
    b.scan files = b.takeIn (files.map b.scanFile) := by
  induction files generalizing b with
  | nil => rfl
  | cons f files ih =>
    cases hfile : b.scanFile f with
    | error e => rw [scan_cons_error hfile, List.map_cons, hfile, takeIn]
    | ok es =>
      rw [scan_cons hfile, List.map_cons, hfile, takeIn, ih, scanFile_withEntries]

/-! ## Section 3: Files one after the other -/

/-- A scan goes on behind files that are scanned without a failure. -/
theorem scan_append_of_scans {before : List SourceFile} (h : ∀ f ∈ before, b.Scans f)
    (after : List SourceFile) :
    let b₁ := b.withEntries (before.flatMap b.found)
    b.scan (before ++ after) = ((b₁.scan after).1,
      (before.flatMap b.found).length + (b₁.scan after).2.1, (b₁.scan after).2.2) := by
  intro b₁
  induction before generalizing b with
  | nil =>
    have hsame : b₁ = b := by simp [b₁, withEntries, KeyedStore.append]
    simp [hsame]
  | cons f before ih =>
    have hfirst : b.scanFile f = .ok (b.found f) := h f List.mem_cons_self
    have hrest := ih (b := b.withEntries (b.found f)) fun g hg => h g (List.mem_cons_of_mem f hg)
    have hfound : (b.withEntries (b.found f)).found = b.found := rfl
    dsimp only at hrest
    rw [hfound, withEntries_append, ← List.flatMap_cons] at hrest
    have hstore : b₁ = b.withEntries ((f :: before).flatMap b.found) := rfl
    rw [List.cons_append, scan_cons hfirst, hrest, hstore, List.flatMap_cons, List.length_append,
      Nat.add_assoc]

theorem scan_of_scans {files : List SourceFile} (h : ∀ f ∈ files, b.Scans f) :
    b.scan files =
      (b.withEntries (files.flatMap b.found), (files.flatMap b.found).length, none) := by
  have hall := scan_append_of_scans h []
  rw [List.append_nil] at hall
  exact hall

/-- Two calls that succeed do what one call with all the files does. -/
theorem scan_append_none_iff {before after : List SourceFile} {n : Nat} :
    b.scan (before ++ after) = (b', n, none) ↔ ∃ b₁ n₁ n₂,
      b.scan before = (b₁, n₁, none) ∧ b₁.scan after = (b', n₂, none) ∧ n = n₁ + n₂ := by
  constructor
  · intro h
    obtain ⟨hall, rfl⟩ := scan_none_iff.mp ⟨n, h⟩
    rw [List.forall_mem_append] at hall
    have hsplit := scan_append_of_scans hall.1 after
    dsimp only at hsplit
    rw [h] at hsplit
    simp only [Prod.mk.injEq] at hsplit
    obtain ⟨hstore, hcount, hfailure⟩ := hsplit
    refine ⟨_, _, _, scan_of_scans hall.1, ?_, hcount⟩
    rw [hstore, hfailure]
  · intro ⟨b₁, n₁, n₂, hbefore, hafter, hcount⟩
    obtain ⟨hall, rfl⟩ := scan_none_iff.mp ⟨n₁, hbefore⟩
    rw [scan_of_scans hall] at hbefore
    obtain ⟨rfl, -⟩ := Prod.mk.inj (Prod.mk.inj hbefore).2
    rw [scan_append_of_scans hall after, hafter, hcount]

/-- **What a scan does.** The files may all be looked at before anything is taken into the store. A
    file that no pass looks at, or that does not parse, adds nothing; any other one adds what is
    found in it. If no file fails otherwise, the store gets what the files add, in their order,
    behind what it had, and the answer is how much that is. If a file does, the first one of them
    decides: its failure is the answer, and the store gets what the files before it add. So two
    calls that succeed leave what one call with all their files leaves. -/
theorem scan_in_order (b : Build) (files : List SourceFile) :
    b.scan files = b.takeIn (files.map b.scanFile) ∧
      (∀ f, (b.Skips f → b.found f = []) ∧ ∀ es, b.Finds f es → b.found f = es) ∧
      ((∀ f ∈ files, ∀ e, ¬b.Stops f e) →
        b.scan files =
          (b.withEntries (files.flatMap b.found), (files.flatMap b.found).length, none)) ∧
      (∀ before f after e, files = before ++ f :: after → (∀ g ∈ before, ∀ e', ¬b.Stops g e') →
        b.Stops f e →
          b.scan files =
            (b.withEntries (before.flatMap b.found), (before.flatMap b.found).length, some e)) ∧
      ∀ before after b' n, files = before ++ after →
        (b.scan files = (b', n, none) ↔ ∃ b₁ n₁ n₂, b.scan before = (b₁, n₁, none) ∧
          b₁.scan after = (b', n₂, none) ∧ n = n₁ + n₂) := by
  refine ⟨b.scan_eq_takeIn files, ?_, ?_, ?_, ?_⟩
  · intro f
    exact ⟨fun h => found_eq h.scanFile_eq, fun es h => found_eq h.scanFile_eq⟩
  · intro h
    exact scan_of_scans fun f hf => scans_of_not_stops (h f hf)
  · intro before f after e hfiles hbefore hstops
    have hall : ∀ g ∈ before, b.Scans g := fun g hg => scans_of_not_stops (hbefore g hg)
    have hfile : (b.withEntries (before.flatMap b.found)).scanFile f = .error e :=
      hstops.scanFile_eq
    rw [hfiles, scan_append_of_scans hall, scan_cons_error hfile]
    rfl
  · intro before after b' n hfiles
    rw [hfiles]
    exact scan_append_none_iff

/-- A build with one factory that has scanned nothing. -/
def loneBuild : Build := new ⟨[], Factories.waysEntries, [], .default, none, ⟨false⟩⟩

/-- A file with an import in a comment, which ends a scan. -/
def phantomFile : SourceFile := ⟨"/app/b.ts", Factories.phantomCode⟩

/-- Of three files the second one ends the scan: what is found in the first one is in the store, and
    nothing of the third one, although there is as much in it. -/
theorem scan_in_order_phantom :
    let first := pairFile "/app/a.ts" "make"
    let third := pairFile "/app/c.ts" "make"
    loneBuild.Stops phantomFile (.missingFactory "useIt" "/app/b.ts") ∧
      loneBuild.scan [first, phantomFile, third] =
        (loneBuild.withEntries [⟨"useIt", some (.path "/app/a.ts"), 3⟩], 1,
          some (.missingFactory "useIt" "/app/b.ts")) ∧
      (loneBuild.found third).length = 1 := by
  intro first third
  have hstops : loneBuild.Stops phantomFile (.missingFactory "useIt" "/app/b.ts") :=
    ⟨by decide +kernel, by decide +kernel, fun _ _ h => by cases h⟩
  have hfirst : loneBuild.Finds first [⟨"useIt", some (.path "/app/a.ts"), 3⟩] :=
    ⟨by decide +kernel, by decide +kernel⟩
  have hthird : loneBuild.Finds third [⟨"useIt", some (.path "/app/c.ts"), 3⟩] :=
    ⟨by decide +kernel, by decide +kernel⟩
  obtain ⟨-, hfound, -, hfails, -⟩ := scan_in_order loneBuild [first, phantomFile, third]
  have hbefore : ∀ g ∈ [first], ∀ e, ¬loneBuild.Stops g e := by
    intro g hg e hg'
    rw [List.mem_singleton.mp hg] at hg'
    have hboth := hfirst.scanFile_eq
    rw [hg'.scanFile_eq] at hboth
    cases hboth
  have hscan := hfails [first] phantomFile [third] _ rfl hbefore hstops
  rw [List.flatMap_singleton, (hfound first).2 _ hfirst] at hscan
  refine ⟨hstops, hscan, ?_⟩
  rw [(hfound third).2 _ hthird]
  rfl

end BuildMacros.Build
