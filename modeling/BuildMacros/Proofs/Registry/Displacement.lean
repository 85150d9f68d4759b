import BuildMacros.Proofs.Registry.Scanning

/-! # Which entries are lost

    A registry keeps one function for each name and file, and the entry that comes first
    keeps the place. Entries with one export name and one file claim one place, and then
    nothing is lost. But a default export is called by the name of its file, so it claims
    the place of an export that has this name (`callName_eq_iff`): the two are rivals, and
    the one that comes later is never found.

    The law is stated for one entry (`Displaced`: a rival stands before all entries about
    the same export) and for a list of entries: each is kept exactly if no two are rivals.
-/

namespace BuildMacros

/-! ## Section 1: Rivals -/

/-- Of two export names of a file one is its default export, and the other one is the name that the
    default export is called by. -/
def Rivals (key a b : String) : Prop :=
  (a = "default" ∧ b ≠ "default" ∧ b = Naming.defaultExportName key) ∨
    (b = "default" ∧ a ≠ "default" ∧ a = Naming.defaultExportName key)

instance (key a b : String) : Decidable (Rivals key a b) :=
  inferInstanceAs (Decidable (_ ∨ _))

theorem Rivals.symm {key a b : String} (h : Rivals key a b) : Rivals key b a := Or.symm h

theorem Rivals.ne {key a b : String} (h : Rivals key a b) : a ≠ b := by
  rintro rfl
  rcases h with ⟨hdefault, hother, -⟩ | ⟨hdefault, hother, -⟩
  · exact hother hdefault
  · exact hother hdefault

/-- **Who claims one place**: exports of a file are called by one name if they are the same export,
    or rivals. -/
theorem KeyedRegistry.callName_eq_iff (key a b : String) :
    callName a key = callName b key ↔ a = b ∨ Rivals key a b := by
  unfold callName Rivals
  by_cases ha : a = "default"
  · by_cases hb : b = "default"
    · simp [ha, hb]
    · have hne : "default" ≠ b := fun h => hb h.symm
      simp [ha, hb, hne, eq_comm]
  · by_cases hb : b = "default"
    · simp [ha, hb]
    · simp [ha, hb]

namespace KeyedEntry

variable {aliases : AliasTable}

/-- The entry is about an export of a file. -/
def IsAbout (aliases : AliasTable) (key name : String) (e : KeyedEntry) : Prop :=
  e.key? aliases = some key ∧ e.name = name

/-- A rival of an export stands before all entries about the export. -/
def Displaced (aliases : AliasTable) (es : List KeyedEntry) (key name : String) : Prop :=
  ∃ before rival after, es = before ++ rival :: after ∧ rival.key? aliases = some key ∧
    Rivals key rival.name name ∧ ∀ e ∈ before, ¬e.IsAbout aliases key name

theorem calledName_of_key? {e : KeyedEntry} {key : String} (h : e.key? aliases = some key) :
    e.calledName aliases = KeyedRegistry.callName e.name key := by
  rw [calledName, h]

/-- An entry claims the place of an export if it is about the export, or a rival of it. -/
theorem isAtPath_iff {e : KeyedEntry} {key name : String} :
    e.isAtPath aliases (KeyedRegistry.callName name key) key = true ↔
      e.key? aliases = some key ∧ (e.name = name ∨ Rivals key e.name name) := by
  rw [isAtPath, Bool.and_eq_true, beq_iff_eq, beq_iff_eq]
  constructor
  · intro h
    obtain ⟨hkey, hname⟩ := h
    rw [calledName_of_key? hkey] at hname
    exact ⟨hkey, (KeyedRegistry.callName_eq_iff key e.name name).mp hname⟩
  · intro h
    obtain ⟨hkey, hname⟩ := h
    rw [calledName_of_key? hkey]
    exact ⟨hkey, (KeyedRegistry.callName_eq_iff key e.name name).mpr hname⟩

end KeyedEntry

/-! ## Section 2: The first claim -/

namespace KeyedRegistry

variable {aliases : AliasTable} {es : List KeyedEntry} {r : KeyedRegistry}

/-- **Who answers for an export**: the first entry that is about the export or a rival of it. -/
theorem exists_first_claim (h : ofEntries aliases es = .ok r) {e : KeyedEntry} (he : e ∈ es)
    {key : String} (hkey : e.key? aliases = some key) :
    ∃ first, es.find? (KeyedEntry.isAtPath aliases (callName e.name key) key) = some first ∧
      first.key? aliases = some key ∧ (first.name = e.name ∨ Rivals key first.name e.name) ∧
      r.get? (e.calledName aliases) key = some (first.function aliases) := by
  have hclaims : e.isAtPath aliases (callName e.name key) key = true :=
    KeyedEntry.isAtPath_iff.mpr ⟨hkey, .inl rfl⟩
  cases hfirst : es.find? (KeyedEntry.isAtPath aliases (callName e.name key) key) with
  | none =>
    have hnone := List.find?_eq_none.mp hfirst e he
    exact absurd hclaims hnone
  | some first =>
    obtain ⟨hfile, hname⟩ := KeyedEntry.isAtPath_iff.mp (List.find?_some hfirst)
    refine ⟨first, rfl, hfile, hname, ?_⟩
    rw [KeyedEntry.calledName_of_key? hkey, get?_eq_answering h, KeyedEntry.answering, hfirst]
    rfl

/-- An export is displaced if the first claim to its place is about another export. -/
theorem displaced_iff {key name : String} {first : KeyedEntry}
    (hfirst : es.find? (KeyedEntry.isAtPath aliases (callName name key) key) = some first) :
    KeyedEntry.Displaced aliases es key name ↔ first.name ≠ name := by
  have hclaim := KeyedEntry.isAtPath_iff.mp (List.find?_some hfirst)
  constructor
  · intro ⟨before, rival, after, hes, hfile, hrival, hbefore⟩ hname
    rw [hes, List.find?_append] at hfirst
    cases hearlier : before.find? (KeyedEntry.isAtPath aliases (callName name key) key) with
    | some d =>
      -- the first claim stands before the rival, where no entry is about the export
      rw [hearlier, Option.some_or, Option.some.injEq] at hfirst
      subst hfirst
      exact hbefore d (List.mem_of_find?_eq_some hearlier) ⟨hclaim.1, hname⟩
    | none =>
      have hclaims : rival.isAtPath aliases (callName name key) key = true :=
        KeyedEntry.isAtPath_iff.mpr ⟨hfile, .inr hrival⟩
      rw [hearlier, Option.none_or, List.find?_cons_of_pos hclaims, Option.some.injEq] at hfirst
      subst hfirst
      exact hrival.ne hname
  · intro hname
    obtain ⟨-, before, after, hes, hbefore⟩ := List.find?_eq_some_iff_append.mp hfirst
    refine ⟨before, first, after, hes, hclaim.1, hclaim.2.resolve_left hname, ?_⟩
    intro d hd ⟨hfile, hd'⟩
    have hclaims : d.isAtPath aliases (callName name key) key = true :=
      KeyedEntry.isAtPath_iff.mpr ⟨hfile, .inl hd'⟩
    simpa [hclaims] using hbefore d hd

/-! ## Section 3: What is kept -/

/-- The registry finds the export that an entry is about under the name that it is called by. -/
def Keeps (aliases : AliasTable) (r : KeyedRegistry) (e : KeyedEntry) : Prop :=
  ∀ key, e.key? aliases = some key →
    ∃ f, r.get? (e.calledName aliases) key = some f ∧ f.exportName = e.name ∧ f.source = some key

/-- **Which entries are lost.** A registry answers for the place of every entry that names its file.
    It answers with the export that the entry is about, unless the export is displaced by a rival;
    then it answers with the rival. So all entries are kept if no two of them are rivals in one
    file, and otherwise some entry is lost. Apart from rivals, two entries claim one place only if
    they are about the same export of the same file. -/
theorem keeps_iff (h : ofEntries aliases es = .ok r) :
    (∀ e ∈ es, ∀ key, e.key? aliases = some key →
      ∃ f, r.get? (e.calledName aliases) key = some f ∧ f.source = some key ∧
        (f.exportName = e.name ↔ ¬KeyedEntry.Displaced aliases es key e.name) ∧
        (f.exportName = e.name ∨ Rivals key f.exportName e.name)) ∧
      ((∀ e ∈ es, Keeps aliases r e) ↔
        ∀ a ∈ es, ∀ b ∈ es, ∀ key, a.key? aliases = some key → b.key? aliases = some key →
          ¬Rivals key a.name b.name) ∧
      ∀ a ∈ es, ∀ b ∈ es, ∀ key, a.key? aliases = some key → b.key? aliases = some key →
        (a.calledName aliases = b.calledName aliases ↔
          a.name = b.name ∨ Rivals key a.name b.name) := by
  refine ⟨?_, ⟨?_, ?_⟩, ?_⟩
  · intro e he key hkey
    obtain ⟨first, hfirst, hfile, hname, hget⟩ := exists_first_claim h he hkey
    refine ⟨first.function aliases, hget, hfile, ?_, hname⟩
    rw [displaced_iff hfirst, not_not]
    rfl
  · -- two rivals would both be found in one place
    intro hkeeps a ha b hb key hakey hbkey hrivals
    obtain ⟨f, hf, hfa, -⟩ := hkeeps a ha key hakey
    obtain ⟨g, hg, hgb, -⟩ := hkeeps b hb key hbkey
    have hplace : a.calledName aliases = b.calledName aliases := by
      rw [KeyedEntry.calledName_of_key? hakey, KeyedEntry.calledName_of_key? hbkey]
      exact (callName_eq_iff key a.name b.name).mpr (.inr hrivals)
    rw [hplace, hg, Option.some.injEq] at hf
    subst hf
    exact hrivals.ne (hfa.symm.trans hgb)
  · intro hnone e he key hkey
    obtain ⟨first, hfirst, hfile, hname, hget⟩ := exists_first_claim h he hkey
    have hmem : first ∈ es := List.mem_of_find?_eq_some hfirst
    have hsame := hname.resolve_right (hnone first hmem e he key hfile hkey)
    exact ⟨first.function aliases, hget, hsame, hfile⟩
  · intro a ha b hb key hakey hbkey
    rw [KeyedEntry.calledName_of_key? hakey, KeyedEntry.calledName_of_key? hbkey]
    exact callName_eq_iff key a.name b.name

/-- The default export of a file, twice under different spellings of the file, and an export that
    is called like the file. -/
def crowdedEntries : List KeyedEntry :=
  [⟨"default", some (.path "/app/composables/use-thing.ts"), 1⟩,
    ⟨"useThing", some (.path "/app/composables/use-thing.ts"), 2⟩,
    ⟨"default", some (.path "/app/composables/use-thing"), 3⟩]

/-- They are sealed, and the second one is displaced by the first one. -/
theorem keeps_iff_crowded :
    ∃ r, ofEntries ⟨[]⟩ crowdedEntries = .ok r ∧
      KeyedEntry.Displaced ⟨[]⟩ crowdedEntries "/app/composables/use-thing" "useThing" ∧
      ¬∀ e ∈ crowdedEntries, Keeps ⟨[]⟩ r e := by
  obtain ⟨-, hsealed, -⟩ := ofEntries_scans ⟨[]⟩ crowdedEntries
  obtain ⟨r, hr⟩ := hsealed.mpr (by decide +kernel)
  obtain ⟨-, hkeeps, -⟩ := keeps_iff hr
  have hrivals : Rivals "/app/composables/use-thing" "default" "useThing" := by decide +kernel
  refine ⟨r, hr, ?_, ?_⟩
  · refine ⟨[], crowdedEntries[0], crowdedEntries.tail, rfl, by decide +kernel, hrivals, ?_⟩
    intro e he
    cases he
  · rw [hkeeps]
    intro hnone
    refine hnone crowdedEntries[0] ?_ crowdedEntries[1] ?_ _ ?_ ?_ hrivals
    all_goals decide +kernel

/-- **A registered function that is lost**: the registry has an entry for the function, and answers
    for it with the default export of its file. -/
theorem named_export_lost :
    ∃ e ∈ crowdedEntries, e.key? ⟨[]⟩ = some "/app/composables/use-thing" ∧
      e.name = "useThing" ∧
      (ofEntries ⟨[]⟩ crowdedEntries).toOption.map (fun r =>
        (r.get? (e.calledName ⟨[]⟩) "/app/composables/use-thing").map
          KeyedFunction.exportName) = some (some "default") := by
  refine ⟨crowdedEntries[1], by decide, ?_⟩
  decide +kernel

end KeyedRegistry

end BuildMacros
