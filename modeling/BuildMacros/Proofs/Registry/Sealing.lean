import BuildMacros.Proofs.Assoc
import BuildMacros.Registry.Keyed

/-! # What a sealed registry answers

    Sealing adds the entries one after the other, and what is there already stays.
    So a registry answers like a search through the entries in their order: among
    those that name their module by its path first (`placed?`), then among those that
    name it by a pattern (`patterned?`). One step adds at most one function to either
    part (`parts_add`), and the answers of a whole list follow by induction.
-/

namespace BuildMacros

/-! ## Section 1: What an entry registers -/

namespace KeyedEntry

/-- The function that an entry with a path registers, with the name and the comparison key that it
    is registered under. -/
def placed? (aliases : AliasTable) (e : KeyedEntry) : Option ((String × String) × KeyedFunction) :=
  match e.source with
  | some (.path source) =>
    let key := Path.stripExtension (aliases.resolve source)
    let name := KeyedRegistry.callName e.name key
    some ((name, key), ⟨name, e.name, some key, e.argumentLength⟩)
  | _ => none

/-- The function that an entry with a pattern registers, with the pattern. -/
def patterned? (e : KeyedEntry) : Option (Pattern × KeyedFunction) :=
  match e.source with
  | some (.pattern text) => (Pattern.parse text).map (·, KeyedRegistry.looseFunction e)
  | _ => none

/-- The entry is about the module with the comparison key. -/
def concerns (aliases : AliasTable) (e : KeyedEntry) (key : String) : Bool :=
  match e.source with
  | some (.path source) => Path.stripExtension (aliases.resolve source) == key
  | some (.pattern text) => (Pattern.parse text).any (·.isMatch key)
  | none => false

theorem eq_of_placed? {aliases : AliasTable} {e : KeyedEntry} {k : String × String}
    {f : KeyedFunction} (h : e.placed? aliases = some (k, f)) :
    e.concerns aliases k.2 = true ∧ f.name = k.1 ∧ f.exportName = e.name ∧
      f.argumentLength = e.argumentLength := by
  unfold placed? at h
  split at h
  · next source hsource =>
    cases h
    refine ⟨?_, rfl, rfl, rfl⟩
    simp only [concerns, hsource, beq_self_eq_true]
  · cases h

theorem eq_of_patterned? {e : KeyedEntry} {p : Pattern} {f : KeyedFunction}
    (h : e.patterned? = some (p, f)) (aliases : AliasTable) :
    (∀ key, p.isMatch key = true → e.concerns aliases key = true) ∧ f.exportName = e.name := by
  unfold patterned? at h
  split at h
  · next text hsource =>
    obtain ⟨q, hparse, hpair⟩ := Option.map_eq_some_iff.mp h
    cases hpair
    refine ⟨fun key hmatch => ?_, rfl⟩
    simp only [concerns, hsource, hparse, Option.any_some, hmatch]
  · cases h

end KeyedEntry

/-! ## Section 2: The first value counts -/

namespace KeyedRegistry

/-- Storing a value that must be new is storing it behind all others. -/
theorem get?_insertNew {α β : Type} [BEq α] [LawfulBEq α] (m : Assoc α β) (k k' : α) (v : β) :
    (insertNew m k v).get? k' = Assoc.get? (m ++ [(k, v)]) k' := by
  rw [Assoc.get?_append]
  by_cases hk : k' = k
  · subst hk
    have hlast : Assoc.get? [(k', v)] k' = some v := by simp [Assoc.get?]
    rw [hlast]
    unfold insertNew
    split
    · next hhas => rw [Option.or_of_isSome hhas]
    · next hhas =>
      have hnone : m.get? k' = none := by simpa [Assoc.has] using hhas
      rw [Assoc.get?_insert_self, hnone, Option.none_or]
  · have hother : Assoc.get? [(k, v)] k' = none := by
      have hne : (k' == k) = false := beq_false_of_ne hk
      simp only [Assoc.get?, List.lookup_cons, hne, List.lookup_nil]
    rw [hother, Option.or_none]
    unfold insertNew
    split
    · rfl
    · rw [Assoc.get?_insert_of_ne m v hk]

/-! ## Section 3: Entries one after the other -/

/-- What one more entry adds to a registry. -/
theorem parts_add {aliases : AliasTable} {r r' : KeyedRegistry} {e : KeyedEntry}
    (h : add aliases r e = .ok r') :
    (∀ k, r'.byPath.get? k = Assoc.get? (r.byPath ++ (e.placed? aliases).toList) k) ∧
      r'.byPattern = r.byPattern ++ e.patterned?.toList := by
  unfold add at h
  split at h
  · next source hsource =>
    cases h
    have hpattern : e.patterned? = none := by simp only [KeyedEntry.patterned?, hsource]
    rw [hpattern]
    refine ⟨fun k => ?_, (List.append_nil _).symm⟩
    simp only [KeyedEntry.placed?, hsource, Option.toList_some]
    exact get?_insertNew _ _ _ _
  · next text hsource =>
    have hplaced : e.placed? aliases = none := by simp only [KeyedEntry.placed?, hsource]
    rw [hplaced]
    split at h
    · next p hparse =>
      cases h
      have hpattern : e.patterned? = some (p, looseFunction e) := by
        simp only [KeyedEntry.patterned?, hsource, hparse, Option.map_some]
      rw [hpattern]
      exact ⟨fun k => by rw [Option.toList_none, List.append_nil], rfl⟩
    · cases h
  · next hsource =>
    cases h
    have hplaced : e.placed? aliases = none := by simp only [KeyedEntry.placed?, hsource]
    have hpattern : e.patterned? = none := by simp only [KeyedEntry.patterned?, hsource]
    rw [hplaced, hpattern]
    exact ⟨fun k => by rw [Option.toList_none, List.append_nil], (List.append_nil _).symm⟩

/-- What a list of entries adds to a registry. -/
theorem parts_foldlM {aliases : AliasTable} {es : List KeyedEntry} {r r' : KeyedRegistry}
    (h : es.foldlM (add aliases) r = .ok r') :
    (∀ k, r'.byPath.get? k =
        Assoc.get? (r.byPath ++ es.filterMap (KeyedEntry.placed? aliases)) k) ∧
      r'.byPattern = r.byPattern ++ es.filterMap KeyedEntry.patterned? := by
  induction es generalizing r with
  | nil =>
    cases h
    simp
  | cons e es ih =>
    rw [List.foldlM_cons] at h
    obtain ⟨r₁, hadd, hrest⟩ := exists_of_bind_eq_ok h
    obtain ⟨hpath, hpattern⟩ := parts_add hadd
    obtain ⟨hpaths, hpatterns⟩ := ih hrest
    have hmap : ∀ {γ : Type} (g : KeyedEntry → Option γ),
        (e :: es).filterMap g = (g e).toList ++ es.filterMap g := fun g => by
      cases hg : g e <;> simp [hg]
    constructor
    · intro k
      rw [hpaths, Assoc.get?_append, hpath, hmap, ← List.append_assoc, ← Assoc.get?_append]
    · rw [hpatterns, hpattern, hmap, List.append_assoc]

/-! ## Section 4: Answers -/

variable {aliases : AliasTable} {es : List KeyedEntry} {r : KeyedRegistry}

/-- Functions of modules: of several entries for one name and one module the first counts. -/
theorem byPath_ofEntries (h : ofEntries aliases es = .ok r) (name key : String) :
    r.byPath.get? (name, key) =
      Assoc.get? (es.filterMap (KeyedEntry.placed? aliases)) (name, key) :=
  (parts_foldlM h).1 (name, key)

/-- **What a registry answers**: the function of the first entry for the name and the module, or
    else the one of the first entry for the name whose pattern matches the module. -/
theorem get?_ofEntries (h : ofEntries aliases es = .ok r) (name key : String) :
    r.get? name key =
      (Assoc.get? (es.filterMap (KeyedEntry.placed? aliases)) (name, key)).or
        (((es.filterMap KeyedEntry.patterned?).find? fun e =>
          e.2.name == name && e.1.isMatch key).map Prod.snd) := by
  have hpattern : r.byPattern = es.filterMap KeyedEntry.patterned? := (parts_foldlM h).2
  rw [get?, byPath_ofEntries h, hpattern]
  cases Assoc.get? (es.filterMap (KeyedEntry.placed? aliases)) (name, key) <;> rfl

/-- Behind every answer stands an entry for the module. -/
theorem exists_entry_of_get? (h : ofEntries aliases es = .ok r) {name key : String}
    {f : KeyedFunction} (hf : r.get? name key = some f) :
    ∃ e ∈ es, e.concerns aliases key = true ∧ e.name = f.exportName := by
  rw [get?_ofEntries h, Option.or_eq_some_iff] at hf
  rcases hf with hpath | ⟨-, hpattern⟩
  · obtain ⟨e, he, hplaced⟩ := List.mem_filterMap.mp (Assoc.mem_of_get? hpath)
    obtain ⟨hconcerns, -, hname, -⟩ := KeyedEntry.eq_of_placed? hplaced
    exact ⟨e, he, hconcerns, hname.symm⟩
  · obtain ⟨⟨p, g⟩, hfind, rfl⟩ := Option.map_eq_some_iff.mp hpattern
    obtain ⟨e, he, hpatterned⟩ := List.mem_filterMap.mp (List.mem_of_find?_eq_some hfind)
    obtain ⟨hconcerns, hname⟩ := KeyedEntry.eq_of_patterned? hpatterned aliases
    have hmatch := List.find?_some hfind
    rw [Bool.and_eq_true] at hmatch
    exact ⟨e, he, hconcerns key hmatch.2, hname.symm⟩

/-- A function that is found for a name makes the name one that texts are searched for. -/
theorem mem_names_of_get? {name key : String} {f : KeyedFunction} (h : r.get? name key = some f) :
    name ∈ r.names := by
  have hname : name ∈ r.byPath.map (·.1.1) ∨ name ∈ r.byPattern.map (·.2.name) := by
    unfold get? at h
    split at h
    · next g hpath => exact .inl (List.mem_map.mpr ⟨_, Assoc.mem_of_get? hpath, rfl⟩)
    · obtain ⟨e, hfind, -⟩ := Option.map_eq_some_iff.mp h
      have hmatch := List.find?_some hfind
      rw [Bool.and_eq_true, beq_iff_eq] at hmatch
      exact .inr (List.mem_map.mpr ⟨e, List.mem_of_find?_eq_some hfind, hmatch.1⟩)
  rw [names, List.mem_mergeSort, List.mem_eraseDups, List.mem_append, List.mem_append]
  exact .inl hname

end KeyedRegistry

end BuildMacros
