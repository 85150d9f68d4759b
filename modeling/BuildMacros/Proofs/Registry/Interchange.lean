import BuildMacros.Proofs.Registry.Sealing
import Mathlib.Data.List.Basic

/-! # Which order of the entries counts

    Sealing keeps the first of several entries, so the order of the entries counts
    somewhere. It counts between entries that name one module by its path, and between
    entries that name none. Two lists that agree on each of these groups are
    `Interchangeable`: sealing both fails in the same way, or makes two registries that
    answer every question alike (`SameAnswers`).

    The questions about the parts of a registry that `parts_add` leaves open are settled
    first, in the same way: what one more entry adds, and what a list adds.
-/

namespace BuildMacros

/-! ## Section 1: What else an entry says -/

namespace KeyedEntry

/-- Comparison key of the module that an entry names by its path. -/
def key? (aliases : AliasTable) (e : KeyedEntry) : Option String :=
  match e.source with
  | some (.path source) => some (Path.stripExtension (aliases.resolve source))
  | _ => none

/-- The function that an entry without a source registers, with its name. -/
def loose? (e : KeyedEntry) : Option (String × KeyedFunction) :=
  match e.source with
  | none => some (e.name, KeyedRegistry.looseFunction e)
  | _ => none

/-- Stem of the file whose default export an entry is about. -/
def stem? (aliases : AliasTable) (e : KeyedEntry) : Option String :=
  match e.key? aliases with
  | some key => if e.name = "default" then some (Naming.fileStem key) else none
  | none => none

/-- What is wrong with an entry. -/
def fault? (e : KeyedEntry) : Option Failure :=
  match e.source with
  | some (.pattern text) =>
    if (Pattern.parse text).isNone then some (.config (.invalidPattern e.name)) else none
  | _ => none

/-- Name that the function of an entry is called by. -/
def calledName (aliases : AliasTable) (e : KeyedEntry) : String :=
  match e.key? aliases with
  | some key => KeyedRegistry.callName e.name key
  | none => e.name

variable {aliases : AliasTable} {e : KeyedEntry}

theorem key?_of_placed? {k : String × String} {f : KeyedFunction}
    (h : e.placed? aliases = some (k, f)) :
    e.key? aliases = some k.2 ∧ e.calledName aliases = k.1 := by
  unfold placed? at h
  split at h
  · next source hsource =>
    cases h
    simp [calledName, key?, hsource]
  · cases h

theorem exists_placed?_of_key? {key : String} (h : e.key? aliases = some key) :
    ∃ f, e.placed? aliases = some ((e.calledName aliases, key), f) := by
  unfold key? at h
  split at h
  · next source hsource =>
    cases h
    simp [calledName, key?, placed?, hsource]
  · cases h

theorem key?_of_patterned? {x : Pattern × KeyedFunction} (h : e.patterned? = some x) :
    e.key? aliases = none ∧ e.calledName aliases = x.2.name := by
  unfold patterned? at h
  split at h
  · next text hsource =>
    obtain ⟨p, -, rfl⟩ := Option.map_eq_some_iff.mp h
    simp [calledName, key?, hsource, KeyedRegistry.looseFunction]
  · cases h

theorem key?_of_loose? {x : String × KeyedFunction} (h : e.loose? = some x)
    (aliases : AliasTable) : e.key? aliases = none ∧ e.calledName aliases = x.1 := by
  unfold loose? at h
  split at h
  · next hsource =>
    cases h
    simp [calledName, key?, hsource]
  · cases h

theorem key?_of_fault? {f : Failure} (h : e.fault? = some f) : e.key? aliases = none := by
  unfold fault? at h
  split at h
  · next text hsource => simp [key?, hsource]
  · cases h

end KeyedEntry

/-! ## Section 2: Entries one after the other -/

namespace KeyedRegistry

variable {aliases : AliasTable}

/-- A registry holds the names without a source and the stems of a list of entries. -/
structure Holds (aliases : AliasTable) (r : KeyedRegistry) (es : List KeyedEntry) : Prop where
  sourceless : ∀ name, r.sourceless.get? name = Assoc.get? (es.filterMap KeyedEntry.loose?) name
  stems : r.defaultStems = es.filterMap (KeyedEntry.stem? aliases)

theorem Holds.add {r r' : KeyedRegistry} {es : List KeyedEntry} {e : KeyedEntry}
    (h : Holds aliases r es) (hadd : KeyedRegistry.add aliases r e = .ok r') :
    Holds aliases r' (es ++ [e]) := by
  unfold KeyedRegistry.add at hadd
  split at hadd
  · next source hsource =>
    cases hadd
    constructor
    · intro name
      simpa [addPath, KeyedEntry.loose?, hsource] using h.sourceless name
    · by_cases hname : e.name = "default" <;>
        simp [addPath, h.stems, KeyedEntry.stem?, KeyedEntry.key?, hsource, hname]
  · next text hsource =>
    split at hadd
    · cases hadd
      constructor
      · intro name
        simpa [KeyedEntry.loose?, hsource] using h.sourceless name
      · simpa [KeyedEntry.stem?, KeyedEntry.key?, hsource] using h.stems
    · cases hadd
  · next hsource =>
    cases hadd
    constructor
    · intro name
      show (insertNew r.sourceless e.name (looseFunction e)).get? name = _
      rw [get?_insertNew, Assoc.get?_append, h.sourceless, List.filterMap_append,
        Assoc.get?_append]
      simp [KeyedEntry.loose?, hsource]
    · simpa [KeyedEntry.stem?, KeyedEntry.key?, hsource] using h.stems

theorem Holds.foldlM {r r' : KeyedRegistry} {es more : List KeyedEntry} (h : Holds aliases r es)
    (hrun : more.foldlM (KeyedRegistry.add aliases) r = .ok r') :
    Holds aliases r' (es ++ more) := by
  induction more generalizing r es with
  | nil =>
    cases hrun
    simpa using h
  | cons e more ih =>
    rw [List.foldlM_cons] at hrun
    obtain ⟨r₁, hadd, hmore⟩ := exists_of_bind_eq_ok hrun
    have hrest := ih (h.add hadd) hmore
    rwa [List.append_assoc] at hrest

/-- What a sealed registry holds is what the list of its entries holds. -/
theorem holds_ofEntries {es : List KeyedEntry} {r : KeyedRegistry}
    (h : ofEntries aliases es = .ok r) : Holds aliases r es :=
  have hempty : Holds aliases empty [] := ⟨fun _ => rfl, rfl⟩
  hempty.foldlM h

/-- An entry is refused for its own fault, whatever the registry has already. -/
theorem add_of_fault {e : KeyedEntry} {f : Failure} (h : e.fault? = some f) (r : KeyedRegistry) :
    add aliases r e = .error f := by
  unfold KeyedEntry.fault? at h
  split at h
  · next text hsource =>
    split at h
    · next hnone =>
      cases h
      rw [Option.isNone_iff_eq_none] at hnone
      simp [add, hsource, hnone]
    · cases h
  · cases h

/-- An entry without a fault is taken. -/
theorem exists_add {e : KeyedEntry} (h : e.fault? = none) (aliases : AliasTable)
    (r : KeyedRegistry) :
    ∃ r', add aliases r e = .ok r' := by
  unfold add
  split
  · exact ⟨_, rfl⟩
  · next text hsource =>
    cases hparse : Pattern.parse text with
    | none => simp [KeyedEntry.fault?, hsource, hparse] at h
    | some p => exact ⟨_, rfl⟩
  · exact ⟨_, rfl⟩

/-- **Why sealing fails**: the first entry with a fault is reported. -/
theorem ofEntries_eq_error_iff {es : List KeyedEntry} {f : Failure} :
    ofEntries aliases es = .error f ↔ es.findSome? KeyedEntry.fault? = some f := by
  have hrun : ∀ r, es.foldlM (add aliases) r = .error f ↔
      es.findSome? KeyedEntry.fault? = some f := by
    induction es with
    | nil =>
      intro r
      constructor <;> intro h <;> cases h
    | cons e es ih =>
      intro r
      rw [List.foldlM_cons, List.findSome?_cons]
      cases hfault : e.fault? with
      | some f' => simp [add_of_fault hfault r, bind, Except.bind]
      | none =>
        obtain ⟨r', hr'⟩ := exists_add hfault aliases r
        rw [hr']
        exact ih r'
  exact hrun empty

/-! ## Section 3: Answers by the entries of one module -/

variable {es : List KeyedEntry} {r : KeyedRegistry}

/-- The entries that name a module by its path, or, without a key, those that name none. -/
def about (aliases : AliasTable) (key : Option String) (es : List KeyedEntry) : List KeyedEntry :=
  es.filter fun e => e.key? aliases == key

theorem mem_about {key : Option String} {e : KeyedEntry} :
    e ∈ about aliases key es ↔ e ∈ es ∧ e.key? aliases = key := by
  simp [about]

/-- What only entries with one key have is found among the entries with this key. -/
theorem filterMap_about {α : Type} {g : KeyedEntry → Option α} {key : Option String}
    (hg : ∀ e a, g e = some a → e.key? aliases = key) :
    es.filterMap g = (about aliases key es).filterMap g := by
  rw [about, List.filterMap_filter]
  refine List.filterMap_congr fun e _ => ?_
  by_cases hkey : e.key? aliases = key
  · simp [hkey]
  · -- an entry with another key has nothing
    have hnone : g e = none := by
      cases hge : g e with
      | none => rfl
      | some a => exact absurd (hg e a hge) hkey
    simp [hkey, hnone]

/-- A function of a module is found among the entries about the module. -/
theorem get?_placed_about (name key : String) :
    Assoc.get? (es.filterMap (KeyedEntry.placed? aliases)) (name, key) =
      Assoc.get? ((about aliases (some key) es).filterMap (KeyedEntry.placed? aliases))
        (name, key) := by
  induction es with
  | nil => rfl
  | cons e es ih =>
    by_cases hkey : e.key? aliases = some key
    · have habout : about aliases (some key) (e :: es) = e :: about aliases (some key) es := by
        simp [about, hkey]
      rw [habout]
      cases hplaced : e.placed? aliases with
      | none => simpa [hplaced] using ih
      | some x =>
        obtain ⟨k, f⟩ := x
        rw [List.filterMap_cons_some hplaced, List.filterMap_cons_some hplaced]
        simp only [Assoc.get?, List.lookup_cons] at ih ⊢
        rw [ih]
    · have habout : about aliases (some key) (e :: es) = about aliases (some key) es := by
        simp [about, hkey]
      rw [habout, ← ih]
      cases hplaced : e.placed? aliases with
      | none => rw [List.filterMap_cons_none hplaced]
      | some x =>
        obtain ⟨⟨name', key'⟩, f⟩ := x
        have hother : ((name, key) == (name', key')) = false := by
          have hne : key ≠ key' := by
            rintro rfl
            exact hkey (KeyedEntry.key?_of_placed? hplaced).1
          simp [hne]
        rw [List.filterMap_cons_some hplaced]
        simp only [Assoc.get?, List.lookup_cons, hother]

/-- A function stands under a name and a module exactly if an entry puts one there. -/
theorem exists_mem_byPath_iff (h : ofEntries aliases es = .ok r) (name key : String) :
    (∃ f, ((name, key), f) ∈ r.byPath) ↔
      ∃ e ∈ es, e.key? aliases = some key ∧ e.calledName aliases = name := by
  constructor
  · rintro ⟨f, hf⟩
    obtain ⟨f', hf'⟩ := Assoc.exists_get?_of_mem hf
    rw [byPath_ofEntries h] at hf'
    obtain ⟨e, he, hplaced⟩ := List.mem_filterMap.mp (Assoc.mem_of_get? hf')
    exact ⟨e, he, KeyedEntry.key?_of_placed? hplaced⟩
  · rintro ⟨e, he, hkey, rfl⟩
    obtain ⟨f, hplaced⟩ := KeyedEntry.exists_placed?_of_key? hkey
    obtain ⟨f', hf'⟩ := Assoc.exists_get?_of_mem (List.mem_filterMap.mpr ⟨e, he, hplaced⟩)
    rw [← byPath_ofEntries h] at hf'
    exact ⟨f', Assoc.mem_of_get? hf'⟩

/-- A module is a source exactly if an entry names it by its path. -/
theorem isSource_iff (h : ofEntries aliases es = .ok r) (key : String) :
    r.isSource key = true ↔ ∃ e ∈ es, e.key? aliases = some key := by
  rw [isSource, List.any_eq_true]
  constructor
  · rintro ⟨⟨⟨name, key'⟩, f⟩, hmem, hkey⟩
    have hkey : key' = key := by simpa using hkey
    subst hkey
    obtain ⟨e, he, hkey, -⟩ := (exists_mem_byPath_iff h name key').mp ⟨f, hmem⟩
    exact ⟨e, he, hkey⟩
  · rintro ⟨e, he, hkey⟩
    obtain ⟨f, hf⟩ := (exists_mem_byPath_iff h _ key).mpr ⟨e, he, hkey, rfl⟩
    exact ⟨_, hf, by simp⟩

/-- The names of a registry are those that the functions of its entries are called by. -/
theorem mem_names_iff (h : ofEntries aliases es = .ok r) (name : String) :
    name ∈ r.names ↔ ∃ e ∈ es, e.calledName aliases = name := by
  have hpatterns : r.byPattern = es.filterMap KeyedEntry.patterned? := (parts_foldlM h).2
  have hloose := (holds_ofEntries h).sourceless
  simp only [names, List.mem_mergeSort, List.mem_eraseDups, List.mem_append, List.mem_map,
    Assoc.keys]
  constructor
  · rintro ((⟨⟨⟨_, key⟩, f⟩, hmem, rfl⟩ | ⟨x, hmem, rfl⟩) | ⟨⟨_, f⟩, hmem, rfl⟩)
    · obtain ⟨e, he, -, hname⟩ := (exists_mem_byPath_iff h _ key).mp ⟨f, hmem⟩
      exact ⟨e, he, hname⟩
    · rw [hpatterns] at hmem
      obtain ⟨e, he, hpattern⟩ := List.mem_filterMap.mp hmem
      exact ⟨e, he, (KeyedEntry.key?_of_patterned? hpattern).2⟩
    · obtain ⟨f', hf'⟩ := Assoc.exists_get?_of_mem hmem
      rw [hloose] at hf'
      obtain ⟨e, he, hl⟩ := List.mem_filterMap.mp (Assoc.mem_of_get? hf')
      exact ⟨e, he, (KeyedEntry.key?_of_loose? hl aliases).2⟩
  · rintro ⟨e, he, rfl⟩
    cases hkey : e.key? aliases with
    | some key =>
      obtain ⟨f, hf⟩ := (exists_mem_byPath_iff h _ key).mpr ⟨e, he, hkey, rfl⟩
      exact .inl (.inl ⟨_, hf, rfl⟩)
    | none =>
      have hname : e.calledName aliases = e.name := by simp [KeyedEntry.calledName, hkey]
      rw [hname]
      cases hsource : e.source with
      | none =>
        have hl : e.loose? = some (e.name, looseFunction e) := by
          simp [KeyedEntry.loose?, hsource]
        obtain ⟨f, hf⟩ := Assoc.exists_get?_of_mem (List.mem_filterMap.mpr ⟨e, he, hl⟩)
        rw [← hloose] at hf
        exact .inr ⟨_, Assoc.mem_of_get? hf, rfl⟩
      | some source =>
        cases source with
        | path source => simp [KeyedEntry.key?, hsource] at hkey
        | pattern text =>
          -- sealing succeeded, so the pattern is one
          cases hparse : Pattern.parse text with
          | none =>
            have hfault : e.fault? = some (.config (.invalidPattern e.name)) := by
              simp [KeyedEntry.fault?, hsource, hparse]
            have hsome : (es.findSome? KeyedEntry.fault?).isSome = true :=
              List.findSome?_isSome_iff.mpr ⟨e, he, by rw [hfault]; rfl⟩
            obtain ⟨f, hf⟩ := Option.isSome_iff_exists.mp hsome
            rw [ofEntries_eq_error_iff.mpr hf] at h
            cases h
          | some p =>
            have hp : e.patterned? = some (p, looseFunction e) := by
              simp [KeyedEntry.patterned?, hsource, hparse]
            refine .inl (.inr ⟨(p, looseFunction e), ?_, rfl⟩)
            rw [hpatterns]
            exact List.mem_filterMap.mpr ⟨e, he, hp⟩

/-! ## Section 4: Lists that can stand for each other -/

/-- The lists have the same entries about each module in the same order, and the same entries
    without a path in the same order. -/
def Interchangeable (aliases : AliasTable) (es es' : List KeyedEntry) : Prop :=
  ∀ key, about aliases key es = about aliases key es'

/-- Two registries answer every question alike. -/
structure SameAnswers (r r' : KeyedRegistry) : Prop where
  get? : ∀ name source, r.get? name source = r'.get? name source
  sourceless? : ∀ name, r.sourceless? name = r'.sourceless? name
  isSource : ∀ source, r.isSource source = r'.isSource source
  names : r.names = r'.names
  isMentionedIn : ∀ code, r.isMentionedIn code = r'.isMentionedIn code
  isEmpty : r.isEmpty = r'.isEmpty

variable {es' : List KeyedEntry} {r' : KeyedRegistry}

theorem Interchangeable.mem_iff (h : Interchangeable aliases es es') (e : KeyedEntry) :
    e ∈ es ↔ e ∈ es' := by
  have habout : e ∈ about aliases (e.key? aliases) es ↔ e ∈ about aliases (e.key? aliases) es' := by
    rw [h]
  simpa [mem_about] using habout

/-- Without repetitions every member stands once. -/
theorem nodup_eraseDups (xs : List String) : xs.eraseDups.Nodup := by
  -- the tail is filtered before the recursion, so the induction is on the length
  induction hn : xs.length using Nat.strongRecOn generalizing xs with
  | _ n ih =>
    cases xs with
    | nil => simp
    | cons x xs =>
      rw [List.eraseDups_cons, List.nodup_cons]
      constructor
      · simp [List.mem_eraseDups]
      · refine ih _ ?_ _ rfl
        have hle := List.length_filter_le (fun y => !y == x) xs
        simp only [List.length_cons] at hn
        omega

/-- A sorted list of texts is in order. -/
theorem pairwise_le_mergeSort (xs : List String) :
    (xs.mergeSort fun a b => decide (a ≤ b)).Pairwise (· ≤ ·) := by
  have htrans : ∀ a b c : String, decide (a ≤ b) = true → decide (b ≤ c) = true →
      decide (a ≤ c) = true := by
    intro a b c hab hbc
    rw [decide_eq_true_eq] at *
    exact String.le_trans hab hbc
  have htotal : ∀ a b : String, (decide (a ≤ b) || decide (b ≤ a)) = true := by
    intro a b
    simpa using String.le_total a b
  exact (List.pairwise_mergeSort htrans htotal xs).imp fun hab => of_decide_eq_true hab

/-- A sorted list without repetitions is determined by its members. -/
theorem sorted_eq_of_mem_iff {xs ys : List String} (h : ∀ x, x ∈ xs ↔ x ∈ ys) :
    (xs.eraseDups.mergeSort fun a b => decide (a ≤ b)) =
      ys.eraseDups.mergeSort fun a b => decide (a ≤ b) := by
  have hperm : xs.eraseDups.Perm ys.eraseDups := by
    rw [List.perm_ext_iff_of_nodup (nodup_eraseDups xs) (nodup_eraseDups ys)]
    intro x
    rw [List.mem_eraseDups, List.mem_eraseDups, h]
  refine List.Perm.eq_of_pairwise (fun a b _ _ hab hba => String.le_antisymm hab hba)
    (pairwise_le_mergeSort _) (pairwise_le_mergeSort _) ?_
  exact (List.mergeSort_perm _ _).trans (hperm.trans (List.mergeSort_perm _ _).symm)

/-- **Sealing fails alike** for lists that can stand for each other. -/
theorem Interchangeable.error_iff (h : Interchangeable aliases es es') (f : Failure) :
    ofEntries aliases es = .error f ↔ ofEntries aliases es' = .error f := by
  have hfirst : ∀ xs : List KeyedEntry, xs.findSome? KeyedEntry.fault? =
      ((about aliases none xs).filterMap KeyedEntry.fault?).head? := by
    intro xs
    rw [← List.head?_filterMap, filterMap_about fun e f he => KeyedEntry.key?_of_fault? he]
  rw [ofEntries_eq_error_iff, ofEntries_eq_error_iff, hfirst, hfirst, h]

/-- The same functions are called by a name. -/
theorem Interchangeable.names_eq (h : Interchangeable aliases es es')
    (hr : ofEntries aliases es = .ok r) (hr' : ofEntries aliases es' = .ok r') :
    r.names = r'.names := by
  refine sorted_eq_of_mem_iff fun name => ?_
  have hmem := mem_names_iff hr name
  have hmem' := mem_names_iff hr' name
  simp only [names, List.mem_mergeSort, List.mem_eraseDups] at hmem hmem'
  rw [hmem, hmem']
  simp only [h.mem_iff]

/-- A member of one stem list is a member of the other. -/
theorem Interchangeable.mem_stems_iff (h : Interchangeable aliases es es')
    (hr : ofEntries aliases es = .ok r) (hr' : ofEntries aliases es' = .ok r') (stem : String) :
    stem ∈ r.defaultStems ↔ stem ∈ r'.defaultStems := by
  rw [(holds_ofEntries hr).stems, (holds_ofEntries hr').stems, List.mem_filterMap,
    List.mem_filterMap]
  simp only [h.mem_iff]

/-- **Registries of interchangeable lists** answer every question alike. -/
theorem Interchangeable.sameAnswers (h : Interchangeable aliases es es')
    (hr : ofEntries aliases es = .ok r) (hr' : ofEntries aliases es' = .ok r') :
    SameAnswers r r' := by
  have hnames := h.names_eq hr hr'
  constructor
  case get? =>
    intro name key
    have hpatterns : es.filterMap KeyedEntry.patterned? = es'.filterMap KeyedEntry.patterned? := by
      rw [filterMap_about fun e x he => KeyedEntry.key?_of_patterned? he |>.1, h none,
        ← filterMap_about fun e x he => KeyedEntry.key?_of_patterned? he |>.1]
    rw [get?_ofEntries hr, get?_ofEntries hr', hpatterns, get?_placed_about, h (some key),
      ← get?_placed_about]
  case sourceless? =>
    intro name
    rw [KeyedRegistry.sourceless?, KeyedRegistry.sourceless?, (holds_ofEntries hr).sourceless,
      (holds_ofEntries hr').sourceless,
      filterMap_about fun e x he => KeyedEntry.key?_of_loose? he aliases |>.1, h none,
      ← filterMap_about fun e x he => KeyedEntry.key?_of_loose? he aliases |>.1]
  case isSource =>
    intro key
    rw [Bool.eq_iff_iff, isSource_iff hr, isSource_iff hr']
    simp only [h.mem_iff]
  case names => exact hnames
  case isMentionedIn =>
    intro code
    rw [Bool.eq_iff_iff, KeyedRegistry.isMentionedIn, KeyedRegistry.isMentionedIn,
      List.any_eq_true, List.any_eq_true]
    simp only [List.mem_append, hnames, h.mem_stems_iff hr hr']
  case isEmpty => rw [KeyedRegistry.isEmpty, KeyedRegistry.isEmpty, hnames]

end KeyedRegistry

end BuildMacros
