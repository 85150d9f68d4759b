import BuildMacros.Proofs.Registry.Interchange

/-! # A registry answers like a scan of its entries

    The tables of a sealed registry are filled entry by entry, and an entry that comes too
    late is left out of them. What they answer can be said without them. To find a function
    is to scan the list of entries for the first one that registers it (`answering`): among
    the entries that name their module by its path, and only then among those that name it
    by a pattern. `Scans` says so of every question at once, and sealing makes a registry
    that scans, unless a pattern does not compile (`ofEntries_scans`).

    What the tables hold after any number of entries is known from `parts_foldlM` and
    `Holds.foldlM`. What is left is to find the entry behind a function of a table.
-/

namespace BuildMacros

/-! ## Section 1: Which entry answers -/

namespace KeyedEntry

/-- The function that an entry registers. -/
def function (aliases : AliasTable) (e : KeyedEntry) : KeyedFunction :=
  ⟨e.calledName aliases, e.name, e.key? aliases, e.argumentLength⟩

/-- The entry names the module by its path, and its function is called by the name. -/
def isAtPath (aliases : AliasTable) (name key : String) (e : KeyedEntry) : Bool :=
  e.key? aliases == some key && e.calledName aliases == name

/-- The entry has the name and a pattern that matches the module. -/
def isAtPattern (name key : String) (e : KeyedEntry) : Bool :=
  match e.source with
  | some (.pattern text) => e.name == name && (Pattern.parse text).any (·.isMatch key)
  | _ => false

/-- The entry has the name and no source. -/
def isLoose (name : String) (e : KeyedEntry) : Bool := e.source.isNone && e.name == name

/-- The entry has a pattern that does not compile. -/
def isBroken (e : KeyedEntry) : Bool :=
  match e.source with
  | some (.pattern text) => (Pattern.parse text).isNone
  | _ => false

/-- The entry that answers for a name and a module: the first one with its path, or else the first
    one with a pattern. -/
def answering (aliases : AliasTable) (name key : String) (es : List KeyedEntry) :
    Option KeyedEntry :=
  (es.find? (isAtPath aliases name key)).or (es.find? (isAtPattern name key))

/-! ## Section 2: Entries and tables -/

section

variable {aliases : AliasTable} {e : KeyedEntry}

theorem placed?_eq : e.placed? aliases =
    (e.key? aliases).map fun key => ((e.calledName aliases, key), e.function aliases) := by
  cases hsource : e.source with
  | none => simp [placed?, key?, hsource]
  | some source =>
    cases source with
    | path source => simp [placed?, key?, function, calledName, hsource]
    | pattern text => simp [placed?, key?, hsource]

/-- An entry that names no module by its path registers its function under its own name. -/
theorem function_eq_looseFunction (hkey : e.key? aliases = none) :
    e.function aliases = KeyedRegistry.looseFunction e := by
  simp [function, calledName, hkey, KeyedRegistry.looseFunction]

theorem any_placed? (name key : String) :
    (e.placed? aliases).any (fun x => x.1 == (name, key)) = e.isAtPath aliases name key := by
  rw [placed?_eq, isAtPath]
  cases hkey : e.key? aliases with
  | none => rfl
  | some key' =>
    show (e.calledName aliases == name && key' == key) = _
    rw [Bool.and_comm]
    rfl

theorem any_patterned? (name key : String) :
    (e.patterned?).any (fun x => x.2.name == name && x.1.isMatch key) =
      e.isAtPattern name key := by
  cases hsource : e.source with
  | none => simp [patterned?, isAtPattern, hsource]
  | some source =>
    cases source with
    | path source => simp [patterned?, isAtPattern, hsource]
    | pattern text =>
      simp only [patterned?, isAtPattern, hsource]
      cases Pattern.parse text with
      | none => simp
      | some p => rfl

theorem any_loose? (name : String) :
    (e.loose?).any (fun x => x.1 == name) = e.isLoose name := by
  cases hsource : e.source with
  | none => simp [loose?, isLoose, hsource]
  | some source => simp [loose?, isLoose, hsource]

theorem fault?_eq : e.fault? =
    if e.isBroken then some (.config (.invalidPattern e.name)) else none := by
  cases hsource : e.source with
  | none => simp [fault?, isBroken, hsource]
  | some source => cases source <;> simp [fault?, isBroken, hsource]

theorem snd_of_placed? {k : String × String} {f : KeyedFunction}
    (h : e.placed? aliases = some (k, f)) : f = e.function aliases := by
  rw [placed?_eq] at h
  obtain ⟨key, -, hpair⟩ := Option.map_eq_some_iff.mp h
  cases hpair
  rfl

theorem snd_of_patterned? {p : Pattern} {f : KeyedFunction} (h : e.patterned? = some (p, f))
    (aliases : AliasTable) : f = e.function aliases := by
  rw [function_eq_looseFunction (key?_of_patterned? h).1]
  unfold patterned? at h
  split at h
  · obtain ⟨q, -, hpair⟩ := Option.map_eq_some_iff.mp h
    cases hpair
    rfl
  · cases h

theorem snd_of_loose? {name : String} {f : KeyedFunction} (h : e.loose? = some (name, f))
    (aliases : AliasTable) : f = e.function aliases := by
  rw [function_eq_looseFunction (key?_of_loose? h aliases).1]
  unfold loose? at h
  split at h
  · cases h
    rfl
  · cases h

end

end KeyedEntry

/-! ## Section 3: What a table answers -/

namespace KeyedRegistry

/-- A search through what entries put into a table finds the function of the first entry that put
    there what is searched for. -/
theorem find?_filterMap_eq {κ : Type} (aliases : AliasTable)
    {g : KeyedEntry → Option (κ × KeyedFunction)}
    (hg : ∀ e x, g e = some x → x.2 = e.function aliases) (p : κ × KeyedFunction → Bool)
    (es : List KeyedEntry) :
    ((es.filterMap g).find? p).map Prod.snd =
      (es.find? fun e => (g e).any p).map (KeyedEntry.function aliases) := by
  rw [List.find?_filterMap]
  cases hfind : es.find? fun e => (g e).any p with
  | none => rfl
  | some e =>
    have hany := List.find?_some (p := fun e => (g e).any p) hfind
    obtain ⟨x, hx, -⟩ := (Option.any_eq_true _ _).mp hany
    rw [Option.bind_some, hx, Option.map_some, hg e x hx, Option.map_some]

/-- The names of a registry ascend, so none is listed twice. -/
theorem pairwise_names (r : KeyedRegistry) : r.names.Pairwise (· < ·) := by
  have hnodup : r.names.Nodup := (List.mergeSort_perm _ _).nodup_iff.mpr (nodup_eraseDups _)
  have hle : r.names.Pairwise (· ≤ ·) := pairwise_le_mergeSort _
  refine (hle.and hnodup).imp fun {a b} h => ?_
  by_contra hlt
  exact h.2 (String.le_antisymm h.1 (String.not_lt.mp hlt))

/-! ## Section 4: Answers -/

/-- A registry answers every question like a scan of a list of entries. -/
structure Scans (aliases : AliasTable) (es : List KeyedEntry) (r : KeyedRegistry) : Prop where
  get? : ∀ name key, r.get? name key =
    (KeyedEntry.answering aliases name key es).map (KeyedEntry.function aliases)
  sourceless? : ∀ name, r.sourceless? name =
    (es.find? (KeyedEntry.isLoose name)).map (KeyedEntry.function aliases)
  isSource : ∀ key, r.isSource key = true ↔ ∃ e ∈ es, e.key? aliases = some key
  mem_names : ∀ name, name ∈ r.names ↔ ∃ e ∈ es, e.calledName aliases = name
  ascending : r.names.Pairwise (· < ·)

variable {aliases : AliasTable} {es : List KeyedEntry} {r : KeyedRegistry}

/-- A function is found by scanning for the entry that answers. -/
theorem get?_eq_answering (h : ofEntries aliases es = .ok r) (name key : String) :
    r.get? name key =
      (KeyedEntry.answering aliases name key es).map (KeyedEntry.function aliases) := by
  have hpath := find?_filterMap_eq aliases (g := KeyedEntry.placed? aliases)
    (fun e x hx => KeyedEntry.snd_of_placed? hx) (fun x => x.1 == (name, key)) es
  have hpattern := find?_filterMap_eq aliases (g := KeyedEntry.patterned?)
    (fun e x hx => KeyedEntry.snd_of_patterned? hx aliases)
    (fun x => x.2.name == name && x.1.isMatch key) es
  simp only [KeyedEntry.any_placed?] at hpath
  simp only [KeyedEntry.any_patterned?] at hpattern
  rw [get?_ofEntries h, Assoc.get?_eq_find?, hpath, hpattern, KeyedEntry.answering]
  cases es.find? (KeyedEntry.isAtPath aliases name key) with
  | none => rfl
  | some e => rfl

/-- A function without a source is found by scanning for its name. -/
theorem sourceless?_eq_find? (h : ofEntries aliases es = .ok r) (name : String) :
    r.sourceless? name =
      (es.find? (KeyedEntry.isLoose name)).map (KeyedEntry.function aliases) := by
  have hloose := find?_filterMap_eq aliases (g := KeyedEntry.loose?)
    (fun e x hx => KeyedEntry.snd_of_loose? hx aliases) (fun x => x.1 == name) es
  simp only [KeyedEntry.any_loose?] at hloose
  rw [KeyedRegistry.sourceless?, (holds_ofEntries h).sourceless, Assoc.get?_eq_find?, hloose]

theorem scans_ofEntries (h : ofEntries aliases es = .ok r) : Scans aliases es r where
  get? := get?_eq_answering h
  sourceless? := sourceless?_eq_find? h
  isSource := isSource_iff h
  mem_names := mem_names_iff h
  ascending := r.pairwise_names

/-- The first entry that is refused is the first one whose pattern does not compile. -/
theorem findSome?_fault?_eq_some_iff {f : Failure} :
    es.findSome? KeyedEntry.fault? = some f ↔
      ∃ e, es.find? KeyedEntry.isBroken = some e ∧ f = .config (.invalidPattern e.name) := by
  induction es with
  | nil => simp
  | cons e es ih =>
    rw [List.findSome?_cons, List.find?_cons, KeyedEntry.fault?_eq]
    by_cases hbroken : e.isBroken = true
    · simp [hbroken, eq_comm]
    · rw [Bool.not_eq_true] at hbroken
      simpa [hbroken] using ih

/-- **What sealing makes of a list of entries.** It fails exactly if the pattern of an entry does
    not compile, and names the first such entry. Otherwise it makes a registry, and every
    registry that it makes answers like a scan of the list. -/
theorem ofEntries_scans (aliases : AliasTable) (es : List KeyedEntry) :
    (∀ f, ofEntries aliases es = .error f ↔
      ∃ e, es.find? KeyedEntry.isBroken = some e ∧ f = .config (.invalidPattern e.name)) ∧
      ((∃ r, ofEntries aliases es = .ok r) ↔ ∀ e ∈ es, e.isBroken = false) ∧
      ∀ r, ofEntries aliases es = .ok r → Scans aliases es r := by
  have herror : ∀ f, ofEntries aliases es = .error f ↔
      ∃ e, es.find? KeyedEntry.isBroken = some e ∧ f = .config (.invalidPattern e.name) :=
    fun f => ofEntries_eq_error_iff.trans findSome?_fault?_eq_some_iff
  refine ⟨herror, ?_, fun r => scans_ofEntries⟩
  have hfind : es.find? KeyedEntry.isBroken = none ↔ ∀ e ∈ es, e.isBroken = false := by
    simp [List.find?_eq_none]
  rw [← hfind]
  constructor
  · rintro ⟨r, hr⟩
    cases hbroken : es.find? KeyedEntry.isBroken with
    | none => rfl
    | some e =>
      have hfails := (herror _).mpr ⟨e, hbroken, rfl⟩
      rw [hr] at hfails
      cases hfails
  · intro hnone
    cases hrun : ofEntries aliases es with
    | ok r => exact ⟨r, rfl⟩
    | error f =>
      obtain ⟨e, he, -⟩ := (herror f).mp hrun
      rw [hnone] at he
      cases he

/-- Two entries for one name and one file, a default export called by the name of the file before a
    function that has this name, and two entries that name no file. -/
def rivalEntries : List KeyedEntry :=
  [⟨"default", some (.path "#app/use-thing.ts"), 1⟩, ⟨"useThing", some (.path "/app/use-thing"), 2⟩,
    ⟨"useKey", none, 3⟩, ⟨"useKey", some (.pattern "^/app/"), 4⟩]

/-- They are sealed, the first of the rivals answers, and each of the others answers in its
    place. -/
theorem ofEntries_scans_rivals :
    ∃ r, ofEntries ⟨[("#app", "/app")]⟩ rivalEntries = .ok r ∧
      r.get? "useThing" "/app/use-thing" =
        some ⟨"useThing", "default", some "/app/use-thing", 1⟩ ∧
      r.get? "useKey" "/app/use-thing" = some ⟨"useKey", "useKey", none, 4⟩ ∧
      r.sourceless? "useKey" = some ⟨"useKey", "useKey", none, 3⟩ := by
  obtain ⟨-, hsealed, hscans⟩ := ofEntries_scans ⟨[("#app", "/app")]⟩ rivalEntries
  obtain ⟨r, hr⟩ := hsealed.mpr (by decide +kernel)
  have h := hscans r hr
  refine ⟨r, hr, ?_, ?_, ?_⟩
  · rw [h.get?]
    decide +kernel
  · rw [h.get?]
    decide +kernel
  · rw [h.sourceless?]
    decide +kernel

end KeyedRegistry

end BuildMacros
