import BuildMacros.Config.Encode
import BuildMacros.Proofs.Assoc
import BuildMacros.Proofs.Json.Reading
import Mathlib.Data.List.Forall2

/-! # Configurations survive their text

    A reader of values takes back what is written for a value (`Inverts`). This is
    shown once for each way to build readers: texts, numbers, lists, optional values,
    maps, words, and structures, which need that every field is written under its own
    name with a value that its check accepts. The structures of a configuration are
    these, put together.

    The main statement is about texts: a configuration that is written down and read
    again is the same configuration.
-/

namespace BuildMacros

namespace Dictionary

/-- A new key is stored behind all others. -/
theorem entries_insert {d : Dictionary} {k : String} (hk : k ∉ d.entries.keys) (v : String) :
    (d.insert k v).entries = d.entries ++ [(k, v)] := Assoc.insert_of_not_mem hk v

/-- **A dictionary is made of its entries.** -/
theorem ofList_entries (d : Dictionary) : ofList d.entries = d := by
  have hfold : ∀ (entries : List (String × String)) (start : Dictionary),
      (start.entries ++ entries : Assoc String String).keys.Nodup →
      (entries.foldl (fun d e => d.insert e.1 e.2) start).entries = start.entries ++ entries := by
    intro entries
    induction entries with
    | nil =>
      intro start _
      simp
    | cons e entries ih =>
      intro start hdistinct
      have hfresh : e.1 ∉ start.entries.keys := by
        rw [Assoc.keys, List.map_append, List.map_cons] at hdistinct
        intro hmem
        exact (List.nodup_append.mp hdistinct).2.2 e.1 hmem e.1 List.mem_cons_self rfl
      have hstart := entries_insert hfresh e.2
      rw [List.foldl_cons, ih (start.insert e.1 e.2), hstart, List.append_assoc,
        List.singleton_append]
      rw [hstart, List.append_assoc, List.singleton_append]
      exact hdistinct
  obtain ⟨entries, hdistinct⟩ := d
  have hentries := hfold entries empty hdistinct
  rw [Dictionary.mk.injEq]
  exact hentries

end Dictionary

namespace Config

/-! ## Section 1: Values -/

/-- What is written for a value is read as the value. -/
def Inverts {α : Type} (read : Reader α) (write : α → Json) : Prop := ∀ a, read (write a) = .ok a

theorem inverts_text : Inverts text .string := fun _ => rfl

theorem inverts_boolean : Inverts boolean .bool := fun _ => rfl

theorem inverts_size : Inverts size fun n => .nat n.toNat := by
  intro n
  have hlt : Int.ofNat n.toNat < Int.ofNat UInt64.size := Int.ofNat_lt.mpr n.toNat_lt
  have hrange : (decide (0 ≤ Int.ofNat n.toNat) &&
      decide (Int.ofNat n.toNat < Int.ofNat UInt64.size)) = true := by
    simp only [Int.ofNat_eq_natCast, Int.natCast_nonneg, decide_true, Bool.true_and,
      decide_eq_true_eq]
    exact hlt
  have hvalue : UInt64.ofNat (Int.ofNat n.toNat).toNat = n := by
    rw [Int.ofNat_eq_natCast, Int.toNat_natCast, UInt64.ofNat_toNat]
  show size (.int (Int.ofNat n.toNat)) = .ok n
  rw [size, if_pos hrange, hvalue]

theorem inverts_signed32 : Inverts signed32 fun n => .int n.toInt := by
  intro n
  -- an integer of 32 bits lies between the bounds that the reader asks for
  have hrange : (decide (Int32.minValue.toInt ≤ n.toInt) &&
      decide (n.toInt ≤ Int32.maxValue.toInt)) = true := by
    rw [Bool.and_eq_true, decide_eq_true_eq, decide_eq_true_eq]
    exact ⟨n.minValue_le_toInt, n.toInt_le⟩
  rw [signed32, if_pos hrange, Int32.ofInt_toInt]

variable {α : Type} {read : Reader α} {write : α → Json}

theorem Inverts.optional (h : Inverts read write) (hnull : ∀ a, write a ≠ .null) :
    Inverts (optional read) (.ofOption write) := by
  intro o
  cases o with
  | none => rfl
  | some a =>
    show Config.optional read (write a) = .ok (some a)
    unfold Config.optional
    split
    -- what is written for a value must not look like an absent one
    · next heq => exact absurd heq (hnull a)
    · rw [h a]
      rfl

theorem Inverts.list (h : Inverts read write) : Inverts (list read) (.ofList write) := by
  intro xs
  show (xs.map write).mapM read = .ok xs
  induction xs with
  | nil => rfl
  | cons x xs ih =>
    rw [List.map_cons, List.mapM_cons, h x, ih]
    rfl

theorem inverts_dictionary : Inverts dictionary Dictionary.encode := by
  intro d
  have hentries : ∀ entries : List (String × String),
      (entries.map fun e => (e.1, Json.string e.2)).mapM (fun f => do
        let v ← text f.2
        return (f.1, v)) = Except.ok (ε := ConfigFault) entries := by
    intro entries
    induction entries with
    | nil => rfl
    | cons e entries ih =>
      rw [List.map_cons, List.mapM_cons, ih]
      rfl
  show (do
    let entries ← (d.entries.map fun e => (e.1, Json.string e.2)).mapM _
    return Dictionary.ofList entries) = Except.ok d
  rw [hentries]
  exact congrArg Except.ok d.ofList_entries

/-- Words are read as what they stand for. -/
theorem inverts_oneOf {words : List (String × α)} {word : α → String}
    (h : ∀ a, words.lookup (word a) = some a) :
    Inverts (oneOf words) fun a => .string (word a) := by
  intro a
  show Config.word words (word a) = .ok a
  rw [Config.word, h a]

/-! ## Section 2: Structures -/

/-- A field is written under its name, with a value that its check accepts. -/
def IsWritten (f : Field) (written : String × Json) : Prop :=
  written.1 = f.name ∧ f.check written.2 = .ok ()

theorem isWritten_field (h : Inverts read write) (name : String) (a : α) :
    IsWritten (field name read) (name, write a) := by
  refine ⟨rfl, ?_⟩
  show (read (write a)).map _ = _
  rw [h a]
  rfl

/-- Fields that are all written once pass the checks of their structure. -/
theorem checkFields_eq_ok {shape : List Field} (hdistinct : (shape.map Field.name).Nodup)
    {fields : List (String × Json)} (h : List.Forall₂ IsWritten shape fields) :
    checkFields shape [] fields = .ok () := by
  -- the fields that are still to be checked are those of the rest of the shape
  have hrest : ∀ (done todo : List Field) (seen : List String), done ++ todo = shape →
      (∀ name ∈ seen, name ∈ done.map Field.name) →
      ∀ fields, List.Forall₂ IsWritten todo fields → checkFields shape seen fields = .ok () := by
    intro done todo seen hshape hseen fields hfields
    induction hfields generalizing done seen with
    | nil => rfl
    | @cons f written todo fields hwritten hfields ih =>
      obtain ⟨name, value⟩ := written
      obtain ⟨rfl, hcheck⟩ := hwritten
      have hfresh : ∀ g ∈ done, g.name ≠ f.name := by
        rw [← hshape, List.map_append, List.map_cons] at hdistinct
        intro g hg heq
        exact (List.nodup_append.mp hdistinct).2.2 g.name (List.mem_map_of_mem hg) f.name
          List.mem_cons_self heq
      have hfound : shape.find? (·.name == f.name) = some f := by
        rw [← hshape, List.find?_append, List.find?_eq_none.mpr (by simpa using hfresh),
          Option.none_or, List.find?_cons_of_pos (by simp)]
      have hunseen : seen.contains f.name = false := by
        rw [Bool.eq_false_iff, Ne, List.contains_iff_mem]
        intro hmem
        obtain ⟨g, hg, hname⟩ := List.mem_map.mp (hseen _ hmem)
        exact hfresh g hg hname
      have hmore := ih (done ++ [f]) (f.name :: seen) (by rw [List.append_assoc]; exact hshape) (by
        rw [List.map_append, List.forall_mem_cons]
        exact ⟨List.mem_append_right _ List.mem_cons_self, fun name hname =>
          List.mem_append_left _ (hseen name hname)⟩)
      simp only [checkFields, hfound, hunseen, hcheck]
      exact hmore
  exact hrest [] shape [] rfl (fun _ h => absurd h List.not_mem_nil) fields h

/-- **A structure is read from its fields**, when each of them is written and the value can be put
    together. -/
theorem structured_object {name : String} {shape : List Field} {build : Fields → Result α}
    {fields : List (String × Json)} {a : α} (hdistinct : (shape.map Field.name).Nodup)
    (hfields : List.Forall₂ IsWritten shape fields)
    (hbuild : build ⟨fields, .missingField⟩ = .ok a) :
    structured name shape build (.object fields) = .ok a := by
  have hread : readFields name shape (.object fields) = .ok (⟨fields, .missingField⟩, .ok ()) := by
    rw [readFields, checkFields_eq_ok hdistinct hfields]
    rfl
  show (readFields name shape (.object fields) >>= _) = _
  rw [hread]
  show (build ⟨fields, .missingField⟩ >>= _) = _
  rw [hbuild]
  rfl

/-- The value of a field that is written. -/
theorem Inverts.required (h : Inverts read write) {fs : Fields} {name : String} {a : α}
    (hwritten : fs.values.lookup name = some (write a)) : fs.required name read = .ok a := by
  rw [Fields.required, hwritten]
  exact h a

/-- The value of a field that is written, although it could be left out. -/
theorem Inverts.withDefault (h : Inverts read write) {fs : Fields} {name : String} {a : α}
    (hwritten : fs.values.lookup name = some (write a)) (preset : α) :
    fs.withDefault name read preset = .ok a := by
  rw [Fields.withDefault, hwritten]
  exact h a

end Config

open Config

/-! ## Section 3: Parts of a configuration -/

theorem SourceSpec.inverts : Inverts SourceSpec.decode SourceSpec.encode := by
  intro s
  cases s with
  | path source => rfl
  | pattern text => rfl

/-- A source is never taken for an absent one. -/
theorem SourceSpec.encode_ne_null (s : SourceSpec) : s.encode ≠ .null := by
  cases s with
  | path source => exact nofun
  | pattern text => exact nofun

theorem KeyedEntry.inverts : Inverts KeyedEntry.decode KeyedEntry.encode := by
  intro e
  have hsource := SourceSpec.inverts.optional SourceSpec.encode_ne_null
  apply structured_object
  · decide
  · exact .cons (isWritten_field inverts_text _ _) (.cons (isWritten_field hsource _ _)
      (.cons (isWritten_field inverts_size _ _) .nil))
  · rw [inverts_text.required rfl, hsource.withDefault rfl, inverts_size.required rfl]
    rfl

theorem FactoryEntry.inverts : Inverts FactoryEntry.decode FactoryEntry.encode := by
  intro e
  apply structured_object
  · decide
  · exact .cons (isWritten_field inverts_text _ _) (.cons (isWritten_field inverts_text _ _)
      (.cons (isWritten_field inverts_size _ _) .nil))
  · rw [inverts_text.required rfl, inverts_text.required rfl, inverts_size.required rfl]
    rfl

theorem ComponentMode.inverts : Inverts ComponentMode.decode fun m => .string m.text := by
  apply inverts_oneOf
  intro m
  cases m with
  | client => rfl
  | server => rfl
  | all => rfl

theorem Bundle.inverts : Inverts Bundle.decode fun b => .string b.text := by
  apply inverts_oneOf
  intro b
  cases b with
  | client => rfl
  | server => rfl

theorem Component.inverts : Inverts Component.decode Component.encode := by
  intro c
  apply structured_object
  · decide
  · exact .cons (isWritten_field inverts_text _ _) (.cons (isWritten_field inverts_text _ _)
      (.cons (isWritten_field ComponentMode.inverts _ _) (.cons (isWritten_field inverts_text _ _)
      (.cons (isWritten_field inverts_signed32 _ _)
      (.cons (isWritten_field inverts_boolean _ _) .nil)))))
  · rw [inverts_text.required rfl, inverts_text.required rfl,
      ComponentMode.inverts.withDefault rfl, inverts_text.withDefault rfl,
      inverts_signed32.withDefault rfl, inverts_boolean.withDefault rfl]
    rfl

theorem TransformOptions.inverts : Inverts TransformOptions.decode TransformOptions.encode := by
  intro o
  have hroot := inverts_text.optional (fun _ => Json.noConfusion)
  apply structured_object
  · decide
  · exact .cons (isWritten_field hroot _ _) (.cons (isWritten_field inverts_dictionary _ _)
      (.cons (isWritten_field inverts_dictionary _ _) (.cons (isWritten_field inverts_boolean _ _)
      (.cons (isWritten_field inverts_text _ _) .nil))))
  · rw [hroot.withDefault rfl, inverts_dictionary.withDefault rfl,
      inverts_dictionary.withDefault rfl, inverts_boolean.withDefault rfl,
      inverts_text.withDefault rfl]
    rfl

theorem LoaderOptions.inverts : Inverts LoaderOptions.decode LoaderOptions.encode := by
  intro o
  apply structured_object
  · decide
  · exact .cons (isWritten_field Bundle.inverts _ _) (.cons (isWritten_field inverts_text _ _)
      (.cons (isWritten_field inverts_text _ _) (.cons (isWritten_field inverts_text _ _)
      (.cons (isWritten_field inverts_boolean _ _)
      (.cons (isWritten_field inverts_boolean _ _) .nil)))))
  · rw [Bundle.inverts.withDefault rfl, inverts_text.required rfl, inverts_text.required rfl,
      inverts_text.withDefault rfl, inverts_boolean.withDefault rfl,
      inverts_boolean.withDefault rfl]
    rfl

theorem PageMetaOptions.inverts : Inverts PageMetaOptions.decode PageMetaOptions.encode := by
  intro o
  apply structured_object
  · decide
  · exact .cons (isWritten_field inverts_boolean _ _) .nil
  · rw [inverts_boolean.withDefault rfl]
    rfl

/-- **A configuration is read from the value that is written for it.** -/
theorem BuildConfig.inverts : Inverts BuildConfig.decode BuildConfig.encode := by
  intro c
  have hkeyed := KeyedEntry.inverts.list
  have hfactories := FactoryEntry.inverts.list
  have hcomponents := Component.inverts.list
  have hloader := LoaderOptions.inverts.optional (fun _ => Json.noConfusion)
  apply structured_object
  · decide
  · exact .cons (isWritten_field hkeyed _ _) (.cons (isWritten_field hfactories _ _)
      (.cons (isWritten_field hcomponents _ _)
      (.cons (isWritten_field TransformOptions.inverts _ _) (.cons (isWritten_field hloader _ _)
      (.cons (isWritten_field PageMetaOptions.inverts _ _) .nil)))))
  · rw [hkeyed.withDefault rfl, hfactories.withDefault rfl, hcomponents.withDefault rfl,
      TransformOptions.inverts.withDefault rfl, hloader.withDefault rfl,
      PageMetaOptions.inverts.withDefault rfl]
    rfl

/-! ## Section 4: Texts -/

namespace Config

open Json (Readable)

variable {n : Nat}

theorem readable_size (k : UInt64) : Readable n (.nat k.toNat) := by
  have hlt : k.toNat < UInt64.size := k.toNat_lt
  apply Readable.int
  constructor
  · have hleast : Int64.minValue.toInt ≤ 0 := by decide
    rw [Int.ofNat_eq_natCast]
    omega
  · exact Int.ofNat_lt.mpr hlt

theorem readable_signed32 (k : Int32) : Readable n (.int k.toInt) := by
  have hleast : Int64.minValue.toInt ≤ Int32.minValue.toInt := by decide
  have hgreatest : Int32.maxValue.toInt < Int.ofNat UInt64.size := by decide
  have hle := k.minValue_le_toInt
  have hge := k.toInt_le
  apply Readable.int
  exact ⟨by omega, by omega⟩

theorem readable_option {α : Type} {write : α → Json} (h : ∀ a, Readable n (write a))
    (o : Option α) : Readable n (.ofOption write o) := by
  cases o with
  | none => exact .null
  | some a => exact h a

theorem readable_list {α : Type} {write : α → Json} (h : ∀ a, Readable n (write a))
    (xs : List α) : Readable (n + 1) (.ofList write xs) := by
  apply Readable.array
  intro v hv
  obtain ⟨x, -, rfl⟩ := List.mem_map.mp hv
  exact h x

theorem readable_dictionary (d : Dictionary) : Readable (n + 1) d.encode := by
  apply Readable.object
  intro f hf
  obtain ⟨e, -, rfl⟩ := List.mem_map.mp hf
  exact .string e.2

theorem readable_sourceSpec (s : SourceSpec) : Readable (n + 1) s.encode := by
  cases s with
  | path source => exact .string source
  | pattern text =>
    apply Readable.object
    simp only [List.forall_mem_cons]
    exact ⟨.string text, nofun⟩

theorem readable_keyedEntry (e : KeyedEntry) : Readable (n + 2) e.encode := by
  apply Readable.object
  simp only [List.forall_mem_cons]
  exact ⟨.string _, readable_option readable_sourceSpec _, readable_size _, nofun⟩

theorem readable_factoryEntry (e : FactoryEntry) : Readable (n + 1) e.encode := by
  apply Readable.object
  simp only [List.forall_mem_cons]
  exact ⟨.string _, .string _, readable_size _, nofun⟩

theorem readable_component (c : Component) : Readable (n + 1) c.encode := by
  apply Readable.object
  simp only [List.forall_mem_cons]
  exact ⟨.string _, .string _, .string _, .string _, readable_signed32 _, .bool _, nofun⟩

theorem readable_transformOptions (o : TransformOptions) : Readable (n + 2) o.encode := by
  apply Readable.object
  simp only [List.forall_mem_cons]
  exact ⟨readable_option .string _, readable_dictionary _, readable_dictionary _, .bool _,
    .string _, nofun⟩

theorem readable_loaderOptions (o : LoaderOptions) : Readable (n + 1) o.encode := by
  apply Readable.object
  simp only [List.forall_mem_cons]
  exact ⟨.string _, .string _, .string _, .string _, .bool _, .bool _, nofun⟩

theorem readable_pageMetaOptions (o : PageMetaOptions) : Readable (n + 1) o.encode := by
  apply Readable.object
  simp only [List.forall_mem_cons]
  exact ⟨.bool _, nofun⟩

/-- A configuration is nested four deep. -/
theorem readable_buildConfig (c : BuildConfig) : Readable (n + 4) c.encode := by
  apply Readable.object
  simp only [List.forall_mem_cons]
  exact ⟨readable_list readable_keyedEntry _, readable_list readable_factoryEntry _,
    readable_list readable_component _, readable_transformOptions _,
    readable_option readable_loaderOptions _, readable_pageMetaOptions _, nofun⟩

end Config

/-- **A configuration survives its text**: what is written for it is read as the same
    configuration, whatever its texts are made of. -/
theorem BuildConfig.ofText_toText (c : BuildConfig) : BuildConfig.ofText c.toText = .ok c := by
  have hparse : Json.parse c.toText = some c.encode := Json.parse_render (readable_buildConfig c)
  rw [ofText, hparse]
  show Result.orFail (decode c.encode) = .ok c
  rw [BuildConfig.inverts c]
  rfl

end BuildMacros
