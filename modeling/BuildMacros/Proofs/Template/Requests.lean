import BuildMacros.Components.Loading
import BuildMacros.Proofs.Naming
import BuildMacros.Proofs.Template.Hydration
import BuildMacros.Proofs.Text.Bytes

/-! # Renamed elements as requests

    A template is renamed before it is compiled. The compiled template then asks the
    runtime for components by the new names, and loading takes these names apart. The
    two passes share no code: one puts a mark, the word of a strategy and a name in
    pascal case together, the other tries its marks and words in turn and cases what is
    left once more.

    They agree because no word of a strategy begins with an earlier one
    (`modifier?_word`), and because names of tags are ASCII, so that casing them twice is
    casing them once. What the pass renames is its list of `renamed` elements.
-/

namespace BuildMacros

open BuildMacros.Text

/-! ## Section 1: Reading a name with a strategy -/

namespace Components

/-- **No word hides another one**: whatever follows the word of a strategy, the word is found. -/
theorem modifier?_word (strategy : Strategy) (name : List Char) :
    modifier? (strategy.word.toList ++ name) modifiers =
      some (⟨strategy.word, strategy⟩, name) := by
  cases strategy <;> rfl

/-- The parts of a name with the mark and the word of a strategy. -/
theorem parse_lazy (strategy : Strategy) (name : String) :
    Request.parse ("Lazy" ++ strategy.word ++ name) =
      ⟨true, some ⟨strategy.word, strategy⟩, name⟩ := by
  have hmark : afterLazy? ("Lazy" ++ strategy.word ++ name).toList =
      some (strategy.word.toList ++ name.toList) := by
    rw [String.toList_append, String.toList_append, List.append_assoc]
    -- every word begins with a capital letter
    cases strategy <;> rfl
  rw [Request.parse, hmark]
  simp only [modifier?_word, String.ofList_toList]

end Components

/-- In the client a registered name always finds a component of the name. -/
theorem ComponentRegistry.exists_find?_client {r : ComponentRegistry} {name : String}
    (h : r.contains (registeredName name) = true) :
    ∃ i c, r.find? name .client = some i ∧ r.components[i]? = some c ∧
      c.pascalName = registeredName name := by
  have hnamed : ∀ (p : Component → Bool) (i : Nat), r.components.findIdx? p = some i →
      ∃ c, r.components[i]? = some c ∧ p c = true := by
    intro p i hi
    obtain ⟨hlt, hp, -⟩ := List.findIdx?_eq_some_iff_getElem.mp hi
    exact ⟨_, List.getElem?_eq_getElem hlt, hp⟩
  unfold find?
  cases husable : r.components.findIdx? fun c =>
      c.pascalName == registeredName name && Bundle.client.accepts c.mode with
  | some i =>
    obtain ⟨c, hc, hp⟩ := hnamed _ i husable
    rw [Bool.and_eq_true, beq_iff_eq] at hp
    exact ⟨i, c, by simp [husable], hc, hp.1⟩
  | none =>
    -- a component of the other bundle
    have hany : (r.components.findIdx? (·.pascalName == registeredName name)).isSome = true := by
      rw [List.findIdx?_isSome]
      exact h
    obtain ⟨i, hi⟩ := Option.isSome_iff_exists.mp hany
    obtain ⟨c, hc, hp⟩ := hnamed _ i hi
    exact ⟨i, c, by simp [husable, hi], hc, beq_iff_eq.mp hp⟩

namespace Template

open BuildMacros.Script BuildMacros.Components BuildMacros.Splicer

/-! ## Section 2: Names of elements -/

/-- The name of a tag consists of the characters of names. -/
theorem isNameChar_of_tagAt {pos : Nat} {cs rest : List Char} {t : Tag}
    (h : tagAt pos cs = some (some t, rest)) : ∀ c ∈ t.place.1.toList, isNameChar c = true := by
  have htaken : ∀ (body : List Char), ∀ c ∈ body.takeWhile isNameChar, isNameChar c = true :=
    fun body => List.all_eq_true.mp List.all_takeWhile
  unfold tagAt at h
  split at h
  · cases h
  · split at h
    · next body _ =>
      cases h
      rw [Tag.place, String.toList_ofList]
      exact htaken body
    · next c body _ _ =>
      split at h
      · dsimp only at h
        generalize attributes (((c :: body).dropWhile isNameChar).length + 1)
          ((c :: body).dropWhile isNameChar) = found at h
        cases h
        rw [Tag.place, String.toList_ofList]
        exact htaken (c :: body)
      · cases h
    · cases h

theorem isNameChar_of_mem_tagsFrom {fuel pos : Nat} {cs : List Char} {t : Tag}
    (h : t ∈ tagsFrom fuel pos cs) : ∀ c ∈ t.place.1.toList, isNameChar c = true := by
  induction fuel generalizing pos cs with
  | zero => simp [tagsFrom] at h
  | succ fuel ih =>
    cases cs with
    | nil => simp [tagsFrom] at h
    | cons c cs =>
      rw [tagsFrom] at h
      split at h
      · next tag rest htag =>
        rcases List.mem_append.mp h with h | h
        · rw [Option.mem_toList] at h
          subst h
          exact isNameChar_of_tagAt htag
        · exact ih h
      · exact ih h

/-- The name of an element consists of the characters of names. -/
theorem isNameChar_of_mem_elements {cs : List Char} {e : Element} (h : e ∈ elements cs) :
    ∀ c ∈ e.name.toList, isNameChar c = true := by
  have hplace := (paired_tags cs).places (e.name, e.start)
    (List.mem_flatMap.mpr ⟨e, h, List.mem_cons_self⟩)
  obtain ⟨t, ht, htag⟩ := List.mem_map.mp hplace
  have hname : e.name = t.place.1 := by rw [htag]
  rw [hname]
  exact isNameChar_of_mem_tagsFrom ht

/-- Characters of names are ASCII, and none is a quote. -/
theorem ascii_of_isNameChar {c : Char} (h : isNameChar c = true) :
    c.toNat < 128 ∧ c ≠ '"' ∧ c ≠ '\'' := by
  refine ⟨?_, ?_, ?_⟩
  · simp only [isNameChar, Bool.or_eq_true, beq_iff_eq] at h
    rcases h with (((h | rfl) | rfl) | rfl) | rfl
    · exact lt_of_isAlphanum h
    all_goals decide
  · rintro rfl
    revert h
    decide
  · rintro rfl
    revert h
    decide

/-- Casing a part of an element's name gives what components are registered under. -/
theorem registeredName_pascal {cs : List Char} (h : ∀ c ∈ cs, isNameChar c = true) :
    ComponentRegistry.registeredName (String.ofList (Naming.pascal cs)) =
      String.ofList (Naming.pascal cs) := by
  have hquotes : ∀ c ∈ Naming.pascal cs, (c != '"' && c != '\'') = true := by
    intro c hc
    obtain ⟨d, hd, -, hcd⟩ := Naming.mem_pascal hc
    obtain ⟨-, hdouble, hsingle⟩ := ascii_of_isNameChar (h d hd)
    rw [Bool.and_eq_true, bne_iff_ne, bne_iff_ne]
    rcases hcd with rfl | hcd
    · exact ⟨hdouble, hsingle⟩
    · constructor
      · rintro rfl
        exact hdouble (eq_of_mem_upper hcd (by decide) (by decide)).1.symm
      · rintro rfl
        exact hsingle (eq_of_mem_upper hcd (by decide) (by decide)).1.symm
  rw [ComponentRegistry.registeredName, Naming.pascalCase, String.toList_ofList,
    String.toList_ofList, Naming.pascal_pascal, List.filter_eq_self.mpr hquotes]

/-! ## Section 3: The elements that are renamed -/

/-- The strategy of the first attribute that states one. -/
def Element.HasStrategy (e : Element) (strategy : Strategy) : Prop :=
  ∃ before prop after, e.attributes = before ++ prop :: after ∧ strategyOf? prop = some strategy ∧
    ∀ p ∈ before, strategyOf? p = none

theorem Element.hasStrategy_iff {e : Element} {strategy : Strategy} :
    e.HasStrategy strategy ↔ e.attributes.findSome? strategyOf? = some strategy := by
  rw [List.findSome?_eq_some_iff]
  constructor
  · rintro ⟨before, prop, after, hattributes, hprop, hbefore⟩
    exact ⟨before, prop, after, hattributes, hprop, hbefore⟩
  · rintro ⟨before, prop, after, hattributes, hprop, hbefore⟩
    exact ⟨before, prop, after, hattributes, hprop, hbefore⟩

/-- What an element would be called if no script declared its name: the name has a mark, some
    attribute states a strategy, and what follows the mark is registered. -/
def Element.Becomes (r : ComponentRegistry) (e : Element) (name : String) : Prop :=
  ∃ rest strategy, afterMark? e.name.toList = some rest ∧ e.HasStrategy strategy ∧
    r.contains (String.ofList (Naming.pascal rest)) = true ∧
    name = "Lazy" ++ strategy.word ++ String.ofList (Naming.pascal rest)

/-- **When an element gets a new name**: scripts only decide whether, not which. -/
theorem newName?_eq_some_iff {r : ComponentRegistry} {scopes : List Tracker} {e : Element}
    {name : String} :
    newName? r scopes e = some name ↔ isDeclared scopes e.name = false ∧ e.Becomes r name := by
  simp only [Element.Becomes, Element.hasStrategy_iff]
  constructor
  · intro h
    unfold newName? at h
    split at h
    · cases h
    · next hfree =>
      split at h
      · next rest strategy hmark hstrategy =>
        dsimp only at h
        split at h
        · next hcontains =>
          cases h
          exact ⟨by simpa using hfree, rest, strategy, hmark, hstrategy, hcontains, rfl⟩
        · cases h
      · cases h
  · rintro ⟨hfree, rest, strategy, hmark, hstrategy, hcontains, rfl⟩
    simp [newName?, hfree, hmark, hstrategy, hcontains]

/-- What follows the mark of a lazy tag is the end of its name. -/
theorem suffix_of_afterMark? {cs rest : List Char} (h : afterMark? cs = some rest) :
    rest <:+ cs := by
  unfold afterMark? at h
  split at h
  · next hlazy =>
    cases h
    exact suffix_of_strip? hlazy
  · exact suffix_of_strip? h

/-- The edits that replace the name of an element in its tags. -/
def Renamed.edits (x : Renamed) : List Edit :=
  x.element.places.map fun y =>
    ⟨x.offset + y.2, x.offset + y.2 + byteLength y.1.toList, x.name⟩

/-- No call of the pass is refused, so its edits are those of the renamed elements. -/
theorem exists_edits (r : ComponentRegistry) (sourcemap : Bool) (code id : String) :
    ∃ s : Splicer, hydrate r sourcemap code id = .ok (s.output id sourcemap) ∧ s.Sound ∧
      s.source = code ∧ s.edits = (renamed r code id).flatMap Renamed.edits := by
  have hcarried : ∃ s, ((renamed r code id).flatMap Renamed.calls).foldlM call? (new code) =
      .ok s := by
    unfold renamed
    split
    · exact ⟨_, rfl⟩
    · next offset template hlocate =>
      split
      · rw [flatMap_calls]
        exact exists_renamed (standsAt_of_locate? hlocate) _
      · exact ⟨_, rfl⟩
  obtain ⟨s, hs⟩ := hcarried
  have hcalls : ∀ c ∈ (renamed r code id).flatMap Renamed.calls, c.intro? = none := by
    intro c hc
    obtain ⟨x, -, hc⟩ := List.mem_flatMap.mp hc
    obtain ⟨y, -, rfl⟩ := List.mem_map.mp hc
    rfl
  obtain ⟨hsound, hsource, -, hedits⟩ := spec_of_foldlM hs hcalls
  refine ⟨s, ?_, hsound, hsource, ?_⟩
  · rw [hydrate_eq, run, foldl_call_of_foldlM hs]
  · rw [hedits, List.filterMap_flatMap]
    refine List.flatMap_congr fun x _ => ?_
    rw [Renamed.calls, List.filterMap_map, Renamed.edits, ← List.filterMap_eq_map]
    rfl

/-! ## Section 4: Agreement -/

/-- What a renamed element is called, and what its name is made of. -/
theorem eq_of_mem_renamed {r : ComponentRegistry} {code id : String} {x : Renamed}
    (h : x ∈ renamed r code id) :
    ∃ strategy rest, x.element.HasStrategy strategy ∧ (∀ c ∈ rest, isNameChar c = true) ∧
      r.contains (String.ofList (Naming.pascal rest)) = true ∧
      x.name = "Lazy" ++ strategy.word ++ String.ofList (Naming.pascal rest) := by
  obtain ⟨-, template, -, -, he, hname⟩ := mem_renamed_iff.mp h
  obtain ⟨-, rest, strategy, hmark, hstrategy, hcontains, hname⟩ := newName?_eq_some_iff.mp hname
  -- what follows the mark is a part of the element's name
  exact ⟨strategy, rest, hstrategy,
    fun c hc => isNameChar_of_mem_elements he c ((suffix_of_afterMark? hmark).subset hc),
    hcontains, hname⟩

/-- **Renaming and loading agree.** The pass replaces the names of the renamed elements. Each new
    name is made of `Lazy`, the word of the element's first strategy and the name of a registered
    component, and these are the parts that are read off it; and in the client the plain name finds
    a component of the name. -/
theorem requests_of_renamed (r : ComponentRegistry) (sourcemap : Bool) (code id : String) :
    hydrate r sourcemap code id =
        .ok ((run code ((renamed r code id).flatMap Renamed.calls)).output id sourcemap) ∧
      ∀ x ∈ renamed r code id, ∃ strategy plain, x.element.HasStrategy strategy ∧
        r.contains plain = true ∧ x.name = "Lazy" ++ strategy.word ++ plain ∧
        Request.parse x.name = ⟨true, some ⟨strategy.word, strategy⟩, plain⟩ ∧
        ∃ i c, find? r .client (Request.parse x.name) = some ⟨i, true⟩ ∧
          r.components[i]? = some c ∧ c.pascalName = plain := by
  refine ⟨hydrate_eq r sourcemap code id, fun x hx => ?_⟩
  obtain ⟨strategy, rest, hstrategy, hrest, hcontains, hname⟩ := eq_of_mem_renamed hx
  have hparse := parse_lazy strategy (String.ofList (Naming.pascal rest))
  have hregistered := registeredName_pascal hrest
  rw [← hregistered] at hcontains
  obtain ⟨i, c, hfind, hc, hplain⟩ := ComponentRegistry.exists_find?_client hcontains
  rw [hregistered] at hcontains hplain
  rw [hname, hparse]
  refine ⟨strategy, _, hstrategy, hcontains, rfl, rfl, i, c, ?_, hc, hplain⟩
  simp only [Components.find?, hfind]

/-- One component, for the server only. -/
def chartRegistry : ComponentRegistry :=
  .ofList [⟨"MyChart2D", "/c/MyChart2D.vue", .server, defaultExport, 0, false⟩]

/-- A file that states two strategies for the component. -/
def chartFile : String :=
  "<template><lazy-my-chart-2-d :hydrate-on-media-query=\"q\" hydrate-never /></template>"

/-- The first of two strategies, and a component that the client can only use in a wrapper. -/
theorem requests_of_renamed_chart :
    ∃ x ∈ renamed chartRegistry chartFile "/app.vue", x.name = "LazyMediaQueryMyChart2D" ∧
      x.element.HasStrategy .mediaQuery ∧
      ∃ i, find? chartRegistry .client (Request.parse x.name) = some ⟨i, true⟩ := by
  have hnames : (renamed chartRegistry chartFile "/app.vue").map Renamed.name =
      ["LazyMediaQueryMyChart2D"] := by
    decide +kernel
  obtain ⟨x, hx, hname⟩ : ∃ x ∈ renamed chartRegistry chartFile "/app.vue",
      x.name = "LazyMediaQueryMyChart2D" := by
    rw [← List.mem_map, hnames]
    exact List.mem_singleton.mpr rfl
  obtain ⟨-, hall⟩ := requests_of_renamed chartRegistry false chartFile "/app.vue"
  obtain ⟨strategy, plain, hstrategy, -, -, hparse, i, -, hfind, -⟩ := hall x hx
  have hread : Request.parse "LazyMediaQueryMyChart2D" =
      ⟨true, some ⟨"MediaQuery", .mediaQuery⟩, "MyChart2D"⟩ := by
    decide +kernel
  rw [hname, hread] at hparse
  simp only [Request.mk.injEq, Option.some.injEq, Modifier.mk.injEq, true_and] at hparse
  obtain ⟨⟨-, rfl⟩, -⟩ := hparse
  exact ⟨x, hx, hname, hstrategy, i, hfind⟩

end Template

end BuildMacros
