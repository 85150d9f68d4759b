import BuildMacros.Proofs.Scope.OwnNames
import BuildMacros.Proofs.Scope.Replay
import BuildMacros.Proofs.Splice.Tracing
import BuildMacros.Proofs.Template.Readings
import Mathlib.Data.List.Pairwise

/-! # Elements that a script declares

    A name that a script of the file declares is the file's own component and should be
    left alone. The pass asks the scripts for the name as the tag has it, though, and a
    tag may have it in two spellings: no script declares `lazy-foo`, but what the tag
    `<lazy-foo>` stands for is `LazyFoo`. The registry is asked for the cased name. So the
    two spellings are registered alike and declared apart (`keepsNames_iff`).

    That the names of an element are kept is said about the edited text: they stand in it
    as they stand in the file.
-/

namespace BuildMacros.Template

open BuildMacros.Text BuildMacros.Script BuildMacros.Components BuildMacros.Splicer

/-! ## Section 1: What scripts declare -/

/-- Some script of a file parses and declares a name in its outermost scope. -/
def DeclaredAtRoot (code id name : String) : Prop :=
  ∃ b ∈ blocks code, ∃ m, Module.ofBlock id b = .ok m ∧
    ∃ d ∈ m.program.declarations, d.scope = Tracker.root ∧ d.name = name

/-- No scope is around the outermost one. -/
theorem getFrom?_root (t : Tracker) (name : String) :
    t.getFrom? Tracker.root name = t.own? name Tracker.root := by
  have hchain : t.chain Tracker.root = [Tracker.root] := by
    show Tracker.root :: _ = _
    cases t.parent? Tracker.root <;> rfl
  rw [Tracker.getFrom?, hchain, List.findSome?_singleton]

/-- A scope owns a name that is declared in it. -/
theorem isSome_owned?_iff {p : Program} {name : String} {scope : Nat} :
    (p.owned? name scope).isSome = true ↔
      ∃ d ∈ p.declarations, d.scope = scope ∧ d.name = name := by
  constructor
  · intro h
    obtain ⟨d, hd⟩ := Option.isSome_iff_exists.mp h
    obtain ⟨hmem, hscope⟩ := Program.mem_of_owned? hd
    exact ⟨d, hmem, hscope, Program.name_of_owned? hd⟩
  · rintro ⟨d, hmem, hscope, hname⟩
    have hd : d ∈ p.declarations.filter fun d => d.name == name && d.scope == scope :=
      List.mem_filter.mpr ⟨hmem, by simp [hscope, hname]⟩
    obtain ⟨first, rest, hlist⟩ := List.exists_cons_of_ne_nil (List.ne_nil_of_mem hd)
    rw [Program.owned?, Declaration.pick, hlist, Option.isSome_or, List.head?_cons,
      Option.isSome_some, Bool.or_true]

/-- **What the pass asks the scripts**: whether one of them declares the name as it is. -/
theorem isDeclared_iff {code id name : String} :
    isDeclared (scriptScopes code id) name = true ↔ DeclaredAtRoot code id name := by
  have hknows : ∀ {b m}, Module.ofBlock id b = .ok m →
      ((m.scopes.getFrom? Tracker.root name).isSome = true ↔
        ∃ d ∈ m.program.declarations, d.scope = Tracker.root ∧ d.name = name) := by
    intro b m hm
    have hscopes : m.scopes = .collect m.program := by
      unfold Module.ofBlock at hm
      split at hm
      · cases hm
        rfl
      · cases hm
    rw [getFrom?_root, hscopes, own?_collect, isSome_owned?_iff]
  unfold isDeclared scriptScopes
  rw [List.any_eq_true]
  constructor
  · rintro ⟨t, ht, hdeclared⟩
    obtain ⟨b, hb, hblock⟩ := List.mem_filterMap.mp ht
    split at hblock
    · next m hm =>
      cases hblock
      exact ⟨b, hb, m, hm, (hknows hm).mp hdeclared⟩
    · cases hblock
  · rintro ⟨b, hb, m, hm, hdeclared⟩
    exact ⟨m.scopes, List.mem_filterMap.mpr ⟨b, hb, by rw [hm]⟩, (hknows hm).mpr hdeclared⟩

/-! ## Section 2: New names -/

/-- **A new name is new**: it is not the name that the element has. -/
theorem Element.Becomes.ne {r : ComponentRegistry} {e : Element} {name : String}
    (hchars : ∀ c ∈ e.name.toList, isNameChar c = true) (h : e.Becomes r name) :
    name ≠ e.name := by
  obtain ⟨rest, strategy, hmark, -, -, hname⟩ := h
  intro hsame
  have hrest : ∀ c ∈ rest, isNameChar c = true :=
    fun c hc => hchars c ((suffix_of_afterMark? hmark).subset hc)
  -- otherwise what follows the mark is the word of the strategy and its own pascal case
  have hagain : rest = strategy.word.toList ++ Naming.pascal rest := by
    simp only [← hsame, hname, String.toList_append, List.append_assoc,
      String.toList_ofList] at hmark
    exact (Option.some.inj hmark).symm
  have hletters : 0 < strategy.word.toList.countP fun c => !Naming.isSeparator c := by
    cases strategy <;> decide
  have hapart := registeredName_append_ne (hagain ▸ hrest) hletters
  rw [registeredName_pascal hrest, ← hagain, registeredName_ofList hrest] at hapart
  exact hapart rfl

/-- The pascal case of a name in the other spelling. -/
theorem pascal_kebab (rest : List Char) :
    Naming.pascal ("lazy-".toList ++ rest) = "Lazy".toList ++ Naming.pascal rest := by
  rfl

/-- **The two spellings of a name** get the same new name, as far as scripts leave them one. -/
theorem becomes_kebab_iff {r : ComponentRegistry} {e f : Element} {rest name : String}
    (hkebab : e.name = "lazy-" ++ rest) (hpascal : f.name = Naming.pascalCase e.name)
    (hattributes : f.attributes = e.attributes) : f.Becomes r name ↔ e.Becomes r name := by
  have hmark : afterMark? e.name.toList = some rest.toList := by
    rw [hkebab, String.toList_append]
    rfl
  have hmark' : afterMark? f.name.toList = some (Naming.pascal rest.toList) := by
    rw [hpascal, Naming.pascalCase, String.toList_ofList, hkebab, String.toList_append,
      pascal_kebab]
    rfl
  simp only [Element.Becomes, Element.HasStrategy, hmark, hmark', hattributes, Option.some.injEq,
    exists_and_left, exists_eq_left', Naming.pascal_pascal]

/-! ## Section 3: Names that are kept -/

/-- The names of an element, in a template at an offset, stand in the edited text as they stand in
    the file. -/
def Element.KeptIn (e : Element) (s : Splicer) (offset : Nat) : Prop :=
  ∀ x ∈ e.places, s.Keeps (offset + x.2) (offset + x.2 + byteLength x.1.toList)

/-- The names of an element are replaced in all of its tags. -/
def Element.ReplacedIn (e : Element) (s : Splicer) (offset : Nat) (name : String) : Prop :=
  ∀ x ∈ e.places, ⟨offset + x.2, offset + x.2 + byteLength x.1.toList, name⟩ ∈ s.edits

section

variable {r : ComponentRegistry} {code id : String} {offset : Nat} {template : List Char}
  {e : Element} {s : Splicer}

/-- **Which elements are renamed**: those that would be in a file without scripts, unless a script
    declares the name in the tag. -/
theorem renamed_iff (hvue : isVue id = true) (hlocate : locate? code = some (offset, template))
    (he : e ∈ elements template) (name : String) :
    ⟨offset, e, name⟩ ∈ renamed r code id ↔ ¬DeclaredAtRoot code id e.name ∧
      hasWord hydrationWords none template = true ∧ e.Becomes r name := by
  rw [mem_renamed_iff, newName?_eq_some_iff, ← isDeclared_iff, Bool.not_eq_true]
  constructor
  · rintro ⟨-, template', hlocate', hword, -, hfree, hname⟩
    rw [hlocate] at hlocate'
    obtain ⟨-, rfl⟩ := Prod.mk.inj (Option.some.inj hlocate')
    exact ⟨hfree, hword, hname⟩
  · rintro ⟨hfree, hword, hname⟩
    exact ⟨hvue, template, hlocate, hword, he, hfree, hname⟩

/-- An element that is renamed is replaced in all of its tags. -/
theorem replacedIn_of_renamed {name : String}
    (hedits : s.edits = (renamed r code id).flatMap Renamed.edits)
    (hrenamed : ⟨offset, e, name⟩ ∈ renamed r code id) : e.ReplacedIn s offset name := by
  intro x hx
  rw [hedits]
  exact List.mem_flatMap.mpr ⟨_, hrenamed, List.mem_map.mpr ⟨x, hx, rfl⟩⟩

/-- What is replaced is not kept. -/
theorem not_keptIn_of_replacedIn {name : String} (hs : s.Sound) (hname : e.name.toList ≠ [])
    (h : e.ReplacedIn s offset name) : ¬e.KeptIn s offset := by
  intro hkept
  have hopening : (e.name, e.start) ∈ e.places := List.mem_cons_self
  have hpos := byteLength_pos_of_ne_nil hname
  exact hs.not_keeps (h _ hopening) (by dsimp only; omega) (hkept _ hopening)

/-- Renaming other elements leaves the names of an element alone. -/
theorem keptIn_of_not_renamed (hlocate : locate? code = some (offset, template))
    (he : e ∈ elements template) (hsource : s.source = code)
    (hedits : s.edits = (renamed r code id).flatMap Renamed.edits)
    (hnot : ∀ name, ⟨offset, e, name⟩ ∉ renamed r code id) : e.KeptIn s offset := by
  obtain ⟨hnamed, hstands, hclear⟩ := elements_places template
  intro x hx
  have hplace := (hstands x (List.mem_flatMap.mpr ⟨e, he, hx⟩)).trans (standsAt_of_locate? hlocate)
  have hrange := hplace.isRange
  rw [Nat.add_comm, ← hsource] at hrange
  refine keeps_of_forall hrange fun edit hedit => ?_
  rw [hedits] at hedit
  obtain ⟨y, hy, hedit⟩ := List.mem_flatMap.mp hedit
  obtain ⟨place, hmem, rfl⟩ := List.mem_map.mp hedit
  obtain ⟨-, template', hlocate', -, hy', -⟩ := mem_renamed_iff.mp hy
  rw [hlocate] at hlocate'
  obtain ⟨hoffset, rfl⟩ := Prod.mk.inj (Option.some.inj hlocate')
  -- the edit belongs to another element, whose places are clear of the ones of this element
  have hother : y.element ≠ e := by
    rintro rfl
    exact hnot y.name (hoffset ▸ hy)
  have hsymm : Std.Symm fun a b : Element => ∀ x ∈ a.places, ∀ y ∈ b.places, Clear x y :=
    ⟨fun a b hab x hx y hy => (hab y hy x hx).symm⟩
  have hapart : Clear place x :=
    (List.pairwise_flatMap.mp hclear).2.forall hy' he hother place hmem x hx
  have hpos := byteLength_pos_of_ne_nil (hnamed _ hy')
  rw [← Element.fst_of_mem_places hmem] at hpos
  unfold Clear at hapart
  dsimp only
  omega

theorem keptIn_iff_not_renamed (hlocate : locate? code = some (offset, template))
    (he : e ∈ elements template) (hsound : s.Sound) (hsource : s.source = code)
    (hedits : s.edits = (renamed r code id).flatMap Renamed.edits) :
    e.KeptIn s offset ↔ ∀ name, ⟨offset, e, name⟩ ∉ renamed r code id := by
  refine ⟨fun hkept name hmem => ?_, keptIn_of_not_renamed hlocate he hsource hedits⟩
  have hname := (elements_places template).1 e he
  exact not_keptIn_of_replacedIn hsound hname (replacedIn_of_renamed hedits hmem) hkept

/-- An element is kept if a script declares its name as it is, or if nothing would rename it. -/
theorem keptIn_iff (hvue : isVue id = true) (hlocate : locate? code = some (offset, template))
    (he : e ∈ elements template) (hsound : s.Sound) (hsource : s.source = code)
    (hedits : s.edits = (renamed r code id).flatMap Renamed.edits) :
    e.KeptIn s offset ↔ DeclaredAtRoot code id e.name ∨
      hasWord hydrationWords none template = false ∨ ∀ name, ¬e.Becomes r name := by
  rw [keptIn_iff_not_renamed hlocate he hsound hsource hedits]
  constructor
  · intro hnot
    refine or_iff_not_imp_left.mpr fun hfree => or_iff_not_imp_left.mpr fun hword => ?_
    intro name hname
    exact hnot name ((renamed_iff hvue hlocate he name).mpr
      ⟨hfree, Bool.not_eq_false _ |>.mp hword, hname⟩)
  · intro hreason name hmem
    obtain ⟨hfree, hword, hname⟩ := (renamed_iff hvue hlocate he name).mp hmem
    rcases hreason with hdeclared | hnoword | hnone
    · exact hfree hdeclared
    · rw [hword] at hnoword
      cases hnoword
    · exact hnone name hname

/-- **Which elements keep their names.** An element keeps its names if a script declares the name
    that is written in its tags, or if it would keep them in a file without scripts; otherwise it
    gets another name in all of its tags. Scripts are asked for the two spellings of a name apart:
    both would be renamed alike, and where the one with hyphens is renamed, the other one is kept
    exactly if a script declares it. -/
theorem keepsNames_iff (hvue : isVue id = true) (hlocate : locate? code = some (offset, template))
    (he : e ∈ elements template) (r : ComponentRegistry) (sourcemap : Bool) :
    ∃ s : Splicer, hydrate r sourcemap code id = .ok (s.output id sourcemap) ∧ s.Sound ∧
      s.source = code ∧
      (e.KeptIn s offset ↔ DeclaredAtRoot code id e.name ∨
        hasWord hydrationWords none template = false ∨ ∀ name, ¬e.Becomes r name) ∧
      (¬e.KeptIn s offset →
        ∃ name, e.Becomes r name ∧ name ≠ e.name ∧ e.ReplacedIn s offset name) ∧
      ∀ rest, ∀ f ∈ elements template, e.name = "lazy-" ++ rest →
        f.name = Naming.pascalCase e.name → f.attributes = e.attributes →
        (∀ name, f.Becomes r name ↔ e.Becomes r name) ∧
          (¬e.KeptIn s offset → (f.KeptIn s offset ↔ DeclaredAtRoot code id f.name)) := by
  obtain ⟨s, hhydrate, hsound, hsource, hedits⟩ := exists_edits r sourcemap code id
  have hchars := isNameChar_of_mem_elements he
  have hkept := keptIn_iff hvue hlocate he hsound hsource hedits
  refine ⟨s, hhydrate, hsound, hsource, hkept, fun hnot => ?_, ?_⟩
  · rw [keptIn_iff_not_renamed hlocate he hsound hsource hedits, not_forall] at hnot
    obtain ⟨name, hmem⟩ := hnot
    have hmem := not_not.mp hmem
    obtain ⟨-, -, hname⟩ := (renamed_iff hvue hlocate he name).mp hmem
    exact ⟨name, hname, hname.ne hchars, replacedIn_of_renamed hedits hmem⟩
  · intro rest f hf hkebab hpascal hattributes
    have hsame : ∀ name, f.Becomes r name ↔ e.Becomes r name :=
      fun name => becomes_kebab_iff hkebab hpascal hattributes
    refine ⟨hsame, fun hnot => ?_⟩
    rw [hkept, not_or] at hnot
    rw [keptIn_iff hvue hlocate hf hsound hsource hedits, forall_congr' fun name =>
      not_congr (hsame name), or_iff_left hnot.2]

end

/-- One component. -/
def plotRegistry : ComponentRegistry :=
  .ofList [⟨"MyPlot", "/c/MyPlot.vue", .all, defaultExport, 0, false⟩]

/-- A script that imports a component of its own, under a name that looks lazy. -/
def plotScript : String := "<script setup>import LazyMyPlot from './plot'</script>"

/-- The component in the spelling of the script. -/
def plotFile : String :=
  plotScript ++ "<template><LazyMyPlot hydrate-on-idle /></template>"

/-- The same component in the other spelling. -/
def kebabFile : String :=
  plotScript ++ "<template><lazy-my-plot hydrate-on-idle /></template>"

/-- The script keeps a name that would be replaced without it. -/
theorem keepsNames_iff_plot :
    ∃ offset template e s, locate? plotFile = some (offset, template) ∧ e ∈ elements template ∧
      e.name = "LazyMyPlot" ∧ e.Becomes plotRegistry "LazyIdleMyPlot" ∧
      hydrate plotRegistry false plotFile "/app.vue" = .ok (s.output "/app.vue" false) ∧
      e.KeptIn s offset := by
  have hnames : (locate? plotFile).map (fun x => (elements x.2).map fun e =>
      (e.name, newName? plotRegistry [] e)) =
        some [("template", none), ("LazyMyPlot", some "LazyIdleMyPlot")] := by
    decide +kernel
  obtain ⟨⟨offset, template⟩, hlocate, hnames⟩ := Option.map_eq_some_iff.mp hnames
  obtain ⟨e, he, hname⟩ := List.mem_map.mp (hnames ▸ List.mem_cons_of_mem _ List.mem_cons_self :
    ("LazyMyPlot", some "LazyIdleMyPlot") ∈ (elements template).map fun e =>
      (e.name, newName? plotRegistry [] e))
  obtain ⟨hname, hnew⟩ := Prod.mk.inj hname
  have hbecomes := (newName?_eq_some_iff.mp hnew).2
  have hvue : isVue "/app.vue" = true := by decide +kernel
  obtain ⟨s, hhydrate, -, -, hkept, -⟩ := keepsNames_iff hvue hlocate he plotRegistry false
  refine ⟨offset, template, e, s, hlocate, he, hname, hbecomes, hhydrate, hkept.mpr (.inl ?_)⟩
  rw [hname]
  exact isDeclared_iff.mp (by decide +kernel)

/-- **A declared component that is renamed**: the script declares the name of the tag in its other
    spelling, and the element gets another name. Written as the script has it, it is left alone. -/
theorem kebab_spelling_renamed :
    DeclaredAtRoot kebabFile "/app.vue" "LazyMyPlot" ∧
      Naming.pascalCase "lazy-my-plot" = "LazyMyPlot" ∧
      (hydrate plotRegistry false kebabFile "/app.vue").toOption = some (.edited
        (plotScript ++ "<template><LazyIdleMyPlot hydrate-on-idle /></template>") none) ∧
      (hydrate plotRegistry false plotFile "/app.vue").toOption = some .unchanged :=
  ⟨isDeclared_iff.mp (by decide +kernel), by decide +kernel, by decide +kernel, by decide +kernel⟩

end BuildMacros.Template
