import BuildMacros.Proofs.Components.Reaching
import BuildMacros.Proofs.Template.Requests

/-! # Renamed elements as they were asked for

    The name of an element asks for a component before it is renamed and after it is.
    The new name always asks for the component that the pass had in mind
    (`requests_of_renamed`). The old name need not, because the pass and the loader do
    not read it alike. To the pass, `Lazy` is a mark whatever comes behind it; to the
    loader only before a capital letter. And the pass takes all that follows the mark
    for the name of the component, where the loader first tries what is left behind the
    word of a strategy.

    So the component may change, and `component?_eq_iff` says when it does not. Names are
    told apart by their lengths: pascal case keeps every letter of a name, so a name and
    a proper part of it are never registered alike.
-/

namespace BuildMacros

open BuildMacros.Text

/-! ## Section 1: Components of the client -/

namespace ComponentRegistry

variable {r : ComponentRegistry} {name other : String}

/-- In the client a name finds nothing exactly if it is not registered. -/
theorem find?_client_eq_none_iff :
    r.find? name .client = none ↔ r.contains (registeredName name) = false := by
  constructor
  · intro h
    by_contra hcontains
    obtain ⟨i, c, hfind, -⟩ := exists_find?_client (Bool.not_eq_false _ |>.mp hcontains)
    rw [h] at hfind
    cases hfind
  · intro h
    have hother : ∀ c ∈ r.components, (c.pascalName == registeredName name) = false :=
      fun c hc => Bool.not_eq_true _ |>.mp (List.any_eq_false.mp h c hc)
    have hany : r.components.findIdx? (·.pascalName == registeredName name) = none :=
      List.findIdx?_eq_none_iff.mpr hother
    have husable : (r.components.findIdx? fun c =>
        c.pascalName == registeredName name && Bundle.client.accepts c.mode) = none :=
      List.findIdx?_eq_none_iff.mpr fun c hc => by rw [hother c hc, Bool.false_and]
    unfold find?
    simp only [husable, hany]

/-- In the client a component is found by the names that are registered as its own. -/
theorem registeredName_eq_of_find? {i : Nat} (h : r.find? name .client = some i)
    (hother : r.find? other .client = some i) : registeredName name = registeredName other := by
  obtain ⟨c, hc, hchosen⟩ := exists_chosen_of_find? h
  have hother := chosen_of_find? hother hc
  rw [← hchosen.named, ← hother.named]

end ComponentRegistry

namespace Components

/-- The component that the client gets for a requested name. -/
def component? (r : ComponentRegistry) (name : String) : Option Nat :=
  (find? r .client (Request.parse name)).map Found.index

/-- A request is looked up by its plain name, and failing that with the modifier in front. -/
theorem map_index_find? (r : ComponentRegistry) (bundle : Bundle) (q : Request) :
    (find? r bundle q).map Found.index =
      (r.find? q.name bundle).or (q.modifier.bind fun m => r.find? (m.word ++ q.name) bundle) := by
  unfold find?
  cases hplain : r.find? q.name bundle with
  | some i => rfl
  | none =>
    cases hmodifier : q.modifier with
    | none => rfl
    | some m =>
      simp only [Option.none_or, Option.bind_some, Option.map_map]
      exact Option.map_id'

/-- A modifier that is read off is one of the table. -/
theorem mem_of_modifier? {cs name : List Char} {words : List (String × Strategy)}
    {found : Modifier} (h : modifier? cs words = some (found, name)) :
    (found.word, found.strategy) ∈ words := by
  induction words with
  | nil => cases h
  | cons entry words ih =>
    obtain ⟨word, strategy⟩ := entry
    unfold modifier? at h
    split at h
    · cases h
      exact List.mem_cons_self
    · exact List.mem_cons_of_mem _ (ih h)

end Components

namespace Template

open BuildMacros.Script BuildMacros.Components BuildMacros.Splicer

/-! ## Section 2: The two marks -/

/-- **The two readings of a mark.** Where the pass finds a mark, the loader finds it too, except
    for `Lazy` before anything else than a capital letter. -/
theorem afterLazy?_of_afterMark? {cs rest : List Char} (h : afterMark? cs = some rest) :
    afterLazy? cs = some rest ∨
      afterLazy? cs = none ∧ cs = "Lazy".toList ++ rest ∧ rest.head?.any Char.isUpper = false := by
  unfold afterMark? at h
  split at h
  · next rest' hlazy =>
    cases h
    obtain rfl := strip?_eq_some_iff.mp hlazy
    cases hupper : rest.head?.any Char.isUpper with
    | true => exact .inl (by simp [afterLazy?, strip?, hupper])
    | false => exact .inr ⟨by simp [afterLazy?, strip?, hupper], rfl, rfl⟩
  · left
    unfold afterLazy?
    rw [h]

/-- A name without a mark that the loader knows is taken as it is. -/
theorem parse_of_not_lazy {name : String} (h : afterLazy? name.toList = none) :
    Request.parse name = ⟨false, none, name⟩ := by
  unfold Request.parse
  rw [h]

theorem isLazy_of_afterLazy? {name : String} {rest : List Char}
    (h : afterLazy? name.toList = some rest) : (Request.parse name).isLazy = true := by
  unfold Request.parse
  rw [h]
  dsimp only
  split <;> rfl

/-! ## Section 3: Names and their parts -/

theorem registeredName_ofList {cs : List Char} (h : ∀ c ∈ cs, isNameChar c = true) :
    ComponentRegistry.registeredName (String.ofList cs) = String.ofList (Naming.pascal cs) := by
  have hcased := registeredName_pascal h
  rw [ComponentRegistry.registeredName, Naming.pascalCase, String.toList_ofList,
    String.toList_ofList, Naming.pascal_pascal] at hcased
  rw [ComponentRegistry.registeredName, Naming.pascalCase, String.toList_ofList,
    String.toList_ofList, hcased]

/-- **A name and its end are registered apart**, when a letter is in front. -/
theorem registeredName_append_ne {lead cs : List Char} (h : ∀ c ∈ lead ++ cs, isNameChar c = true)
    (hlead : 0 < lead.countP fun c => !Naming.isSeparator c) :
    ComponentRegistry.registeredName (String.ofList cs) ≠
      ComponentRegistry.registeredName (String.ofList (lead ++ cs)) := by
  have hcs : ∀ c ∈ cs, isNameChar c = true := fun c hc => h c (List.mem_append_right lead hc)
  have hascii : ∀ {ds : List Char}, (∀ d ∈ ds, isNameChar d = true) → ∀ d ∈ ds, d.toNat < 128 :=
    fun hds d hd => (ascii_of_isNameChar (hds d hd)).1
  intro heq
  rw [registeredName_ofList hcs, registeredName_ofList h, String.ofList_inj] at heq
  have hlength := congrArg List.length heq
  rw [Naming.length_pascal_ascii (hascii hcs), Naming.length_pascal_ascii (hascii h),
    List.countP_append] at hlength
  omega

/-! ## Section 4: Components before and after -/

section

variable {r : ComponentRegistry}

/-- The new name finds what the pass looked for: the component of what follows the mark. -/
theorem exists_component?_name {code id : String} {x : Renamed} (h : x ∈ renamed r code id) :
    ∃ rest i, afterMark? x.element.name.toList = some rest ∧
      (∀ c ∈ x.element.name.toList, isNameChar c = true) ∧
      r.find? (String.ofList rest) .client = some i ∧ component? r x.name = some i := by
  obtain ⟨-, template, -, -, he, hname⟩ := mem_renamed_iff.mp h
  obtain ⟨-, rest, strategy, hmark, -, hcontains, hname⟩ := newName?_eq_some_iff.mp hname
  have hchars := isNameChar_of_mem_elements he
  have hrest : ∀ c ∈ rest, isNameChar c = true :=
    fun c hc => hchars c ((suffix_of_afterMark? hmark).subset hc)
  have hregistered := registeredName_ofList hrest
  rw [← hregistered] at hcontains
  obtain ⟨i, -, hfind, -⟩ := ComponentRegistry.exists_find?_client hcontains
  refine ⟨rest, i, hmark, hchars, hfind, ?_⟩
  have hcased := ComponentRegistry.find?_congr (r := r)
    (hregistered.trans (registeredName_pascal hrest).symm) .client
  rw [component?, hname, parse_lazy, map_index_find?]
  dsimp only
  rw [← hcased, hfind, Option.some_or]

/-- **The loader does not know the mark**: it looks for a longer name, which is not what the pass
    looked for. -/
theorem component?_ne_of_not_lazy {name : String} {rest : List Char}
    (hchars : ∀ c ∈ name.toList, isNameChar c = true) (hlazy : afterLazy? name.toList = none)
    (hname : name.toList = "Lazy".toList ++ rest) {i : Nat}
    (hfind : r.find? (String.ofList rest) .client = some i) : component? r name ≠ some i := by
  rw [component?, parse_of_not_lazy hlazy, map_index_find?]
  dsimp only
  rw [Option.bind_none, Option.or_none]
  intro hsame
  rw [hname] at hchars
  refine registeredName_append_ne hchars (by decide) ?_
  rw [← hname, String.ofList_toList]
  exact ComponentRegistry.registeredName_eq_of_find? hfind hsame

/-- **The loader knows the mark**: it finds what the pass looked for, unless the word of a strategy
    comes next and what is left behind the word is a name of its own. -/
theorem component?_eq_iff_of_lazy {name : String} {rest : List Char}
    (hchars : ∀ c ∈ rest, isNameChar c = true) (hlazy : afterLazy? name.toList = some rest)
    {i : Nat} (hfind : r.find? (String.ofList rest) .client = some i) :
    component? r name = some i ↔ ∀ m, (Request.parse name).modifier = some m →
      r.contains (ComponentRegistry.registeredName (Request.parse name).name) = false := by
  rw [component?, map_index_find?]
  unfold Request.parse
  rw [hlazy]
  dsimp only
  cases hmodifier : modifier? rest modifiers with
  | none =>
    dsimp only
    rw [hfind]
    simp
  | some found =>
    obtain ⟨m, plain⟩ := found
    have hrest := append_of_modifier? hmodifier
    dsimp only
    have hwhole : m.word ++ String.ofList plain = String.ofList rest := by
      rw [hrest, String.ofList_append, String.ofList_toList]
    rw [Option.bind_some, hwhole, hfind]
    constructor
    · rintro hsame _ -
      by_contra hcontains
      obtain ⟨j, -, hplain, -⟩ :=
        ComponentRegistry.exists_find?_client (Bool.not_eq_false _ |>.mp hcontains)
      rw [hplain, Option.some_or] at hsame
      cases hsame
      -- the word has letters, so what is left behind it is a shorter name
      have hletters : ∀ entry ∈ modifiers,
          0 < entry.1.toList.countP fun c => !Naming.isSeparator c := by
        decide
      rw [hrest] at hchars
      refine registeredName_append_ne hchars (hletters _ (mem_of_modifier? hmodifier)) ?_
      rw [← hrest]
      exact ComponentRegistry.registeredName_eq_of_find? hplain hfind
    · intro hnone
      rw [ComponentRegistry.find?_client_eq_none_iff.mpr (hnone m rfl), Option.none_or]

end

/-- **When an element keeps its component.** The pass replaces the names of the renamed elements.
    Each of them asked for a lazy component before, except that `Lazy` in a name is no mark to the
    loader before anything else than a capital letter. Its new name finds a component in the
    client. Its old name finds the same one exactly if it asked for a lazy component and, where a
    strategy was read off it, no component is registered under what was left. -/
theorem component?_eq_iff (r : ComponentRegistry) (sourcemap : Bool) (code id : String) :
    hydrate r sourcemap code id =
        .ok ((run code ((renamed r code id).flatMap Renamed.calls)).output id sourcemap) ∧
      ∀ x ∈ renamed r code id,
        ((Request.parse x.element.name).isLazy = false ↔
          ∃ rest, x.element.name = "Lazy" ++ rest ∧ rest.toList.head?.any Char.isUpper = false) ∧
        (component? r x.name).isSome = true ∧
        (component? r x.element.name = component? r x.name ↔
          (Request.parse x.element.name).isLazy = true ∧
            ∀ m, (Request.parse x.element.name).modifier = some m →
              r.contains (ComponentRegistry.registeredName (Request.parse x.element.name).name)
                = false) := by
  refine ⟨hydrate_eq r sourcemap code id, fun x h => ?_⟩
  obtain ⟨rest, i, hmark, hchars, hfind, hname⟩ := exists_component?_name h
  rw [hname]
  rcases afterLazy?_of_afterMark? hmark with hlazy | ⟨hlazy, helement, hupper⟩
  · have hrest : ∀ c ∈ rest, isNameChar c = true :=
      fun c hc => hchars c ((suffix_of_afterMark? hmark).subset hc)
    have hasks := isLazy_of_afterLazy? hlazy
    refine ⟨⟨fun hnot => ?_, ?_⟩, rfl, ?_⟩
    · rw [hasks] at hnot
      cases hnot
    -- a name with a capital letter behind the mark has no other reading
    · rintro ⟨other, helement, hupper⟩
      rw [helement, String.toList_append] at hlazy
      simp [afterLazy?, strip?, hupper] at hlazy
    · rw [component?_eq_iff_of_lazy hrest hlazy hfind, hasks]
      simp only [true_and]
  · have hparse := parse_of_not_lazy hlazy
    have hother := component?_ne_of_not_lazy hchars hlazy helement hfind
    rw [hparse]
    refine ⟨⟨fun _ => ⟨String.ofList rest, ?_, ?_⟩, fun _ => rfl⟩, rfl, ?_⟩
    · rw [← String.toList_inj, helement, String.toList_append]
      exact congrArg _ String.toList_ofList.symm
    · rw [String.toList_ofList, hupper]
    · exact ⟨fun hsame => absurd hsame hother, fun hasks => by cases hasks.1⟩

/-- A component that is named after one of the strategies. -/
def idleRegistry : ComponentRegistry :=
  .ofList [⟨"IdleFoo", "/c/IdleFoo.vue", .all, defaultExport, 0, false⟩]

/-- A file that states another strategy for it. -/
def idleFile : String := "<template><LazyIdleFoo hydrate-on-visible /></template>"

/-- The word of a strategy belongs to the name, and nothing is registered behind it. -/
theorem component?_eq_iff_idle :
    ∃ x ∈ renamed idleRegistry idleFile "/app.vue", x.element.name = "LazyIdleFoo" ∧
      x.name = "LazyVisibleIdleFoo" ∧
      component? idleRegistry x.element.name = component? idleRegistry x.name := by
  have hnames : (renamed idleRegistry idleFile "/app.vue").map (fun x => (x.element.name, x.name)) =
      [("LazyIdleFoo", "LazyVisibleIdleFoo")] := by
    decide +kernel
  obtain ⟨x, hx, hname⟩ : ∃ x ∈ renamed idleRegistry idleFile "/app.vue",
      (x.element.name, x.name) = ("LazyIdleFoo", "LazyVisibleIdleFoo") := by
    rw [← List.mem_map, hnames]
    exact List.mem_singleton.mpr rfl
  obtain ⟨helement, hname⟩ := Prod.mk.inj hname
  obtain ⟨-, hall⟩ := component?_eq_iff idleRegistry false idleFile "/app.vue"
  obtain ⟨-, -, hsame⟩ := hall x hx
  refine ⟨x, hx, helement, hname, hsame.mpr ?_⟩
  rw [helement]
  exact ⟨by decide +kernel, fun _ _ => by decide +kernel⟩

/-- One component, with a short name. -/
def loadRegistry : ComponentRegistry :=
  .ofList [⟨"Load", "/c/Load.vue", .all, defaultExport, 0, false⟩]

/-- A file that asks for something else, which is not lazy. -/
def loadFile : String := "<template><Lazyload hydrate-on-idle /></template>"

/-- Two components; the name of one is the word of a strategy and the name of the other. -/
def pairRegistry : ComponentRegistry :=
  .ofList [⟨"Foo", "/c/Foo.vue", .all, defaultExport, 0, false⟩,
    ⟨"IdleFoo", "/c/IdleFoo.vue", .all, defaultExport, 0, false⟩]

/-- **Two elements whose components change.** The first one asked for no lazy component and found
    none; renamed, it finds one. The second one asked for `Foo` with a strategy; renamed, it finds
    `IdleFoo`. -/
theorem components_changed :
    ((renamed loadRegistry loadFile "/app.vue").map fun x => (x.element.name, x.name)) =
        [("Lazyload", "LazyIdleLoad")] ∧
      (Request.parse "Lazyload").isLazy = false ∧
      component? loadRegistry "Lazyload" = none ∧
      component? loadRegistry "LazyIdleLoad" = some 0 ∧
    ((renamed pairRegistry idleFile "/app.vue").map fun x => (x.element.name, x.name)) =
        [("LazyIdleFoo", "LazyVisibleIdleFoo")] ∧
      component? pairRegistry "LazyIdleFoo" = some 0 ∧
      component? pairRegistry "LazyVisibleIdleFoo" = some 1 := by
  decide +kernel

end Template

end BuildMacros
