import BuildMacros.Proofs.Components.InFront
import BuildMacros.Proofs.Registry.Choice

/-! # Components of the other bundle

    A bundle can use components of its own mode and those for all modes. The registry
    prefers them. Failing that, the client asks the server to render a component, and the
    server renders a placeholder. That is what bridges are for, and what `KeepsMode` says
    of one answer.

    Which component answers a call is chosen for a bundle (`Chosen`), but in which form is
    decided without it: a component that only the server has is always asked of the server
    (`Form.of_eq_bridged_iff`). In the client this is a component that could not be used
    otherwise. The server could use it, and still asks itself for it
    (`keepsMode_iff`, `server_asks_itself`).
-/

namespace BuildMacros.Components

open BuildMacros.ComponentRegistry BuildMacros.Script BuildMacros.Splicer

/-! ## Section 1: The component for a request -/

/-- The name that a request is looked up by: its plain name, or the one with the modifier in front
    if the plain name finds nothing. -/
def lookupName (r : ComponentRegistry) (bundle : Bundle) (raw : String) : String :=
  let q := Request.parse raw
  match r.find? q.name bundle, q.modifier with
  | none, some m => registeredName (m.word ++ q.name)
  | _, _ => registeredName q.name

/-- The component that answers a request is a right choice for the name that it is looked up by. -/
theorem chosen_of_target? {r : ComponentRegistry} {bundle : Bundle} {name : String} {t : Target}
    (h : target? r bundle name = some t) :
    Chosen r bundle (lookupName r bundle name) t.component := by
  unfold target? at h
  dsimp only at h
  obtain ⟨found, hfound, h⟩ := Option.bind_eq_some_iff.mp h
  obtain ⟨component, hcomponent, rfl⟩ := Option.map_eq_some_iff.mp h
  unfold Components.find? at hfound
  unfold lookupName
  dsimp only
  split at hfound
  · next i hplain =>
    cases hfound
    rw [hplain]
    exact chosen_of_find? hplain hcomponent
  · next hplain =>
    rw [hplain]
    split at hfound
    · next m hmodifier =>
      rw [hmodifier]
      obtain ⟨i, hwhole, rfl⟩ := Option.map_eq_some_iff.mp hfound
      exact chosen_of_find? hwhole hcomponent
    · cases hfound

/-! ## Section 2: What a form makes of a component -/

/-- Only the server has the component: it is no raw one, and the client has none of the name. -/
def ServerOnly (r : ComponentRegistry) (c : Component) : Prop :=
  c.raw = false ∧ c.mode = .server ∧ r.hasVariant c.pascalName .client = false

/-- The client cannot use what only the server has. -/
theorem ServerOnly.not_accepted {r : ComponentRegistry} {c : Component} (h : ServerOnly r c) :
    Bundle.client.accepts c.mode = false := by
  rw [h.2.1]
  rfl

/-- **The form knows no bundle**: what only the server has is asked of the server. -/
theorem Form.of_eq_bridged_iff {r : ComponentRegistry} {c : Component} {q : Request}
    {isPlain : Bool} : Form.of r c q isPlain = .bridged ↔ ServerOnly r c := by
  have hcond : (!c.raw && c.mode == .server && !r.hasVariant c.pascalName .client) = true ↔
      ServerOnly r c := by
    simp [ServerOnly, and_assoc]
  rw [← hcond]
  unfold Form.of
  dsimp only
  constructor
  · intro h
    by_contra hnot
    rw [if_neg hnot] at h
    -- none of the other branches gives this form
    repeat' split at h
    all_goals cases h
  · intro h
    rw [if_pos h]

/-- The name is bound to what the server renders for the name of a component. -/
def AsksServer (lines : List String) (rendered x : String) : Prop :=
  constLine x ("createServerComponent(" ++ literal rendered ++ ")") ∈ lines

/-- The name is bound to a component from a file: to what is imported from it, to that in the
    wrapper of the client, or to what loads it with an `import` in an expression. -/
inductive LoadedFrom (lines : List String) (path : String) : String → Prop where
  | imported {exported x : String} (h : importLine path exported x ∈ lines) :
      LoadedFrom lines path x
  | wrapped {x y : String} (inner : LoadedFrom lines path y)
      (h : constLine x ("createClientOnly(" ++ y ++ ")") ∈ lines) : LoadedFrom lines path x
  | whenNeeded {x before after : String} (hbefore : '"' ∉ before.toList)
      (h : constLine x (before ++ ("import(" ++ literal path) ++ after) ∈ lines) :
      LoadedFrom lines path x

theorem LoadedFrom.mono {lines lines' : List String} {path x : String}
    (h : LoadedFrom lines path x) (hsub : ∀ l ∈ lines, l ∈ lines') : LoadedFrom lines' path x := by
  induction h with
  | imported h => exact .imported (hsub _ h)
  | wrapped _ h ih => exact .wrapped ih (hsub _ h)
  | whenNeeded hbefore h => exact .whenNeeded hbefore (hsub _ h)

/-- What a form loads when it is needed comes from the component's file. -/
theorem loadedFrom_of_loading {lines : List String} {c : Component} {x before after : String}
    (hbefore : '"' ∉ before.toList) (h : constLine x (before ++ loading c ++ after) ∈ lines) :
    LoadedFrom lines c.filePath x := by
  have hloading : loading c = "() => " ++ "import(" ++ literal c.filePath ++ ").then(c => c." ++
      c.exportName ++ " || c)" := rfl
  have hvalue : before ++ loading c ++ after = (before ++ "() => ") ++
      ("import(" ++ literal c.filePath) ++
        (").then(c => c." ++ c.exportName ++ " || c)" ++ after) := by
    rw [hloading]
    simp only [String.append_assoc]
  rw [hvalue] at h
  apply LoadedFrom.whenNeeded _ h
  simp [hbefore]

namespace Form

/-- No quote is in the name of a function that hydrates components. -/
theorem quote_not_mem_helper {strategy : Strategy} {helper mark : String}
    (h : strategy.helper? = some (helper, mark)) : '"' ∉ helper.toList := by
  cases strategy <;> simp [Strategy.helper?] at h <;> rw [← h.1] <;> decide

/-- **Every other form loads the component** from its own file. -/
theorem loadedFrom {f : Form} (h : f ≠ .bridged) (o : LoaderOptions) (base : String)
    (c : Component) :
    LoadedFrom (f.bind o base c).lines c.filePath (f.bind o base c).identifier := by
  cases f with
  | bridged => exact absurd rfl h
  | direct =>
    have hline : importLine c.filePath (if c.raw then "default" else c.exportName) base ∈
        (direct.bind o base c).lines := by
      simp [bind, isClientOnly]
    exact .imported hline
  | clientOnly =>
    have himport : importLine c.filePath c.exportName (base ++ "_client") ∈
        (clientOnly.bind o base c).lines := by
      simp [bind, isClientOnly]
    have hwrap : constLine (base ++ "_client" ++ "_wrapped")
        ("createClientOnly(" ++ (base ++ "_client") ++ ")") ∈
          (clientOnly.bind o base c).lines := by
      simp [bind, isClientOnly]
    exact .wrapped (.imported himport) hwrap
  | deferred client =>
    have hline : constLine ((deferred client).bind o base c).identifier
        ("__defineAsyncComponent(" ++ loading c ++
          ((if client then ".then(c => createClientOnly(c))" else "") ++ ")")) ∈
            ((deferred client).bind o base c).lines := by
      simp [bind, String.append_assoc]
    exact loadedFrom_of_loading (by decide) hline
  | hydrated strategy client =>
    cases hhelper : strategy.helper? with
    | none =>
      have hline : constLine ((hydrated strategy client).bind o base c).identifier
          (r"__defineAsyncComponent({loader: " ++ loading c ++
            r", hydrate: () => {}})") ∈
              ((hydrated strategy client).bind o base c).lines := by
        simp [bind, hhelper]
      exact loadedFrom_of_loading (by decide) hline
    | some x =>
      obtain ⟨helper, mark⟩ := x
      have hquote := quote_not_mem_helper hhelper
      have hline : constLine ((hydrated strategy client).bind o base c).identifier
          (helper ++ "(" ++ loading c ++ ")") ∈
            ((hydrated strategy client).bind o base c).lines := by
        simp [bind, hhelper]
      exact loadedFrom_of_loading (by simpa using hquote) hline

end Form

/-- The form of a component that only the server has asks the server for it. -/
theorem asksServer_bridged (o : LoaderOptions) (base : String) (c : Component) :
    AsksServer (Form.bridged.bind o base c).lines c.pascalName base := by
  simp [AsksServer, Form.bind]

theorem constLine_inj {x value value' : String} (h : constLine x value = constLine x value') :
    value = value' := by
  unfold constLine at h
  exact (String.append_right_inj _).mp h

theorem constLine_ne_importLine {x value source exported name : String} :
    constLine x value ≠ importLine source exported name := by
  intro h
  have hlines := congrArg String.toList h
  rw [toList_importLine] at hlines
  simp [constLine] at hlines

/-- What asks the server wraps nothing. -/
theorem asking_ne_wrapping (rendered y : String) :
    "createServerComponent(" ++ literal rendered ++ ")" ≠ "createClientOnly(" ++ y ++ ")" := by
  intro h
  have hchars := congrArg String.toList h
  simp at hchars

/-- What asks the server loads nothing: `import` is not the last word in front of its first
    quote. -/
theorem asking_ne_loading {rendered before path after : String} (hbefore : '"' ∉ before.toList) :
    "createServerComponent(" ++ literal rendered ++ ")" ≠
      before ++ ("import(" ++ literal path) ++ after := by
  intro h
  have hchars := congrArg String.toList h
  -- both texts are cut off at their first quote
  have hfront : "createServerComponent(".toList = before.toList ++ "import(".toList := by
    apply eq_of_append_char (a := '"') (by decide) (by simp [hbefore])
    simpa only [String.toList_append, toList_literal, List.append_assoc, List.cons_append]
      using hchars
  have hsuffix : "import(".toList <:+ "createServerComponent(".toList := by
    rw [hfront]
    exact List.suffix_append _ _
  exact absurd hsuffix (by decide)

/-! ## Section 3: The answers of a file -/

section

variable {r : ComponentRegistry} {o : LoaderOptions} {calls : List ResolveCall} {t : Target}
  {x path : String}

/-- No name of a file is bound to a file's component and to what the server renders. -/
theorem not_asksServer_of_loadedFrom (hown : IsOwn x) (hblank : ' ' ∉ x.toList)
    (hload : LoadedFrom (answerAll r o .empty calls).1.lines path x) (rendered : String) :
    ¬AsksServer (answerAll r o .empty calls).1.lines rendered x := by
  intro hask
  -- the lines would be one line
  cases hload with
  | imported h =>
    have hsame := line_eq_of_binds hask h (by simpa) (by simpa) hown
    exact constLine_ne_importLine hsame
  | wrapped _ h =>
    have hsame := line_eq_of_binds hask h (by simpa) (by simpa) hown
    exact asking_ne_wrapping _ _ (constLine_inj hsame)
  | whenNeeded hbefore h =>
    have hsame := line_eq_of_binds hask h (by simpa) (by simpa) hown
    exact asking_ne_loading hbefore (constLine_inj hsame)

/-- **How an answer is bound**: to what the server renders if only the server has the component, and
    else to the component from its file. -/
theorem binding_of_mem_targets (ht : t ∈ targets r o.bundle calls) :
    let lines := (answerAll r o .empty calls).1.lines
    let x := t.identifier (t.number (targets r o.bundle calls))
    (ServerOnly r t.component → AsksServer lines t.component.pascalName x) ∧
      (¬ServerOnly r t.component → LoadedFrom lines t.component.filePath x) := by
  intro lines x
  obtain ⟨c, -, hc⟩ := exists_call_of_mem_targets ht
  obtain ⟨-, q, isPlain, hform⟩ := target?_eq_some hc
  -- whatever binds the target alone binds it among the lines of the file
  have hlines : ∀ l ∈ t.lines o (t.number (targets r o.bundle calls)), l ∈ lines := by
    intro l hl
    show l ∈ (answerAll r o .empty calls).1.lines
    rw [answerAll_empty]
    exact List.mem_eraseDups.mpr (List.mem_flatMap.mpr ⟨t, ht, hl⟩)
  have hx : x = (t.form.bind o (numbered (t.number (targets r o.bundle calls)))
      t.component).identifier := (Form.bind_identifier o _ t.component t.form).symm
  have hbridged : t.form = .bridged ↔ ServerOnly r t.component := by
    rw [hform]
    exact Form.of_eq_bridged_iff
  constructor
  · intro honly
    apply hlines
    have hasks := asksServer_bridged o (numbered (t.number (targets r o.bundle calls))) t.component
    rw [Target.lines, hbridged.mpr honly, hx, hbridged.mpr honly]
    exact hasks
  · intro hnot
    have hloaded := Form.loadedFrom (fun h => hnot (hbridged.mp h)) o
      (numbered (t.number (targets r o.bundle calls))) t.component
    rw [← hx] at hloaded
    exact hloaded.mono hlines

end

/-- One answer keeps the bundles apart: a name of which the bundle can use a component is bound to
    such a component from its file; the server is asked by the client alone, and only for a name
    of which it can use no component; another component takes the place of one only if the bundle
    can use none of the name, and it is the placeholder. -/
structure KeepsMode (r : ComponentRegistry) (bundle : Bundle) (name : String) (c : Component)
    (lines : List String) (x : String) : Prop where
  loaded : (∃ d, Usable r bundle name d) →
    ∃ d, Usable r bundle name d ∧ LoadedFrom lines d.filePath x
  asked : ∀ rendered, AsksServer lines rendered x →
    bundle = .client ∧ ¬∃ d, Usable r bundle name d
  replaced : c.pascalName ≠ name →
    c.pascalName = "ServerPlaceholder" ∧ ¬∃ d, Usable r bundle name d

/-- **When an answer keeps the bundles apart**, given how it is bound. -/
theorem keepsMode_iff_of_chosen {r : ComponentRegistry} {bundle : Bundle} {name x : String}
    {c : Component} {lines : List String} (h : Chosen r bundle name c)
    (hasked : ServerOnly r c → AsksServer lines c.pascalName x)
    (hloaded : ¬ServerOnly r c → LoadedFrom lines c.filePath x)
    (hapart : ∀ path, LoadedFrom lines path x → ∀ rendered, ¬AsksServer lines rendered x) :
    KeepsMode r bundle name c lines x ↔ ¬(bundle = .server ∧ ServerOnly r c) := by
  constructor
  · intro hkeeps hboth
    obtain ⟨hserver, honly⟩ := hboth
    have hclient := (hkeeps.asked c.pascalName (hasked honly)).1
    simp [hserver] at hclient
  · intro hnot
    -- what only the server has is asked for by the client, which can use nothing of the name
    have honly : ServerOnly r c → bundle = .client ∧ ¬∃ d, Usable r bundle name d := by
      intro honly
      have hclient : bundle = .client := by
        cases bundle with
        | client => rfl
        | server => exact absurd ⟨rfl, honly⟩ hnot
      refine ⟨hclient, ?_⟩
      intro hsome
      have haccepted := (h.usable hsome).accepted
      rw [hclient, honly.not_accepted] at haccepted
      simp at haccepted
    refine ⟨?_, ?_, fun hname => h.replaced hname⟩
    · intro hsome
      have hnotOnly : ¬ServerOnly r c := fun hc => (honly hc).2 hsome
      exact ⟨c, h.usable hsome, hloaded hnotOnly⟩
    · intro rendered hasks
      apply honly
      by_contra hnotOnly
      exact hapart _ (hloaded hnotOnly) rendered hasks

/-- A file that is loaded with changes has its calls replaced by their answers. -/
theorem exists_splicer_of_load {r : ComponentRegistry} {o : LoaderOptions} {code id text : String}
    {map : Option SourceMap} (h : load r o code id = .ok (.edited text map)) :
    ∃ (m : Module) (s : Splicer), Module.parse code id = .ok m ∧ s.Sound ∧ s.source = code ∧
      s.finish = text ∧ s.intro = (answerAll r o .empty (resolveCalls m)).1.text ∧
      s.edits = (answerAll r o .empty (resolveCalls m)).2.map fun a =>
        ⟨m.inFile a.span.start, m.inFile a.span.stop, a.identifier⟩ := by
  obtain ⟨hword, m, hparse⟩ := exists_parse_of_load h
  -- loading has not failed, so no replacement was refused
  have hmade := h
  unfold load at hmade
  rw [hword, hparse] at hmade
  obtain ⟨s, hs, -⟩ := exists_of_bind_eq_ok
    (show ((answerAll r o .empty (resolveCalls m)).2.foldlM (fun (s : Splicer) c =>
      s.overwrite (m.inFile c.span.start) (m.inFile c.span.stop) c.identifier) (new code) >>=
        fun s => _) = _ from hmade)
  obtain ⟨s, hload, hsound, hsource, hintro, hedits⟩ := load_of_foldlM hparse hword hs
  rw [hload] at h
  exact ⟨m, s, hparse, hsound, hsource, (finish_of_output_eq (Except.ok.inj h)).2, hintro, hedits⟩

/-- **Which bundles are kept apart.** When loading changes a file, its text gets the lines in front
    and the answers in place of the calls. Each call is answered by the component that is chosen
    for its name. The identifier of the answer is bound to what the server renders exactly if only
    the server has the component, and to the component from its file otherwise. So the bundles are
    kept apart in the client always, and in the server unless only the server has the
    component. -/
theorem keepsMode_iff {r : ComponentRegistry} {o : LoaderOptions} {code id text : String}
    {map : Option SourceMap} (hload : load r o code id = .ok (.edited text map)) :
    ∃ (m : Module) (s : Splicer), Module.parse code id = .ok m ∧ s.Sound ∧ s.source = code ∧
      s.finish = text ∧
      let answers := answerAll r o .empty (resolveCalls m)
      s.intro = answers.1.text ∧
        (s.edits = answers.2.map fun a =>
          ⟨m.inFile a.span.start, m.inFile a.span.stop, a.identifier⟩) ∧
        ∀ a ∈ answers.2, ∃ call ∈ resolveCalls m, ∃ t, call.span = a.span ∧
          target? r o.bundle call.name = some t ∧
          let name := lookupName r o.bundle call.name
          Chosen r o.bundle name t.component ∧
            (AsksServer answers.1.lines t.component.pascalName a.identifier ↔
              ServerOnly r t.component) ∧
            (LoadedFrom answers.1.lines t.component.filePath a.identifier ↔
              ¬ServerOnly r t.component) ∧
            (KeepsMode r o.bundle name t.component answers.1.lines a.identifier ↔
              ¬(o.bundle = .server ∧ ServerOnly r t.component)) := by
  obtain ⟨m, s, hparse, hsound, hsource, hfinish, hintro, hedits⟩ := exists_splicer_of_load hload
  refine ⟨m, s, hparse, hsound, hsource, hfinish, ?_⟩
  intro answers
  refine ⟨hintro, hedits, ?_⟩
  intro a ha
  have hreplaced := ha
  rw [show answers = answerAll r o .empty (resolveCalls m) from rfl, answerAll_empty] at hreplaced
  obtain ⟨call, hcall, hanswer⟩ := List.mem_filterMap.mp hreplaced
  obtain ⟨t, ht, rfl⟩ := Option.map_eq_some_iff.mp hanswer
  have hmem : t ∈ targets r o.bundle (resolveCalls m) := List.mem_filterMap.mpr ⟨call, hcall, ht⟩
  obtain ⟨hasked, hloaded⟩ := binding_of_mem_targets (o := o) hmem
  have hchosen := chosen_of_target? ht
  obtain ⟨hown, l, ⟨-, hbinds⟩, -⟩ := existsUnique_line ha
  have hapart : ∀ path, LoadedFrom answers.1.lines path (t.identifier (t.number
      (targets r o.bundle (resolveCalls m)))) → ∀ rendered, ¬AsksServer answers.1.lines rendered
        (t.identifier (t.number (targets r o.bundle (resolveCalls m)))) :=
    fun path => not_asksServer_of_loadedFrom hown hbinds.1
  refine ⟨call, hcall, t, rfl, ht, hchosen, ?_, ?_, ?_⟩
  · refine ⟨?_, hasked⟩
    intro hasks
    by_contra hnot
    exact hapart _ (hloaded hnot) _ hasks
  · refine ⟨?_, hloaded⟩
    intro hloads honly
    exact hapart _ hloads _ (hasked honly)
  · exact keepsMode_iff_of_chosen hchosen hasked hloaded hapart

/-- A component that only the server has. -/
def island : Component := ⟨"Foo", "/c/Foo.server.vue", .server, defaultExport, 0, false⟩

/-- The registry of that component. -/
def islandRegistry : ComponentRegistry := .ofList [island]

/-- A file that asks for it. -/
def islandCode : String := "const x = resolveComponent(\"Foo\")\n"

/-- That file after loading, in any bundle. -/
def islandLoaded : String :=
  "import { createServerComponent } from \"#app/components/nuxt-island\"\n" ++
    "const __nuxt_component_0 = createServerComponent(\"Foo\")\nconst x = __nuxt_component_0\n"

/-- In the client the answer keeps the bundles apart. -/
theorem keepsMode_iff_island :
    load islandRegistry (.new .client) islandCode "/app/a.tsx" = .ok (.edited islandLoaded none) ∧
      ∃ m, Module.parse islandCode "/app/a.tsx" = .ok m ∧
        let answers := answerAll islandRegistry (.new .client) .empty (resolveCalls m)
        ∀ a ∈ answers.2, ∃ call ∈ resolveCalls m, ∃ t : Target, call.span = a.span ∧
          KeepsMode islandRegistry .client (lookupName islandRegistry .client call.name)
            t.component answers.1.lines a.identifier := by
  have hload : load islandRegistry (.new .client) islandCode "/app/a.tsx" =
      .ok (.edited islandLoaded none) :=
    eq_ok_of_toOption (by decide +kernel)
  obtain ⟨m, s, hparse, -, -, -, -, -, hanswers⟩ := keepsMode_iff hload
  refine ⟨hload, m, hparse, ?_⟩
  intro answers a ha
  obtain ⟨call, hcall, t, hspan, -, -, -, -, hkeeps⟩ := hanswers a ha
  refine ⟨call, hcall, t, hspan, hkeeps.mpr ?_⟩
  intro ⟨hserver, _⟩
  cases hserver

/-- **The server asks itself** for a component that it could import: the bundle of the server can
    use the component, but the identifier is bound to what the server renders on request. -/
theorem server_asks_itself :
    Usable islandRegistry .server "Foo" island ∧
      load islandRegistry (.new .server) islandCode "/app/a.tsx" =
        .ok (.edited islandLoaded none) ∧
      ∃ m, Module.parse islandCode "/app/a.tsx" = .ok m ∧
        let answers := answerAll islandRegistry (.new .server) .empty (resolveCalls m)
        ⟨⟨10, 33⟩, "__nuxt_component_0"⟩ ∈ answers.2 ∧
          ¬KeepsMode islandRegistry .server "Foo" island answers.1.lines "__nuxt_component_0" := by
  have hfile : ((Module.parse islandCode "/app/a.tsx").toOption.any fun m =>
      let answers := answerAll islandRegistry (.new .server) .empty (resolveCalls m)
      decide (⟨⟨10, 33⟩, "__nuxt_component_0"⟩ ∈ answers.2 ∧
        constLine "__nuxt_component_0" "createServerComponent(\"Foo\")" ∈ answers.1.lines)) =
        true := by
    decide +kernel
  obtain ⟨m, hparse, hfile⟩ := (Option.any_eq_true _ _).mp hfile
  obtain ⟨hanswer, hline⟩ := of_decide_eq_true hfile
  refine ⟨⟨by decide +kernel, rfl, rfl⟩, eq_ok_of_toOption (by decide +kernel), m,
    eq_ok_of_toOption hparse, hanswer, ?_⟩
  intro hkeeps
  have hclient := (hkeeps.asked "Foo" hline).1
  cases hclient

end BuildMacros.Components
