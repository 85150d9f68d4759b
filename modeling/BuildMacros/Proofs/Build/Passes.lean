import BuildMacros.Proofs.Build.Phases
import BuildMacros.Proofs.Factories.Redirection
import BuildMacros.Proofs.Template.Hydration

/-! # A file goes through all passes or through none

    The passes over a file run one after the other, each on the text that the one before
    it left. A build collects text and maps on the way in a `Draft`; here the same run is
    told without one. Either all passes succeed, and there are the steps that they took
    (`Completes`), or some pass fails after others have succeeded (`Breaks`).

    A pass that succeeds has spliced its text (`Pass.Splices`), so a map that it makes has
    this text as its source. From step to step the maps of a file therefore fit together:
    what one of them calls its source is what the one before it describes.
-/

namespace BuildMacros

open BuildMacros.Splicer

/-! ## Section 1: Runs of passes -/

/-- One pass at work: the text that it is given, and what it answers. -/
structure Step where
  before : String
  out : Output

namespace Step

/-- The text after the pass. -/
def after (s : Step) : String := s.out.codeOr s.before

/-- The steps that changed the text. -/
def rewrites (steps : List Step) : List Step := steps.filter fun s => s.out.isChanged

/-- The maps that were made, in the order of the steps. -/
def maps (steps : List Step) : List SourceMap := steps.filterMap fun s => s.out.map?

end Step

/-- All passes succeed in turn, in the given steps, and leave a final text. -/
inductive Completes (id : String) : List Pass → String → List Step → String → Prop where
  | done (code : String) : Completes id [] code [] code
  | pass {p : Pass} {ps : List Pass} {code final : String} {out : Output} {steps : List Step}
      (hpass : p code id = .ok out) (hrest : Completes id ps (out.codeOr code) steps final) :
      Completes id (p :: ps) code (⟨code, out⟩ :: steps) final

theorem Completes.pass_to {id : String} {p : Pass} {ps : List Pass} {code next final : String}
    {out : Output} {steps : List Step} (hpass : p code id = .ok out)
    (hafter : out.codeOr code = next) (hrest : Completes id ps next steps final) :
    Completes id (p :: ps) code (⟨code, out⟩ :: steps) final :=
  .pass hpass (hafter.symm ▸ hrest)

/-- Some pass fails, and all passes before it succeed. -/
inductive Breaks (id : String) : List Pass → String → Failure → Prop where
  | here {p : Pass} {ps : List Pass} {code : String} {f : Failure} (hpass : p code id = .error f) :
      Breaks id (p :: ps) code f
  | later {p : Pass} {ps : List Pass} {code : String} {out : Output} {f : Failure}
      (hpass : p code id = .ok out) (hrest : Breaks id ps (out.codeOr code) f) :
      Breaks id (p :: ps) code f

/-- There is no third way through a row of passes. -/
theorem breaks_or_completes (id : String) (ps : List Pass) (code : String) :
    (∃ f, Breaks id ps code f) ∨ ∃ steps final, Completes id ps code steps final := by
  induction ps generalizing code with
  | nil => exact .inr ⟨[], code, .done code⟩
  | cons p ps ih =>
    cases hpass : p code id with
    | error f => exact .inl ⟨f, .here hpass⟩
    | ok out =>
      rcases ih (out.codeOr code) with ⟨f, hrest⟩ | ⟨steps, final, hrest⟩
      · exact .inl ⟨f, .later hpass hrest⟩
      · exact .inr ⟨_, final, .pass hpass hrest⟩

theorem Draft.after_eq (d : Draft) (out : Output) :
    d.after out = ⟨out.codeOr d.code, d.maps ++ out.map?.toList⟩ := by
  cases out with
  | unchanged =>
    show d = ⟨d.code, d.maps ++ []⟩
    rw [List.append_nil]
  | edited code map => rfl

/-- A draft goes through all passes and collects the maps of their steps. -/
theorem Completes.run_eq {id : String} {ps : List Pass} {code final : String} {steps : List Step}
    (h : Completes id ps code steps final) (maps : List SourceMap) :
    Draft.run id ps ⟨code, maps⟩ = .ok ⟨final, maps ++ Step.maps steps⟩ := by
  induction h generalizing maps with
  | done code =>
    show Except.ok _ = Except.ok (Draft.mk code (maps ++ []))
    rw [List.append_nil]
  | @pass p ps code final out steps hpass _ ih =>
    have hmaps : Step.maps (⟨code, out⟩ :: steps) = out.map?.toList ++ Step.maps steps := by
      unfold Step.maps
      cases hmap : out.map? with
      | none => exact List.filterMap_cons_none hmap
      | some map => exact List.filterMap_cons_some hmap
    have hstep : Draft.run id (p :: ps) ⟨code, maps⟩ =
        Draft.run id ps (Draft.after ⟨code, maps⟩ out) := by
      simp only [Draft.run, hpass]
      rfl
    rw [hstep, Draft.after_eq, ih, hmaps, List.append_assoc]

/-- A draft ends with the failure of the pass that fails. -/
theorem Breaks.run_eq {id : String} {ps : List Pass} {code : String} {f : Failure}
    (h : Breaks id ps code f) (maps : List SourceMap) :
    Draft.run id ps ⟨code, maps⟩ = .error f := by
  induction h generalizing maps with
  | here hpass =>
    simp only [Draft.run, hpass]
    rfl
  | @later p ps code out f hpass _ ih =>
    have hstep : Draft.run id (p :: ps) ⟨code, maps⟩ =
        Draft.run id ps (Draft.after ⟨code, maps⟩ out) := by
      simp only [Draft.run, hpass]
      rfl
    rw [hstep, Draft.after_eq]
    exact ih _

/-- **Rewriting steps follow on one another**: the first one is given the text of the file, every
    later one what the rewriting step before it wrote. -/
theorem Completes.map_before {id : String} {ps : List Pass} {code final : String}
    {steps : List Step} (h : Completes id ps code steps final) :
    (Step.rewrites steps).map Step.before =
      (code :: (Step.rewrites steps).map Step.after).dropLast := by
  induction h with
  | done code => rfl
  | @pass p ps code final out steps hpass _ ih =>
    cases out with
    | unchanged =>
      -- the step drops out of the list, and the text stays as it was
      exact ih
    | edited text map =>
      show code :: (Step.rewrites steps).map Step.before =
        (code :: text :: (Step.rewrites steps).map Step.after).dropLast
      rw [List.dropLast_cons_cons]
      exact congrArg (code :: ·) ih

/-! ## Section 2: What a pass answers -/

/-- When the pass succeeds, it answers with edits of the text that it was given, and with their map
    when maps are made. -/
def Pass.Splices (p : Pass) (maps : Bool) : Prop :=
  ∀ code id out, p code id = .ok out → ∃ s : Splicer, s.source = code ∧ out = s.output id maps

theorem source_of_call? {s t : Splicer} {c : Call} (h : s.call? c = .ok t) :
    t.source = s.source := by
  rw [← call_of_ok h]
  exact source_call s c

/-- Edits made one after another leave the source alone when each of them does. -/
theorem source_of_foldlM {α : Type} {step : Splicer → α → Except Failure Splicer}
    (hstep : ∀ s a t, step s a = .ok t → t.source = s.source) {as : List α} {s t : Splicer}
    (h : as.foldlM step s = .ok t) : t.source = s.source := by
  induction as generalizing s with
  | nil =>
    cases h
    rfl
  | cons a as ih =>
    rw [List.foldlM_cons] at h
    obtain ⟨u, ha, hrest⟩ := exists_of_bind_eq_ok h
    rw [ih hrest]
    exact hstep s a u ha

/-- A step with a map tells the map's source and nothing else about it. -/
theorem Pass.Splices.sourcesContent {p : Pass} (h : p.Splices true) {code id : String}
    {out : Output} (hpass : p code id = .ok out) (hchanged : out.isChanged = true) :
    ∃ map, out.map? = some map ∧ map.sourcesContent = [code] := by
  obtain ⟨s, rfl, rfl⟩ := h code id out hpass
  unfold output at hchanged ⊢
  by_cases hs : s.hasChanged = true
  · rw [if_pos hs]
    exact ⟨s.generateMap id, rfl, rfl⟩
  · rw [if_neg hs] at hchanged
    cases hchanged

/-- **One map for each rewriting step**, in the order of the steps, and each with the text that its
    step was given as its source. -/
theorem Completes.forall₂_maps {id : String} {ps : List Pass} {code final : String}
    {steps : List Step} (h : Completes id ps code steps final) (hps : ∀ p ∈ ps, p.Splices true) :
    List.Forall₂ (fun s map => s.out.map? = some map ∧ map.sourcesContent = [s.before])
      (Step.rewrites steps) (Step.maps steps) := by
  induction h with
  | done code => exact .nil
  | @pass p ps code final out steps hpass _ ih =>
    have hrest := ih fun q hq => hps q (List.mem_cons_of_mem _ hq)
    cases hout : out with
    | unchanged => exact hrest
    | edited text map? =>
      have hsource := (hps p List.mem_cons_self).sourcesContent hpass (by rw [hout]; rfl)
      obtain ⟨map, hmap, hcontent⟩ := hsource
      rw [hout] at hmap
      cases hmap
      exact .cons ⟨rfl, hcontent⟩ hrest

theorem map_sourcesContent_of_forall₂ {steps : List Step} {maps : List SourceMap}
    (h : List.Forall₂ (fun s map => s.out.map? = some map ∧ map.sourcesContent = [s.before])
      steps maps) :
    maps.map SourceMap.sourcesContent = steps.map fun s => [s.before] := by
  induction h with
  | nil => rfl
  | cons hmap _ ih => rw [List.map_cons, List.map_cons, hmap.2, ih]

/-! ## Section 3: The four passes -/

theorem Template.splices_hydrate (r : ComponentRegistry) (maps : Bool) :
    Pass.Splices (Template.hydrate r maps) maps := by
  intro code id out h
  rw [Template.hydrate_eq] at h
  cases h
  exact ⟨_, source_foldl_call _ _, rfl⟩

theorem Factories.splices_redirectFactories (r : FactoryRegistry) (o : TransformOptions) :
    Pass.Splices (Factories.redirectFactories r o) o.sourcemap := by
  intro code id out h
  unfold Factories.redirectFactories at h
  obtain ⟨found, -, h⟩ := exists_of_bind_eq_ok h
  cases found with
  | none =>
    cases h
    exact ⟨new code, rfl, rfl⟩
  | some found =>
    obtain ⟨m, calls⟩ := found
    obtain ⟨s, hs, h⟩ := exists_of_bind_eq_ok h
    cases h
    -- redirections are overwrites and insertions, one after another
    rw [Factories.redirectAll_eq] at hs
    exact ⟨s, source_of_foldlM (fun _ _ _ => source_of_call?) hs, rfl⟩

theorem Keys.splices_inject (r : KeyedRegistry) (o : TransformOptions) :
    Pass.Splices (Keys.inject r o) o.sourcemap := by
  intro code id out h
  unfold Keys.inject at h
  split at h
  · cases h
    exact ⟨new code, rfl, rfl⟩
  · obtain ⟨m, -, h⟩ := exists_of_bind_eq_ok h
    obtain ⟨s, hs, h⟩ := exists_of_bind_eq_ok h
    cases h
    exact ⟨s, source_of_foldlM (fun s x t hx => source_of_call? (c := .insert x.1 x.2) hx) hs, rfl⟩

theorem Components.splices_load (r : ComponentRegistry) (o : LoaderOptions) :
    Pass.Splices (Components.load r o) o.sourcemap := by
  intro code id out h
  unfold Components.load at h
  split at h
  · cases h
    exact ⟨new code, rfl, rfl⟩
  · obtain ⟨m, -, h⟩ := exists_of_bind_eq_ok h
    obtain ⟨s, hs, h⟩ := exists_of_bind_eq_ok h
    cases h
    have hsource : s.source = code := source_of_foldlM
      (fun s x t hx => source_of_call?
        (c := .overwrite (m.inFile x.span.start) (m.inFile x.span.stop) x.identifier) hx) hs
    -- lines in front are part of the edits, not of the source
    refine ⟨_, ?_, rfl⟩
    split
    · exact hsource
    · exact hsource

namespace SealedBuild

/-- **The passes over a file**, in their order: hydration when components are registered, factories
    and keys always, and the loading of components when the build has a loader and the file asks
    the runtime for components. -/
theorem passes_eq (b : SealedBuild) (id : String) :
    b.passes id =
      (if b.components.components = [] then []
        else [Template.hydrate b.components b.options.sourcemap]) ++
      Factories.redirectFactories b.factories b.options :: Keys.inject b.keyed b.options ::
      ((b.loader.filter fun _ => Script.shouldResolveComponents id).map
        (Components.load b.components)).toList := by
  have hhydration : b.hydration = if b.components.components = [] then []
      else [Template.hydrate b.components b.options.sourcemap] := by
    unfold hydration
    simp only [List.isEmpty_iff]
  have hloading : b.loading id = ((b.loader.filter fun _ =>
      Script.shouldResolveComponents id).map (Components.load b.components)).toList := by
    unfold loading
    cases b.loader with
    | none => rfl
    | some o => cases Script.shouldResolveComponents id <;> rfl
  rw [passes, hhydration, hloading, List.append_assoc, List.cons_append, List.cons_append,
    List.nil_append]

/-- A build that makes maps makes them in every pass: three passes look at the options of the build,
    the one that loads components at options of its own. -/
theorem splices_of_mem_passes {b : SealedBuild} {id : String} (hmaps : b.options.sourcemap = true)
    (hloader : ∀ o, b.loader = some o → o.sourcemap = true) :
    ∀ p ∈ b.passes id, p.Splices true := by
  intro p hp
  rw [passes_eq, List.mem_append, List.mem_cons, List.mem_cons] at hp
  rcases hp with hp | rfl | rfl | hp
  · split at hp
    · cases hp
    · rw [List.mem_singleton.mp hp, hmaps]
      exact Template.splices_hydrate b.components true
  · exact hmaps ▸ Factories.splices_redirectFactories b.factories b.options
  · exact hmaps ▸ Keys.splices_inject b.keyed b.options
  · obtain ⟨o, ho, rfl⟩ := Option.map_eq_some_iff.mp (Option.mem_toList.mp hp)
    rw [← hloader o (Option.filter_eq_some_iff.mp ho).1]
    exact Components.splices_load b.components o

/-! ## Section 4: One file -/

/-- What a file has become that went through all passes. -/
def settled (code id : String) (steps : List Step) (final : String) : FileOutput :=
  if Step.maps steps = [] ∧ final = code then .unchanged id
  else ⟨id, some final, Step.maps steps, none⟩

theorem runPasses_of_completes {b : SealedBuild} {code id final : String} {steps : List Step}
    (h : Completes id (b.passes id) code steps final) :
    b.runPasses code id = .ok (settled code id steps final) := by
  have hrun := h.run_eq []
  rw [List.nil_append] at hrun
  unfold runPasses settled
  rw [hrun]
  by_cases hsame : Step.maps steps = [] ∧ final = code
  · rw [if_pos hsame]
    simp [hsame.1, hsame.2, bind, Except.bind, pure, Except.pure]
  · rw [if_neg hsame]
    simp [hsame, bind, Except.bind, pure, Except.pure]

theorem runPasses_of_breaks {b : SealedBuild} {code id : String} {f : Failure}
    (h : Breaks id (b.passes id) code f) : b.runPasses code id = .error f := by
  unfold runPasses
  rw [h.run_eq []]
  rfl

/-- What a transformation reports is never that a script does not parse. -/
theorem isRecoverable_of_orSkip {α : Type} {skipped : α} {r : Except Failure α} {f : Failure}
    (h : Failure.orSkip skipped r = .error f) : f.isRecoverable = false := by
  unfold Failure.orSkip at h
  split at h
  · cases h
  · split at h
    · cases h
    · next hf =>
      cases h
      exact Bool.not_eq_true _ ▸ hf

/-- **All passes or none.** The passes are hydration, factories, keys and components, in this order;
    the first one is for builds with components, and the last one for builds that load components
    and files that ask for them. A transformation never fails because a script does not parse. A
    file that no pass looks at is left as it is. Any other file either goes through all of its
    passes, and its text is what they make of it one after the other, or some pass fails, and then
    the file is left as it is, whatever the passes before have made of it, or the failure is
    reported. When maps are made, a file has a map for each step that rewrote it, in the order of
    the steps: the source of the first one is the file, and the source of every later one is what
    the rewriting step before it wrote. -/
theorem transform_all_or_nothing (b : SealedBuild) (code id : String)
    (hid : Script.isMacroRequest id = false) :
    b.passes id =
        (if b.components.components = [] then []
          else [Template.hydrate b.components b.options.sourcemap]) ++
        Factories.redirectFactories b.factories b.options :: Keys.inject b.keyed b.options ::
        ((b.loader.filter fun _ => Script.shouldResolveComponents id).map
          (Components.load b.components)).toList ∧
      (∀ f, b.transform code id = .error f → f.isRecoverable = false) ∧
      (Script.shouldTransform id = false → b.transform code id = .ok (.unchanged id)) ∧
      (Script.shouldTransform id = true →
        (∀ f, Breaks id (b.passes id) code f →
          b.transform code id = if f.isRecoverable then .ok (.unchanged id) else .error f) ∧
        (∀ steps final, Completes id (b.passes id) code steps final →
          b.transform code id = .ok (settled code id steps final) ∧
          (b.options.sourcemap = true → (∀ o, b.loader = some o → o.sourcemap = true) →
            List.Forall₂ (fun s map => s.out.map? = some map ∧ map.sourcesContent = [s.before])
              (Step.rewrites steps) (Step.maps steps) ∧
            (Step.rewrites steps).map Step.before =
              (code :: (Step.rewrites steps).map Step.after).dropLast)) ∧
        ((∃ f, Breaks id (b.passes id) code f) ∨
          ∃ steps final, Completes id (b.passes id) code steps final)) := by
  have hskipped : Script.shouldTransform id = false →
      b.transform code id = .ok (.unchanged id) := by
    intro hlooked
    simp only [transform, hid, hlooked, Bool.false_eq_true, if_false]
  have htransform : Script.shouldTransform id = true →
      b.transform code id = Failure.orSkip (.unchanged id) (b.runPasses code id) := by
    intro hlooked
    simp only [transform, hid, hlooked, Bool.false_eq_true, if_false, if_true]
  -- from here on the transformation is the run of the passes, with parse failures skipped
  refine ⟨b.passes_eq id, fun f hf => ?_, hskipped, fun hlooked => ⟨fun f hbreaks => ?_,
    fun steps final hcompletes => ⟨?_, fun hmaps hloader => ?_⟩, breaks_or_completes _ _ _⟩⟩
  · by_cases hlooked : Script.shouldTransform id = true
    · rw [htransform hlooked] at hf
      exact isRecoverable_of_orSkip hf
    · rw [hskipped (Bool.not_eq_true _ ▸ hlooked)] at hf
      cases hf
  · rw [htransform hlooked, runPasses_of_breaks hbreaks]
    rfl
  · rw [htransform hlooked, runPasses_of_completes hcompletes]
    rfl
  · exact ⟨hcompletes.forall₂_maps (splices_of_mem_passes hmaps hloader), hcompletes.map_before⟩

/-- A build that makes maps, with a component, and a factory and a keyed function that are imported
    automatically. -/
def mappedBuild : SealedBuild :=
  let options : TransformOptions :=
    ⟨some "/", .empty, ⟨[("m", "#"), ("u", "#")], by decide +kernel⟩, true, "f"⟩
  ⟨options, some { LoaderOptions.new .client with sourcemap := true }, ⟨false⟩,
    .ofEntries (Build.aliases options) [⟨"m", "#", 3⟩],
    .ofList [⟨"A", "/A", .all, defaultExport, 0, false⟩],
    ⟨[(("u", "#"), ⟨"u", "u", some "#", 3⟩)], [], [], []⟩⟩

/-- A file with something for every pass: the tag of a component, how a function is made, how
    another one is used, and what the runtime is asked for. -/
def mappedCode (tag made used asked : String) : String :=
  "<template><" ++ tag ++ " hydrateWhen></template><script>export let a=" ++ made ++ ";" ++
    used ++ ";" ++ asked ++ "</script>"

/-- The text of the file after a number of passes. -/
def mappedText : Nat → String
  | 0 => mappedCode "LazyA" "m()" "u()" "resolveComponent('A')"
  | 1 => mappedCode "LazyIfA" "m()" "u()" "resolveComponent('A')"
  | 2 => mappedCode "LazyIfA" "m.f()" "u()" "resolveComponent('A')"
  | 3 => mappedCode "LazyIfA" "m.f()" "u('$73e45fabee')" "resolveComponent('A')"
  | _ =>
    "import { default as __nuxt_component_0 } from \"/A\"\n" ++
      mappedCode "LazyIfA" "m.f()" "u('$73e45fabee')" "__nuxt_component_0"

/-- The pass rewrites one text of the file to another. -/
def Rewrites (p : Pass) (before after : String) : Prop :=
  ∃ out, p before "/a.vue" = .ok out ∧ out.isChanged = true ∧ out.codeOr before = after

theorem rewrites_of_any {p : Pass} {before after : String}
    (h : ((p before "/a.vue").toOption.any fun out =>
      out.isChanged && decide (out.codeOr before = after)) = true) : Rewrites p before after := by
  obtain ⟨out, hout, hlook⟩ := exists_ok_of_any h
  rw [Bool.and_eq_true, decide_eq_true_iff] at hlook
  exact ⟨out, hout, hlook⟩

/-- Every pass rewrites the file as the passes before it left it. -/
theorem rewrites_mapped :
    Rewrites (Template.hydrate mappedBuild.components true) (mappedText 0) (mappedText 1) ∧
      Rewrites (Factories.redirectFactories mappedBuild.factories mappedBuild.options)
        (mappedText 1) (mappedText 2) ∧
      Rewrites (Keys.inject mappedBuild.keyed mappedBuild.options)
        (mappedText 2) (mappedText 3) ∧
      Rewrites (Components.load mappedBuild.components
        { LoaderOptions.new .client with sourcemap := true }) (mappedText 3) (mappedText 4) := by
  refine ⟨rewrites_of_any ?_, rewrites_of_any ?_, rewrites_of_any ?_, rewrites_of_any ?_⟩ <;>
    decide +kernel

/-- The file goes through all four passes, and each of them rewrites it. It has four maps, and each
    of them describes what the pass before it wrote. -/
theorem transform_all_or_nothing_mapped :
    Script.isMacroRequest "/a.vue" = false ∧ Script.shouldTransform "/a.vue" = true ∧
      ∃ steps, Completes "/a.vue" (mappedBuild.passes "/a.vue") (mappedText 0) steps
          (mappedText 4) ∧
        mappedBuild.transform (mappedText 0) "/a.vue" =
          .ok (settled (mappedText 0) "/a.vue" steps (mappedText 4)) ∧
        (Step.maps steps).map SourceMap.sourcesContent =
          [[mappedText 0], [mappedText 1], [mappedText 2], [mappedText 3]] ∧
        List.Forall₂ (fun s map => s.out.map? = some map ∧ map.sourcesContent = [s.before])
          (Step.rewrites steps) (Step.maps steps) ∧
        (Step.rewrites steps).map Step.before =
          (mappedText 0 :: (Step.rewrites steps).map Step.after).dropLast := by
  have hid : Script.isMacroRequest "/a.vue" = false := by decide
  have hlooked : Script.shouldTransform "/a.vue" = true := by decide
  obtain ⟨hpasses, -, -, htransform⟩ :=
    transform_all_or_nothing mappedBuild (mappedText 0) "/a.vue" hid
  obtain ⟨⟨out₀, hout₀, hchanged₀, hafter₀⟩, ⟨out₁, hout₁, hchanged₁, hafter₁⟩,
    ⟨out₂, hout₂, hchanged₂, hafter₂⟩, ⟨out₃, hout₃, hchanged₃, hafter₃⟩⟩ := rewrites_mapped
  have hsteps : Completes "/a.vue" (mappedBuild.passes "/a.vue") (mappedText 0)
      [⟨mappedText 0, out₀⟩, ⟨mappedText 1, out₁⟩, ⟨mappedText 2, out₂⟩, ⟨mappedText 3, out₃⟩]
      (mappedText 4) := by
    rw [hpasses]
    exact .pass_to hout₀ hafter₀ (.pass_to hout₁ hafter₁ (.pass_to hout₂ hafter₂
      (.pass_to hout₃ hafter₃ (.done (mappedText 4)))))
  obtain ⟨-, hcompletes, -⟩ := htransform hlooked
  obtain ⟨hresult, hmaps⟩ := hcompletes _ _ hsteps
  obtain ⟨hforall, hbefore⟩ := hmaps rfl (by rintro _ ⟨⟩; rfl)
  refine ⟨hid, hlooked, _, hsteps, hresult, ?_, hforall, hbefore⟩
  -- every step made a map, whose source is the text that the step was given
  have hrewrites : Step.rewrites [⟨mappedText 0, out₀⟩, ⟨mappedText 1, out₁⟩,
      ⟨mappedText 2, out₂⟩, ⟨mappedText 3, out₃⟩] = [⟨mappedText 0, out₀⟩, ⟨mappedText 1, out₁⟩,
      ⟨mappedText 2, out₂⟩, ⟨mappedText 3, out₃⟩] := by
    simp only [Step.rewrites, List.filter_cons, hchanged₀, hchanged₁, hchanged₂, hchanged₃,
      if_true, List.filter_nil]
  rw [hrewrites] at hforall
  rw [map_sourcesContent_of_forall₂ hforall]
  rfl

end SealedBuild

end BuildMacros
