import BuildMacros.Proofs.Components.Nesting
import BuildMacros.Proofs.Script.Weaving
import BuildMacros.Proofs.Splice.Embedding

/-! # Lines in front of a file

    When a file is loaded, two things are put into its text. The calls that ask for
    components are replaced by identifiers, in the script. The lines that bind the
    identifiers come in front of the file.

    A file that is one module gets the lines in front of its first statement. But the
    script of a component stands behind its opening tag, and the lines are put in front of
    the tag. They are no part of the script then, which uses identifiers that it does not
    bind (`lines_in_front`, `script_without_binding`).
-/

namespace BuildMacros

open BuildMacros.Text

/-! ## Section 1: Blocks behind their tags -/

namespace Script

/-- Every block stands behind its opening tag. -/
theorem lt_offset_of_mem_blocksFrom {fuel pos : Nat} {cs : List Char} {b : Block}
    (hb : b ∈ blocksFrom fuel pos cs) : pos < b.offset := by
  induction fuel generalizing pos cs with
  | zero => simp [blocksFrom] at hb
  | succ fuel ih =>
    cases cs with
    | nil => simp [blocksFrom] at hb
    | cons c cs =>
      rw [blocksFrom] at hb
      cases hblock : blockAt (c :: cs) with
      | some e =>
        obtain ⟨opening, hne, hcs, -, -⟩ := exists_opening hblock
        have hpos := byteLength_pos_of_ne_nil hne
        have hlength := congrArg byteLength hcs
        rw [byteLength_append] at hlength
        simp only [hblock] at hb
        rcases List.mem_cons.mp hb with rfl | hb
        · show pos < pos + (byteLength (c :: cs) - byteLength e.body)
          omega
        · have hlater := ih hb
          omega
      | none =>
        simp only [hblock] at hb
        have hlater := ih hb
        omega

/-- What is parsed begins behind the beginning of the file exactly if the file is a component with a
    block. -/
theorem offset_locate_pos_iff (code id : String) :
    0 < (locate code id).offset ↔ isVue id = true ∧ blocks code ≠ [] := by
  rw [locate_eq]
  by_cases hvue : isVue id = true
  · rw [if_pos hvue]
    cases hblocks : blocks code with
    | nil => simp
    | cons b bs =>
      have hb : b ∈ blocks code := by
        rw [hblocks]
        exact List.mem_cons_self
      have hpos := lt_offset_of_mem_blocksFrom hb
      simp [hvue, hpos]
  · rw [if_neg hvue]
    simp [hvue]

end Script

namespace Components

open BuildMacros.Script BuildMacros.Splicer

/-! ## Section 2: The script with its replacements -/

/-- The script of a module, with replacements made in it and nothing else. -/
def replacing (m : Module) (replaced : List Replacement) : Splicer :=
  ⟨m.block.content, "", replaced.map fun a => ⟨a.span.start, a.span.stop, a.identifier⟩⟩

/-- In the file the replacements are made behind what stands before the script. -/
theorem embed_replacing {code : String} {m : Module} {before after : List Char}
    (hcode : code.toList = before ++ (m.block.content.toList ++ after))
    (hoffset : byteLength before = m.block.offset) (replaced : List Replacement) :
    (replacing m replaced).embed before after = ⟨code, "", replaced.map fun a =>
      ⟨m.inFile a.span.start, m.inFile a.span.stop, a.identifier⟩⟩ := by
  have hmoved : (Edit.moved (byteLength before)) ∘
      (fun a : Replacement => (⟨a.span.start, a.span.stop, a.identifier⟩ : Edit)) =
        fun a => ⟨m.inFile a.span.start, m.inFile a.span.stop, a.identifier⟩ := by
    rw [hoffset]
    rfl
  rw [embed, replacing, List.map_map, hmoved, ← hcode, String.ofList_toList]

/-- What is put in front comes before the edited text. -/
theorem finish_intro (s : Splicer) (text : String) (hintro : s.intro = "") :
    ({ s with intro := text } : Splicer).finish = text ++ s.finish := by
  rw [finish, finish, hintro, String.empty_append]
  rfl

section

variable {m : Module} (hscopes : m.scopes = .collect m.program) (hspans : m.Spanned)
  (r : ComponentRegistry) (o : LoaderOptions)

include hscopes hspans

/-- The replacements of a script are ranges of it, one behind the other. -/
theorem sound_replacing : (replacing m (answerAll r o .empty (resolveCalls m)).2).Sound := by
  obtain ⟨hranges, hpair⟩ := resolveCalls_spec hscopes hspans
  have hsub := sublist_answerAll r o .empty (resolveCalls m)
  have hplace : ∀ a ∈ (answerAll r o .empty (resolveCalls m)).2, a.span.start < a.span.stop ∧
      IsRange m.block.content.toList a.span.start a.span.stop := by
    intro a ha
    obtain ⟨c, hc, hspan⟩ := List.mem_map.mp (hsub.subset (List.mem_map_of_mem ha))
    rw [← hspan]
    exact hranges c hc
  constructor
  · intro e he
    obtain ⟨a, ha, rfl⟩ := List.mem_map.mp he
    exact (hplace a ha).2
  · have hordered : ((answerAll r o .empty (resolveCalls m)).2.map Replacement.span).Pairwise
        fun a b => a.stop ≤ b.start := (List.pairwise_map.mpr hpair).sublist hsub
    rw [replacing, List.pairwise_map]
    refine (List.pairwise_map.mp hordered).imp_of_mem ?_
    intro a b ha hb hab
    have hlt := (hplace a ha).1
    have hlt' := (hplace b hb).1
    have hinsert : (a.span.start == a.span.stop) = false := by
      rw [beq_eq_false_iff_ne]
      omega
    have hinsert' : (b.span.start == b.span.stop) = false := by
      rw [beq_eq_false_iff_ne]
      omega
    simp [Edit.conflicts, Edit.isInsert, hinsert, hinsert']
    omega

end

/-- What takes the place of a call is a name of the file's own, bound by exactly one line. -/
theorem existsUnique_line {r : ComponentRegistry} {o : LoaderOptions} {calls : List ResolveCall}
    {a : Replacement} (ha : a ∈ (answerAll r o .empty calls).2) :
    IsOwn a.identifier ∧
      ∃! l, l ∈ (answerAll r o .empty calls).1.lines ∧ Binds l a.identifier := by
  have hreplaced := ha
  rw [answerAll_empty] at hreplaced
  obtain ⟨c, hc, hreplaced⟩ := List.mem_filterMap.mp hreplaced
  obtain ⟨t, ht, rfl⟩ := Option.map_eq_some_iff.mp hreplaced
  have hmem : t ∈ targets r o.bundle calls := List.mem_filterMap.mpr ⟨c, hc, ht⟩
  obtain ⟨l, hl, hbinds⟩ :=
    exists_line_of_identifier (o := o) (t.number (targets r o.bundle calls)) t
  have hown := isOwn_numbered_append (t.number (targets r o.bundle calls)) t.form.mark
  have hline : l ∈ (answerAll r o .empty calls).1.lines := by
    rw [answerAll_empty]
    exact List.mem_eraseDups.mpr (List.mem_flatMap.mpr ⟨t, hmem, hl⟩)
  refine ⟨hown, l, ⟨hline, hbinds⟩, ?_⟩
  intro l' ⟨hl', hbinds'⟩
  exact line_eq_of_binds hl' hline hbinds' hbinds hown

/-- Without replacements there are no lines. -/
theorem text_eq_of_replaced_eq_nil {r : ComponentRegistry} {o : LoaderOptions}
    {calls : List ResolveCall} (h : (answerAll r o .empty calls).2 = []) :
    (answerAll r o .empty calls).1.text = "" := by
  rw [answerAll_empty] at h ⊢
  have htargets : targets r o.bundle calls = [] := by
    rw [targets, List.filterMap_eq_nil_iff]
    intro c hc
    have hnone := List.filterMap_eq_nil_iff.mp h c hc
    exact Option.map_eq_none_iff.mp hnone
  rw [htargets]
  rfl

/-! ## Section 3: The file -/

/-- A file that is loaded with changes was parsed. -/
theorem exists_parse_of_load {r : ComponentRegistry} {o : LoaderOptions} {code id text : String}
    {map : Option SourceMap} (h : load r o code id = .ok (.edited text map)) :
    Text.contains "resolveComponent".toList code.toList = true ∧
      ∃ m, Module.parse code id = .ok m := by
  unfold load at h
  by_cases hword : Text.contains "resolveComponent".toList code.toList = true
  · rw [hword] at h
    obtain ⟨m, hm, -⟩ := exists_of_bind_eq_ok h
    exact ⟨hword, m, hm⟩
  · rw [Bool.not_eq_true] at hword
    rw [hword] at h
    cases h

/-- **Where the lines stand.** Whatever the file, the registry and the options: when loading changes
    the file, the new text is the lines, and behind them the file with nothing changed but the
    calls in its script that are replaced. Every identifier in the place of a call is bound by
    exactly one of the lines. What stands between the lines and the script is what stood before
    the script in the file; it is empty exactly if the file is no component with a block of its
    own. In a component with a block the lines are outside of the script. -/
theorem lines_in_front {r : ComponentRegistry} {o : LoaderOptions} {code id text : String}
    {map : Option SourceMap} (hspans : ∀ m, Module.parse code id = .ok m → m.Spanned)
    (hload : load r o code id = .ok (.edited text map)) :
    ∃ m before after, Module.parse code id = .ok m ∧
      code.toList = before ++ (m.block.content.toList ++ after) ∧
      byteLength before = m.block.offset ∧
      (before ≠ [] ↔ isVue id = true ∧ blocks code ≠ []) ∧
      let answers := answerAll r o .empty (resolveCalls m)
      answers.2 ≠ [] ∧ (replacing m answers.2).Sound ∧
        (∀ a ∈ answers.2, IsOwn a.identifier ∧
          ∃! l, l ∈ answers.1.lines ∧ Binds l a.identifier) ∧
        text.toList = (answers.1.lines.flatMap fun l => l.toList ++ ['\n']) ++
          (before ++ ((replacing m answers.2).finish.toList ++ after)) := by
  obtain ⟨hword, m, hparse⟩ := exists_parse_of_load hload
  obtain ⟨hblock, hscopes⟩ := Module.parse_eq_ok hparse
  obtain ⟨before, after, hcode, hoffset, -, -⟩ := exists_surroundings code id
  rw [← hblock] at hcode hoffset
  refine ⟨m, before, after, hparse, hcode, hoffset, ?_, ?_⟩
  · rw [← offset_locate_pos_iff, ← hblock, ← hoffset]
    constructor
    · exact byteLength_pos_of_ne_nil
    · intro hpos hnil
      rw [hnil] at hpos
      exact absurd hpos (Nat.lt_irrefl _)
  intro answers
  obtain ⟨s, hs, -, hsource, hintro, hedits⟩ := load_eq hparse (hspans m hparse) hword r o
  have hsound := sound_replacing hscopes (hspans m hparse) r o
  -- the splicer of the file is that of the script, with the lines in front
  have hwhole : s =
      { (replacing m answers.2).embed before after with intro := answers.1.text } := by
    rw [embed_replacing hcode hoffset, ← hsource, ← hintro, ← hedits]
  rw [hs] at hload
  obtain ⟨hchanged, htext⟩ := finish_of_output_eq (Except.ok.inj hload)
  refine ⟨?_, hsound, fun a ha => existsUnique_line ha, ?_⟩
  · intro hnil
    rw [hasChanged, hintro, hedits, text_eq_of_replaced_eq_nil hnil, hnil, List.map_nil] at hchanged
    exact absurd hchanged (by decide)
  · have hlines : answers.1.text.toList = answers.1.lines.flatMap fun l => l.toList ++ ['\n'] := by
      rw [Prelude.text, String.toList_join, List.flatMap_map]
      simp
    rw [← htext, hwhole, finish_intro _ _ rfl, String.toList_append, hlines,
      finish_embed hsound rfl]

/-- A component whose script asks for a registered component. -/
def panelCode : String :=
  "<p>text</p>\n<script>const x = resolveComponent(\"Chart\")</script>\n"

/-- That component after loading. -/
def panelLoaded : String :=
  "import { default as __nuxt_component_0 } from \"/c/Chart.vue\"\n" ++
    "<p>text</p>\n<script>const x = __nuxt_component_0</script>\n"

/-- The line of that component stands in front of the template, the call behind it. -/
theorem lines_in_front_panel :
    ∃ m before after, Module.parse panelCode "/app/a.vue" = .ok m ∧ m.Spanned ∧
      load chartRegistry (.new .client) panelCode "/app/a.vue" = .ok (.edited panelLoaded none) ∧
      byteLength before = 20 ∧
      panelLoaded.toList =
        ((answerAll chartRegistry (.new .client) .empty (resolveCalls m)).1.lines.flatMap
          fun l => l.toList ++ ['\n']) ++ (before ++ ((replacing m
            (answerAll chartRegistry (.new .client) .empty (resolveCalls m)).2).finish.toList ++
              after)) := by
  have hfile : ((Module.parse panelCode "/app/a.vue").toOption.any fun m =>
      decide (m.Spanned ∧ m.block.offset = 20)) = true := by
    decide +kernel
  obtain ⟨m, hparse, hfile⟩ := (Option.any_eq_true _ _).mp hfile
  obtain ⟨hspans, hoffset⟩ := of_decide_eq_true hfile
  have hparse := eq_ok_of_toOption hparse
  have hload : load chartRegistry (.new .client) panelCode "/app/a.vue" =
      .ok (.edited panelLoaded none) :=
    eq_ok_of_toOption (by decide +kernel)
  have hsame : ∀ m', Module.parse panelCode "/app/a.vue" = .ok m' → m' = m := by
    intro m' hm'
    rw [hparse] at hm'
    exact (Except.ok.inj hm').symm
  obtain ⟨m', before, after, hm', -, hbefore, -, -, -, -, htext⟩ :=
    lines_in_front (fun m' hm' => hsame m' hm' ▸ hspans) hload
  obtain rfl := hsame m' hm'
  exact ⟨m', before, after, hparse, hspans, hload, hbefore.trans hoffset, htext⟩

/-- **A script that does not bind what it uses**: the component is loaded, but the identifier in the
    place of the call refers to nothing in the script, and the line that binds it has become a
    part of the template. -/
theorem script_without_binding :
    load chartRegistry (.new .client) panelCode "/app/a.vue" = .ok (.edited panelLoaded none) ∧
      ((Module.parse panelLoaded "/app/a.vue").toOption.map fun m =>
        (m.block.content, (PageMeta.references m).map fun x => (m.textAt x.span, x.declaration))) =
        some ("const x = __nuxt_component_0", [("__nuxt_component_0", none)]) :=
  ⟨eq_ok_of_toOption (by decide +kernel), by decide +kernel⟩

end Components

end BuildMacros
