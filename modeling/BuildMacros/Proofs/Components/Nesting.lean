import BuildMacros.Proofs.Components.Reaching
import Mathlib.Data.List.Pairwise

/-! # Calls inside of calls

    A call that asks for a component may stand inside of another one. Not both of them can
    be replaced, because the edits would overlap. Which of them are left out is decided
    when the calls are collected, before any of them is looked up: all that lie inside of
    an earlier one.

    So a call is replaced exactly if its component is found and no other call around it
    asks for one, whether that one is replaced or not (`replaced_iff`). A call inside of a
    replaced one is rightly left out. But a call for a component that nobody has registered
    stays as it is, and keeps all calls inside of it from being replaced.
-/

namespace BuildMacros.Components

open BuildMacros.Text BuildMacros.Script BuildMacros.Splicer

/-! ## Section 1: Calls that are left out -/

/-- A call is left out because it begins before the end of what is kept already, or because a call
    that is kept lies around it. -/
theorem exists_outermost {cs : List ResolveCall} {c : ResolveCall} {lastEnd : Nat}
    (horder : cs.Pairwise fun a b => a.span.Precedes b.span) (hc : c ∈ cs) :
    c.span.start < lastEnd ∨ ∃ d ∈ outermost lastEnd cs, d.span.contains c.span = true := by
  induction cs generalizing lastEnd with
  | nil => cases hc
  | cons a cs ih =>
    obtain ⟨hfirst, hrest⟩ := List.pairwise_cons.mp horder
    rw [outermost]
    by_cases hkept : lastEnd ≤ a.span.start
    · rw [if_pos hkept]
      right
      rcases List.mem_cons.mp hc with rfl | hmem
      · exact ⟨c, List.mem_cons_self, Span.contains_iff.mpr ⟨Nat.le_refl _, Nat.le_refl _⟩⟩
      · have hlater : c.span.start < a.span.stop ∨
            ∃ d ∈ outermost a.span.stop cs, d.span.contains c.span = true := ih hrest hmem
        rcases hlater with hbefore | ⟨d, hd, haround⟩
        -- what begins before the end of a kept call, and behind its start, lies inside of it
        · refine ⟨a, List.mem_cons_self, Span.contains_iff.mpr ?_⟩
          have hprecedes := hfirst c hmem
          unfold Span.Precedes at hprecedes
          omega
        · exact ⟨d, List.mem_cons_of_mem a hd, haround⟩
    · rw [if_neg hkept]
      rcases List.mem_cons.mp hc with rfl | hmem
      · left
        omega
      · exact ih hrest hmem

/-- Leaving calls out keeps the order of the others. -/
theorem outermost_sublist (lastEnd : Nat) (cs : List ResolveCall) :
    (outermost lastEnd cs).Sublist cs := by
  induction cs generalizing lastEnd with
  | nil => exact List.Sublist.slnil
  | cons c cs ih =>
    rw [outermost]
    by_cases hkept : lastEnd ≤ c.span.start
    · rw [if_pos hkept]
      exact (ih _).cons_cons c
    · rw [if_neg hkept]
      exact (ih _).cons c

/-- The calls that ask for components come in the order of the text. -/
theorem precedes_asked {p : Program} (h : p.CallsInOrder) :
    (p.spots.filterMap (asked? p)).Pairwise fun a b => a.span.Precedes b.span := by
  unfold Program.CallsInOrder Program.nodes at h
  rw [List.pairwise_filter, List.pairwise_map] at h
  rw [List.pairwise_filterMap]
  refine h.imp ?_
  intro x y hxy c hc d hd
  obtain ⟨_, _, _, _, hx⟩ := node_of_asked? hc
  obtain ⟨_, _, _, _, hy⟩ := node_of_asked? hd
  have hspans := hxy (by rw [hx]; rfl) (by rw [hy]; rfl)
  rw [hx, hy] at hspans
  exact hspans

/-- No other call around a span asks for a component. -/
def Outermost (p : Program) (span : Span) : Prop :=
  ∀ y c name, Asks p y c name → c.span.contains span = true → c.span = span

theorem outermost_iff {p : Program} {span : Span} :
    Outermost p span ↔ ∀ d ∈ p.spots.filterMap (asked? p),
      d.span.contains span = true → d.span = span := by
  constructor
  · intro h d hd haround
    obtain ⟨y, hy, hasked⟩ := List.mem_filterMap.mp hd
    obtain ⟨c, hasks, hspan⟩ := exists_asks_of_asked? hy hasked
    rw [← hspan] at haround ⊢
    exact h y c d.name hasks haround
  · intro h y c name hasks haround
    exact h ⟨c.span, name⟩ (List.mem_filterMap.mpr ⟨y, hasks.spot, hasks.asked?⟩) haround

section

variable {code id : String} {m : Module} {x : Spot} {call : StaticCall} {name : String}
  (hparse : Module.parse code id = .ok m) (hspans : m.Spanned) (horder : m.program.CallsInOrder)

include hparse horder

/-- Around every call that asks for a component lies one that is kept. -/
theorem exists_kept_around (hasks : Asks m.program x call name) :
    ∃ d ∈ resolveCalls m, d.span.contains call.span = true := by
  have hmem : ⟨call.span, name⟩ ∈ m.program.spots.filterMap (asked? m.program) :=
    List.mem_filterMap.mpr ⟨x, hasks.spot, hasks.asked?⟩
  rw [resolveCalls_of_parse hparse]
  have hcases : call.span.start < 0 ∨
      ∃ d ∈ outermost 0 (m.program.spots.filterMap (asked? m.program)),
        d.span.contains call.span = true := exists_outermost (precedes_asked horder) hmem
  rcases hcases with hbefore | hkept
  · exact absurd hbefore (Nat.not_lt_zero _)
  · exact hkept

omit horder in
/-- A call that is kept is one that asks for a component. -/
theorem exists_asks_of_mem_resolveCalls {d : ResolveCall} (hd : d ∈ resolveCalls m) :
    ∃ y c, Asks m.program y c d.name ∧ c.span = d.span := by
  rw [resolveCalls_of_parse hparse] at hd
  have hasked : d ∈ m.program.spots.filterMap (asked? m.program) :=
    (outermost_sublist _ _).subset hd
  obtain ⟨y, hy, hasked⟩ := List.mem_filterMap.mp hasked
  obtain ⟨c, hasks, hspan⟩ := exists_asks_of_asked? hy hasked
  exact ⟨y, c, hasks, hspan⟩

include hspans

/-- **Which calls are kept**: those that no other one lies around. -/
theorem mem_resolveCalls_iff (hasks : Asks m.program x call name) :
    ⟨call.span, name⟩ ∈ resolveCalls m ↔ Outermost m.program call.span := by
  constructor
  · intro hmem y c other hother haround
    -- a call that is kept lies around the other one
    obtain ⟨d, hd, hwide⟩ := exists_kept_around hparse horder hother
    rw [Span.contains_iff] at haround hwide
    obtain ⟨hranges, hpair⟩ := resolveCalls_spec (Module.parse_eq_ok hparse).2 hspans
    have hlt := (hranges _ hmem).1
    have hapart : (resolveCalls m).Pairwise fun a b => a.span.Apart b.span :=
      hpair.imp fun h => .inl h
    have hsymm : Std.Symm fun a b : ResolveCall => a.span.Apart b.span := ⟨fun _ _ h => h.symm⟩
    -- and it is the call itself, because kept calls do not overlap
    have hsame : d = ⟨call.span, name⟩ := by
      by_contra hne
      have hd := hapart.forall hd hmem hne
      unfold Span.Apart at hd
      dsimp only at hd hlt
      omega
    rw [hsame] at hwide
    exact congrArg₂ Span.mk (Nat.le_antisymm haround.1 hwide.1)
      (Nat.le_antisymm hwide.2 haround.2)
  · intro hfree
    refine mem_resolveCalls hparse horder hasks.spot hasks.asked? ?_
    intro y hy d hd haround
    exact outermost_iff.mp hfree d (List.mem_filterMap.mpr ⟨y, hy, hd⟩) haround

/-- What stands in the place of a call that asks for a component is that call. -/
theorem eq_of_mem_resolveCalls (hasks : Asks m.program x call name) {d : ResolveCall}
    (hd : d ∈ resolveCalls m) (hspan : d.span = call.span) : d = ⟨call.span, name⟩ := by
  obtain ⟨y, c, hother, hplace⟩ := exists_asks_of_mem_resolveCalls hparse hd
  have hfree : Outermost m.program c.span := by
    apply (mem_resolveCalls_iff hparse hspans horder hother).mp
    rw [hplace]
    exact hd
  rw [hplace, hspan] at hfree
  have hmem := (mem_resolveCalls_iff hparse hspans horder hasks).mpr hfree
  exact eq_of_span_eq hparse hspans hd hmem hspan

/-- **One call**: it is replaced if no other one lies around it and its component is found. -/
theorem mem_replaced_iff (hasks : Asks m.program x call name) (r : ComponentRegistry)
    (o : LoaderOptions) (identifier : String) :
    ⟨call.span, identifier⟩ ∈ (answerAll r o .empty (resolveCalls m)).2 ↔
      Outermost m.program call.span ∧ ∃ t, target? r o.bundle name = some t ∧
        identifier = t.identifier (t.number (targets r o.bundle (resolveCalls m))) := by
  rw [answerAll_empty]
  dsimp only
  rw [List.mem_filterMap]
  constructor
  · intro ⟨d, hd, ha⟩
    obtain ⟨t, ht, ha⟩ := Option.map_eq_some_iff.mp ha
    obtain ⟨hspan, hidentifier⟩ := Replacement.mk.inj ha
    have hsame := eq_of_mem_resolveCalls hparse hspans horder hasks hd hspan
    rw [hsame] at hd ht
    exact ⟨(mem_resolveCalls_iff hparse hspans horder hasks).mp hd, t, ht, hidentifier.symm⟩
  · intro ⟨hfree, t, ht, hidentifier⟩
    refine ⟨_, (mem_resolveCalls_iff hparse hspans horder hasks).mpr hfree, ?_⟩
    rw [ht, hidentifier, Option.map_some]

end

/-! ## Section 2: Calls that are replaced -/

/-- Loading a file whose text does not have the name of the function in it leaves it as it is. -/
theorem load_of_not_contains {r : ComponentRegistry} {o : LoaderOptions} {code id : String}
    (h : Text.contains "resolveComponent".toList code.toList = false) :
    load r o code id = .ok ((new code).output id o.sourcemap) := by
  unfold load
  rw [h]
  rfl

/-- Replacements stand in the file where they stand in the script, moved by its offset. -/
theorem mem_map_inFile {m : Module} {span : Span} {identifier : String}
    {replaced : List Replacement} :
    (⟨m.inFile span.start, m.inFile span.stop, identifier⟩ : Edit) ∈
        (replaced.map fun a => ⟨m.inFile a.span.start, m.inFile a.span.stop, a.identifier⟩) ↔
      ⟨span, identifier⟩ ∈ replaced := by
  constructor
  · intro h
    obtain ⟨a, ha, heq⟩ := List.mem_map.mp h
    obtain ⟨hstart, hstop, hidentifier⟩ := Edit.mk.inj heq
    have hspan : a.span = span :=
      congrArg₂ Span.mk (Nat.add_right_cancel hstart) (Nat.add_right_cancel hstop)
    rw [← hspan, ← hidentifier]
    exact ha
  · intro h
    exact List.mem_map.mpr ⟨_, h, rfl⟩

/-- **Which calls are replaced.** In a file that parses, whose spans are those of its text and whose
    calls are met in order, loading succeeds. A call that asks for a component is replaced by an
    identifier exactly if the component is found, no other call around it asks for one, and the
    text has the name of the function in it, spelled out; the identifier is that of the component
    in its form. So of the calls inside of no call that is replaced, those stay that lie inside of
    a call for a component which is not found. -/
theorem replaced_iff {r : ComponentRegistry} {o : LoaderOptions} {code id : String} {m : Module}
    (hparse : Module.parse code id = .ok m) (hspans : m.Spanned)
    (horder : m.program.CallsInOrder) :
    ∃ s : Splicer, load r o code id = .ok (s.output id o.sourcemap) ∧ s.Sound ∧ s.source = code ∧
      (∀ x call name, Asks m.program x call name → ∀ identifier,
        ⟨m.inFile call.span.start, m.inFile call.span.stop, identifier⟩ ∈ s.edits ↔
          Text.contains "resolveComponent".toList code.toList = true ∧
            Outermost m.program call.span ∧ ∃ t, target? r o.bundle name = some t ∧
              identifier = t.identifier (t.number (targets r o.bundle (resolveCalls m)))) ∧
      ∀ x call name t, Asks m.program x call name → target? r o.bundle name = some t →
        Text.contains "resolveComponent".toList code.toList = true →
        (∀ y other name', Asks m.program y other name' → other.span ≠ call.span →
          other.span.contains call.span = true → ∀ identifier,
            ⟨m.inFile other.span.start, m.inFile other.span.stop, identifier⟩ ∉ s.edits) →
        ((∃ identifier, ⟨m.inFile call.span.start, m.inFile call.span.stop, identifier⟩ ∈ s.edits) ↔
          ∀ y other name', Asks m.program y other name' →
            other.span.contains call.span = true → ∃ t', target? r o.bundle name' = some t') := by
  obtain ⟨s, hload, hsound, hsource, hedits⟩ : ∃ s : Splicer,
      load r o code id = .ok (s.output id o.sourcemap) ∧ s.Sound ∧ s.source = code ∧
        ∀ x call name, Asks m.program x call name → ∀ identifier,
          ⟨m.inFile call.span.start, m.inFile call.span.stop, identifier⟩ ∈ s.edits ↔
            Text.contains "resolveComponent".toList code.toList = true ∧
              Outermost m.program call.span ∧ ∃ t, target? r o.bundle name = some t ∧
                identifier = t.identifier (t.number (targets r o.bundle (resolveCalls m))) := by
    by_cases hword : Text.contains "resolveComponent".toList code.toList = true
    · obtain ⟨s, hload, hsound, hsource, -, hedits⟩ := load_eq hparse hspans hword r o
      refine ⟨s, hload, hsound, hsource, ?_⟩
      intro x call name hasks identifier
      rw [hedits, mem_map_inFile, mem_replaced_iff hparse hspans horder hasks]
      exact (and_iff_right hword).symm
    -- a text without the name is not looked at
    · refine ⟨new code, load_of_not_contains (by simpa using hword), Sound.new code, rfl, ?_⟩
      intro x call name hasks identifier
      constructor
      · intro hmem
        exact absurd hmem List.not_mem_nil
      · intro ⟨hcontains, _⟩
        exact absurd hcontains hword
  refine ⟨s, hload, hsound, hsource, hedits, ?_⟩
  intro x call name t hasks ht hword hinside
  constructor
  · intro ⟨identifier, hreplaced⟩ y other name' hother haround
    obtain ⟨-, hfree, -⟩ := (hedits x call name hasks identifier).mp hreplaced
    have hspan := hfree y other name' hother haround
    -- what is asked for in the same place is the same
    have hkept := (mem_resolveCalls_iff hparse hspans horder hasks).mpr hfree
    have hsame := eq_of_mem_resolveCalls hparse hspans horder hother hkept hspan.symm
    exact ⟨t, (ResolveCall.mk.inj hsame).2 ▸ ht⟩
  · intro hfound
    -- the outermost call around this one would be replaced, so it is this one
    obtain ⟨d, hd, haround⟩ := exists_kept_around hparse horder hasks
    obtain ⟨y, other, hother, hplace⟩ := exists_asks_of_mem_resolveCalls hparse hd
    rw [← hplace] at haround
    obtain ⟨t', ht'⟩ := hfound y other d.name hother haround
    have hfree : Outermost m.program other.span := by
      apply (mem_resolveCalls_iff hparse hspans horder hother).mp
      rw [hplace]
      exact hd
    have hspan : other.span = call.span := by
      by_contra hne
      exact hinside y other d.name hother hne haround _
        ((hedits y other d.name hother _).mpr ⟨hword, hfree, t', ht', rfl⟩)
    rw [hspan] at hfree
    exact ⟨_, (hedits x call name hasks _).mpr ⟨hword, hfree, t, ht, rfl⟩⟩

/-- A component that is registered under its name. -/
def chartRegistry : ComponentRegistry :=
  .ofList [⟨"Chart", "/c/Chart.vue", .all, defaultExport, 0, false⟩]

/-- A file that asks for it twice, the second time inside of a call for an unknown component. -/
def chartsCode : String :=
  "const a = resolveComponent(\"Chart\")\n" ++
    "const b = resolveComponent(\"Map\", resolveComponent(\"Chart\"))\n"

/-- The first call of that file is replaced, and the last one is not. -/
theorem replaced_iff_charts :
    ∃ (m : Module) (s : Splicer), Module.parse chartsCode "/app/a.tsx" = .ok m ∧
      load chartRegistry (.new .client) chartsCode "/app/a.tsx" =
        .ok (s.output "/app/a.tsx" false) ∧
      (∃ identifier, ⟨10, 35, identifier⟩ ∈ s.edits) ∧
      ∀ identifier, ⟨70, 95, identifier⟩ ∉ s.edits := by
  have hchars : chartsCode.toList = _ := toList_append_ofList String.toList_ofList _
  have hfile : (Module.parse chartsCode "/app/a.tsx").toOption.map (fun m =>
      (decide m.Spanned, decide m.program.CallsInOrder, m.block.offset,
        m.program.spots.filterMap (asked? m.program))) =
      some (true, true, 0, [⟨⟨10, 35⟩, "Chart"⟩, ⟨⟨46, 96⟩, "Map"⟩, ⟨⟨70, 95⟩, "Chart"⟩]) := by
    rw [Module.toOption_parse_script hchars (by decide)]
    decide +kernel
  obtain ⟨m, hparse, hfile⟩ := Option.map_eq_some_iff.mp hfile
  simp only [Prod.mk.injEq, decide_eq_true_eq] at hfile
  obtain ⟨hspans, horder, hoffset, hasked⟩ := hfile
  have hparse := eq_ok_of_toOption hparse
  have hasks : ∀ d ∈ m.program.spots.filterMap (asked? m.program),
      ∃ x c, Asks m.program x c d.name ∧ c.span = d.span := by
    intro d hd
    obtain ⟨x, hx, hxd⟩ := List.mem_filterMap.mp hd
    obtain ⟨c, hc, hspan⟩ := exists_asks_of_asked? hx hxd
    exact ⟨x, c, hc, hspan⟩
  have hinFile : ∀ pos, m.inFile pos = pos := by
    intro pos
    rw [Module.inFile, hoffset, Nat.add_zero]
  obtain ⟨s, hload, -, -, hedits, -⟩ :=
    replaced_iff (r := chartRegistry) (o := .new .client) hparse hspans horder
  obtain ⟨t, ht⟩ : ∃ t, target? chartRegistry .client "Chart" = some t :=
    Option.isSome_iff_exists.mp (by decide +kernel)
  refine ⟨m, s, hparse, hload, ?_, ?_⟩
  · obtain ⟨x, c, hc, hspan⟩ := hasks ⟨⟨10, 35⟩, "Chart"⟩ (by rw [hasked]; simp)
    have hfree : Outermost m.program c.span := by
      rw [hspan, outermost_iff, hasked]
      decide
    have hedit := (hedits x c "Chart" hc _).mpr ⟨by decide +kernel, hfree, t, ht, rfl⟩
    rw [hspan, hinFile, hinFile] at hedit
    exact ⟨_, hedit⟩
  · intro identifier hmem
    obtain ⟨x, c, hc, hspan⟩ := hasks ⟨⟨70, 95⟩, "Chart"⟩ (by rw [hasked]; simp)
    have hedit := hedits x c "Chart" hc identifier
    rw [hspan, hinFile, hinFile, outermost_iff, hasked] at hedit
    exact absurd (hedit.mp hmem).2.1 (by decide)

/-- A file that asks for a registered component inside of a call for an unknown one. -/
def innerCode : String := "const x = resolveComponent(\"Map\", resolveComponent(\"Chart\"))\n"

/-- **A call that is left for no replaced one**: both calls ask for components, the inner one is
    found and the outer one is not, but the file stays as it is. -/
theorem inner_call_left :
    (Module.parse innerCode "/app/a.tsx").toOption.map (fun m =>
        m.program.spots.filterMap (asked? m.program)) =
      some [⟨⟨10, 60⟩, "Map"⟩, ⟨⟨34, 59⟩, "Chart"⟩] ∧
      target? chartRegistry .client "Map" = none ∧
      (target? chartRegistry .client "Chart").isSome = true ∧
      (load chartRegistry (.new .client) innerCode "/app/a.tsx").toOption = some .unchanged :=
  ⟨by decide +kernel, by decide +kernel, by decide +kernel, by decide +kernel⟩

end BuildMacros.Components
