import BuildMacros.Proofs.Safety
import BuildMacros.Proofs.Splice.Insertions
import BuildMacros.Proofs.Text.Infixes

/-! # Redirecting only inserts

    A redirection is written in one of four ways: names are replaced by themselves with
    the property behind them, an optional link is taken in or stepped over, and all other
    callees are left alone. None of this shows in the new text. A name that is replaced is
    put back, and so is the link, so all that a redirection does is to insert the property
    at one offset (`mark`): behind the callee, or behind the link.

    Callees that stand in one place are redirected once, and callees in different places
    are marked at different offsets. So the new text is the old one with one insertion for
    each place (`redirectFactories_inserts`), and it is the same text as before exactly if
    the scan of the file finds nothing.
-/

namespace BuildMacros.Factories

open BuildMacros.Text BuildMacros.Script BuildMacros.Splicer

/-! ## Section 1: What one redirection inserts -/

/-- Where a callee is marked, and by which text: right behind an optional link that follows the
    callee, or else at the end of the callee. -/
def mark (marker : String) (m : Module) (code : List Char) (callee : Span) : Nat × String :=
  let stop := m.inFile callee.stop
  if startsWith ['?', '.'] (dropBytes stop code) then (stop + 2, marker)
  else (stop, "." ++ marker)

theorem mark_eq (marker : String) (m : Module) (code : List Char) (c : Callee) :
    mark marker m code c.span =
      if isOptionalIn code m c then (m.inFile c.span.stop + 2, marker)
      else (m.inFile c.span.stop, "." ++ marker) := rfl

/-- A redirection is an edit. -/
theorem isSome_edit?_redirection (marker : String) (m : Module) (code : List Char) (c : Callee) :
    (redirection marker m code c).edit?.isSome = true := by
  unfold redirection
  split
  · split <;> rfl
  · split <;> rfl

/-- The edit that redirects a callee. -/
def redirectingEdit (marker : String) (m : Module) (code : List Char) (c : Callee) : Edit :=
  (redirection marker m code c).edit?.get (isSome_edit?_redirection marker m code c)

theorem edit?_redirection (marker : String) (m : Module) (code : List Char) (c : Callee) :
    (redirection marker m code c).edit? = some (redirectingEdit marker m code c) :=
  (Option.some_get _).symm

section

variable {code id : String} {m : Module} (hm : Module.parse code id = .ok m)

include hm

/-- The text of a range of the block is the text of the range in the file. -/
theorem textAt_eq {span : Span} (h : IsRange m.block.content.toList span.start span.stop) :
    (m.textAt span).toList = slice code.toList (m.inFile span.start) (m.inFile span.stop) := by
  obtain ⟨before, after, hcode, hoffset⟩ := Module.standsAt_block hm
  rw [Module.textAt, String.toList_ofList, Module.inFile, Module.inFile, ← hoffset, hcode,
    slice_part h]

/-- The two bytes behind the callee are the link. -/
theorem slice_link {c : StaticCall} (hc : c.Placed m.block.content.toList)
    (hoptional : isOptionalIn code.toList m c.callee = true) :
    slice code.toList (m.inFile c.callee.span.stop) (m.inFile c.callee.span.stop + 2) =
      ['?', '.'] := by
  have hboundary := (Module.isRange_inFile hm hc.callee).stop_boundary
  obtain ⟨before, after, hcode, hlen⟩ := exists_append_of_isBoundary hboundary
  obtain ⟨rest, hrest⟩ := startsWith_iff.mp hoptional
  rw [← hlen, hcode, dropBytes_append] at hrest
  rw [← hlen, hcode, ← hrest]
  exact slice_append_append before ['?', '.'] rest

/-- **One redirection is one insertion**: whatever it replaces, it puts back around its mark. -/
theorem restores_redirectingEdit {c : StaticCall} (hc : c.Placed m.block.content.toList)
    (marker : String) :
    (redirectingEdit marker m code.toList c.callee).Restores code.toList
      (mark marker m code.toList c.callee.span) := by
  have hcallee := Module.isRange_inFile hm hc.callee
  have hname := textAt_eq hm hc.callee
  have hstop : IsRange code.toList (m.inFile c.callee.span.stop) (m.inFile c.callee.span.stop) :=
    ⟨Nat.le_refl _, hcallee.stop_le, hcallee.stop_boundary, hcallee.stop_boundary⟩
  have hedit := edit?_redirection marker m code.toList c.callee
  rw [mark_eq]
  by_cases hoptional : isOptionalIn code.toList m c.callee = true
  · -- the link lies between the callee and the mark
    obtain ⟨hboundary, hlink⟩ := optional_link hm hc hoptional
    have hend := (Module.isRange_inFile hm hc.range).stop_le
    have hsecond : IsRange code.toList (m.inFile c.callee.span.stop)
        (m.inFile c.callee.span.stop + 2) := by
      refine ⟨Nat.le_add_right _ _, ?_, hcallee.stop_boundary, hboundary⟩
      unfold Module.inFile at hend ⊢
      omega
    have hbehind : IsRange code.toList (m.inFile c.callee.span.stop + 2)
        (m.inFile c.callee.span.stop + 2) :=
      ⟨Nat.le_refl _, hsecond.stop_le, hboundary, hboundary⟩
    rw [if_pos hoptional]
    by_cases hform : c.callee.form = .identifier ∨ c.callee.form = .property
    · rw [redirection, if_pos hform, if_pos hoptional] at hedit
      rw [← Option.some.inj hedit]
      refine ⟨hcallee.trans hsecond, hbehind, ?_⟩
      show (m.textAt c.callee.span ++ "?." ++ marker).toList = _
      rw [← slice_append_slice hcallee hsecond, slice_link hm hc hoptional, slice_self hbehind]
      simp [hname]
    · rw [redirection, if_neg hform, if_pos hoptional] at hedit
      rw [← Option.some.inj hedit]
      exact Edit.restores_insertion (x := (_, marker)) hbehind
  · rw [if_neg hoptional]
    by_cases hform : c.callee.form = .identifier ∨ c.callee.form = .property
    · rw [redirection, if_pos hform, if_neg hoptional] at hedit
      rw [← Option.some.inj hedit]
      refine ⟨hcallee, hstop, ?_⟩
      show (m.textAt c.callee.span ++ "." ++ marker).toList = _
      rw [slice_self hstop]
      simp [hname]
    · rw [redirection, if_neg hform, if_neg hoptional] at hedit
      rw [← Option.some.inj hedit]
      exact Edit.restores_insertion (x := (_, "." ++ marker)) hstop

/-- A callee is marked inside of its call. -/
theorem mark_inside {c : StaticCall} (hc : c.Placed m.block.content.toList) (marker : String) :
    m.inFile c.span.start ≤ (mark marker m code.toList c.callee.span).1 ∧
      (mark marker m code.toList c.callee.span).1 < m.inFile c.span.stop := by
  have hstart := hc.start_le
  have hcallee := hc.callee.le
  have hstop := hc.stop_lt
  rw [mark_eq]
  unfold Module.inFile
  by_cases hoptional : isOptionalIn code.toList m c.callee = true
  · have hlink := (optional_link hm hc hoptional).2
    rw [if_pos hoptional]
    dsimp only
    omega
  · rw [if_neg hoptional]
    dsimp only
    omega

end

/-! ## Section 2: All redirections -/

/-- Leaving out callees that stand in a place of an earlier one leaves each place once. -/
theorem map_span_distinct (seen : List Span) (cs : List Callee) :
    (distinct seen cs).map Callee.span =
      ((cs.map Callee.span).filter fun span => !seen.contains span).eraseDups := by
  induction cs generalizing seen with
  | nil => rfl
  | cons c cs ih =>
    unfold distinct
    by_cases hseen : seen.contains c.span = true
    · rw [if_pos hseen, ih, List.map_cons, List.filter_cons_of_neg (by simpa using hseen)]
    · rw [if_neg hseen, List.map_cons, ih, List.map_cons,
        List.filter_cons_of_pos (by simpa using hseen), List.eraseDups_cons, List.filter_filter]
      simp only [List.contains_cons, Bool.not_or]

section

variable {code id : String} {m : Module} (hm : Module.parse code id = .ok m) (hspans : m.Spanned)
  {filter : NameFilter} {cs : List Callee} (hcs : ∀ c ∈ cs, IsExported filter m.program c)
  (marker : String)

include hm hspans hcs

/-- Callees in different places are marked at different offsets. -/
theorem nodup_marks :
    (((distinct [] cs).map fun c => mark marker m code.toList c.span).map Prod.fst).Nodup := by
  obtain ⟨hmem, hdistinct⟩ := distinct_spec [] cs
  rw [List.map_map]
  refine List.pairwise_map.mpr (hdistinct.imp_of_mem fun {a b} ha hb hne => ?_)
  obtain ⟨v, hv, found, hfound, rfl⟩ := hcs a (hmem a ha).1
  obtain ⟨w, hw, found', hfound', rfl⟩ := hcs b (hmem b hb).1
  rcases exportable_spanned hspans v hv w hw with rfl | hvw
  -- one value has one callee
  · rw [hfound] at hfound'
    cases hfound'
    exact absurd rfl hne
  · obtain ⟨hplaced, hcontains⟩ :=
      placed_of_directCall? hspans (mem_nodes_of_mem_exportable hv) hfound
    obtain ⟨hplaced', hcontains'⟩ :=
      placed_of_directCall? hspans (mem_nodes_of_mem_exportable hw) hfound'
    have hcalls := hvw.of_contains hcontains hcontains'
    have hmark := mark_inside hm hplaced marker
    have hmark' := mark_inside hm hplaced' marker
    show (mark marker m code.toList found.callee.span).1 ≠
      (mark marker m code.toList found'.callee.span).1
    unfold Span.Apart at hcalls
    unfold Module.inFile at hmark hmark'
    omega

/-- All redirections put back what they replace. -/
theorem restores_of_isExported : ∀ c ∈ cs,
    (redirectingEdit marker m code.toList c).Restores code.toList
      (mark marker m code.toList c.span) := by
  intro c hc
  obtain ⟨v, hv, found, hfound, rfl⟩ := hcs c hc
  have hplaced := (placed_of_directCall? hspans (mem_nodes_of_mem_exportable hv) hfound).1
  exact restores_redirectingEdit hm hplaced marker

/-- A splicer that redirects callees has edited the text by insertions at their marks. -/
theorem finish_redirectAll {s : Splicer}
    (hs : redirectAll marker m [] (Splicer.new code) cs = .ok s) :
    s.source = code ∧ s.intro = "" ∧
      s.edits = (distinct [] cs).map (redirectingEdit marker m code.toList) ∧
      s.finish.toList = (List.range (byteLength code.toList + 1)).flatMap fun p =>
        (((distinct [] cs).map fun c => mark marker m code.toList c.span).filter
          (·.1 == p)).flatMap (fun x => x.2.toList) ++ slice code.toList p (p + 1) := by
  rw [redirectAll_eq, show (new code).source = code from rfl] at hs
  have hnone : ∀ c, (redirection marker m code.toList c).intro? = none := by
    intro c
    unfold redirection
    split
    · split <;> rfl
    · split <;> rfl
  obtain ⟨hsound, hsource, hintro, hedits⟩ := spec_of_foldlM hs fun c hc => by
    obtain ⟨callee, -, rfl⟩ := List.mem_map.mp hc
    exact hnone callee
  have hedits : s.edits = (distinct [] cs).map (redirectingEdit marker m code.toList) := by
    rw [hedits, List.filterMap_map]
    show List.filterMap (fun c => (redirection marker m code.toList c).edit?) _ = _
    simp only [edit?_redirection, List.filterMap_eq_map']
  have hrestores : ∀ c ∈ distinct [] cs, (redirectingEdit marker m code.toList c).Restores
      s.source.toList (mark marker m code.toList c.span) := by
    intro c hc
    rw [hsource]
    exact restores_of_isExported hm hspans hcs marker c ((distinct_spec [] cs).1 c hc).1
  have htext := hsound.finish_of_restores hintro hedits hrestores
    (nodup_marks hm hspans hcs marker)
  rw [hsource] at htext
  exact ⟨hsource, hintro, hedits, htext⟩

end

/-! ## Section 3: The pass -/

/-- The new text of a splicer is what it makes of its source, whether it edits anything or not. -/
theorem codeOr_output (s : Splicer) (id : String) (sourcemap : Bool) :
    (s.output id sourcemap).codeOr s.source = s.finish := by
  unfold Splicer.output
  by_cases hchanged : s.hasChanged = true
  · rw [if_pos hchanged]
    rfl
  · rw [if_neg hchanged]
    obtain ⟨source, intro, edits⟩ := s
    have hnone : intro = "" ∧ edits = [] := by simpa [hasChanged] using hchanged
    obtain ⟨rfl, rfl⟩ := hnone
    simp [Output.codeOr, Output.code?, finish, ordered, splice, dropBytes_zero]

theorem output_eq_unchanged_iff {s : Splicer} (hintro : s.intro = "") (id : String)
    (sourcemap : Bool) : s.output id sourcemap = .unchanged ↔ s.edits = [] := by
  simp [Splicer.output, hasChanged, hintro]

theorem distinct_eq_nil_iff (cs : List Callee) : distinct [] cs = [] ↔ cs = [] := by
  cases cs <;> simp [distinct]

/-- Scanning a file finds no entry if no call is found. -/
theorem scan_eq_nil_iff {registry : FactoryRegistry} {options : TransformOptions}
    {code id : String} {m : Module} {calls : List FactoryCall}
    (hmentioned : registry.isMentionedIn code = true) (hparse : Module.parse code id = .ok m)
    (hcalls : find registry options id m = .ok calls) :
    scan registry options code id = .ok [] ↔ calls = [] := by
  rw [scan_eq hmentioned hparse, hcalls]
  show Except.ok (calls.map _) = .ok [] ↔ _
  rw [Except.ok.injEq, List.map_eq_nil_iff]

/-- Redirecting in a text that is looked at, parses and has calls that are found. -/
theorem redirectFactories_eq {registry : FactoryRegistry} {options : TransformOptions}
    {code id : String} {m : Module} {calls : List FactoryCall}
    (hmentioned : registry.isMentionedIn code = true) (hparse : Module.parse code id = .ok m)
    (hcalls : find registry options id m = .ok calls) :
    redirectFactories registry options code id =
      (redirectAll options.factoryMarker m [] (.new code) (calls.map FactoryCall.callee)).map
        fun s => s.output id options.sourcemap := by
  have hfound : callsIn registry options code id = .ok (some (m, calls)) := by
    unfold callsIn
    rw [isEmpty_of_isMentionedIn hmentioned, hmentioned, hparse]
    show (find registry options id m >>= _) = _
    rw [hcalls]
    rfl
  unfold redirectFactories
  rw [hfound]
  rfl

/-- **Redirecting only inserts.** When a file that mentions a factory parses, its spans are those of
    its text and the search for factory calls succeeds, the pass succeeds. Its text is the text of
    the file with one insertion for each place of a callee and nothing else changed: at the end of
    the callee the property behind a dot, or behind an optional link that directly follows the
    callee the property alone. These offsets are different boundaries of the text. The file counts
    as unchanged exactly if scanning it finds no entry. -/
theorem redirectFactories_inserts {registry : FactoryRegistry} {options : TransformOptions}
    {code id : String} {m : Module} {calls : List FactoryCall}
    (hparse : Module.parse code id = .ok m) (hspans : m.Spanned)
    (hmentioned : registry.isMentionedIn code = true)
    (hcalls : find registry options id m = .ok calls) :
    let places := (calls.map fun c => c.callee.span).eraseDups
    let marks := places.map (mark options.factoryMarker m code.toList)
    ∃ out, redirectFactories registry options code id = .ok out ∧
      (out.codeOr code).toList = ((List.range (byteLength code.toList + 1)).flatMap fun p =>
        (marks.filter (·.1 == p)).flatMap (fun x => x.2.toList) ++ slice code.toList p (p + 1)) ∧
      (marks.map Prod.fst).Nodup ∧ (∀ x ∈ marks, isBoundary code.toList x.1 = true) ∧
      (out = .unchanged ↔ scan registry options code id = .ok []) := by
  intro places marks
  obtain ⟨filter, hexported⟩ := isExported_of_find hcalls
  obtain ⟨s, hs⟩ := exists_redirectAll hparse hspans options.factoryMarker hexported
  obtain ⟨hsource, hintro, hedits, htext⟩ := finish_redirectAll hparse hspans hexported _ hs
  have hmarks : (distinct [] (calls.map FactoryCall.callee)).map
      (fun c => mark options.factoryMarker m code.toList c.span) = marks := by
    have hplaces : (distinct [] (calls.map FactoryCall.callee)).map Callee.span = places := by
      have hspans := map_span_distinct [] (calls.map FactoryCall.callee)
      simp only [List.contains_nil, Bool.not_false, List.filter_true, List.map_map] at hspans
      exact hspans
    show _ = places.map _
    rw [← hplaces, List.map_map]
    rfl
  have hout : redirectFactories registry options code id =
      .ok (s.output id options.sourcemap) := by
    rw [redirectFactories_eq hmentioned hparse hcalls, hs]
    rfl
  refine ⟨_, hout, ?_, ?_, ?_, ?_⟩
  · have hcode := codeOr_output s id options.sourcemap
    rw [hsource] at hcode
    rw [hcode, htext, hmarks]
  · rw [← hmarks]
    exact nodup_marks hparse hspans hexported _
  · intro x hx
    rw [← hmarks] at hx
    obtain ⟨c, hc, rfl⟩ := List.mem_map.mp hx
    have hmem := ((distinct_spec [] _).1 c hc).1
    exact (restores_of_isExported hparse hspans hexported _ c hmem).before.stop_boundary
  · rw [output_eq_unchanged_iff hintro, scan_eq_nil_iff hmentioned hparse hcalls, hedits,
      List.map_eq_nil_iff, distinct_eq_nil_iff, List.map_eq_nil_iff]

/-- A component in which a factory is called in three ways: by an optional call whose result is
    exported under two names, in parentheses, and as a member of its module. -/
def threeCallsCode : String :=
  "<script>\nimport { make } from '#m'\nimport * as x from '#m'\n" ++
    "const f = make?.(1), g = (make)(2)\nexport { f, f as h, g }\n" ++
    "export const d = x.make(3)\n</script>"

/-- Its four calls stand in three places, and so there are three insertions. -/
theorem redirectFactories_inserts_three :
    ∃ out, redirectFactories (.ofEntries (.ofMap []) [⟨"make", "#m", 3⟩]) .default threeCallsCode
        "/a.vue" = .ok out ∧
      (out.codeOr threeCallsCode).toList =
        (List.range (byteLength threeCallsCode.toList + 1)).flatMap fun p =>
          ([(75, "__nuxt_factory"), (90, ".__nuxt_factory"), (141, ".__nuxt_factory")].filter
            (·.1 == p)).flatMap (fun x => x.2.toList) ++ slice threeCallsCode.toList p (p + 1) := by
  have hchars : threeCallsCode.toList = _ :=
    toList_append_ofList (toList_append_ofList String.toList_ofList _) _
  have hfirst : firstBlock? threeCallsCode =
      some ⟨String.ofList ((threeCallsCode.toList.drop 8).take 137), 8, none⟩ := by
    rw [firstBlock?, hchars]
    decide +kernel
  have hmarks : ((Module.parse threeCallsCode "/a.vue").toOption.bind fun m =>
      (find (.ofEntries (.ofMap []) [⟨"make", "#m", 3⟩]) .default "/a.vue" m).toOption.map
        fun calls => (decide m.Spanned, ((calls.map fun c => c.callee.span).eraseDups.map
          (mark defaultFactoryMarker m threeCallsCode.toList)))) =
      some (true,
        [(75, "__nuxt_factory"), (90, ".__nuxt_factory"), (141, ".__nuxt_factory")]) := by
    rw [Module.toOption_parse_component hfirst (by decide)]
    simp only [Option.bind_map, Function.comp_def, find, Context.new, Import.findImports,
      Module.Spanned, String.toList_ofList, hchars]
    decide +kernel
  obtain ⟨m, hm, hmarks⟩ := Option.bind_eq_some_iff.mp hmarks
  obtain ⟨calls, hcalls, hmarks⟩ := Option.map_eq_some_iff.mp hmarks
  obtain ⟨hspans, hmarks⟩ := Prod.mk.inj hmarks
  obtain ⟨out, hout, htext, -⟩ := redirectFactories_inserts (eq_ok_of_toOption hm)
    (of_decide_eq_true hspans) (by decide +kernel) (eq_ok_of_toOption hcalls)
  refine ⟨out, hout, ?_⟩
  rw [← hmarks]
  exact htext

end BuildMacros.Factories
