import BuildMacros.Components.Loading
import BuildMacros.Keys.Injection
import BuildMacros.PageMeta
import BuildMacros.Proofs.Factories.Redirection
import BuildMacros.Proofs.Template.Hydration

/-! # No pass is refused an edit

    Each pass makes its edits in its own way: keys are inserted before closing
    parentheses, components replace the calls that ask for them, outermost calls only,
    factory calls and elements are dealt with in modules of their own, and page
    metadata replaces the whole file. If the spans of the parsed module are those of
    its text, none of these edits is out of range and no two of them overlap; a pass
    that fails does so for another reason.
-/

namespace BuildMacros

open BuildMacros.Text BuildMacros.Script BuildMacros.Splicer

/-! ## Section 1: Parsing -/

/-- Text that does not parse is no refused edit. -/
theorem editSafe_parse (code id : String) : EditSafe (Module.parse code id) := by
  unfold Module.parse Module.ofBlock
  split
  · exact EditSafe.ok _
  · exact EditSafe.error rfl

/-! ## Section 2: Keys -/

namespace Keys

/-- A call that takes a key stands where the tree says. -/
theorem placed_of_mem_keyedCalls {m : Module} (hscopes : m.scopes = .collect m.program)
    (hspans : m.Spanned) {s : Site} {c : StaticCall} (hc : c ∈ keyedCalls s m) :
    c.Placed m.block.content.toList := by
  obtain ⟨moment, hmoment, hcall⟩ := List.mem_filterMap.mp hc
  cases hevent : moment.event with
  | call node =>
    rw [hevent] at hcall
    have hstatic := (Option.filter_eq_some_iff.mp hcall).1
    exact hspans.placed (Module.mem_nodes_of_call hscopes hmoment hevent) hstatic
  | _ => simp [hevent] at hcall

/-- A key is inserted before the closing parenthesis of a static call of the module. -/
theorem exists_placed_of_mem_insertions {m : Module} (hscopes : m.scopes = .collect m.program)
    (hspans : m.Spanned) {s : Site} {path : String} {x : Nat × String}
    (hx : x ∈ insertions s path m) :
    ∃ c : StaticCall, c.Placed m.block.content.toList ∧ x.1 = m.inFile (c.span.stop - 1) := by
  obtain ⟨⟨c, count⟩, hc, rfl⟩ := List.mem_map.mp hx
  exact ⟨c, placed_of_mem_keyedCalls hscopes hspans (List.fst_mem_of_mem_zipIdx hc), rfl⟩

/-- All insertions of a module are accepted: they get in nobody's way, so each only has to fit. -/
theorem exists_foldlM_insertions {code id : String} {m : Module} (hm : Module.parse code id = .ok m)
    (hspans : m.Spanned) (s : Site) (path : String) :
    ∃ t, (insertions s path m).foldlM (fun (t : Splicer) x => t.insert x.1 x.2) (.new code) =
      .ok t := by
  have hbatch := exists_foldlM_call? code ((insertions s path m).map fun x => .insert x.1 x.2)
  rw [List.foldlM_map] at hbatch
  refine hbatch ?_ (List.pairwise_map.mpr (List.pairwise_of_forall fun x y => ?_))
  · intro c hc
    obtain ⟨x, hx, rfl⟩ := List.mem_map.mp hc
    obtain ⟨call, hplaced, hpos⟩ :=
      exists_placed_of_mem_insertions (Module.parse_eq_ok hm).2 hspans hx
    have hparen := hplaced.closes.isRange hplaced.range.stop_le
    have hrange := Module.isRange_inFile hm hparen
    rwa [← hpos] at hrange
  · exact agree_insert _ _ _ _

theorem editSafe_inject (registry : KeyedRegistry) (options : TransformOptions) (code id : String)
    (h : ∀ m, Module.parse code id = .ok m → m.Spanned) :
    EditSafe (inject registry options code id) := by
  unfold inject
  split
  · exact EditSafe.ok _
  · refine (editSafe_parse code id).bind fun m hm => ?_
    exact (EditSafe.of_exists (exists_foldlM_insertions hm (h m hm) _ _)).bind
      fun s _ => EditSafe.ok _

end Keys

/-! ## Section 3: Components -/

namespace Components

/-- The calls that are replaced stand in the tree, each behind the one before it. -/
theorem outermost_spec {text : List Char} (lastEnd : Nat) {cs : List ResolveCall}
    (hcs : ∀ c ∈ cs, c.span.start < c.span.stop ∧ IsRange text c.span.start c.span.stop) :
    (∀ c ∈ outermost lastEnd cs, c ∈ cs ∧ lastEnd ≤ c.span.start) ∧
      (outermost lastEnd cs).Pairwise fun a b => a.span.stop ≤ b.span.start := by
  induction cs generalizing lastEnd with
  | nil => simp [outermost]
  | cons c cs ih =>
    have hrest : ∀ d ∈ cs, d.span.start < d.span.stop ∧ IsRange text d.span.start d.span.stop :=
      fun d hd => hcs d (List.mem_cons_of_mem _ hd)
    unfold outermost
    split
    · next hle =>
      obtain ⟨hmem, hpair⟩ := ih c.span.stop hrest
      have hlt := (hcs c List.mem_cons_self).1
      refine ⟨?_, List.pairwise_cons.mpr ⟨fun d hd => (hmem d hd).2, hpair⟩⟩
      rintro d (_ | ⟨_, hd⟩)
      · exact ⟨List.mem_cons_self, hle⟩
      · obtain ⟨hd, hbehind⟩ := hmem d hd
        exact ⟨List.mem_cons_of_mem _ hd, by omega⟩
    · obtain ⟨hmem, hpair⟩ := ih lastEnd hrest
      exact ⟨fun d hd => ⟨List.mem_cons_of_mem _ (hmem d hd).1, (hmem d hd).2⟩, hpair⟩

/-- A call that asks for a component is replaced as a whole. -/
theorem span_of_requested? {c : StaticCall} {decl : Option Declaration} {call : ResolveCall}
    (h : requested? c decl = some call) : call.span = c.span := by
  unfold requested? at h
  split at h
  · split at h
    · cases h
    · cases h
      rfl
  · cases h

/-- The calls of a module that ask for components. -/
theorem resolveCalls_spec {m : Module} (hscopes : m.scopes = .collect m.program)
    (hspans : m.Spanned) :
    (∀ c ∈ resolveCalls m, c.span.start < c.span.stop ∧
      IsRange m.block.content.toList c.span.start c.span.stop) ∧
      (resolveCalls m).Pairwise fun a b => a.span.stop ≤ b.span.start := by
  -- the calls that are asked for, before the inner ones are left out
  obtain ⟨cs, hcs, hcalls⟩ : ∃ cs, resolveCalls m = outermost 0 cs ∧
      ∀ c ∈ cs, c.span.start < c.span.stop ∧
        IsRange m.block.content.toList c.span.start c.span.stop := by
    refine ⟨_, rfl, fun c hc => ?_⟩
    obtain ⟨moment, hmoment, hcall⟩ := List.mem_filterMap.mp hc
    cases hevent : moment.event with
    | call node =>
      rw [hevent] at hcall
      obtain ⟨call, hstatic, hrequested⟩ := Option.bind_eq_some_iff.mp hcall
      have hplaced := hspans.placed (Module.mem_nodes_of_call hscopes hmoment hevent) hstatic
      have hspan := span_of_requested? hrequested
      have hstart := hplaced.start_le
      have hcallee := hplaced.callee.le
      have hstop := hplaced.stop_lt
      rw [hspan]
      exact ⟨by omega, hplaced.range⟩
    | _ => simp [hevent] at hcall
  obtain ⟨hmem, hpair⟩ := outermost_spec 0 hcalls
  rw [hcs]
  exact ⟨fun c hc => hcalls c (hmem c hc).1, hpair⟩

/-- Replacements are made for some of the calls, in order. -/
theorem sublist_answerAll (r : ComponentRegistry) (o : LoaderOptions) (p : Prelude)
    (cs : List ResolveCall) :
    ((answerAll r o p cs).2.map Replacement.span).Sublist (cs.map ResolveCall.span) := by
  induction cs generalizing p with
  | nil => exact List.Sublist.slnil
  | cons c cs ih =>
    have hfirst : ((answer r o p c).2.toList.map Replacement.span).Sublist [c.span] := by
      unfold answer
      dsimp only
      split
      · exact List.nil_sublist _
      · split
        · exact List.nil_sublist _
        · exact List.Sublist.refl _
    rw [answerAll, List.map_append, List.map_cons]
    exact hfirst.append (ih _)

/-- All replacements in a module are made. -/
theorem exists_foldlM_replacements {code id : String} {m : Module}
    (hm : Module.parse code id = .ok m) (hspans : m.Spanned) (r : ComponentRegistry)
    (o : LoaderOptions) :
    ∃ s, (answerAll r o .empty (resolveCalls m)).2.foldlM (fun (s : Splicer) c =>
      s.overwrite (m.inFile c.span.start) (m.inFile c.span.stop) c.identifier) (.new code) =
        .ok s := by
  obtain ⟨hranges, hpair⟩ := resolveCalls_spec (Module.parse_eq_ok hm).2 hspans
  have hsub := sublist_answerAll r o .empty (resolveCalls m)
  have hbatch := exists_foldlM_call? code
    ((answerAll r o .empty (resolveCalls m)).2.map fun c =>
      .overwrite (m.inFile c.span.start) (m.inFile c.span.stop) c.identifier)
  rw [List.foldlM_map] at hbatch
  refine hbatch ?_ (List.pairwise_map.mpr ?_)
  · intro call hcall
    obtain ⟨c, hc, rfl⟩ := List.mem_map.mp hcall
    obtain ⟨asked, hasked, hspan⟩ :=
      List.mem_map.mp (hsub.subset (List.mem_map.mpr ⟨c, hc, rfl⟩))
    obtain ⟨hlt, hrange⟩ := hranges asked hasked
    rw [hspan] at hlt hrange
    exact ⟨Nat.add_lt_add_right hlt _, Module.isRange_inFile hm hrange⟩
  · have hspans : ((answerAll r o .empty (resolveCalls m)).2.map Replacement.span).Pairwise
        fun a b => a.stop ≤ b.start := (List.pairwise_map.mpr hpair).sublist hsub
    refine (List.pairwise_map.mp hspans).imp fun {a b} hab => agree_of_apart ?_
    rintro _ _ ⟨⟩ ⟨⟩
    exact .inl (Nat.add_le_add_right hab _)

theorem editSafe_load (r : ComponentRegistry) (o : LoaderOptions) (code id : String)
    (h : ∀ m, Module.parse code id = .ok m → m.Spanned) : EditSafe (load r o code id) := by
  unfold load
  split
  · exact EditSafe.ok _
  · refine (editSafe_parse code id).bind fun m hm => ?_
    exact (EditSafe.of_exists (exists_foldlM_replacements hm (h m hm) r o)).bind
      fun s _ => EditSafe.ok _

end Components

/-! ## Section 4: Factories and elements -/

namespace Factories

theorem editSafe_resolveAll (x : Context) (m : Module) (id : String) (cs : List Candidate) :
    EditSafe (x.resolveAll m id cs) := by
  induction cs with
  | nil => exact EditSafe.ok _
  | cons c cs ih =>
    refine EditSafe.bind ?_ fun f _ => ih.bind fun more _ => EditSafe.ok _
    unfold Context.factoryOf
    split
    · split
      · exact EditSafe.ok _
      · unfold Context.autoImported
        split
        · exact EditSafe.error rfl
        · exact EditSafe.ok _
    · exact EditSafe.ok _

theorem editSafe_callsIn (registry : FactoryRegistry) (options : TransformOptions)
    (code id : String) : EditSafe (callsIn registry options code id) := by
  unfold callsIn
  split
  · exact EditSafe.ok _
  · refine (editSafe_parse code id).bind fun m _ => ?_
    exact (editSafe_resolveAll _ m id _).bind fun calls _ => EditSafe.ok _

/-- The calls in a text are found in its module. -/
theorem callsIn_eq_ok {registry : FactoryRegistry} {options : TransformOptions} {code id : String}
    {m : Module} {calls : List FactoryCall}
    (h : callsIn registry options code id = .ok (some (m, calls))) :
    Module.parse code id = .ok m ∧ find registry options id m = .ok calls := by
  unfold callsIn at h
  split at h
  · cases h
  · obtain ⟨m', hm, h⟩ := exists_of_bind_eq_ok h
    obtain ⟨calls', hcalls, h⟩ := exists_of_bind_eq_ok h
    cases h
    exact ⟨hm, hcalls⟩

theorem editSafe_redirectFactories (registry : FactoryRegistry) (options : TransformOptions)
    (code id : String) (h : ∀ m, Module.parse code id = .ok m → m.Spanned) :
    EditSafe (redirectFactories registry options code id) := by
  unfold redirectFactories
  refine (editSafe_callsIn registry options code id).bind fun found hfound => ?_
  cases found with
  | none => exact EditSafe.ok _
  | some found =>
    obtain ⟨hm, hcalls⟩ := callsIn_eq_ok hfound
    obtain ⟨filter, hexported⟩ := isExported_of_find hcalls
    refine EditSafe.bind (EditSafe.of_exists ?_) fun s _ => EditSafe.ok _
    exact exists_redirectAll hm (h _ hm) options.factoryMarker hexported

end Factories

/-- The pass that renames elements never fails at all. -/
theorem Template.editSafe_hydrate (r : ComponentRegistry) (sourcemap : Bool) (code id : String) :
    EditSafe (Template.hydrate r sourcemap code id) :=
  EditSafe.of_exists (Template.exists_hydrate r sourcemap code id)

/-! ## Section 5: Page metadata -/

namespace PageMeta

/-- A text without characters does not seem to state metadata, so what is replaced is not empty. -/
theorem mayState_empty : mayState "" = false := by decide

/-- Replacing a text that is not empty. -/
theorem exists_replaceAll {code : String} (hcode : code ≠ "") (text : String) :
    ∃ s, replaceAll code text = .ok s := by
  have hne : code.toList ≠ [] := by
    intro hnil
    exact hcode (String.toList_eq_nil_iff.mp hnil)
  have hpos := byteLength_pos_of_ne_nil hne
  have hrange : IsRange code.toList 0 (byteLength code.toList) :=
    ⟨Nat.zero_le _, Nat.le_refl _, isBoundary_zero _, isBoundary_byteLength _⟩
  refine (exists_call?_iff (Splicer.new code) (.overwrite 0 (byteLength code.toList) text)).mpr ?_
  exact ⟨⟨hpos, hrange⟩, fun a ha => by cases ha⟩

/-- Hoisting fails only where a value would have to be waited for. -/
theorem editSafe_hoistAll (m : Module) (id : String) (refs : List Reference) (fuel : Nat)
    (needs : Needs) (ds : List Declaration) : EditSafe (hoistAll m id refs fuel needs ds) := by
  induction fuel, needs, ds using hoistAll.induct m id refs with
  | case1 fuel needs =>
    rw [hoistAll]
    exact EditSafe.ok _
  | case2 needs ds hds =>
    rw [hoistAll]
    · exact EditSafe.ok _
    · exact hds
  | case3 fuel needs d ds himport ih =>
    rw [hoistAll, if_pos himport]
    exact ih _
  | case4 fuel needs d ds himport hskip ih =>
    rw [hoistAll, if_neg himport, if_pos hskip]
    exact ih _
  | case5 fuel needs d ds himport hskip hwaits ih =>
    rw [hoistAll, if_neg himport, if_neg hskip, if_pos hwaits]
    exact EditSafe.error rfl
  | case6 fuel needs d ds himport hskip hwaits ih ih' =>
    rw [hoistAll, if_neg himport, if_neg hskip, if_neg hwaits]
    exact ih'.bind fun needs _ => ih needs

/-- What takes the place of a text that is not empty. -/
theorem editSafe_extractFrom {code : String} (hcode : code ≠ "") (o : PageMetaOptions)
    (id : String) (m : Module) : EditSafe (extractFrom o code id m) := by
  unfold extractFrom
  split
  · exact EditSafe.error rfl
  · refine (editSafe_hoistAll m id _ _ _ _).bind fun needs _ => ?_
    exact EditSafe.of_exists (exists_replaceAll hcode _)
  · split
    · exact EditSafe.ok _
    · exact EditSafe.of_exists (exists_replaceAll hcode _)

theorem editSafe_extract (o : PageMetaOptions) (sourcemap : Bool) (code id : String) :
    EditSafe (extract o sourcemap code id) := by
  unfold extract
  dsimp only
  split
  · next hstate =>
    have hcode : code ≠ "" := by
      rintro rfl
      rw [mayState_empty] at hstate
      cases hstate
    refine (editSafe_parse code id).bind fun m _ => ?_
    exact (editSafe_extractFrom hcode o id m).bind fun s _ => EditSafe.ok _
  · split
    -- nothing can be replaced in an empty file, but a text can be inserted
    · have hinsert : ∃ s, (Splicer.new code).call? (.insert 0 (emptyModule o)) = .ok s :=
        (exists_call?_iff _ _).mpr ⟨⟨Nat.le_refl _, Nat.zero_le _, isBoundary_zero _,
          isBoundary_zero _⟩, fun a ha => by cases ha⟩
      exact (EditSafe.of_exists hinsert).bind fun s _ => EditSafe.ok _
    · next hempty =>
      have hcode : code ≠ "" := by
        rintro rfl
        exact hempty rfl
      exact (EditSafe.of_exists (exists_replaceAll hcode _)).bind fun s _ => EditSafe.ok _

end PageMeta

/-! ## Section 6: All passes -/

/-- **No pass is refused an edit.** When the spans of a parsed module are those of its text, a pass
    over the module may fail, but never because an edit was out of range, split a character or
    overlapped another one. -/
theorem no_edit_refused (code id : String) (h : ∀ m, Module.parse code id = .ok m → m.Spanned) :
    (∀ registry options, EditSafe (Factories.redirectFactories registry options code id)) ∧
      (∀ registry options, EditSafe (Keys.inject registry options code id)) ∧
      (∀ registry options, EditSafe (Components.load registry options code id)) ∧
      (∀ registry sourcemap, EditSafe (Template.hydrate registry sourcemap code id)) ∧
      ∀ options sourcemap, EditSafe (PageMeta.extract options sourcemap code id) :=
  ⟨fun registry options => Factories.editSafe_redirectFactories registry options code id h,
    fun registry options => Keys.editSafe_inject registry options code id h,
    fun registry options => Components.editSafe_load registry options code id h,
    fun registry sourcemap => Template.editSafe_hydrate registry sourcemap code id,
    fun options sourcemap => PageMeta.editSafe_extract options sourcemap code id⟩

/-- The text parses, and the spans of its module are those of its text. -/
def isSpanned (code id : String) : Bool :=
  match Module.parse code id with
  | .ok m => decide m.Spanned
  | .error _ => false

theorem exists_spanned {code id : String} (h : isSpanned code id = true) :
    ∃ m, Module.parse code id = .ok m ∧ m.Spanned := by
  unfold isSpanned at h
  split at h
  · next m hm => exact ⟨m, hm, of_decide_eq_true h⟩
  · cases h

/-- An optional call, exported under two names, around a call that asks for a component. -/
def sampleCode : String :=
  "const a = b?.(resolveComponent('C'))\nexport { a, a as c }"

/-- That text parses, so what is said about it is not empty, and no pass is refused an edit. -/
theorem no_edit_refused_sample :
    (∃ m, Module.parse sampleCode "/a.ts" = .ok m ∧ m.Spanned) ∧
      ∀ registry options,
        EditSafe (Factories.redirectFactories registry options sampleCode "/a.ts") := by
  have hspanned : isSpanned sampleCode "/a.ts" = true := by decide +kernel
  obtain ⟨m, hm, hspans⟩ := exists_spanned hspanned
  refine ⟨⟨m, hm, hspans⟩, (no_edit_refused sampleCode "/a.ts" fun m' hm' => ?_).1⟩
  rw [hm] at hm'
  cases hm'
  exact hspans

end BuildMacros
