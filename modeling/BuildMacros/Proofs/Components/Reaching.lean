import BuildMacros.Proofs.Components.Prelude
import BuildMacros.Proofs.Naming
import BuildMacros.Proofs.Registry.Choice
import BuildMacros.Proofs.Safety
import BuildMacros.Proofs.Text.Infixes

/-! # Which components are reached by their names

    A call that asks for a component by its registered name should be answered by that
    component. It is, as long as the name is taken for a name: the mark of lazy requests
    is read off first, before the registry is asked, and neither the plain name nor the
    modifier in front of it is ever the whole name again. So a component whose own name
    looks like a lazy request is reached by no call (`reaches_iff`), and its calls are
    answered by another component or left to the runtime.

    A call is replaced only if it does not lie inside another one that is. This is
    decided in the order of the walk, and so it is relied on that a walk meets the calls
    in the order of the text.
-/

namespace BuildMacros.Components

open BuildMacros.Text BuildMacros.Script BuildMacros.Splicer

/-! ## Section 1: Calls that are replaced -/

/-- What a node of a tree asks for. -/
def asked? (p : Program) (x : Spot) : Option ResolveCall :=
  (x.node.staticCall? resolvers).bind fun c => requested? c (p.visible? x.scopes c.callee.name)

/-- **The calls that ask for components**, node by node, the inner ones left out. -/
theorem resolveCalls_of_parse {code id : String} {m : Module} (h : Module.parse code id = .ok m) :
    resolveCalls m = outermost 0 (m.program.spots.filterMap (asked? m.program)) := by
  obtain ⟨block, program, scopes⟩ := m
  obtain rfl : scopes = .collect program := (Module.parse_eq_ok h).2
  refine congrArg (outermost 0) (program.filterMap_calls (fun node look =>
    (node.staticCall? resolvers).bind fun c => requested? c (look c.callee.name)) ?_)
  intro n look hcall
  cases n with
  | call callee typeArgs args optional span => exact absurd rfl hcall
  | _ => rfl

/-- A node that asks for a component is a call, at the place of the call. -/
theorem node_of_asked? {p : Program} {x : Spot} {d : ResolveCall} (h : asked? p x = some d) :
    ∃ callee typeArgs args optional, x.node = .call callee typeArgs args optional d.span := by
  obtain ⟨c, hstatic, hrequested⟩ := Option.bind_eq_some_iff.mp h
  obtain ⟨callee, typeArgs, args, optional, hnode, -⟩ := Node.staticCall?_eq hstatic
  rw [span_of_requested? hrequested]
  exact ⟨callee, typeArgs, args, optional, hnode⟩

/-- A call with nothing that lies around it is not left out. -/
theorem mem_outermost {before after : List ResolveCall} {c : ResolveCall} {lastEnd : Nat}
    (hlast : lastEnd ≤ c.span.start) (hbefore : ∀ d ∈ before, d.span.stop ≤ c.span.start) :
    c ∈ outermost lastEnd (before ++ c :: after) := by
  induction before generalizing lastEnd with
  | nil =>
    rw [List.nil_append, outermost, if_pos hlast]
    exact List.mem_cons_self
  | cons d before ih =>
    obtain ⟨hd, hbefore⟩ := List.forall_mem_cons.mp hbefore
    rw [List.cons_append, outermost]
    by_cases hfits : lastEnd ≤ d.span.start
    · rw [if_pos hfits]
      exact List.mem_cons_of_mem d (ih hd hbefore)
    · rw [if_neg hfits]
      exact ih hlast hbefore

section

variable {code id : String} {m : Module} {x : Spot} {call : ResolveCall}

/-- **A call that lies inside of no other one is replaced**, if its component is found. -/
theorem mem_resolveCalls (hparse : Module.parse code id = .ok m) (horder : m.program.CallsInOrder)
    (hx : x ∈ m.program.spots) (hasked : asked? m.program x = some call)
    (hfree : ∀ y ∈ m.program.spots, ∀ d, asked? m.program y = some d →
      d.span.contains call.span = true → d.span = call.span) :
    call ∈ resolveCalls m := by
  obtain ⟨before, after, hspots⟩ := List.append_of_mem hx
  rw [resolveCalls_of_parse hparse, hspots, List.filterMap_append,
    List.filterMap_cons_some hasked]
  refine mem_outermost (Nat.zero_le _) fun d hd => ?_
  obtain ⟨y, hy, hyasked⟩ := List.mem_filterMap.mp hd
  obtain ⟨_, _, _, _, hxnode⟩ := node_of_asked? hasked
  obtain ⟨_, _, _, _, hynode⟩ := node_of_asked? hyasked
  have hprecedes : d.span.Precedes call.span := by
    rw [Program.CallsInOrder, Program.nodes, hspots, List.map_append, List.filter_append] at horder
    have hpair := (List.pairwise_append.mp horder).2.2 y.node ?_ x.node ?_
    · rwa [hxnode, hynode] at hpair
    · exact List.mem_filter.mpr ⟨List.mem_map_of_mem hy, by rw [hynode]; rfl⟩
    · refine List.mem_filter.mpr ⟨List.mem_map_of_mem List.mem_cons_self, ?_⟩
      rw [hxnode]
      rfl
  rcases hprecedes with hbehind | ⟨hstart, hstop⟩
  · exact hbehind
  -- an earlier call around this one is the same call, which ends where this one ends
  · have hmem : y ∈ m.program.spots := by
      rw [hspots]
      exact List.mem_append_left _ hy
    have hsame := hfree y hmem d hyasked (Span.contains_iff.mpr ⟨hstart, Nat.le_of_lt hstop⟩)
    rw [hsame] at hstop
    exact absurd hstop (Nat.lt_irrefl _)

/-- Calls that are replaced stand in different places. -/
theorem eq_of_span_eq (hparse : Module.parse code id = .ok m) (hspans : m.Spanned)
    {c d : ResolveCall} (hc : c ∈ resolveCalls m) (hd : d ∈ resolveCalls m)
    (h : c.span = d.span) : c = d := by
  obtain ⟨hranges, hpair⟩ := resolveCalls_spec (Module.parse_eq_ok hparse).2 hspans
  have hapart : (resolveCalls m).Pairwise fun a b => a.span ≠ b.span := by
    refine hpair.imp_of_mem fun {a b} ha _ hab heq => ?_
    have hlt := (hranges a ha).1
    rw [← heq] at hab
    omega
  refine List.Pairwise.forall_of_forall_of_flip (R := fun a b => a.span = b.span → a = b)
    (fun _ _ _ => rfl) (hapart.imp ?_) (hapart.imp ?_) hc hd h
  · exact fun hne heq => absurd heq hne
  · exact fun hne heq => absurd heq.symm hne

/-! ## Section 2: What loading does to a file -/

/-- What is made of a file when its replacements can be made: the calls are replaced by their
    answers, and the lines of all answers come in front. -/
theorem load_of_foldlM {s : Splicer} {r : ComponentRegistry} {o : LoaderOptions}
    (hparse : Module.parse code id = .ok m)
    (hword : Text.contains "resolveComponent".toList code.toList = true)
    (hs : (answerAll r o .empty (resolveCalls m)).2.foldlM (fun (s : Splicer) c =>
      s.overwrite (m.inFile c.span.start) (m.inFile c.span.stop) c.identifier) (new code) =
        .ok s) :
    let answers := answerAll r o .empty (resolveCalls m)
    ∃ s : Splicer, load r o code id = .ok (s.output id o.sourcemap) ∧ s.Sound ∧
      s.source = code ∧ s.intro = answers.1.text ∧
      s.edits = answers.2.map fun a =>
        ⟨m.inFile a.span.start, m.inFile a.span.stop, a.identifier⟩ := by
  have hload : load r o code id = .ok
      ((if (answerAll r o .empty (resolveCalls m)).1.lines.isEmpty then s
        else s.prepend (answerAll r o .empty (resolveCalls m)).1.text).output id o.sourcemap) := by
    unfold load
    rw [hword, hparse]
    show ((answerAll r o .empty (resolveCalls m)).2.foldlM (fun (s : Splicer) c =>
      s.overwrite (m.inFile c.span.start) (m.inFile c.span.stop) c.identifier) (new code) >>=
        fun s => _) = _
    rw [hs]
    rfl
  -- what follows holds of any answers
  generalize answerAll r o .empty (resolveCalls m) = answers at hs hload ⊢
  obtain ⟨p, replaced⟩ := answers
  have hbatch : (replaced.map fun a => Call.overwrite (m.inFile a.span.start)
      (m.inFile a.span.stop) a.identifier).foldlM call? (new code) = .ok s := by
    rw [List.foldlM_map]
    exact hs
  obtain ⟨hsound, hsource, hintro, hedits⟩ := spec_of_foldlM hbatch fun c hc => by
    obtain ⟨a, -, rfl⟩ := List.mem_map.mp hc
    rfl
  have hedits : s.edits = replaced.map fun a =>
      ⟨m.inFile a.span.start, m.inFile a.span.stop, a.identifier⟩ := by
    rw [hedits, List.filterMap_map, ← List.filterMap_eq_map]
    rfl
  by_cases hempty : p.lines.isEmpty = true
  · rw [if_pos hempty] at hload
    refine ⟨s, hload, hsound, hsource, ?_, hedits⟩
    rw [hintro, Prelude.text, List.isEmpty_iff.mp hempty]
    rfl
  · rw [if_neg hempty] at hload
    have hprepended : (s.prepend p.text).Sound := ⟨hsound.ranges, hsound.free⟩
    refine ⟨s.prepend p.text, hload, hprepended, hsource, ?_, hedits⟩
    rw [prepend, hintro]
    exact String.append_empty

/-- **Loading a file** that mentions the function of the runtime: all replacements are made. -/
theorem load_eq (hparse : Module.parse code id = .ok m) (hspans : m.Spanned)
    (hword : Text.contains "resolveComponent".toList code.toList = true) (r : ComponentRegistry)
    (o : LoaderOptions) :
    let answers := answerAll r o .empty (resolveCalls m)
    ∃ s : Splicer, load r o code id = .ok (s.output id o.sourcemap) ∧ s.Sound ∧
      s.source = code ∧ s.intro = answers.1.text ∧
      s.edits = answers.2.map fun a =>
        ⟨m.inFile a.span.start, m.inFile a.span.stop, a.identifier⟩ := by
  obtain ⟨s, hs⟩ := exists_foldlM_replacements hparse hspans r o
  exact load_of_foldlM hparse hword hs

end

/-! ## Section 3: Names that look lazy -/

/-- What a modifier is read off of is the modifier in front of the rest. -/
theorem append_of_modifier? {cs name : List Char} {words : List (String × Strategy)}
    {found : Modifier} (h : modifier? cs words = some (found, name)) :
    cs = found.word.toList ++ name := by
  induction words with
  | nil => cases h
  | cons entry words ih =>
    obtain ⟨word, strategy⟩ := entry
    unfold modifier? at h
    split at h
    · next rest hrest =>
      cases h
      exact strip?_eq_some_iff.mp hrest
    · exact ih h

/-- The mark of lazy names has a `z`, which is gone from what follows. -/
theorem count_lt_of_afterLazy? {cs rest : List Char} (h : afterLazy? cs = some rest) :
    rest.count 'z' < cs.count 'z' := by
  have hmark : ∃ lead : List Char, lead.count 'z' = 1 ∧ cs = lead ++ rest := by
    unfold afterLazy? at h
    split at h
    · next rest' hrest =>
      cases h
      exact ⟨_, by decide, strip?_eq_some_iff.mp hrest⟩
    · split at h
      · next rest' hrest =>
        split at h
        · cases h
          exact ⟨_, by decide, strip?_eq_some_iff.mp hrest⟩
        · cases h
      · cases h
  obtain ⟨lead, hone, rfl⟩ := hmark
  rw [List.count_append, hone]
  omega

/-- The names that a lazy request is looked up by are parts of what follows the mark. -/
theorem sublist_of_afterLazy? {raw : String} {rest : List Char}
    (h : afterLazy? raw.toList = some rest) :
    (Request.parse raw).name.toList.Sublist rest ∧
      ∀ found, (Request.parse raw).modifier = some found →
        (found.word ++ (Request.parse raw).name).toList = rest := by
  unfold Request.parse
  rw [h]
  dsimp only
  cases hmodifier : modifier? rest modifiers with
  | none =>
    refine ⟨?_, fun found hfound => by cases hfound⟩
    rw [String.toList_ofList]
  | some x =>
    obtain ⟨found, name⟩ := x
    have hrest := append_of_modifier? hmodifier
    dsimp only
    refine ⟨?_, ?_⟩
    · rw [String.toList_ofList, hrest]
      exact List.sublist_append_right _ _
    · rintro _ ⟨⟩
      rw [String.toList_append, String.toList_ofList, hrest]

/-- A registered name has no more small letters than the requested one. -/
theorem count_registeredName_le {a : Char} (ha : Naming.IsSmall a.toNat) (name : String) :
    (ComponentRegistry.registeredName name).toList.count a ≤ name.toList.count a := by
  rw [ComponentRegistry.registeredName, String.toList_ofList, Naming.pascalCase,
    String.toList_ofList]
  calc ((Naming.pascal name.toList).filter fun c => c != '"' && c != '\'').count a
      ≤ (Naming.pascal name.toList).count a := List.filter_sublist.count_le a
    _ ≤ name.toList.count a := Naming.count_pascal_le ha name.toList

/-- A component that is found has the registered name, or it is the placeholder. -/
theorem name_of_find? {r : ComponentRegistry} {name : String} {bundle : Bundle} {i : Nat}
    {c : Component} (h : r.find? name bundle = some i) (hc : r.components[i]? = some c) :
    c.pascalName = ComponentRegistry.registeredName name ∨ c.pascalName = "ServerPlaceholder" := by
  have hchosen := ComponentRegistry.chosen_of_find? h hc
  by_cases hname : c.pascalName = ComponentRegistry.registeredName name
  · exact .inl hname
  · exact .inr (hchosen.replaced hname).1

/-- **A lazy request never finds a component of the requested name.** It may find another one. -/
theorem pascalName_ne_of_afterLazy? {r : ComponentRegistry} {bundle : Bundle} {name : String}
    {rest : List Char} {t : Target} (hlazy : afterLazy? name.toList = some rest)
    (h : target? r bundle name = some t) : t.component.pascalName ≠ name := by
  have hsmall : Naming.IsSmall 'z'.toNat := by decide
  have hmark := count_lt_of_afterLazy? hlazy
  obtain ⟨hplain, hwhole⟩ := sublist_of_afterLazy? hlazy
  -- what is looked up has too few of the letter, and so has the placeholder
  have hfew : ∀ asked i, r.find? asked bundle = some i →
      r.components[i]? = some t.component → asked.toList.count 'z' ≤ rest.count 'z' →
        t.component.pascalName ≠ name := by
    rintro asked i hfind hcomponent hcount rfl
    rcases name_of_find? hfind hcomponent with hregistered | hplaceholder
    · have hle := count_registeredName_le hsmall asked
      rw [← hregistered] at hle
      omega
    · have hnone : "ServerPlaceholder".toList.count 'z' = 0 := by decide
      rw [hplaceholder] at hmark
      omega
  unfold target? at h
  dsimp only at h
  obtain ⟨found, hfound, h⟩ := Option.bind_eq_some_iff.mp h
  obtain ⟨component, hcomponent, rfl⟩ := Option.map_eq_some_iff.mp h
  unfold find? at hfound
  split at hfound
  · next i hfind =>
    cases hfound
    exact hfew _ i hfind hcomponent (hplain.count_le 'z')
  · split at hfound
    · next modifier hmodifier =>
      obtain ⟨i, hfind, rfl⟩ := Option.map_eq_some_iff.mp hfound
      exact hfew _ i hfind hcomponent (Nat.le_of_eq (by rw [hwhole modifier hmodifier]))
    · cases hfound

/-! ## Section 4: Names that are registered once -/

/-- A component that the bundle can use, under a name that is cased already and has no quotes; no
    other component that the bundle can use has its name. -/
structure Sole (r : ComponentRegistry) (bundle : Bundle) (i : Nat) (c : Component) : Prop where
  entry : r.components[i]? = some c
  cased : Naming.pascalCase c.pascalName = c.pascalName
  unquoted : '"' ∉ c.pascalName.toList ∧ '\'' ∉ c.pascalName.toList
  accepted : bundle.accepts c.mode = true
  alone : ∀ j d, r.components[j]? = some d → bundle.accepts d.mode = true →
    d.pascalName = c.pascalName → j = i

section

variable {r : ComponentRegistry} {bundle : Bundle} {i : Nat} {c : Component}

/-- A registry of one component. -/
theorem Sole.of_singleton (hone : r.components = [c])
    (hcased : Naming.pascalCase c.pascalName = c.pascalName)
    (hunquoted : '"' ∉ c.pascalName.toList ∧ '\'' ∉ c.pascalName.toList)
    (haccepted : bundle.accepts c.mode = true) : Sole r bundle 0 c := by
  refine ⟨by rw [hone]; rfl, hcased, hunquoted, haccepted, fun j d hd _ _ => ?_⟩
  have hlt := (List.getElem?_eq_some_iff.mp hd).1
  rw [hone, List.length_singleton] at hlt
  omega

/-- The plain name finds the component. -/
theorem Sole.find? (h : Sole r bundle i c) : r.find? c.pascalName bundle = some i := by
  have hregistered : ComponentRegistry.registeredName c.pascalName = c.pascalName := by
    rw [ComponentRegistry.registeredName, h.cased, List.filter_eq_self.mpr, String.ofList_toList]
    intro x hx
    rw [Bool.and_eq_true, bne_iff_ne, bne_iff_ne]
    exact ⟨fun heq => h.unquoted.1 (heq ▸ hx), fun heq => h.unquoted.2 (heq ▸ hx)⟩
  obtain ⟨hlt, hentry⟩ := List.getElem?_eq_some_iff.mp h.entry
  have husable : r.components.findIdx? (fun d =>
      d.pascalName == c.pascalName && bundle.accepts d.mode) = some i := by
    refine List.findIdx?_eq_some_iff_getElem.mpr ⟨hlt, ?_, fun j hj hother => ?_⟩
    · rw [hentry, beq_self_eq_true, h.accepted]
      rfl
    -- an earlier one of the name would be the same
    · rw [Bool.and_eq_true, beq_iff_eq] at hother
      have hsame := h.alone j _ (List.getElem?_eq_getElem (by omega)) hother.2 hother.1
      omega
  unfold ComponentRegistry.find?
  dsimp only
  rw [hregistered, husable]

/-- **What a registered name is answered by**: its component, unless the name looks lazy. -/
theorem Sole.target?_iff (h : Sole r bundle i c) :
    (∃ t, target? r bundle c.pascalName = some t ∧ t.index = i) ↔
      afterLazy? c.pascalName.toList = none := by
  constructor
  · rintro ⟨t, ht, rfl⟩
    by_contra hlazy
    obtain ⟨rest, hrest⟩ := Option.ne_none_iff_exists'.mp hlazy
    have hcomponent := (target?_eq_some ht).1
    rw [h.entry] at hcomponent
    exact pascalName_ne_of_afterLazy? hrest ht (congrArg _ (Option.some.inj hcomponent)).symm
  · intro hplain
    have hparse : Request.parse c.pascalName = ⟨false, none, c.pascalName⟩ := by
      unfold Request.parse
      rw [hplain]
    refine ⟨⟨i, c, Form.of r c ⟨false, none, c.pascalName⟩ true⟩, ?_, rfl⟩
    unfold target? Components.find?
    dsimp only
    rw [hparse, h.find?, Option.bind_some]
    dsimp only
    rw [h.entry, Option.map_some]

end

/-! ## Section 5: References -/

/-- What takes the place of a call refers to a component: it is an identifier of the component in
    one of the forms, and the lines that bind the identifier are in front of the file. -/
def RefersTo (r : ComponentRegistry) (o : LoaderOptions) (calls : List ResolveCall) (span : Span)
    (i : Nat) : Prop :=
  ∃ t : Target, t.index = i ∧ r.components[i]? = some t.component ∧
    ∃ n, (answerAll r o .empty calls).1.used[n]? = some i ∧
      ⟨span, t.identifier n⟩ ∈ (answerAll r o .empty calls).2 ∧
      ∀ l ∈ t.lines o n, l ∈ (answerAll r o .empty calls).1.lines

/-- The component with the number of a target is the target's. -/
theorem getElem?_number {ts : List Target} {t : Target} (ht : t ∈ ts) :
    (ts.map Target.index).eraseDups[t.number ts]? = some t.index := by
  have hmem : t.index ∈ (ts.map Target.index).eraseDups :=
    List.mem_eraseDups.mpr (List.mem_map_of_mem ht)
  rw [Target.number, List.getElem?_eq_getElem (List.idxOf_lt_length_of_mem hmem),
    List.getElem_idxOf]

/-- A call that no other one shares its place with is replaced by a reference to the component of
    its target. -/
theorem refersTo_iff {r : ComponentRegistry} {o : LoaderOptions} {calls : List ResolveCall}
    {call : ResolveCall} (hcall : call ∈ calls) (honly : ∀ d ∈ calls, d.span = call.span → d = call)
    (i : Nat) :
    RefersTo r o calls call.span i ↔ ∃ t, target? r o.bundle call.name = some t ∧ t.index = i := by
  unfold RefersTo
  rw [answerAll_empty]
  dsimp only
  constructor
  · rintro ⟨t, rfl, -, n, hused, hreplaced, -⟩
    obtain ⟨d, hd, ha⟩ := List.mem_filterMap.mp hreplaced
    obtain ⟨u, hu, ha⟩ := Option.map_eq_some_iff.mp ha
    obtain ⟨hspan, hidentifier⟩ := Replacement.mk.inj ha
    rw [honly d hd hspan] at hu
    -- the number in the identifier tells the component
    have hn := (numbered_append_inj u.form.mark_mem_marks t.form.mark_mem_marks hidentifier).1
    have hmem : u ∈ targets r o.bundle calls := List.mem_filterMap.mpr ⟨call, hcall, hu⟩
    have hindex := getElem?_number hmem
    rw [hn, hused] at hindex
    exact ⟨u, hu, (Option.some.inj hindex).symm⟩
  · rintro ⟨t, ht, rfl⟩
    have hmem : t ∈ targets r o.bundle calls := List.mem_filterMap.mpr ⟨call, hcall, ht⟩
    refine ⟨t, rfl, (target?_eq_some ht).1, t.number (targets r o.bundle calls),
      getElem?_number hmem, ?_, ?_⟩
    · exact List.mem_filterMap.mpr ⟨call, hcall, by rw [ht, Option.map_some]⟩
    · intro l hl
      exact List.mem_eraseDups.mpr (List.mem_flatMap.mpr ⟨t, hmem, hl⟩)

/-- The node is a call that asks for a component by a name: its first argument is a string, and the
    function is declared nowhere around it, except by an import. -/
structure Asks (p : Program) (x : Spot) (c : StaticCall) (name : String) : Prop where
  spot : x ∈ p.spots
  static : x.node.staticCall? resolvers = some c
  plain : c.callee.qualifier = none
  named : ∃ span rest, c.args = .string name span :: rest
  unshadowed : ∀ d, p.visible? x.scopes c.callee.name = some d → d.isImport = true

theorem Asks.asked? {p : Program} {x : Spot} {c : StaticCall} {name : String}
    (h : Asks p x c name) : asked? p x = some ⟨c.span, name⟩ := by
  obtain ⟨span, rest, hargs⟩ := h.named
  unfold Components.asked?
  rw [h.static, Option.bind_some, requested?, hargs]
  dsimp only
  have hnone : (p.visible? x.scopes c.callee.name).any (fun d => !d.isImport) = false := by
    cases hvisible : p.visible? x.scopes c.callee.name with
    | none => rfl
    | some d => simp [h.unshadowed d hvisible]
  rw [h.plain, hnone]
  rfl

/-- Nothing else makes a node ask for a component. -/
theorem exists_asks_of_asked? {p : Program} {x : Spot} {d : ResolveCall} (hx : x ∈ p.spots)
    (h : Components.asked? p x = some d) : ∃ c, Asks p x c d.name ∧ c.span = d.span := by
  obtain ⟨c, hstatic, hrequested⟩ := Option.bind_eq_some_iff.mp h
  refine ⟨c, ?_, (span_of_requested? hrequested).symm⟩
  unfold requested? at hrequested
  split at hrequested
  · next name span rest hargs =>
    split at hrequested
    · cases hrequested
    · next hfree =>
      cases hrequested
      rw [Bool.or_eq_true, not_or] at hfree
      obtain ⟨hplain, hunshadowed⟩ := hfree
      refine ⟨hx, hstatic, by simpa using hplain, ⟨span, rest, hargs⟩, ?_⟩
      intro decl hdecl
      rw [hdecl] at hunshadowed
      simpa using hunshadowed
  · cases hrequested

/-- **Which components are reached by their names.** In a file that parses, whose spans are those of
    its text and whose calls are met in order, let a call that lies inside of no other one ask for
    a component that the bundle can use and that is the only one of its name. The file is loaded,
    and its calls are replaced by the answers. What takes the place of the call refers to the
    component exactly if its name does not look like a lazy request. -/
theorem reaches_iff {r : ComponentRegistry} {o : LoaderOptions} {code id : String} {m : Module}
    {x : Spot} {call : StaticCall} {i : Nat} {c : Component}
    (hparse : Module.parse code id = .ok m) (hspans : m.Spanned) (horder : m.program.CallsInOrder)
    (hword : Text.contains "resolveComponent".toList code.toList = true)
    (hsole : Sole r o.bundle i c) (hasks : Asks m.program x call c.pascalName)
    (hfree : ∀ y ∈ m.program.spots, ∀ d, asked? m.program y = some d →
      d.span.contains call.span = true → d.span = call.span) :
    (∃ s : Splicer, load r o code id = .ok (s.output id o.sourcemap) ∧ s.Sound ∧
      s.source = code ∧ s.intro = (answerAll r o .empty (resolveCalls m)).1.text ∧
      s.edits = (answerAll r o .empty (resolveCalls m)).2.map fun a =>
        ⟨m.inFile a.span.start, m.inFile a.span.stop, a.identifier⟩) ∧
      (RefersTo r o (resolveCalls m) call.span i ↔ afterLazy? c.pascalName.toList = none) := by
  refine ⟨load_eq hparse hspans hword r o, ?_⟩
  have hmem : ⟨call.span, c.pascalName⟩ ∈ resolveCalls m :=
    mem_resolveCalls hparse horder hasks.spot hasks.asked? hfree
  have honly : ∀ d ∈ resolveCalls m, d.span = call.span → d = ⟨call.span, c.pascalName⟩ :=
    fun d hd hspan => eq_of_span_eq hparse hspans hd hmem hspan
  exact (refersTo_iff hmem honly i).trans hsole.target?_iff

/-- A component that is named after one of the strategies. -/
def bannerRegistry : ComponentRegistry :=
  .ofList [⟨"IdleBanner", "/c/IdleBanner.vue", .all, defaultExport, 0, false⟩]

/-- A file that asks for it by its name. -/
def bannerCode : String := "const x = resolveComponent(\"IdleBanner\")\n"

/-- The word of a strategy alone does not make a name lazy. -/
theorem reaches_iff_strategy :
    ∃ m, Module.parse bannerCode "/app/a.ts" = .ok m ∧
      RefersTo bannerRegistry (.new .client) (resolveCalls m) ⟨10, 40⟩ 0 := by
  have hchars : bannerCode.toList = _ := String.toList_ofList
  have hfile : (Module.parse bannerCode "/app/a.ts").toOption.map (fun m =>
      (decide m.Spanned, decide m.program.CallsInOrder,
        m.program.spots.filterMap (asked? m.program))) =
        some (true, true, [⟨⟨10, 40⟩, "IdleBanner"⟩]) := by
    rw [Module.toOption_parse_script hchars (by decide)]
    decide +kernel
  obtain ⟨m, hparse, hfile⟩ := Option.map_eq_some_iff.mp hfile
  obtain ⟨hspans, hfile⟩ := Prod.mk.inj hfile
  obtain ⟨horder, hcalls⟩ := Prod.mk.inj hfile
  have hmem : ∀ d, d ∈ m.program.spots.filterMap (asked? m.program) →
      d = ⟨⟨10, 40⟩, "IdleBanner"⟩ := by
    intro d hd
    rw [hcalls] at hd
    exact List.mem_singleton.mp hd
  obtain ⟨x, hx, hasked⟩ := List.mem_filterMap.mp
    (show _ ∈ m.program.spots.filterMap (asked? m.program) from hcalls ▸ List.mem_singleton_self _)
  obtain ⟨call, hasks, hspan⟩ := exists_asks_of_asked? hx hasked
  have hspan : call.span = ⟨10, 40⟩ := hspan
  have hsole : Sole bannerRegistry .client 0
      ⟨"IdleBanner", "/c/IdleBanner.vue", .all, defaultExport, 0, false⟩ :=
    .of_singleton rfl (by decide +kernel) (by decide +kernel) rfl
  have hreaches := (reaches_iff (o := .new .client) (eq_ok_of_toOption hparse)
    (of_decide_eq_true hspans) (of_decide_eq_true horder) (by decide +kernel) hsole hasks
    fun y hy d hd _ => by
      rw [hmem d (List.mem_filterMap.mpr ⟨y, hy, hd⟩), hspan]).2
  rw [hspan] at hreaches
  exact ⟨m, eq_ok_of_toOption hparse, hreaches.mpr (by decide +kernel)⟩

/-- A component whose name looks like a lazy request. -/
def lazyRegistry : ComponentRegistry :=
  .ofList [⟨"LazyFoo", "/c/LazyFoo.vue", .all, defaultExport, 0, false⟩]

/-- A file that asks for it by its name. -/
def lazyCode : String := "const x = resolveComponent(\"LazyFoo\")\n"

/-- **A component that no call reaches**: it is the only one that is registered, its name is cased
    and has no quotes, every bundle can use it and the only call of the file asks for it, but the
    call is left to the runtime. -/
theorem lazy_name_unreached :
    Sole lazyRegistry .client 0 ⟨"LazyFoo", "/c/LazyFoo.vue", .all, defaultExport, 0, false⟩ ∧
      (Module.parse lazyCode "/app/a.ts").toOption.map (fun m =>
        m.program.spots.filterMap (asked? m.program)) = some [⟨⟨10, 37⟩, "LazyFoo"⟩] ∧
      (load lazyRegistry (.new .client) lazyCode "/app/a.ts").toOption = some .unchanged :=
  ⟨.of_singleton rfl (by decide +kernel) (by decide +kernel) rfl, by decide +kernel,
    by decide +kernel⟩

end BuildMacros.Components
