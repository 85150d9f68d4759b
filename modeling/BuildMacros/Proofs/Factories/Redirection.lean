import BuildMacros.Proofs.Factories.Exports
import BuildMacros.Proofs.Script.Spans
import BuildMacros.Proofs.Splice.Batches

/-! # Redirecting without conflicts

    The calls that are redirected are initial values of declarators at the root, or
    default exports. Two such values are the same node or stand apart, and what a
    redirection changes stays between the start of its call and the closing
    parenthesis, the optional link that it may take in included. Callees that are
    found twice, because a variable is exported under several names, are redirected
    once. So no redirection is refused.
-/

namespace BuildMacros.Factories

open BuildMacros.Text BuildMacros.Script BuildMacros.Splicer

/-! ## Section 1: Exported values -/

/-- The values of a root statement whose calls may be exported. -/
def values : Node → List Node
  | .variableDeclaration _ declarators _ => declarators.filterMap Node.initial?
  | .exportDeclaration (.variableDeclaration _ declarators _) _ =>
    declarators.filterMap Node.initial?
  | .exportDefault value => [value]
  | _ => []

/-- The values of a tree whose calls may be exported. -/
def exportable (p : Program) : List Node := p.body.flatMap values

/-- Initial values of declared variables are nodes of the tree. -/
theorem mem_nodes_of_initial {p : Program} {kind : VariableKind} {declarators : List Node}
    {span : Span} (hn : .variableDeclaration kind declarators span ∈ p.nodes) {v : Node}
    (hv : v ∈ declarators.filterMap Node.initial?) : v ∈ p.nodes := by
  obtain ⟨d, hd, hinit⟩ := List.mem_filterMap.mp hv
  have hdeclarator : d ∈ p.nodes := p.downward_nodes _ hn d hd
  unfold Node.initial? at hinit
  split at hinit
  · cases hinit
    refine p.downward_nodes _ hdeclarator v ?_
    simp [Node.parts]
  · cases hinit

/-- Exportable values are nodes of the tree. -/
theorem mem_nodes_of_mem_exportable {p : Program} {v : Node} (hv : v ∈ exportable p) :
    v ∈ p.nodes := by
  obtain ⟨n, hn, hv⟩ := List.mem_flatMap.mp hv
  have hnode := Program.mem_nodes_of_mem_body hn
  unfold values at hv
  split at hv
  · exact mem_nodes_of_initial hnode hv
  · exact mem_nodes_of_initial (p.downward_nodes _ hnode _ List.mem_cons_self) hv
  · rw [List.mem_singleton.mp hv]
    exact p.downward_nodes _ hnode _ List.mem_cons_self
  · cases hv

/-- The values of a statement stand in it, apart from one another. -/
theorem values_spanned {text : List Char} {p : Program} (hp : p.Spanned text) {n : Node}
    (hn : n ∈ p.body) :
    (∀ v ∈ values n, n.extent.contains v.span = true) ∧
      (values n).Pairwise fun a b => a.span.Apart b.span := by
  have hnode := Program.mem_nodes_of_mem_body hn
  unfold values
  split
  · exact (hp.1 _ hnode).2
  · exact (hp.1 _ (p.downward_nodes _ hnode _ List.mem_cons_self)).2
  · next value =>
    refine ⟨fun v hv => ?_, List.pairwise_singleton _ _⟩
    rw [List.mem_singleton.mp hv]
    exact Span.contains_iff.mpr ⟨Nat.le_refl _, Nat.le_refl _⟩
  · exact ⟨fun v hv => (by cases hv), List.Pairwise.nil⟩

/-- **Exportable values** are the same node or stand apart. -/
theorem exportable_spanned {text : List Char} {p : Program} (hp : p.Spanned text) :
    ∀ v ∈ exportable p, ∀ w ∈ exportable p, v = w ∨ v.span.Apart w.span := by
  have hapart : (exportable p).Pairwise fun a b => a.span.Apart b.span := by
    refine List.pairwise_flatMap.mpr ⟨fun n hn => (values_spanned hp hn).2, ?_⟩
    refine hp.2.imp_of_mem fun {a b} ha hb hab v hv w hw => ?_
    exact hab.of_contains ((values_spanned hp ha).1 v hv) ((values_spanned hp hb).1 w hw)
  have hflip := hapart.imp fun {v w} h => Span.Apart.symm h
  intro v hv w hw
  refine List.Pairwise.forall_of_forall_of_flip (R := fun v w => v = w ∨ v.span.Apart w.span)
    (fun v _ => .inl rfl) (hapart.imp Or.inr) (hflip.imp Or.inr) hv hw

/-! ## Section 2: Callees of exported calls -/

/-- The callee of a call that an exportable value is. -/
def IsExported (filter : NameFilter) (p : Program) (c : Callee) : Prop :=
  ∃ v ∈ exportable p, ∃ call, directCall? filter v = some call ∧ call.callee = c

/-- The call that a value is: the value itself, or what an optional chain is around. -/
theorem exists_node_of_directCall? {p : Program} {v : Node} (hv : v ∈ p.nodes) {filter : NameFilter}
    {c : StaticCall} (h : directCall? filter v = some c) :
    ∃ n ∈ p.nodes, n.staticCall? filter = some c ∧ (n = v ∨ ∃ span, v = .chain n span) := by
  unfold directCall? at h
  split at h
  · next inner span =>
    exact ⟨inner, p.downward_nodes _ hv inner List.mem_cons_self, h, .inr ⟨span, rfl⟩⟩
  · exact ⟨v, hv, h, .inl rfl⟩

/-- The call that a value is stands in the value. -/
theorem placed_of_directCall? {text : List Char} {p : Program} (hp : p.Spanned text) {v : Node}
    (hv : v ∈ p.nodes) {filter : NameFilter} {c : StaticCall} (h : directCall? filter v = some c) :
    c.Placed text ∧ v.span.contains c.span = true := by
  obtain ⟨n, hn, hcall, hvalue⟩ := exists_node_of_directCall? hv h
  refine ⟨hp.placed hn hcall, ?_⟩
  obtain ⟨_, _, _, _, heq, -⟩ := Node.staticCall?_eq hcall
  rcases hvalue with rfl | ⟨span, rfl⟩
  · rw [heq]
    exact Span.contains_iff.mpr ⟨Nat.le_refl _, Nat.le_refl _⟩
  · have hcontains : span.contains n.span = true := (hp.1 _ hv).2
    rwa [heq] at hcontains

theorem isExported_of_declaratorCall? {filter : NameFilter} {p : Program} {n : Node}
    (hn : n ∈ p.body) {declarators : List Node}
    (hvalues : values n = declarators.filterMap Node.initial?) {d : Node} (hd : d ∈ declarators)
    {name : String} {callee : Callee}
    (h : declaratorCall? filter d = some (name, callee)) : IsExported filter p callee := by
  unfold declaratorCall? at h
  split at h
  · next init _ =>
    obtain ⟨call, hcall, hpair⟩ := Option.map_eq_some_iff.mp h
    cases hpair
    refine ⟨init, List.mem_flatMap.mpr ⟨n, hn, ?_⟩, call, hcall, rfl⟩
    rw [hvalues]
    exact List.mem_filterMap.mpr ⟨_, hd, rfl⟩
  · cases h

theorem values_of_declaratorsAt? {span : Span} {n : Node} {declarators : List Node}
    (h : declaratorsAt? span n = some declarators) :
    values n = declarators.filterMap Node.initial? := by
  unfold declaratorsAt? at h
  split at h
  · split at h
    · cases h
      rfl
    · cases h
  · split at h
    · cases h
      rfl
    · cases h
  · cases h

/-- An entry of an export list leads to initial values of the variable that it names. -/
theorem isExported_of_mem_listed {m : Module} {filter : NameFilter} {id : String}
    {s : ExportSpecifier} {c : Candidate} (hc : c ∈ listed m filter id s) :
    IsExported filter m.program c.callee := by
  unfold listed at hc
  split at hc
  · cases hc
  · split at hc
    · next d _ =>
      split at hc
      · obtain ⟨⟨name, callee⟩, hpair, hc⟩ := List.mem_filterMap.mp hc
        obtain ⟨declarator, hd, hcall⟩ := List.mem_filterMap.mp hpair
        dsimp only at hc
        split at hc
        · cases hc
          cases hfound : m.program.body.findSome? (declaratorsAt? d.node) with
          | none =>
            rw [hfound] at hd
            cases hd
          | some declarators =>
            rw [hfound] at hd
            obtain ⟨n, hn, hat⟩ := List.exists_of_findSome?_eq_some hfound
            exact isExported_of_declaratorCall? hn (values_of_declaratorsAt? hat) hd hcall
        · cases hc
      · cases hc
    · cases hc

/-- **Candidates are exportable values.** -/
theorem isExported_of_mem_candidates {m : Module} {filter : NameFilter} {id : String} {n : Node}
    (hn : n ∈ m.program.body) {c : Candidate} (hc : c ∈ candidates m filter id n) :
    IsExported filter m.program c.callee := by
  unfold candidates at hc
  split at hc
  · obtain ⟨⟨name, callee⟩, hpair, rfl⟩ := List.mem_map.mp hc
    obtain ⟨d, hd, hcall⟩ := List.mem_filterMap.mp hpair
    exact isExported_of_declaratorCall? hn rfl hd hcall
  · obtain ⟨s, -, hs⟩ := List.mem_flatMap.mp hc
    exact isExported_of_mem_listed hs
  · next value =>
    obtain ⟨call, hcall, rfl⟩ := List.mem_map.mp hc
    rw [Option.mem_toList] at hcall
    refine ⟨value, List.mem_flatMap.mpr ⟨_, hn, List.mem_singleton_self value⟩, call, ?_, rfl⟩
    -- a call is no chain, so nothing is looked through
    obtain ⟨_, _, _, _, heq, -⟩ := Node.staticCall?_eq hcall
    rw [heq] at hcall ⊢
    exact hcall
  · cases hc

/-- Calls that are found come from candidates. -/
theorem exists_candidate {x : Context} {m : Module} {id : String} {cs : List Candidate}
    {calls : List FactoryCall} (h : x.resolveAll m id cs = .ok calls) :
    ∀ c ∈ calls, ∃ candidate ∈ cs, candidate.callee = c.callee := by
  induction cs generalizing calls with
  | nil =>
    cases h
    intro c hc
    cases hc
  | cons candidate cs ih =>
    obtain ⟨found, more, -, hmore, rfl⟩ := exists_of_resolveAll_cons h
    intro c hc
    rcases List.mem_append.mp hc with hc | hc
    · obtain ⟨factory, -, rfl⟩ := Option.map_eq_some_iff.mp (Option.mem_toList.mp hc)
      exact ⟨candidate, List.mem_cons_self, rfl⟩
    · obtain ⟨other, hother, heq⟩ := ih hmore c hc
      exact ⟨other, List.mem_cons_of_mem _ hother, heq⟩

/-- The callees of the calls that are found. -/
theorem isExported_of_find {registry : FactoryRegistry} {options : TransformOptions} {id : String}
    {m : Module} {calls : List FactoryCall} (h : find registry options id m = .ok calls) :
    ∃ filter, ∀ c ∈ calls.map FactoryCall.callee, IsExported filter m.program c := by
  refine ⟨(Context.new registry options id m.block.content).filter, fun c hc => ?_⟩
  obtain ⟨call, hcall, rfl⟩ := List.mem_map.mp hc
  obtain ⟨candidate, hcandidate, heq⟩ := exists_candidate h call hcall
  obtain ⟨n, hn, hmem⟩ := List.mem_flatMap.mp hcandidate
  rw [← heq]
  exact isExported_of_mem_candidates hn hmem

/-! ## Section 3: One redirection -/

/-- An optional link stands right behind the callee. -/
def isOptionalIn (code : List Char) (m : Module) (c : Callee) : Bool :=
  startsWith ['?', '.'] (dropBytes (m.inFile c.span.stop) code)

/-- The call on the splicer that redirects a callee. -/
def redirection (marker : String) (m : Module) (code : List Char) (c : Callee) : Call :=
  let start := m.inFile c.span.start
  let stop := m.inFile c.span.stop
  if c.form = .identifier ∨ c.form = .property then
    let name := m.textAt c.span
    if isOptionalIn code m c then .overwrite start (stop + 2) (name ++ "?." ++ marker)
    else .overwrite start stop (name ++ "." ++ marker)
  else if isOptionalIn code m c then .insert (stop + 2) marker
  else .insert stop ("." ++ marker)

theorem redirect_eq (marker : String) (m : Module) (s : Splicer) (c : Callee) :
    redirect marker m s c = s.call? (redirection marker m s.source.toList c) := by
  unfold redirect redirection isOptionalIn
  simp only [Bool.or_eq_true, beq_iff_eq]
  split
  · split <;> rfl
  · split <;> rfl

/-- **An optional link is taken in whole**: it ends before the closing parenthesis of the call. -/
theorem optional_link {code id : String} {m : Module} (hm : Module.parse code id = .ok m)
    {c : StaticCall} (hc : c.Placed m.block.content.toList)
    (hoptional : isOptionalIn code.toList m c.callee = true) :
    isBoundary code.toList (m.inFile c.callee.span.stop + 2) = true ∧
      c.callee.span.stop + 2 < c.span.stop := by
  obtain ⟨hpos, hboundary, hparen⟩ := hc.closes
  have hlt := hc.stop_lt
  -- the block up to the callee's end, what follows up to the parenthesis, and the rest
  have hbetween : IsRange m.block.content.toList c.callee.span.stop (c.span.stop - 1) :=
    ⟨by omega, Nat.le_trans (Nat.sub_le _ _) hc.range.stop_le, hc.callee.stop_boundary, hboundary⟩
  obtain ⟨xs, ys, zs, hcontent, hxs, hys⟩ := hbetween.exists_append
  obtain ⟨before, after, hcode, hoffset⟩ := Module.standsAt_block hm
  rw [hys, hcontent, ← byteLength_append, ← List.append_assoc, dropBytes_append] at hparen
  have hstop : m.inFile c.callee.span.stop = byteLength (before ++ xs) := by
    rw [Module.inFile, byteLength_append, hoffset, hxs, Nat.add_comm]
  have hfile : code.toList = (before ++ xs) ++ (ys ++ (zs ++ after)) := by
    rw [hcode, hcontent]
    simp only [List.append_assoc]
  unfold isOptionalIn at hoptional
  rw [hstop, hfile, dropBytes_append] at hoptional
  cases zs with
  | nil => cases hparen
  | cons z zs =>
    cases hparen
    -- neither character of the link is the parenthesis
    obtain ⟨rest, hrest⟩ : ∃ rest, ys = '?' :: '.' :: rest := by
      match ys with
      | [] => simp [startsWith, strip?] at hoptional
      | [a] => simp [startsWith, strip?] at hoptional
      | a :: b :: rest =>
        simp only [List.cons_append, startsWith, strip?, beq_iff_eq] at hoptional
        split at hoptional
        · next ha =>
          split at hoptional
          · next hb => exact ⟨rest, by rw [← ha, ← hb]⟩
          · cases hoptional
        · cases hoptional
    have hlen : byteLength ys = 2 + byteLength rest := by
      rw [hrest, byteLength, byteLength, ← Nat.add_assoc]
      rfl
    refine ⟨?_, by omega⟩
    have hlink : byteLength (before ++ xs) + 2 = byteLength (before ++ xs ++ ['?', '.']) := by
      rw [byteLength_append (before ++ xs)]
      rfl
    rw [hstop, hlink, hfile, hrest]
    have h := isBoundary_append (before ++ xs ++ ['?', '.']) (rest ++ (')' :: zs ++ after))
    rwa [List.append_assoc] at h

/-- A redirection fits the file and stays between the start and the closing parenthesis of the
    call. -/
theorem redirection_fits {code id : String} {m : Module} (hm : Module.parse code id = .ok m)
    {c : StaticCall} (hc : c.Placed m.block.content.toList) (marker : String) :
    (redirection marker m code.toList c.callee).Fits code.toList ∧
      ∀ e, (redirection marker m code.toList c.callee).edit? = some e →
        m.inFile c.span.start ≤ e.start ∧ e.stop ≤ m.inFile c.span.stop := by
  have hrange := Module.isRange_inFile hm hc.callee
  have hcall := Module.isRange_inFile hm hc.range
  have hstart := hc.start_le
  have hstop := hc.stop_lt
  have hin : ∀ n, m.inFile n = n + m.block.offset := fun _ => rfl
  have hle := hrange.le
  have hlen := hcall.stop_le
  unfold redirection
  split
  · next hform =>
    have hlt := hc.named hform
    split
    · next hoptional =>
      obtain ⟨hboundary, hlink⟩ := optional_link hm hc hoptional
      refine ⟨⟨?_, ?_, ?_, hrange.start_boundary, hboundary⟩, ?_⟩
      · simp only [hin] at *
        omega
      · omega
      · simp only [hin] at *
        omega
      · rintro e ⟨⟩
        simp only [hin]
        omega
    · refine ⟨⟨?_, hrange⟩, ?_⟩
      · simp only [hin]
        omega
      · rintro e ⟨⟩
        simp only [hin]
        omega
  · split
    · next hoptional =>
      obtain ⟨hboundary, hlink⟩ := optional_link hm hc hoptional
      refine ⟨⟨Nat.le_refl _, ?_, hboundary, hboundary⟩, ?_⟩
      · simp only [hin] at *
        omega
      · rintro e ⟨⟩
        simp only [hin] at *
        omega
    · refine ⟨⟨Nat.le_refl _, hrange.stop_le, hrange.stop_boundary, hrange.stop_boundary⟩, ?_⟩
      rintro e ⟨⟩
      simp only [hin] at *
      omega

/-! ## Section 4: All redirections -/

/-- The callees of which none stands where an earlier one does. -/
def distinct : List Span → List Callee → List Callee
  | _, [] => []
  | seen, c :: cs =>
    if seen.contains c.span then distinct seen cs else c :: distinct (c.span :: seen) cs

theorem distinct_spec (seen : List Span) (cs : List Callee) :
    (∀ c ∈ distinct seen cs, c ∈ cs ∧ c.span ∉ seen) ∧
      (distinct seen cs).Pairwise fun a b => a.span ≠ b.span := by
  induction cs generalizing seen with
  | nil => simp [distinct]
  | cons c cs ih =>
    unfold distinct
    split
    · obtain ⟨hmem, hpair⟩ := ih seen
      exact ⟨fun d hd => ⟨List.mem_cons_of_mem _ (hmem d hd).1, (hmem d hd).2⟩, hpair⟩
    · next hfresh =>
      obtain ⟨hmem, hpair⟩ := ih (c.span :: seen)
      refine ⟨?_, List.pairwise_cons.mpr ⟨fun d hd heq => ?_, hpair⟩⟩
      · rintro d (_ | ⟨_, hd⟩)
        · exact ⟨List.mem_cons_self, by simpa using hfresh⟩
        · obtain ⟨hd, hseen⟩ := hmem d hd
          exact ⟨List.mem_cons_of_mem _ hd, fun h => hseen (List.mem_cons_of_mem _ h)⟩
      · exact (hmem d hd).2 (heq ▸ List.mem_cons_self)

/-- Redirecting callees is a batch of calls on the splicer. -/
theorem redirectAll_eq (marker : String) (m : Module) (seen : List Span) (cs : List Callee)
    (s : Splicer) :
    redirectAll marker m seen s cs =
      ((distinct seen cs).map (redirection marker m s.source.toList)).foldlM call? s := by
  induction cs generalizing seen s with
  | nil => rfl
  | cons c cs ih =>
    unfold redirectAll distinct
    split
    · exact ih seen s
    · rw [redirect_eq, List.map_cons, List.foldlM_cons]
      cases hcall : s.call? (redirection marker m s.source.toList c) with
      | error f => rfl
      | ok t =>
        -- edits change what comes out, never the source that is read
        have hsource : t.source = s.source := by rw [← call_of_ok hcall, source_call]
        have hrest := ih (c.span :: seen) t
        rw [hsource] at hrest
        exact hrest

/-- **No redirection is refused**: callees of exported calls are redirected, each place once. -/
theorem exists_redirectAll {code id : String} {m : Module} (hm : Module.parse code id = .ok m)
    (hspans : m.Spanned) (marker : String) {filter : NameFilter} {cs : List Callee}
    (hcs : ∀ c ∈ cs, IsExported filter m.program c) :
    ∃ s, redirectAll marker m [] (Splicer.new code) cs = .ok s := by
  obtain ⟨hmem, hdistinct⟩ := distinct_spec [] cs
  have happart := exportable_spanned hspans
  rw [redirectAll_eq]
  refine exists_foldlM_call? _ _ ?_ (List.pairwise_map.mpr (hdistinct.imp_of_mem ?_))
  · intro call hcall
    obtain ⟨c, hc, rfl⟩ := List.mem_map.mp hcall
    obtain ⟨v, hv, found, hfound, rfl⟩ := hcs c (hmem c hc).1
    have hplaced := (placed_of_directCall? hspans (mem_nodes_of_mem_exportable hv) hfound).1
    exact (redirection_fits hm hplaced marker).1
  · intro a b ha hb hne
    obtain ⟨v, hv, found, hfound, rfl⟩ := hcs a (hmem a ha).1
    obtain ⟨w, hw, found', hfound', rfl⟩ := hcs b (hmem b hb).1
    rcases happart v hv w hw with rfl | hvw
    -- one value has one callee, which is not redirected twice
    · rw [hfound] at hfound'
      cases hfound'
      exact absurd rfl hne
    · obtain ⟨hplaced, hcontains⟩ :=
        placed_of_directCall? hspans (mem_nodes_of_mem_exportable hv) hfound
      obtain ⟨hplaced', hcontains'⟩ :=
        placed_of_directCall? hspans (mem_nodes_of_mem_exportable hw) hfound'
      have hcalls := hvw.of_contains hcontains hcontains'
      refine agree_of_apart fun x y hx hy => ?_
      have hx := (redirection_fits hm hplaced marker).2 x hx
      have hy := (redirection_fits hm hplaced' marker).2 y hy
      unfold Span.Apart at hcalls
      unfold Module.inFile at hx hy
      omega

end BuildMacros.Factories
