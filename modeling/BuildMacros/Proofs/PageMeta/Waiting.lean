import BuildMacros.Proofs.PageMeta.Extraction
import BuildMacros.Proofs.Scope.OwnNames

/-! # Metadata that would have to wait

    What is written for a page runs before the page does, so a variable that is hoisted for
    the metadata may not wait for its value: a page that asks for this is refused. A wait
    inside of a function is another thing, for it happens when the function is called.

    The check looks for a wait anywhere in the declaration, functions included, and it
    looks only at declarations that stand at the root. So the pages that are refused
    (`extract_awaiting_iff`) are not the ones that would wait: an asynchronous function is refused
    where a constant holds it, and a `var` in a block is hoisted with its wait
    (`waits_misjudged`).
-/

namespace BuildMacros.Script

/-! ## Section 1: Waits in a node -/

/-- The node waits for a value. -/
def Node.isAwait : Node → Bool
  | .await _ _ => true
  | _ => false

/-- The waits in a node, with the scopes of the node that are around each of them. -/
def Node.awaits (n : Node) : List Spot :=
  (⟨n, []⟩ :: n.inside [] 0).filter fun s => s.node.isAwait

/-- The scope is that of a function, method or arrow function. -/
def Enclosing.isFunction (x : Enclosing) : Bool := x.flags.function

/-- The node waits for a value outside of all functions in it. -/
def Node.AwaitsAtOnce (n : Node) : Prop := ∃ s ∈ n.awaits, s.scopes.any Enclosing.isFunction = false

/-- A function in the node waits for a value, when it is called. -/
def Node.AwaitsLater (n : Node) : Prop := ∃ s ∈ n.awaits, s.scopes.any Enclosing.isFunction = true

instance (n : Node) : Decidable n.AwaitsAtOnce := inferInstanceAs (Decidable (∃ s ∈ _, _))

instance (n : Node) : Decidable n.AwaitsLater := inferInstanceAs (Decidable (∃ s ∈ _, _))

/-- A walk meets the waits among its events. -/
theorem await_mem_walk_iff {scopes : List Enclosing} {next : Nat} {es : List Event} :
    (∃ around, (around, Event.await) ∈ walk scopes next es) ↔ Event.await ∈ es := by
  induction es generalizing scopes next with
  | nil => simp [walk]
  | cons e es ih =>
    cases e with
    | enter flags => simp [walk, ih]
    | leave => simp [walk, ih]
    | declare b => simp [walk, ih]
    | use id => simp [walk, ih]
    | call node => simp [walk, ih]
    | await => simp [walk]

/-- Only a node that waits is a wait by itself. -/
theorem await_mem_moments_iff {n : Node} : Event.await ∈ n.moments ↔ n.isAwait = true := by
  cases n <;> simp [Node.moments, Node.landmarks, Node.isAwait]

/-- A wait in a list of nodes is one of the nodes. -/
theorem await_mem_told_iff {spots : List Spot} :
    (∃ around, (around, Event.await) ∈ told spots) ↔ ∃ s ∈ spots, s.node.isAwait = true := by
  simp only [told, List.mem_flatMap, Spot.moments, List.mem_map, Prod.mk.injEq]
  constructor
  · rintro ⟨around, s, hs, e, he, _, hawait⟩
    rw [hawait] at he
    exact ⟨s, hs, await_mem_moments_iff.mp he⟩
  · rintro ⟨s, hs, hawait⟩
    exact ⟨s.scopes, s, hs, .await, await_mem_moments_iff.mpr hawait, rfl, rfl⟩

/-- **The check does not tell waits apart**: it finds those that happen at once and those that
    happen when a function is called. -/
theorem Node.hasAwait_iff (n : Node) : n.hasAwait = true ↔ n.AwaitsAtOnce ∨ n.AwaitsLater := by
  have hevents : n.hasAwait = true ↔ Event.await ∈ eventsOf n.outline := by
    rw [Node.hasAwait, List.any_eq_true]
    constructor
    · rintro ⟨e, he, hawait⟩
      cases e with
      | await => exact he
      | _ => cases hawait
    · intro h
      exact ⟨.await, h, rfl⟩
  have hwalk : walk [] 0 (eventsOf n.outline) = told (⟨n, []⟩ :: n.inside [] 0) := by
    have h := walk_outline n [] 0 []
    rwa [List.append_nil, walk, List.append_nil] at h
  have hawaits : Event.await ∈ eventsOf n.outline ↔ ∃ s, s ∈ n.awaits := by
    have hmet : (∃ around, (around, Event.await) ∈ walk [] 0 (eventsOf n.outline)) ↔
        Event.await ∈ eventsOf n.outline := await_mem_walk_iff
    rw [← hmet, hwalk, await_mem_told_iff]
    simp only [Node.awaits, List.mem_filter]
  rw [hevents, hawaits]
  constructor
  · rintro ⟨s, hs⟩
    cases hfunction : s.scopes.any Enclosing.isFunction with
    | false => exact .inl ⟨s, hs, hfunction⟩
    | true => exact .inr ⟨s, hs, hfunction⟩
  · intro h
    rcases h with ⟨s, hs, -⟩ | ⟨s, hs, -⟩
    · exact ⟨s, hs⟩
    · exact ⟨s, hs⟩

/-! ## Section 2: Nodes that declare -/

/-- The node declares variables, a function or a class. -/
def Node.isDeclaring : Node → Bool
  | .variableDeclaration _ _ _ => true
  | .catchParam _ _ _ => true
  | .function .declaration _ _ _ => true
  | .cls true _ _ _ _ => true
  | _ => false

/-- The node declares variables. -/
def Node.isVariables : Node → Bool
  | .variableDeclaration _ _ _ => true
  | _ => false

theorem Node.eq_of_isVariables {n : Node} (h : n.isVariables = true) :
    ∃ kind declarators span, n = .variableDeclaration kind declarators span := by
  cases n with
  | variableDeclaration kind declarators span => exact ⟨kind, declarators, span, rfl⟩
  | _ => cases h

/-- No two nodes that declare variables, a function or a class have the same span. -/
def Program.DeclaresApart (p : Program) : Prop :=
  ((p.nodes.filter Node.isDeclaring).map Node.span).Nodup

instance (p : Program) : Decidable p.DeclaresApart := inferInstanceAs (Decidable (List.Nodup _))

/-- The span of a node that declares tells which one it is. -/
theorem Program.DeclaresApart.unique {p : Program} (h : p.DeclaresApart) {a b : Node}
    (ha : a ∈ p.nodes) (hb : b ∈ p.nodes) (hadeclares : a.isDeclaring = true)
    (hbdeclares : b.isDeclaring = true) (hspan : a.span = b.span) : a = b :=
  List.inj_on_of_nodup_map h (List.mem_filter.mpr ⟨ha, hadeclares⟩)
    (List.mem_filter.mpr ⟨hb, hbdeclares⟩) hspan

/-- A declaration is made by a node of the tree. -/
theorem Program.exists_binding {p : Program} {d : Declaration} (hd : d ∈ p.declarations) :
    ∃ n ∈ p.nodes, d.toBinding ∈ n.bindings := by
  obtain ⟨s, hs, hds⟩ := List.mem_flatMap.mp hd
  obtain ⟨b, hb, hdb⟩ := List.mem_filterMap.mp hds
  obtain ⟨owner, -, rfl⟩ := Option.map_eq_some_iff.mp hdb
  exact ⟨s.node, List.mem_map_of_mem hs, hb⟩

/-- What is declared as a variable, function or class is declared by a node of that sort, which has
    the span that the binding says. -/
theorem Node.isDeclaring_of_binding {n : Node} {b : Binding} (hb : b ∈ n.bindings)
    (hparam : b.kind ≠ .param) (himport : ∀ i, b.kind ≠ .imported i) :
    n.isDeclaring = true ∧ n.span = b.node := by
  have hall : ∀ {kind : BindingKind} {span : Span} {ids : List Ident},
      b ∈ bindAll kind span ids → b.kind = kind ∧ b.node = span := by
    intro kind span ids hmem
    obtain ⟨id, -, rfl⟩ := List.mem_map.mp hmem
    exact ⟨rfl, rfl⟩
  unfold Node.bindings at hb
  split at hb
  · exact ⟨rfl, (hall hb).2.symm⟩
  · exact ⟨rfl, (hall hb).2.symm⟩
  · exact absurd (hall hb).1 hparam
  · exact ⟨rfl, (hall hb).2.symm⟩
  · exact ⟨rfl, (hall hb).2.symm⟩
  · obtain ⟨s, -, rfl⟩ := List.mem_map.mp hb
    cases s <;> exact absurd rfl (himport _)
  · cases hb

end BuildMacros.Script

namespace BuildMacros.PageMeta

open BuildMacros.Text BuildMacros.Script

/-! ## Section 3: Hoisted variables that wait -/

/-- A declaration of variables that is hoisted for the text of a span: it declares a variable of the
    root that is reached. -/
structure HoistsVariables (m : Module) (within : Span) (n : Node) : Prop where
  mem : n ∈ m.program.nodes
  shape : n.isVariables = true
  reached : ∃ d, Reached (references m) within d ∧ isHoistable d = true ∧ d.toBinding ∈ n.bindings

/-- The node is a statement of the root, perhaps one that is exported. -/
def StandsAtRoot (m : Module) (n : Node) : Prop :=
  n ∈ m.program.body ∨ ∃ typeOnly, .exportDeclaration n typeOnly ∈ m.program.body

section

variable {m : Module} {id : String} {within : Span}

/-- What a reference refers to is a declaration of the module. -/
theorem mem_declarations_of_refersTo (hm : m.scopes = .collect m.program) {d : Declaration}
    (h : RefersTo (references m) within d) : d ∈ m.program.declarations := by
  obtain ⟨x, hx, -, hd, -⟩ := h
  obtain ⟨y, -, hy⟩ := List.mem_filterMap.mp hx
  split at hy
  · cases hy
    rw [hm] at hd
    obtain ⟨scope, -, howned⟩ := List.exists_of_findSome?_eq_some hd
    rw [own?_collect] at howned
    exact (Program.mem_of_owned? howned).1
  · cases hy

theorem mem_declarations_of_reached (hm : m.scopes = .collect m.program) {d : Declaration}
    (h : Reached (references m) within d) : d ∈ m.program.declarations := by
  cases h with
  | used h => exact mem_declarations_of_refersTo hm h
  | through _ _ h => exact mem_declarations_of_refersTo hm h

/-- The node that makes a declaration that can be hoisted. -/
theorem exists_declaring (hm : m.scopes = .collect m.program) {d : Declaration}
    (hd : Reached (references m) within d) (hroot : isHoistable d = true) :
    ∃ n ∈ m.program.nodes, d.toBinding ∈ n.bindings ∧ n.isDeclaring = true ∧ n.span = d.node := by
  obtain ⟨n, hn, hbinding⟩ := Program.exists_binding (mem_declarations_of_reached hm hd)
  refine ⟨n, hn, hbinding, Node.isDeclaring_of_binding hbinding ?_ ?_⟩
  · intro hkind
    simp [isHoistable, hkind] at hroot
  · intro i hkind
    simp [isHoistable, hkind] at hroot

theorem StandsAtRoot.mem_nodes {n : Node} (h : StandsAtRoot m n) : n ∈ m.program.nodes := by
  rcases h with h | ⟨typeOnly, h⟩
  · exact Program.mem_nodes_of_mem_body h
  · exact m.program.downward_nodes _ (Program.mem_nodes_of_mem_body h) n List.mem_cons_self

/-- What is found for a span is a declaration of variables at the root, with that span. -/
theorem variablesAt?_eq_some {span : Span} {stmt n : Node} (h : variablesAt? span stmt = some n) :
    (stmt = n ∨ ∃ typeOnly, stmt = .exportDeclaration n typeOnly) ∧
      ∃ kind declarators, n = .variableDeclaration kind declarators span := by
  unfold variablesAt? at h
  split at h
  · split at h
    · next hspan =>
      cases h
      exact ⟨.inl rfl, _, _, by rw [hspan]⟩
    · cases h
  · split at h
    · next hspan =>
      cases h
      exact ⟨.inr ⟨_, rfl⟩, _, _, by rw [hspan]⟩
    · cases h
  · cases h

/-- **What is found for a span** is the declaration of variables of the root that stands there. -/
theorem findSome?_variablesAt?_iff (hapart : m.program.DeclaresApart) {span : Span} {n : Node} :
    m.program.body.findSome? (variablesAt? span) = some n ↔
      StandsAtRoot m n ∧ ∃ kind declarators, n = .variableDeclaration kind declarators span := by
  have hsound : ∀ {k}, m.program.body.findSome? (variablesAt? span) = some k →
      StandsAtRoot m k ∧ ∃ kind declarators, k = .variableDeclaration kind declarators span := by
    intro k hk
    obtain ⟨stmt, hstmt, hfound⟩ := List.exists_of_findSome?_eq_some hk
    obtain ⟨hroot, hvariables⟩ := variablesAt?_eq_some hfound
    refine ⟨?_, hvariables⟩
    rcases hroot with rfl | ⟨typeOnly, rfl⟩
    · exact .inl hstmt
    · exact .inr ⟨typeOnly, hstmt⟩
  constructor
  · exact hsound
  · rintro ⟨hroot, kind, declarators, hn⟩
    cases hfind : m.program.body.findSome? (variablesAt? span) with
    | none =>
      rw [List.findSome?_eq_none_iff] at hfind
      subst hn
      rcases hroot with hroot | ⟨typeOnly, hroot⟩
      · simpa [variablesAt?] using hfind _ hroot
      · simpa [variablesAt?] using hfind _ hroot
    | some k =>
      obtain ⟨hkroot, kind', declarators', hk⟩ := hsound hfind
      refine congrArg some (hapart.unique hkroot.mem_nodes hroot.mem_nodes ?_ ?_ ?_)
      · rw [hk]; rfl
      · rw [hn]; rfl
      · rw [hk, hn]; rfl

/-- **Which declarations are found to wait**: variables that are declared by a statement of the root
    with a wait anywhere in it. -/
theorem waits_iff (hm : m.scopes = .collect m.program) (hapart : m.program.DeclaresApart)
    {d : Declaration} (hd : Reached (references m) within d) (hroot : isHoistable d = true) :
    waits m d = true ↔ ∃ n, StandsAtRoot m n ∧
      (∃ kind declarators, n = .variableDeclaration kind declarators d.node) ∧
      d.toBinding ∈ n.bindings ∧ n.hasAwait = true := by
  obtain ⟨n, hn, hbinding, hdeclares, hspan⟩ := exists_declaring hm hd hroot
  unfold waits
  constructor
  · intro hwaits
    split at hwaits
    · obtain ⟨k, hk, hawait⟩ := (Option.any_eq_true _ _).mp hwaits
      obtain ⟨hstands, kind, declarators, hvariables⟩ := (findSome?_variablesAt?_iff hapart).mp hk
      -- the statement has the span of the node that makes the declaration, so it is that node
      have hsame : n = k := by
        apply hapart.unique hn hstands.mem_nodes hdeclares
        · rw [hvariables]; rfl
        · rw [hspan, hvariables]; rfl
      rw [hsame] at hbinding
      exact ⟨k, hstands, ⟨kind, declarators, hvariables⟩, hbinding, hawait⟩
    · cases hwaits
  · rintro ⟨k, hstands, ⟨kind, declarators, hvariables⟩, hk, hawait⟩
    have hfind := (findSome?_variablesAt?_iff hapart).mpr ⟨hstands, kind, declarators, hvariables⟩
    have hkind : d.kind = .variable kind := by
      rw [hvariables] at hk
      obtain ⟨name, -, hd⟩ := List.mem_map.mp hk
      exact (congrArg Binding.kind hd).symm
    simp [hkind, hfind, hawait]

/-- Declarations with one node wait alike. -/
theorem waits_of_node_eq (hm : m.scopes = .collect m.program) (hapart : m.program.DeclaresApart)
    {d e : Declaration} (hd : Reached (references m) within d) (hdroot : isHoistable d = true)
    (he : Reached (references m) within e) (heroot : isHoistable e = true)
    (hnode : d.node = e.node) (hwaits : waits m d = true) : waits m e = true := by
  obtain ⟨n, hstands, ⟨kind, declarators, hn⟩, -, hawait⟩ :=
    (waits_iff hm hapart hd hdroot).mp hwaits
  obtain ⟨k, hk, hbinding, hdeclares, hspan⟩ := exists_declaring hm he heroot
  have hsame : k = n := by
    apply hapart.unique hk hstands.mem_nodes hdeclares
    · rw [hn]; rfl
    · rw [hspan, hn, ← hnode]; rfl
  rw [hsame] at hbinding
  exact (waits_iff hm hapart he heroot).mpr
    ⟨n, hstands, ⟨kind, declarators, by rw [hn, hnode]⟩, hbinding, hawait⟩

/-- **When hoisting fails**: exactly if something that would be hoisted is found to wait. -/
theorem needsOf_eq_error_iff (hm : m.scopes = .collect m.program)
    (hapart : m.program.DeclaresApart) (f : Failure) :
    needsOf m id within = .error f ↔ f = .awaitInCall metaCall (Path.clean id) ∧
      ∃ d, Reached (references m) within d ∧ isHoistable d = true ∧ waits m d = true := by
  have hruns := hoists_iff m id within
  constructor
  · intro hf
    exact (justified_of_hoists ((hruns _).mpr hf)).2 f rfl
  · rintro ⟨hf, d, hd, hroot, hwaits⟩
    cases hresult : needsOf m id within with
    | error f' =>
      rw [hf, ((justified_of_hoists ((hruns _).mpr hresult)).2 f' rfl).1]
    | ok needs =>
      -- a run that succeeds takes only what does not wait, and it takes the node of `d`
      have hrun := (hruns _).mpr hresult
      have htaken : ∀ span ∈ needs.declarations, ∃ e, Reached (references m) within e ∧
          isHoistable e = true ∧ e.node = span ∧ waits m e = false := by
        refine (hrun.keeps (P := fun n => ∀ span ∈ n.declarations,
          ∃ e, Reached (references m) within e ∧ isHoistable e = true ∧ e.node = span ∧
            waits m e = false) (Q := Reached (references m) within) ?_ ?_ ?_ ?_ ?_).1 needs rfl
        · intro d e hd hroot he
          exact .through hd hroot he
        · intro n e hn _ _
          rwa [Needs.declarations_addImport]
        · intro n e hn he hfresh hready span hspan
          rcases Needs.mem_addDeclaration.mp hspan with hold | hnew
          · exact hn span hold
          · exact ⟨e, he, hfresh.hoistable, hnew.symm, hready⟩
        · intro span hspan
          cases hspan
        · intro e he
          exact .used (mem_outward_iff.mp he)
      obtain ⟨e, he, heroot, hnode, hready⟩ :=
        htaken d.node ((covers_of_reached hrun hd).hoisted hroot)
      rw [waits_of_node_eq hm hapart hd hroot he heroot hnode.symm hwaits] at hready
      cases hready

/-- **What a page is refused for**, on its tree. -/
theorem needsOf_awaiting_iff (hm : m.scopes = .collect m.program)
    (hapart : m.program.DeclaresApart) :
    needsOf m id within = .error (.awaitInCall metaCall (Path.clean id)) ↔
      ∃ n, HoistsVariables m within n ∧ StandsAtRoot m n ∧ (n.AwaitsAtOnce ∨ n.AwaitsLater) := by
  rw [needsOf_eq_error_iff hm hapart]
  constructor
  · rintro ⟨_, d, hd, hroot, hwaits⟩
    obtain ⟨n, hstands, ⟨kind, declarators, hn⟩, hbinding, hawait⟩ :=
      (waits_iff hm hapart hd hroot).mp hwaits
    exact ⟨n, ⟨hstands.mem_nodes, by rw [hn]; rfl, d, hd, hroot, hbinding⟩, hstands,
      n.hasAwait_iff.mp hawait⟩
  · rintro ⟨n, ⟨hn, hshape, d, hd, hroot, hbinding⟩, hstands, hawait⟩
    obtain ⟨kind, declarators, span, hvariables⟩ := Node.eq_of_isVariables hshape
    refine ⟨rfl, d, hd, hroot, (waits_iff hm hapart hd hroot).mpr ?_⟩
    have hspan : d.node = span := by
      rw [hvariables] at hbinding
      obtain ⟨name, -, hd⟩ := List.mem_map.mp hbinding
      exact (congrArg Binding.node hd).symm
    exact ⟨n, hstands, ⟨kind, declarators, by rw [hvariables, hspan]⟩, hbinding,
      n.hasAwait_iff.mpr hawait⟩

end

/-! ## Section 4: Pages that are refused -/

section

variable {code id : String} {m : Module} (hparse : Module.parse code id = .ok m)
  (hcall : (metaCalls m).length = 1)

include hparse hcall

/-- A page with one call that states metadata fails if it is parsed and the hoisting for the
    argument of the call fails. -/
theorem extract_eq_error_iff (o : PageMetaOptions) (sourcemap : Bool) (f : Failure) :
    extract o sourcemap code id = .error f ↔ mayState code = true ∧
      ∃ arg, soleArgument? m = some arg ∧ needsOf m id arg.span = .error f := by
  by_cases hstate : mayState code = true
  · have hcode : code ≠ "" := by
      intro hempty
      rw [hempty, mayState_empty] at hstate
      cases hstate
    have harguments := metaArguments_of_length hcall
    rw [extract_of_mayState hparse hstate, extractFrom, harguments]
    cases hsole : soleArgument? m with
    | none =>
      obtain ⟨s, hs⟩ := exists_replaceAll hcode (emptyModule o)
      show Except.map _ (if holdsMeta code = true then _ else replaceAll code (emptyModule o)) = _ ↔
        _
      rw [hs]
      split <;> simp [Except.map, pure, Except.pure]
    | some arg =>
      show Except.map _ (needsOf m id arg.span >>= fun needs =>
        replaceAll code (extracted m o needs arg.span)) = _ ↔ _
      cases hneeds : needsOf m id arg.span with
      | error f' => simp [bind, Except.bind, Except.map, hstate, hneeds]
      | ok needs =>
        obtain ⟨s, hs⟩ := exists_replaceAll hcode (extracted m o needs arg.span)
        simp [bind, Except.bind, Except.map, hs, hneeds]
  · obtain ⟨map, hextract⟩ := extract_of_not_mayState hstate o sourcemap id
    simp [hextract, hstate]

/-- **Which pages are refused.** Let a page parse, with exactly one call of the function by its
    plain name, and let the nodes that declare something have different spans. Then the page is
    answered, or it is refused for a wait. It is refused exactly if it is looked at for metadata at
    all, and some declaration of variables that is hoisted for the argument is a statement of the
    root and has a wait in it, outside of functions or inside. If all declarations of variables that
    are hoisted stand at the root, with no wait inside of a function, these are the pages that would
    have to wait. -/
theorem extract_awaiting_iff (hapart : m.program.DeclaresApart) (o : PageMetaOptions)
    (sourcemap : Bool) :
    ((∃ out, extract o sourcemap code id = .ok out) ∨
      extract o sourcemap code id = .error (.awaitInCall metaCall (Path.clean id))) ∧
    (extract o sourcemap code id = .error (.awaitInCall metaCall (Path.clean id)) ↔
      (Spelled code.toList ∨ "export { default }".toList <:+: code.toList ∨
        metaName.toList <:+: code.toList) ∧
      ∃ arg n, soleArgument? m = some arg ∧ HoistsVariables m arg.span n ∧
        StandsAtRoot m n ∧ (n.AwaitsAtOnce ∨ n.AwaitsLater)) ∧
    (Spelled code.toList →
      (∀ arg n, soleArgument? m = some arg → HoistsVariables m arg.span n →
        StandsAtRoot m n ∧ ¬n.AwaitsLater) →
      (extract o sourcemap code id = .error (.awaitInCall metaCall (Path.clean id)) ↔
        ∃ arg n, soleArgument? m = some arg ∧ HoistsVariables m arg.span n ∧
          n.AwaitsAtOnce)) := by
  obtain ⟨-, hm⟩ := Module.parse_eq_ok hparse
  have hiff : extract o sourcemap code id = .error (.awaitInCall metaCall (Path.clean id)) ↔
      mayState code = true ∧ ∃ arg n, soleArgument? m = some arg ∧
        HoistsVariables m arg.span n ∧ StandsAtRoot m n ∧ (n.AwaitsAtOnce ∨ n.AwaitsLater) := by
    rw [extract_eq_error_iff hparse hcall]
    simp only [needsOf_awaiting_iff hm hapart, exists_and_left]
  refine ⟨?_, by rw [hiff, mayState_iff], ?_⟩
  · cases hresult : extract o sourcemap code id with
    | ok out => exact .inl ⟨out, rfl⟩
    | error f =>
      obtain ⟨-, arg, -, hneeds⟩ := (extract_eq_error_iff hparse hcall o sourcemap f).mp hresult
      rw [((needsOf_eq_error_iff hm hapart f).mp hneeds).1]
      exact .inr rfl
  · intro hspelled hplain
    have hstate : mayState code = true := mayState_iff.mpr (.inl hspelled)
    rw [hiff]
    constructor
    · rintro ⟨_, arg, n, harg, hn, _, hawait⟩
      refine ⟨arg, n, harg, hn, hawait.resolve_right ?_⟩
      exact (hplain arg n harg hn).2
    · rintro ⟨arg, n, harg, hn, hawait⟩
      exact ⟨hstate, arg, n, harg, hn, (hplain arg n harg hn).1, .inl hawait⟩

end

/-- A page whose metadata holds a value that has to be waited for. -/
def awaitingCode : String := "const data = await load()\ndefinePageMeta({ data })\n"

/-- That page is refused. -/
theorem extract_awaiting_iff_constant :
    ∃ m, Module.parse awaitingCode "/app/pages/a.ts" = .ok m ∧ (metaCalls m).length = 1 ∧
      m.program.DeclaresApart ∧ extract ⟨false⟩ false awaitingCode "/app/pages/a.ts" =
        .error (.awaitInCall "definePageMeta" "/app/pages/a.ts") := by
  let data : Declaration := ⟨⟨"data", .variable .const, ⟨6, 10⟩, ⟨0, 25⟩⟩, 0⟩
  have hchars : awaitingCode.toList = _ := String.toList_ofList
  have hfile : ((Module.parse awaitingCode "/app/pages/a.ts").toOption.any fun m =>
      decide (m.program.DeclaresApart) && (soleArgument? m).any fun arg =>
        decide (data ∈ outward (references m) arg.span) && m.program.body.any fun n =>
          n.isVariables && decide (data.toBinding ∈ n.bindings ∧ n.AwaitsAtOnce)) = true := by
    rw [Module.toOption_parse_script hchars (by decide)]
    decide +kernel
  obtain ⟨m, hparse, hfile⟩ := (Option.any_eq_true _ _).mp hfile
  have hparse := eq_ok_of_toOption hparse
  obtain ⟨hapart, hfile⟩ := (Bool.and_eq_true _ _).mp hfile
  obtain ⟨arg, harg, hfile⟩ := (Option.any_eq_true _ _).mp hfile
  obtain ⟨hdata, hfile⟩ := (Bool.and_eq_true _ _).mp hfile
  obtain ⟨n, hn, hfile⟩ := List.any_eq_true.mp hfile
  obtain ⟨hvariables, hfile⟩ := (Bool.and_eq_true _ _).mp hfile
  obtain ⟨hbinding, hawait⟩ := of_decide_eq_true hfile
  have hcall := length_of_soleArgument? harg
  have hhoists : HoistsVariables m arg.span n :=
    ⟨Program.mem_nodes_of_mem_body hn, hvariables, data,
      .used (mem_outward_iff.mp (of_decide_eq_true hdata)), rfl, hbinding⟩
  have hstate : mayState awaitingCode = true := by decide +kernel
  have hrefused := (extract_awaiting_iff hparse hcall (of_decide_eq_true hapart) ⟨false⟩
    false).2.1.mpr ⟨mayState_iff.mp hstate, arg, n, harg, hhoists, .inl hn, .inl hawait⟩
  exact ⟨m, hparse, hcall, of_decide_eq_true hapart, hrefused⟩

/-- A page that guards itself by an asynchronous function, which a constant holds. -/
def guardedCode : String :=
  "const mw = async () => { await load() }\ndefinePageMeta({ middleware: mw })\n"

/-- A page whose value that has to be waited for is declared in a block. -/
def blockCode : String := "{ var data = await load() }\ndefinePageMeta({ data })\n"

/-- **Waits that are misjudged**: the first page is refused though nothing that is hoisted for it
    waits at once, and the second one is answered though a variable that is hoisted does. -/
theorem waits_misjudged :
    (∃ m arg, Module.parse guardedCode "/app/pages/a.ts" = .ok m ∧ soleArgument? m = some arg ∧
      (∀ n, HoistsVariables m arg.span n → ¬n.AwaitsAtOnce) ∧
      extract ⟨false⟩ false guardedCode "/app/pages/a.ts" =
        .error (.awaitInCall "definePageMeta" "/app/pages/a.ts")) ∧
    ∃ m arg, Module.parse blockCode "/app/pages/a.ts" = .ok m ∧ soleArgument? m = some arg ∧
      (∃ n, HoistsVariables m arg.span n ∧ n.AwaitsAtOnce) ∧
      ∃ text map, extract ⟨false⟩ false blockCode "/app/pages/a.ts" = .ok (.edited text map) := by
  constructor
  · let mw : Declaration := ⟨⟨"mw", .variable .const, ⟨6, 8⟩, ⟨0, 39⟩⟩, 0⟩
    have hchars : guardedCode.toList = _ := String.toList_ofList
    have hfile : ((Module.parse guardedCode "/app/pages/a.ts").toOption.any fun m =>
        (soleArgument? m).any fun arg =>
          decide (mw ∈ outward (references m) arg.span ∧ waits m mw = true ∧
            m.program.DeclaresApart) &&
          m.program.nodes.all fun n => decide (¬n.AwaitsAtOnce) || !n.isVariables) = true := by
      rw [Module.toOption_parse_script hchars (by decide)]
      decide +kernel
    obtain ⟨m, hparse, hfile⟩ := (Option.any_eq_true _ _).mp hfile
    have hparse := eq_ok_of_toOption hparse
    obtain ⟨-, hm⟩ := Module.parse_eq_ok hparse
    obtain ⟨arg, harg, hfile⟩ := (Option.any_eq_true _ _).mp hfile
    obtain ⟨hfile, hlater⟩ := (Bool.and_eq_true _ _).mp hfile
    obtain ⟨hmw, hwaits, hapart⟩ := of_decide_eq_true hfile
    refine ⟨m, arg, hparse, harg, ?_, ?_⟩
    · intro n ⟨hn, hvariables, _⟩
      simpa [hvariables] using List.all_eq_true.mp hlater n hn
    · rw [extract_eq_error_iff hparse (length_of_soleArgument? harg)]
      refine ⟨by decide +kernel, arg, harg, (needsOf_eq_error_iff hm hapart _).mpr ⟨rfl, mw, ?_⟩⟩
      exact ⟨.used (mem_outward_iff.mp hmw), rfl, hwaits⟩
  · let data : Declaration := ⟨⟨"data", .variable .var, ⟨6, 10⟩, ⟨2, 25⟩⟩, 0⟩
    have hchars : blockCode.toList = _ := String.toList_ofList
    have hfile : ((Module.parse blockCode "/app/pages/a.ts").toOption.any fun m =>
        (soleArgument? m).any fun arg =>
          decide (outward (references m) arg.span = [data] ∧
            outward (references m) data.node = [] ∧ waits m data = false) &&
          m.program.nodes.any fun n =>
            n.isVariables && decide (data.toBinding ∈ n.bindings ∧ n.AwaitsAtOnce)) = true := by
      rw [Module.toOption_parse_script hchars (by decide)]
      decide +kernel
    obtain ⟨m, hparse, hfile⟩ := (Option.any_eq_true _ _).mp hfile
    have hparse := eq_ok_of_toOption hparse
    obtain ⟨arg, harg, hfile⟩ := (Option.any_eq_true _ _).mp hfile
    obtain ⟨hfile, hnode⟩ := (Bool.and_eq_true _ _).mp hfile
    obtain ⟨hmeta, hdata, hwaits⟩ := of_decide_eq_true hfile
    obtain ⟨n, hn, hnode⟩ := List.any_eq_true.mp hnode
    obtain ⟨hvariables, hnode⟩ := (Bool.and_eq_true _ _).mp hnode
    obtain ⟨hbinding, hawait⟩ := of_decide_eq_true hnode
    have hneeds : needsOf m "/app/pages/a.ts" arg.span = .ok ⟨[], [data.node]⟩ := by
      rw [← hoists_iff, hmeta]
      refine .taken (by decide) hwaits ?_ .done
      rw [hdata]
      exact .done
    obtain ⟨map, hextract⟩ :=
      extract_eq hparse (metaArguments_of_soleArgument? harg) hneeds ⟨false⟩ false
    refine ⟨m, arg, hparse, harg, ⟨n, ⟨hn, hvariables, data, ?_, rfl, hbinding⟩,
      hawait⟩, _, map, hextract⟩
    exact .used (mem_outward_iff.mp (by rw [hmeta]; exact List.mem_cons_self))

end BuildMacros.PageMeta
