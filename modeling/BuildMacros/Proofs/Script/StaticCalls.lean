import BuildMacros.Script.CallSite
import BuildMacros.Script.Grammar

/-! # Which calls are static

    What makes a callee known, as relations between nodes instead of functions on them.
    `Node.Designates` says which callee a node is: a name, or a member of a name under a
    fixed key, wrappers around either one set aside, and it says which node a redirection
    replaces. `Node.Encloses` says by which layers of wrappers, waits and chains a node
    encloses a call.

    `Node.callee?` and `Node.innerCall?` decide these relations (`callee?_eq_some_iff`,
    `innerCall?_eq_some_iff`). A chain is looked through only where the call stands
    directly inside it: `f?.()!` is read as a chain around a wrapper, and the call in it
    is not found, while `(f?.())!` is.
-/

namespace BuildMacros.Script

/-! ## Section 1: Wrappers -/

/-- The second node is the first one without some of the wrappers around it. -/
inductive Node.Wraps : Node → Node → Prop where
  | refl (n : Node) : Wraps n n
  | wrap {inner n : Node} (how : Wrapper) (before after : List Node) (span : Span)
      (h : Wraps inner n) : Wraps (.wrap how before inner after span) n

theorem Node.Wraps.unwrap_eq {n m : Node} (h : n.Wraps m) : n.unwrap = m.unwrap := by
  induction h with
  | refl => rfl
  | wrap how before after span _ ih => rw [Node.unwrap, ih]

theorem Node.wraps_unwrap (n : Node) : n.Wraps n.unwrap := by
  fun_induction Node.unwrap n with
  | case1 how before inner after span ih => exact .wrap how before after span ih
  | case2 n _ => exact .refl n

/-- A node without wrappers around it is reached when all of them are removed. -/
theorem Node.wraps_iff_of_isWrapped_eq_false {n m : Node} (hm : m.isWrapped = false) :
    n.Wraps m ↔ n.unwrap = m := by
  constructor
  · intro h
    rw [h.unwrap_eq]
    cases m with
    | wrap => cases hm
    | _ => rfl
  · rintro rfl
    exact n.wraps_unwrap

theorem Node.unwrap_of_isWrapped_eq_false {n : Node} (h : n.isWrapped = false) : n.unwrap = n :=
  (Node.wraps_iff_of_isWrapped_eq_false h).mp (.refl n)

theorem Node.wrappedName?_eq_some_iff {n : Node} {name : String} :
    n.wrappedName? = some name ↔ ∃ id : Ident, n.Wraps (.use id) ∧ id.name = name := by
  have huse (id : Ident) : n.Wraps (.use id) ↔ n.unwrap = .use id :=
    Node.wraps_iff_of_isWrapped_eq_false rfl
  simp only [huse, Node.wrappedName?]
  split
  · next id hid => simp [hid]
  · next hnone =>
    constructor
    · rintro ⟨⟩
    · rintro ⟨id, hid, -⟩
      exact (hnone id hid).elim

/-! ## Section 2: Callees -/

/-- Without looking through wrappers around it, the node is this callee: a name, or a member
    under a fixed key of what is a name inside its wrappers. -/
inductive Node.Names : Node → Callee → Prop where
  | name (id : Ident) : Names (.use id) ⟨id.name, none, .identifier, id.span⟩
  | member {object : Node} {q : Ident} (property : Ident) (span : Span)
      (h : object.Wraps (.use q)) :
      Names (.member object property span) ⟨property.name, some q.name, .property, property.span⟩
  | key {object : Node} {q : Ident} (key : String) (keySpan span : Span)
      (h : object.Wraps (.use q)) :
      Names (.index object (.string key keySpan) span) ⟨key, some q.name, .computed, span⟩

/-- The node is this callee. When it is wrapped, redirecting the callee replaces the whole node. -/
inductive Node.Designates : Node → Callee → Prop where
  | bare {n : Node} {c : Callee} (h : n.Names c) : Designates n c
  | wrapped {n inner : Node} {c : Callee} (hn : n.isWrapped = true) (hinner : n.Wraps inner)
      (h : inner.Names c) : Designates n { c with form := .wrapped, span := n.span }

theorem Node.Names.isWrapped_eq_false {n : Node} {c : Callee} (h : n.Names c) :
    n.isWrapped = false := by
  cases h <;> rfl

theorem Node.bareCallee?_eq_some_iff {n : Node} {c : Callee} :
    n.bareCallee? = some c ↔ n.Names c := by
  constructor
  · intro h
    unfold Node.bareCallee? at h
    split at h
    · next id =>
      cases h
      exact .name id
    · next object property span =>
      obtain ⟨q, hq, rfl⟩ := Option.map_eq_some_iff.mp h
      obtain ⟨id, hobject, rfl⟩ := Node.wrappedName?_eq_some_iff.mp hq
      exact .member property span hobject
    · next object key keySpan span =>
      obtain ⟨q, hq, rfl⟩ := Option.map_eq_some_iff.mp h
      obtain ⟨id, hobject, rfl⟩ := Node.wrappedName?_eq_some_iff.mp hq
      exact .key key keySpan span hobject
    · cases h
  · intro h
    cases h with
    | name id => rfl
    | member property span hobject =>
      rw [Node.bareCallee?, Node.wrappedName?_eq_some_iff.mpr ⟨_, hobject, rfl⟩]
      rfl
    | key key keySpan span hobject =>
      rw [Node.bareCallee?, Node.wrappedName?_eq_some_iff.mpr ⟨_, hobject, rfl⟩]
      rfl

/-- **What a callee is.** -/
theorem Node.callee?_eq_some_iff {n : Node} {c : Callee} :
    n.callee? = some c ↔ n.Designates c := by
  unfold Node.callee?
  split
  -- a wrapped node is looked through, and stands for the callee as a whole
  · next hwrapped =>
    constructor
    · intro h
      obtain ⟨bare, hbare, rfl⟩ := Option.map_eq_some_iff.mp h
      exact .wrapped hwrapped n.wraps_unwrap (Node.bareCallee?_eq_some_iff.mp hbare)
    · intro h
      cases h with
      | bare h => rw [h.isWrapped_eq_false] at hwrapped; cases hwrapped
      | wrapped _ hinner h =>
        rw [(Node.wraps_iff_of_isWrapped_eq_false h.isWrapped_eq_false).mp hinner,
          Node.bareCallee?_eq_some_iff.mpr h]
        rfl
  · next hbare =>
    rw [Node.bareCallee?_eq_some_iff]
    constructor
    · exact .bare
    · intro h
      cases h with
      | bare h => exact h
      | wrapped hn _ _ => exact absurd hn hbare

/-- A callee apart from the node that a redirection replaces. -/
def Callee.path (c : Callee) : Option String × String := (c.qualifier, c.name)

theorem Node.map_path_callee? (n : Node) :
    n.callee?.map Callee.path = n.unwrap.bareCallee?.map Callee.path := by
  unfold Node.callee?
  split
  · rw [Option.map_map]
    rfl
  · next h => rw [Node.unwrap_of_isWrapped_eq_false (Bool.eq_false_iff.mpr h)]

/-- Wrappers change neither the name of a callee nor the name that it is a member of. -/
theorem Node.Wraps.map_path_callee? {n m : Node} (h : n.Wraps m) :
    n.callee?.map Callee.path = m.callee?.map Callee.path := by
  rw [Node.map_path_callee?, Node.map_path_callee?, h.unwrap_eq]

/-! ## Section 3: Calls behind layers -/

/-- What can stand around a call without changing what is called. -/
inductive Layer where
  | wrapper
  | wait
  | chain
deriving DecidableEq, Repr

/-- The node encloses the call in layers, listed from the outermost one. -/
inductive Node.Encloses : List Layer → Node → Node → Prop where
  | call (callee : Node) (typeArgs args : List Node) (optional : Bool) (span : Span) :
      Encloses [] (.call callee typeArgs args optional span)
        (.call callee typeArgs args optional span)
  | wrapper {layers : List Layer} {inner call : Node} (how : Wrapper) (before after : List Node)
      (span : Span) (h : Encloses layers inner call) :
      Encloses (.wrapper :: layers) (.wrap how before inner after span) call
  | wait {layers : List Layer} {inner call : Node} (span : Span)
      (h : Encloses layers inner call) : Encloses (.wait :: layers) (.await inner span) call
  | chain {layers : List Layer} {inner call : Node} (span : Span)
      (h : Encloses layers inner call) : Encloses (.chain :: layers) (.chain inner span) call

/-- No chain, or a single one that is the innermost layer. -/
def ChainInnermost (layers : List Layer) : Prop :=
  ∃ outer : List Layer, .chain ∉ outer ∧ (layers = outer ∨ layers = outer ++ [.chain])

theorem chainInnermost_nil : ChainInnermost [] := ⟨[], by simp, .inl rfl⟩

theorem chainInnermost_cons_iff {layer : Layer} {layers : List Layer} (h : layer ≠ .chain) :
    ChainInnermost (layer :: layers) ↔ ChainInnermost layers := by
  constructor
  · rintro ⟨outer, houter, heq⟩
    cases outer with
    | nil =>
      rcases heq with heq | heq
      · cases heq
      · exact absurd (List.cons.inj heq).1 h
    | cons first outer =>
      refine ⟨outer, fun hmem => houter (List.mem_cons_of_mem _ hmem), ?_⟩
      exact heq.imp (fun heq => (List.cons.inj heq).2) (fun heq => (List.cons.inj heq).2)
  · rintro ⟨outer, houter, heq⟩
    refine ⟨layer :: outer, ?_, heq.imp (congrArg _) (congrArg _)⟩
    rw [List.mem_cons, not_or]
    exact ⟨h.symm, houter⟩

theorem chainInnermost_chain_cons_iff {layers : List Layer} :
    ChainInnermost (.chain :: layers) ↔ layers = [] := by
  constructor
  · rintro ⟨outer, houter, heq⟩
    cases outer with
    | nil =>
      rcases heq with heq | heq
      · cases heq
      · exact (List.cons.inj heq).2
    | cons first outer =>
      have hfirst : Layer.chain = first := by
        rcases heq with heq | heq <;> exact (List.cons.inj heq).1
      exact absurd (hfirst ▸ List.mem_cons_self) houter
  · rintro rfl
    exact ⟨[], by simp, .inr rfl⟩

/-- **Which call is found.** -/
theorem Node.innerCall?_eq_some_iff {n call : Node} :
    n.innerCall? = some call ↔ ∃ layers, Encloses layers n call ∧ ChainInnermost layers := by
  -- a wrapper or a wait comes off as the outermost layer; a chain has to be the last one
  fun_induction Node.innerCall? n with
  | case1 how before inner after span ih =>
    rw [ih]
    constructor
    · rintro ⟨layers, h, hchain⟩
      exact ⟨.wrapper :: layers, .wrapper how before after span h,
        (chainInnermost_cons_iff (by decide)).mpr hchain⟩
    · rintro ⟨_, h, hchain⟩
      cases h with
      | wrapper how before after span h =>
        exact ⟨_, h, (chainInnermost_cons_iff (by decide)).mp hchain⟩
  | case2 inner span ih =>
    rw [ih]
    constructor
    · rintro ⟨layers, h, hchain⟩
      exact ⟨.wait :: layers, .wait span h, (chainInnermost_cons_iff (by decide)).mpr hchain⟩
    · rintro ⟨_, h, hchain⟩
      cases h with
      | wait span h => exact ⟨_, h, (chainInnermost_cons_iff (by decide)).mp hchain⟩
  | case3 callee typeArgs args optional span =>
    constructor
    · rintro ⟨⟩
      exact ⟨[], .call callee typeArgs args optional span, chainInnermost_nil⟩
    · rintro ⟨_, h, -⟩
      cases h
      rfl
  | case4 callee typeArgs args optional span chainSpan =>
    constructor
    · rintro ⟨⟩
      exact ⟨[.chain], .chain chainSpan (.call callee typeArgs args optional span),
        chainInnermost_chain_cons_iff.mpr rfl⟩
    · rintro ⟨_, h, hchain⟩
      cases h with
      | chain span h =>
        cases h
        rfl
  | case5 n hwrap hawait hcall hchained =>
    -- every other node: no layer, no call, or a chain around something else than a call
    constructor
    · rintro ⟨⟩
    · rintro ⟨_, h, hchain⟩
      cases h with
      | call callee typeArgs args optional span =>
        exact absurd rfl (hcall callee typeArgs args optional span)
      | wrapper how before after span _ => exact absurd rfl (hwrap how before _ after span)
      | wait span _ => exact absurd rfl (hawait _ span)
      | chain span h =>
        cases chainInnermost_chain_cons_iff.mp hchain
        cases h with
        | call callee typeArgs args optional callSpan =>
          exact absurd rfl (hchained callee typeArgs args optional callSpan span)

theorem Node.staticCall?_eq_some_iff {filter : NameFilter} {n : Node} {s : StaticCall} :
    n.staticCall? filter = some s ↔
      ∃ (callee : Node) (typeArgs : List Node),
        n = .call callee typeArgs s.args s.isOptional s.span ∧
        callee.Designates s.callee ∧ filter.accepts s.callee.name = true := by
  constructor
  · intro h
    unfold Node.staticCall? at h
    split at h
    · next callee typeArgs args optional span =>
      split at h
      · next c hcallee =>
        obtain ⟨haccepts, hs⟩ := Option.ite_none_right_eq_some.mp h
        cases hs
        exact ⟨callee, typeArgs, rfl, Node.callee?_eq_some_iff.mp hcallee, haccepts⟩
      · cases h
    · cases h
  · rintro ⟨callee, typeArgs, rfl, hdesignates, haccepts⟩
    rw [Node.staticCall?, Node.callee?_eq_some_iff.mpr hdesignates]
    exact if_pos haccepts

/-- **Static calls.** A call is static exactly when its callee is a name, or a member of a name
    under a fixed key, and its own name passes; wrappers around the callee, and around the name
    that it is a member of, do not change what it names, and a wrapped callee is replaced as a
    whole. Any wrappers and waits around the call are looked through, and inside them one chain
    directly around the call; nothing else is. -/
theorem staticCalls_exact (filter : NameFilter) :
    (∀ (n : Node) (s : StaticCall), n.staticCall? filter = some s ↔
      ∃ (callee : Node) (typeArgs : List Node),
        n = .call callee typeArgs s.args s.isOptional s.span ∧
        callee.Designates s.callee ∧ filter.accepts s.callee.name = true) ∧
    (∀ n m : Node, n.Wraps m → n.callee?.map Callee.path = m.callee?.map Callee.path) ∧
    (∀ (n : Node) (s : StaticCall), n.staticFunctionCall? filter = some s ↔
      ∃ (layers : List Layer) (call : Node), Node.Encloses layers n call ∧
        ChainInnermost layers ∧ call.staticCall? filter = some s) := by
  refine ⟨fun n s => Node.staticCall?_eq_some_iff, fun n m h => h.map_path_callee?, fun n s => ?_⟩
  rw [Node.staticFunctionCall?, Option.bind_eq_some_iff]
  constructor
  · rintro ⟨call, hinner, hcall⟩
    obtain ⟨layers, hencloses, hchain⟩ := Node.innerCall?_eq_some_iff.mp hinner
    exact ⟨layers, call, hencloses, hchain, hcall⟩
  · rintro ⟨layers, call, hencloses, hchain, hcall⟩
    exact ⟨call, Node.innerCall?_eq_some_iff.mpr ⟨layers, hencloses, hchain⟩, hcall⟩

/-- An optional call with `!` behind it. -/
def assertedCall : Node :=
  .chain (.wrap .nonNull [] (.call (.use ⟨"createThing", ⟨0, 11⟩⟩) [] [] true ⟨0, 15⟩) []
    ⟨0, 16⟩) ⟨0, 16⟩

set_option maxRecDepth 20000 in
theorem parse?_assertedCall :
    Program.parse? (dialect "/app/a.ts" none) "createThing?.()!\n".toList =
      some ⟨[.expression assertedCall]⟩ := by
  rfl

/-- **A chain around a wrapper hides the call.** `createThing?.()!` is read as one chain, and in it
    a wrapper around a static call. The call is not found. -/
theorem staticFunctionCall?_chain_of_wrapper :
    ∃ n call : Node,
      Program.parse? (dialect "/app/a.ts" none) "createThing?.()!\n".toList =
        some ⟨[.expression n]⟩ ∧
      Node.Encloses [.chain, .wrapper] n call ∧
      (call.staticCall? (.ofNames ["createThing"])).isSome = true ∧
      (n.staticFunctionCall? (.ofNames ["createThing"])).isNone = true :=
  ⟨assertedCall, _, parse?_assertedCall,
    .chain _ (.wrapper .nonNull [] [] _ (.call _ [] [] true _)), by decide, rfl⟩

end BuildMacros.Script
