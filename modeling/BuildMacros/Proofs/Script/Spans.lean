import BuildMacros.Proofs.Script.Blocks
import BuildMacros.Proofs.Script.StaticCalls
import BuildMacros.Proofs.Scope.Replay

/-! # Where nodes stand

    What is relied on about the spans in a syntax tree. Every node takes up a range of
    the parsed text; names are not empty; a call ends right behind its closing
    parenthesis, and its callee ends before that; a member contains its property and a
    chain its expression; declarators and root statements do not overlap.

    `Program.Spanned` says this of all nodes of a tree and can be evaluated. The rest
    of the module draws from it what the passes need: every call that a walk meets is
    spanned, and so is the callee of every static call. That a walk also meets the calls
    in the order of the text (`Program.CallsInOrder`) is relied on less often.
-/

namespace BuildMacros.Script

open BuildMacros.Text

/-! ## Section 1: Parts -/

/-- The nodes that a node consists of. -/
def Node.parts : Node → List Node
  | .template parts _ => parts
  | .wrap _ before inner after _ => before ++ inner :: after
  | .await inner _ => [inner]
  | .spread inner _ => [inner]
  | .member object _ _ => [object]
  | .index object key _ => [object, key]
  | .call callee typeArgs args _ _ => callee :: (typeArgs ++ args)
  | .chain inner _ => [inner]
  | .function _ _ parts _ => parts
  | .arrow parts _ => parts
  | .cls _ decorators _ parts _ => decorators ++ parts
  | .params items _ => items
  | .typing parts => parts
  | .scope _ parts => parts
  | .catchParam pattern types _ => pattern :: types
  | .variableDeclaration _ declarators _ => declarators
  | .declarator target types init => target :: (types ++ init)
  | .exportDeclaration declaration _ => [declaration]
  | .exportDefault value => [value]
  | .exportAssign value => [value]
  | .expression value => [value]
  | .group parts _ => parts
  | _ => []

/-- With every node, the nodes that it consists of are listed. -/
def Downward (ns : List Node) : Prop := ∀ n ∈ ns, ∀ c ∈ n.parts, c ∈ ns

theorem Downward.append {ns ms : List Node} (hns : Downward ns) (hms : Downward ms) :
    Downward (ns ++ ms) := by
  intro n hn c hc
  rcases List.mem_append.mp hn with hn | hn
  · exact List.mem_append.mpr (.inl (hns n hn c hc))
  · exact List.mem_append.mpr (.inr (hms n hn c hc))

theorem mem_map_spotsAll {scopes : List Enclosing} {next : Nat} {ns : List Node} {c : Node}
    (hc : c ∈ ns) : c ∈ (spotsAll scopes next ns).map Spot.node := by
  induction ns generalizing next with
  | nil => cases hc
  | cons n ns ih =>
    rw [spotsAll, List.map_append, List.mem_append]
    rcases List.mem_cons.mp hc with rfl | hc
    · exact .inl List.mem_cons_self
    · exact .inr (ih hc)

theorem mem_map_inside {scopes : List Enclosing} {next : Nat} {n c : Node} (hc : c ∈ n.parts) :
    c ∈ (n.inside scopes next).map Spot.node := by
  cases n <;> simp only [Node.parts, Node.inside, List.map_append, List.map_cons,
    List.cons_append, List.mem_append, List.mem_cons, List.not_mem_nil, or_false] at hc ⊢ <;>
    grind [mem_map_spotsAll]

theorem Downward.node {scopes : List Enclosing} {next : Nat} {n : Node}
    (h : Downward ((n.inside scopes next).map Spot.node)) :
    Downward (n :: (n.inside scopes next).map Spot.node) := by
  intro m hm c hc
  rcases List.mem_cons.mp hm with rfl | hm
  · exact List.mem_cons_of_mem _ (mem_map_inside hc)
  · exact List.mem_cons_of_mem _ (h m hm c hc)

section

-- what is to be shown of stretches of nodes in visit order: it holds if there are none, of two
-- stretches if it holds of both, and of a node with the nodes inside it if it holds of these
variable {P : List Spot → Prop} (nil : P []) (append : ∀ {xs ys}, P xs → P ys → P (xs ++ ys))
  (node : ∀ {n : Node} {scopes next}, P (n.inside scopes next) →
    P (⟨n, scopes⟩ :: n.inside scopes next))

include nil append node

mutual

/-- Induction over the nodes inside a node. -/
theorem inside_induction (scopes : List Enclosing) (next : Nat) (n : Node) :
    P (n.inside scopes next) := by
  cases n with
  | template parts span => exact spotsAll_induction _ _ parts
  | wrap how before inner after span =>
    exact append (spotsAll_induction _ _ before)
      (append (node (inside_induction _ _ inner)) (spotsAll_induction _ _ after))
  | await inner span => exact node (inside_induction _ _ inner)
  | spread inner span => exact node (inside_induction _ _ inner)
  | member object property span => exact node (inside_induction _ _ object)
  | index object key span =>
    exact append (node (inside_induction _ _ object)) (node (inside_induction _ _ key))
  | call callee typeArgs args optional span =>
    exact append (node (inside_induction _ _ callee))
      (append (spotsAll_induction _ _ typeArgs) (spotsAll_induction _ _ args))
  | chain inner span => exact node (inside_induction _ _ inner)
  | function role id parts span => exact spotsAll_induction _ _ parts
  | arrow parts span => exact spotsAll_induction _ _ parts
  | cls declares decorators id parts span =>
    exact append (spotsAll_induction _ _ decorators) (spotsAll_induction _ _ parts)
  | params items span => exact spotsAll_induction _ _ items
  | typing parts => exact spotsAll_induction _ _ parts
  | scope flags parts => exact spotsAll_induction _ _ parts
  | catchParam pattern types span =>
    exact append (node (inside_induction _ _ pattern)) (spotsAll_induction _ _ types)
  | variableDeclaration kind declarators span => exact spotsAll_induction _ _ declarators
  | declarator target types init =>
    exact append (node (inside_induction _ _ target))
      (append (spotsAll_induction _ _ types) (spotsAll_induction _ _ init))
  | exportDeclaration declaration typeOnly => exact node (inside_induction _ _ declaration)
  | exportDefault value => exact node (inside_induction _ _ value)
  | exportAssign value => exact node (inside_induction _ _ value)
  | expression value => exact node (inside_induction _ _ value)
  | group parts span => exact spotsAll_induction _ _ parts
  | _ => exact nil

/-- Induction over the nodes of a list and the nodes inside them. -/
theorem spotsAll_induction (scopes : List Enclosing) (next : Nat) (ns : List Node) :
    P (spotsAll scopes next ns) := by
  cases ns with
  | nil => exact nil
  | cons n ns => exact append (node (inside_induction _ _ n)) (spotsAll_induction _ _ ns)

end

end

/-- All nodes of a tree. -/
def Program.nodes (p : Program) : List Node := p.spots.map Spot.node

/-- The nodes that a node of a tree consists of are nodes of the tree. -/
theorem Program.downward_nodes (p : Program) : Downward p.nodes := by
  apply spotsAll_induction (P := fun xs => Downward (xs.map Spot.node))
  · intro n hn
    cases hn
  · intro xs ys hxs hys
    rw [List.map_append]
    exact hxs.append hys
  · intro n scopes next h
    exact h.node

theorem Program.mem_nodes_of_mem_body {p : Program} {n : Node} (h : n ∈ p.body) : n ∈ p.nodes :=
  mem_map_spotsAll h

/-! ## Section 2: What is relied on -/

/-- One span ends before the other starts. -/
def Span.Apart (a b : Span) : Prop := a.stop ≤ b.start ∨ b.stop ≤ a.start

instance (a b : Span) : Decidable (a.Apart b) := inferInstanceAs (Decidable (_ ∨ _))

theorem Span.Apart.symm {a b : Span} (h : a.Apart b) : b.Apart a := Or.symm h

theorem Span.contains_iff {outer inner : Span} :
    outer.contains inner = true ↔ outer.start ≤ inner.start ∧ inner.stop ≤ outer.stop := by
  simp [Span.contains]

/-- Parts of spans that are apart are apart. -/
theorem Span.Apart.of_contains {a b x y : Span} (h : a.Apart b) (hx : a.contains x = true)
    (hy : b.contains y = true) : x.Apart y := by
  rw [Span.contains_iff] at hx hy
  unfold Span.Apart at h ⊢
  omega

/-- A closing parenthesis ends at the offset. -/
def ClosesAt (text : List Char) (stop : Nat) : Prop :=
  0 < stop ∧ isBoundary text (stop - 1) = true ∧ (dropBytes (stop - 1) text).head? = some ')'

instance (text : List Char) (stop : Nat) : Decidable (ClosesAt text stop) :=
  inferInstanceAs (Decidable (_ ∧ _ ∧ _))

/-- The initial value of a declarator. -/
def Node.initial? : Node → Option Node
  | .declarator _ _ (init :: _) => some init
  | _ => none

/-- Where a root statement stands, the words `export` and `default` aside. -/
def Node.extent : Node → Span
  | .exportDeclaration declaration _ => declaration.span
  | .exportDefault value => value.span
  | .exportAssign value => value.span
  | .expression value => value.span
  | n => n.span

/-- How the span of a node lies to those of its parts. -/
def Node.Nests (text : List Char) : Node → Prop
  | .use id => id.span.start < id.span.stop
  | .member _ property span =>
    property.span.start < property.span.stop ∧
      IsRange text property.span.start property.span.stop ∧ span.contains property.span = true
  | .call callee _ _ _ span =>
    ClosesAt text span.stop ∧ span.start ≤ callee.span.start ∧ callee.span.stop < span.stop
  | .chain inner span => span.contains inner.span = true
  | .variableDeclaration _ declarators span =>
    (∀ init ∈ declarators.filterMap Node.initial?, span.contains init.span = true) ∧
      (declarators.filterMap Node.initial?).Pairwise fun a b => a.span.Apart b.span
  | _ => True

instance (text : List Char) (n : Node) : Decidable (n.Nests text) :=
  match n with
  | .use _ => inferInstanceAs (Decidable (_ < _))
  | .member _ _ _ => inferInstanceAs (Decidable (_ ∧ _ ∧ _))
  | .call _ _ _ _ _ => inferInstanceAs (Decidable (_ ∧ _ ∧ _))
  | .chain _ _ => inferInstanceAs (Decidable (_ = _))
  | .variableDeclaration _ _ _ => inferInstanceAs (Decidable (_ ∧ _))
  | .name _ | .literal _ | .string _ _ | .template _ _ | .wrap _ _ _ _ _ | .await _ _
  | .spread _ _ | .index _ _ _ | .function _ _ _ _ | .arrow _ _ | .cls _ _ _ _ _ | .params _ _
  | .typing _ | .scope _ _ | .catchParam _ _ _ | .declarator _ _ _ | .importing _ _ _ _
  | .exportDeclaration _ _ | .exportNames _ _ _ | .exportDefault _ | .exportAssign _
  | .expression _ | .group _ _ => inferInstanceAs (Decidable True)

/-- The spans of a tree are those of the text that it was parsed from: every node takes up a range
    and nests, and the root statements do not overlap. -/
def Program.Spanned (text : List Char) (p : Program) : Prop :=
  (∀ n ∈ p.nodes, IsRange text n.span.start n.span.stop ∧ n.Nests text) ∧
    p.body.Pairwise fun a b => a.extent.Apart b.extent

instance (text : List Char) (p : Program) : Decidable (p.Spanned text) :=
  inferInstanceAs (Decidable (_ ∧ _))

/-- The spans of a module are those of its block. -/
def Module.Spanned (m : Module) : Prop := m.program.Spanned m.block.content.toList

instance (m : Module) : Decidable m.Spanned := inferInstanceAs (Decidable (Program.Spanned _ _))

/-- The second span starts behind the first one, or it lies inside of it and ends earlier. -/
def Span.Precedes (a b : Span) : Prop := a.stop ≤ b.start ∨ a.start ≤ b.start ∧ b.stop < a.stop

instance (a b : Span) : Decidable (a.Precedes b) := inferInstanceAs (Decidable (_ ∨ _))

/-- The node is a call. -/
def Node.isCall : Node → Bool
  | .call _ _ _ _ _ => true
  | _ => false

/-- The calls of a tree are listed in the order of the text, each in front of those inside it. -/
def Program.CallsInOrder (p : Program) : Prop :=
  (p.nodes.filter Node.isCall).Pairwise fun a b => a.span.Precedes b.span

instance (p : Program) : Decidable p.CallsInOrder :=
  inferInstanceAs (Decidable (List.Pairwise _ _))

/-! ## Section 3: Calls -/

/-- A call that a walk meets is a node of the tree. -/
theorem Module.mem_nodes_of_call {m : Module} (hm : m.scopes = .collect m.program) {x : Moment}
    (hx : x ∈ m.moments) {node : Node} (hcall : x.event = .call node) :
    node ∈ m.program.nodes := by
  rw [Module.moments, hm] at hx
  obtain ⟨s, hs, hnode, -⟩ := exists_spot_of_call hx hcall
  exact List.mem_map.mpr ⟨s, hs, hnode⟩

/-- Where a callee stands that may be redirected. -/
theorem Node.callee?_placed {text : List Char} {n : Node} {c : Callee}
    (hrange : IsRange text n.span.start n.span.stop) (hnests : n.Nests text)
    (h : n.callee? = some c) :
    IsRange text c.span.start c.span.stop ∧ n.span.contains c.span = true ∧
      (c.form = .identifier ∨ c.form = .property → c.span.start < c.span.stop) := by
  have hself : n.span.contains n.span = true :=
    Span.contains_iff.mpr ⟨Nat.le_refl _, Nat.le_refl _⟩
  cases Node.callee?_eq_some_iff.mp h with
  | bare h =>
    cases h with
    | name id => exact ⟨hrange, hself, fun _ => hnests⟩
    | member property span _ =>
      obtain ⟨hlt, hproperty, hcontains⟩ := hnests
      exact ⟨hproperty, hcontains, fun _ => hlt⟩
    | key key keySpan span _ => exact ⟨hrange, hself, by rintro (h | h) <;> cases h⟩
  -- all of a wrapped callee is replaced
  | wrapped _ _ _ => exact ⟨hrange, hself, by rintro (h | h) <;> cases h⟩

/-- Where a static call stands, and its callee in it. -/
structure StaticCall.Placed (text : List Char) (c : StaticCall) : Prop where
  range : IsRange text c.span.start c.span.stop
  closes : ClosesAt text c.span.stop
  callee : IsRange text c.callee.span.start c.callee.span.stop
  start_le : c.span.start ≤ c.callee.span.start
  stop_lt : c.callee.span.stop < c.span.stop
  named : c.callee.form = .identifier ∨ c.callee.form = .property →
    c.callee.span.start < c.callee.span.stop

/-- A static call is a call with a static callee, at the place of the call. -/
theorem Node.staticCall?_eq {filter : NameFilter} {n : Node} {c : StaticCall}
    (h : n.staticCall? filter = some c) :
    ∃ callee typeArgs args optional, n = .call callee typeArgs args optional c.span ∧
      callee.callee? = some c.callee := by
  obtain ⟨callee, typeArgs, hn, hdesignates, -⟩ := Node.staticCall?_eq_some_iff.mp h
  exact ⟨callee, typeArgs, c.args, c.isOptional, hn, Node.callee?_eq_some_iff.mpr hdesignates⟩

/-- **Static calls of a tree are placed** where the tree says. -/
theorem Program.Spanned.placed {text : List Char} {p : Program} (hp : p.Spanned text) {n : Node}
    (hn : n ∈ p.nodes) {filter : NameFilter} {c : StaticCall} (h : n.staticCall? filter = some c) :
    c.Placed text := by
  obtain ⟨callee, typeArgs, args, optional, rfl, hcallee⟩ := Node.staticCall?_eq h
  obtain ⟨hrange, hcloses, hstart, hstop⟩ := hp.1 _ hn
  have hmem : callee ∈ p.nodes := p.downward_nodes _ hn callee List.mem_cons_self
  obtain ⟨hcalleeRange, hcalleeNests⟩ := hp.1 callee hmem
  obtain ⟨hplaced, hcontains, hnamed⟩ := callee.callee?_placed hcalleeRange hcalleeNests hcallee
  rw [Span.contains_iff] at hcontains
  exact ⟨hrange, hcloses, hplaced, by omega, by omega, hnamed⟩

/-- The place before the closing parenthesis. -/
theorem ClosesAt.isRange {text : List Char} {stop : Nat} (h : ClosesAt text stop)
    (hstop : stop ≤ byteLength text) : IsRange text (stop - 1) (stop - 1) :=
  ⟨Nat.le_refl _, by omega, h.2.1, h.2.1⟩

/-- A static call up to its closing parenthesis. -/
theorem StaticCall.Placed.isRange_inside {text : List Char} {c : StaticCall} (h : c.Placed text) :
    IsRange text c.span.start (c.span.stop - 1) := by
  have hstart := h.start_le
  have hcallee := h.callee.le
  have hstop := h.stop_lt
  have hle := h.range.stop_le
  exact ⟨by omega, by omega, h.range.start_boundary, h.closes.2.1⟩

end BuildMacros.Script
