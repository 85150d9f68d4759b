import BuildMacros.Proofs.Scope.Lexical
import BuildMacros.Script.Scope.Cursor

/-! # The walk visits the tree

    A walk knows which scopes are open only from the moments at which it enters
    and leaves them; `walk` keeps that account over a list of events. Over the
    events of a node it comes to what `Lexical` says about the tree: every node
    is met with the scopes around it (`walk_outline`), by induction over the tree.

    Names of patterns are collected from outlines in the walk and from the tree in
    `Lexical`; they are the same names (`boundNamesOf_outline`).
-/

namespace BuildMacros.Script

/-! ## Section 1: The account of open scopes -/

/-- Moments of a walk, those at which scopes begin or end excepted, with the scopes that are open.
    `next` is the number of the scope that begins next. -/
def walk (scopes : List Enclosing) (next : Nat) : List Event → List (List Enclosing × Event)
  | [] => []
  | .enter flags :: es => walk (⟨next, flags⟩ :: scopes) (next + 1) es
  | .leave :: es => walk scopes.tail next es
  | .declare b :: es => (scopes, .declare b) :: walk scopes next es
  | .use id :: es => (scopes, .use id) :: walk scopes next es
  | .call node :: es => (scopes, .call node) :: walk scopes next es
  | .await :: es => (scopes, .await) :: walk scopes next es

theorem walk_declares (scopes : List Enclosing) (next : Nat) (bs : List Binding)
    (es : List Event) : walk scopes next (bs.map .declare ++ es) =
      (bs.map fun b => (scopes, .declare b)) ++ walk scopes next es := by
  induction bs with
  | nil => rfl
  | cons b bs ih => rw [List.map_cons, List.cons_append, walk, ih, List.map_cons, List.cons_append]

theorem walk_uses (scopes : List Enclosing) (next : Nat) (ids : List Ident) (es : List Event) :
    walk scopes next (ids.map .use ++ es) =
      (ids.map fun id => (scopes, .use id)) ++ walk scopes next es := by
  induction ids with
  | nil => rfl
  | cons id ids ih =>
    rw [List.map_cons, List.cons_append, walk, ih, List.map_cons, List.cons_append]

/-! ## Section 2: Moments of the tree -/

/-- The calls and waits that a node is by itself. -/
def Node.landmarks : Node → List Event
  | .call callee typeArgs args optional span => [.call (.call callee typeArgs args optional span)]
  | .await _ _ => [.await]
  | _ => []

/-- The moments at which a walk meets a node itself. -/
def Node.moments (n : Node) : List Event :=
  n.bindings.map .declare ++ (n.references.map .use ++ n.landmarks)

/-- The same moments with the scopes around the node. -/
def Spot.moments (s : Spot) : List (List Enclosing × Event) :=
  s.node.moments.map fun e => (s.scopes, e)

/-- The moments of a node are its bindings, its references, and a call or a wait. -/
theorem Spot.filterMap_moments {α : Type} (f : List Enclosing × Event → Option α) (s : Spot) :
    s.moments.filterMap f =
      s.node.bindings.filterMap (fun b => f (s.scopes, .declare b)) ++
        (s.node.references.filterMap (fun id => f (s.scopes, .use id)) ++
          s.node.landmarks.filterMap (fun e => f (s.scopes, e))) := by
  simp only [Spot.moments, Node.moments, List.map_append, List.filterMap_append, List.map_map,
    List.filterMap_map, Function.comp_def]

/-- At the moments of a node itself no scope begins or ends. -/
theorem walk_moments (n : Node) (scopes : List Enclosing) (next : Nat) (es : List Event) :
    walk scopes next (n.moments ++ es) = (Spot.moments ⟨n, scopes⟩) ++ walk scopes next es := by
  have hlandmarks : walk scopes next (n.landmarks ++ es) =
      (n.landmarks.map fun e => (scopes, e)) ++ walk scopes next es := by
    cases n <;> rfl
  rw [Spot.moments, Node.moments, List.append_assoc, List.append_assoc, walk_declares, walk_uses,
    hlandmarks]
  simp only [List.map_append, List.map_map, List.append_assoc, Function.comp_def]

/-! ## Section 3: Names of patterns -/

theorem boundNamesOf_append (vs ws : List Visit) :
    boundNamesOf (vs ++ ws) = boundNamesOf vs ++ boundNamesOf ws := by
  induction vs with
  | nil => rfl
  | cons v vs ih => rw [List.cons_append, boundNamesOf, boundNamesOf, ih, List.append_assoc]

theorem boundNamesOf_declares (bs : List Binding) : boundNamesOf (bs.map .declare) = [] := by
  induction bs with
  | nil => rfl
  | cons b bs ih => exact ih

theorem boundNamesOf_sealed (vs : List Visit) : boundNamesOf [.sealed vs] = [] := rfl

theorem boundNamesOf_visits (ss : List ExportSpecifier) :
    boundNamesOf (ss.flatMap ExportSpecifier.visits) = [] := by
  induction ss with
  | nil => rfl
  | cons s ss ih =>
    rw [List.flatMap_cons, boundNamesOf_append, ih, ExportSpecifier.visits]
    split <;> rfl

theorem declareAll_eq (kind : BindingKind) (node : Span) (vs : List Visit) :
    declareAll kind node vs = (bindAll kind node (boundNamesOf vs)).map .declare := by
  rw [declareAll, bindAll, List.map_map]
  rfl

theorem declareName_eq (kind : BindingKind) (node : Span) (id : Option Ident) :
    declareName kind node id = (bindAll kind node id.toList).map .declare := by
  rw [declareName, bindAll, List.map_map]
  rfl

mutual

/-- An outline binds the names that its node binds. -/
theorem boundNamesOf_outline (n : Node) : boundNamesOf n.outline = n.boundNames := by
  -- functions and classes are sealed off; all other nodes pass on what their parts bind
  cases n with
  | function role id parts span =>
    rw [Node.outline, boundNamesOf_append, boundNamesOf_sealed, List.append_nil, declareName_eq]
    split
    · exact boundNamesOf_declares _
    · rfl
  | cls declares decorators id parts span =>
    rw [Node.outline, boundNamesOf_append, boundNamesOf_sealed, List.append_nil, declareName_eq]
    split
    · exact boundNamesOf_declares _
    · rfl
  | importing specifiers source typeOnly span =>
    have h := boundNamesOf_declares (specifiers.map fun s => s.binding source typeOnly span)
    rw [List.map_map] at h
    exact h
  | exportNames specifiers source typeOnly =>
    rw [Node.outline, Node.boundNames]
    split
    · exact boundNamesOf_visits specifiers
    · rfl
  | _ =>
    simp only [Node.outline, Node.boundNames, boundNamesOf_append, boundNamesOf,
      Visit.boundNames, declareAll_eq, boundNamesOf_declares, boundNamesOf_outline,
      boundNamesOf_outlineAll, List.append_nil, List.nil_append, List.append_assoc]

theorem boundNamesOf_outlineAll (ns : List Node) :
    boundNamesOf (outlineAll ns) = boundNamesAll ns := by
  cases ns with
  | nil => rfl
  | cons n ns =>
    rw [outlineAll, boundNamesOf_append, boundNamesOf_outline n, boundNamesOf_outlineAll ns,
      boundNamesAll]

end

theorem boundNamesOf_targetsOutline (ns : List Node) :
    boundNamesOf (targetsOutline ns) = ns.flatMap Node.targetNames := by
  induction ns with
  | nil => rfl
  | cons n ns ih =>
    rw [targetsOutline, boundNamesOf_append, ih, List.flatMap_cons]
    cases n <;> first | exact congrArg (· ++ _) (boundNamesOf_outline _) | rfl

/-! ## Section 4: The walk over a node -/

theorem eventsOf_append (vs ws : List Visit) :
    eventsOf (vs ++ ws) = eventsOf vs ++ eventsOf ws := by
  induction vs with
  | nil => rfl
  | cons v vs ih => rw [List.cons_append, eventsOf, eventsOf, ih, List.append_assoc]

theorem eventsOf_declares (bs : List Binding) : eventsOf (bs.map .declare) = bs.map .declare := by
  induction bs with
  | nil => rfl
  | cons b bs ih =>
    rw [List.map_cons, List.map_cons, eventsOf, ih]
    rfl

theorem eventsOf_nameVisit (id : Option Ident) : eventsOf (nameVisit id) = [] := by
  cases id <;> rfl

theorem eventsOf_sealed (vs : List Visit) : eventsOf [.sealed vs] = eventsOf vs :=
  List.append_nil _

theorem eventsOf_scope (flags : ScopeFlags) (vs : List Visit) :
    eventsOf [.scope flags vs] = .enter flags :: (eventsOf vs ++ [.leave]) := List.append_nil _

/-- An export list refers to the names that stand in it without quotes. -/
theorem eventsOf_visits (ss : List ExportSpecifier) :
    eventsOf (ss.flatMap ExportSpecifier.visits) =
      ((ss.filter fun s => !s.inner.isQuoted).map fun s => s.inner.id).map .use := by
  induction ss with
  | nil => rfl
  | cons s ss ih =>
    rw [List.flatMap_cons, eventsOf_append, ih, ExportSpecifier.visits]
    -- a quoted name refers to nothing
    cases hquoted : s.inner.isQuoted
    · simp [hquoted, eventsOf, Visit.events]
    · simp [hquoted, eventsOf]

/-- What a walk over a list of spots meets. -/
def told (spots : List Spot) : List (List Enclosing × Event) := spots.flatMap Spot.moments

theorem told_nil : told [] = [] := rfl

theorem told_cons (s : Spot) (ss : List Spot) : told (s :: ss) = s.moments ++ told ss :=
  List.flatMap_cons

theorem told_append (ss ts : List Spot) : told (ss ++ ts) = told ss ++ told ts :=
  List.flatMap_append

/-- A scope is open over its parts, and closed behind them. -/
theorem walk_scope (scopes : List Enclosing) (next : Nat) (flags : ScopeFlags) (vs : List Visit)
    (es : List Event) : walk scopes next (eventsOf [.scope flags vs] ++ es) =
      walk (⟨next, flags⟩ :: scopes) (next + 1) (eventsOf vs ++ .leave :: es) := by
  rw [eventsOf_scope, List.cons_append, List.append_assoc, List.singleton_append, walk]

theorem walk_leave (s : Enclosing) (scopes : List Enclosing) (next : Nat) (es : List Event) :
    walk (s :: scopes) next (.leave :: es) = walk scopes next es := rfl

mutual

/-- **A walk over a node** meets the node and the nodes inside it, each with the scopes around it,
    and then goes on as before. -/
theorem walk_outline (n : Node) (scopes : List Enclosing) (next : Nat) (es : List Event) :
    walk scopes next (eventsOf n.outline ++ es) =
      told (⟨n, scopes⟩ :: n.inside scopes next) ++ walk scopes (next + n.scopeCount) es := by
  -- a node that is met itself begins with its own moments; then come the parts, in a scope of
  -- their own where the node has one, and the account of scopes goes on behind them
  cases n with
  | function role id parts span =>
    have hown : eventsOf (Node.function role id parts span).outline =
        (Node.function role id parts span).moments ++
          eventsOf [.scope .ofFunction (outlineAll parts)] := by
      cases role <;> simp [Node.outline, Node.moments, Node.bindings, Node.references,
        Node.landmarks, declareName_eq, eventsOf_append, eventsOf_declares, eventsOf_sealed,
        eventsOf_scope, eventsOf_nameVisit]
    rw [hown, List.append_assoc, walk_moments, walk_scope, walk_outlineAll, walk_leave, told_cons,
      Node.inside, Node.scopeCount, Nat.add_assoc, List.append_assoc]
  | arrow parts span =>
    have hown : eventsOf (Node.arrow parts span).outline =
        (Node.arrow parts span).moments ++ eventsOf [.scope .ofArrow (outlineAll parts)] :=
      eventsOf_sealed _
    rw [hown, List.append_assoc, walk_moments, walk_scope, walk_outlineAll, walk_leave, told_cons,
      Node.inside, Node.scopeCount, Nat.add_assoc, List.append_assoc]
  | cls declares decorators id parts span =>
    have hown : eventsOf (Node.cls declares decorators id parts span).outline =
        (Node.cls declares decorators id parts span).moments ++
          (eventsOf (outlineAll decorators) ++ eventsOf [.scope .plain (outlineAll parts)]) := by
      cases declares <;> simp [Node.outline, Node.moments, Node.bindings, Node.references,
        Node.landmarks, declareName_eq, eventsOf_append, eventsOf_declares, eventsOf_sealed,
        eventsOf_nameVisit]
    rw [hown, List.append_assoc, walk_moments, List.append_assoc, walk_outlineAll, walk_scope,
      walk_outlineAll, walk_leave, told_cons, Node.inside, told_append, Node.scopeCount]
    simp only [List.append_assoc, Nat.add_assoc]
  | scope flags parts =>
    have hown : eventsOf (Node.scope flags parts).outline =
        (Node.scope flags parts).moments ++ eventsOf [.scope flags (outlineAll parts)] := rfl
    rw [hown, List.append_assoc, walk_moments, walk_scope, walk_outlineAll, walk_leave, told_cons,
      Node.inside, Node.scopeCount, Nat.add_assoc, List.append_assoc]
  | params items span =>
    have hown : eventsOf (Node.params items span).outline =
        (Node.params items span).moments ++ eventsOf (outlineAll items) := by
      simp [Node.outline, Node.moments, Node.bindings, Node.references, Node.landmarks,
        declareAll_eq, boundNamesOf_outlineAll, eventsOf_append, eventsOf_declares]
    rw [hown, List.append_assoc, walk_moments, walk_outlineAll, told_cons, Node.inside,
      Node.scopeCount, List.append_assoc]
  | catchParam pattern typing span =>
    have hown : eventsOf (Node.catchParam pattern typing span).outline =
        (Node.catchParam pattern typing span).moments ++
          (eventsOf pattern.outline ++ eventsOf (outlineAll typing)) := by
      simp [Node.outline, Node.moments, Node.bindings, Node.references, Node.landmarks,
        declareAll_eq, boundNamesOf_outline, eventsOf_append, eventsOf_declares]
    rw [hown, List.append_assoc, walk_moments, List.append_assoc, walk_outline, walk_outlineAll]
    simp only [Node.inside, told_append, told_cons, Node.scopeCount, List.append_assoc,
      Nat.add_assoc]
  | variableDeclaration kind declarators span =>
    have hown : eventsOf (Node.variableDeclaration kind declarators span).outline =
        (Node.variableDeclaration kind declarators span).moments ++
          eventsOf (outlineAll declarators) := by
      simp [Node.outline, Node.moments, Node.bindings, Node.references, Node.landmarks,
        declareAll_eq, boundNamesOf_targetsOutline, eventsOf_append, eventsOf_declares]
    rw [hown, List.append_assoc, walk_moments, walk_outlineAll, told_cons, Node.inside,
      Node.scopeCount, List.append_assoc]
  | importing specifiers source typeOnly span =>
    have hown : eventsOf (Node.importing specifiers source typeOnly span).outline =
        (Node.importing specifiers source typeOnly span).moments := by
      have h := eventsOf_declares (specifiers.map fun s => s.binding source typeOnly span)
      rw [List.map_map] at h
      simp only [Node.moments, Node.bindings, Node.references, Node.landmarks, List.map_nil,
        List.append_nil]
      exact h
    rw [hown, walk_moments, told_cons, Node.inside, told_nil, List.append_nil]
    rfl
  | exportNames specifiers source typeOnly =>
    have hown : eventsOf (Node.exportNames specifiers source typeOnly).outline =
        (Node.exportNames specifiers source typeOnly).moments := by
      cases source with
      | none =>
        simp [Node.outline, Node.moments, Node.bindings, Node.references, Node.landmarks,
          eventsOf_visits]
      | some source => rfl
    rw [hown, walk_moments, told_cons, Node.inside, told_nil, List.append_nil]
    rfl
  | call callee typeArgs args optional span =>
    have hown : eventsOf (Node.call callee typeArgs args optional span).outline =
        (Node.call callee typeArgs args optional span).moments ++
          (eventsOf callee.outline ++ (eventsOf (outlineAll typeArgs) ++
            eventsOf (outlineAll args))) := by
      simp [Node.outline, Node.moments, Node.bindings, Node.references, Node.landmarks,
        eventsOf_append, eventsOf, Visit.events]
    rw [hown, List.append_assoc, walk_moments, List.append_assoc, List.append_assoc, walk_outline,
      walk_outlineAll, walk_outlineAll]
    simp only [Node.inside, told_append, told_cons, Node.scopeCount, List.append_assoc,
      Nat.add_assoc]
  | _ =>
    simp only [Node.outline, Node.inside, Node.scopeCount, eventsOf_append, eventsOf,
      Visit.events, List.append_assoc, List.nil_append, List.append_nil, List.cons_append,
      walk, walk_outline, walk_outlineAll, told_cons, told_append, told_nil, Nat.add_assoc,
      Nat.add_zero]
    rfl

theorem walk_outlineAll (ns : List Node) (scopes : List Enclosing) (next : Nat)
    (es : List Event) : walk scopes next (eventsOf (outlineAll ns) ++ es) =
      told (spotsAll scopes next ns) ++ walk scopes (next + scopeCountAll ns) es := by
  cases ns with
  | nil => rfl
  | cons n ns =>
    rw [outlineAll, eventsOf_append, List.append_assoc, walk_outline n, walk_outlineAll ns,
      spotsAll, told_append, List.append_assoc, scopeCountAll, Nat.add_assoc]

end

end BuildMacros.Script
