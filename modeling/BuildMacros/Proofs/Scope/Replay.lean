import BuildMacros.Proofs.Scope.Collecting
import Mathlib.Data.List.Basic

/-! # A repeated walk finds what is visible

    A cursor keeps the same account of open scopes as the tracker did when it went
    through the events of a module. So at every moment it stands in the scope that
    the tree has there, and the finished tracker knows about all scopes around it
    what they own. What it answers is therefore what the tree says
    (`get?_replay`).

    Neither walk fails on the way: the tracker declares in scopes that exist, and
    the cursor enters scopes with the properties that it expects.
-/

namespace BuildMacros.Script

/-! ## Section 1: Scopes stay open over what is in them -/

mutual

/-- What is open before a part of a walk is open all through it. -/
theorem mem_walk_events {x : Enclosing} (v : Visit) {scopes : List Enclosing} {next : Nat}
    {es : List Event} (hx : x ∈ scopes) (hes : ∀ next', ∀ m ∈ walk scopes next' es, x ∈ m.1) :
    ∀ m ∈ walk scopes next (v.events ++ es), x ∈ m.1 := by
  have hcons : ∀ e : Event, ∀ ms : List (List Enclosing × Event), (∀ m ∈ ms, x ∈ m.1) →
      ∀ m ∈ (scopes, e) :: ms, x ∈ m.1 := by
    intro e ms hms m hm
    rcases List.mem_cons.mp hm with rfl | hm
    · exact hx
    · exact hms m hm
  -- only a scope changes what is open, and what was open before it stays so
  cases v with
  | name id => exact hes next
  | use id => exact hcons _ _ (hes next)
  | declare b => exact hcons _ _ (hes next)
  | call node inner => exact hcons _ _ (mem_walk_eventsOf inner hx hes)
  | await inner => exact hcons _ _ (mem_walk_eventsOf inner hx hes)
  | sealed inner => exact mem_walk_eventsOf inner hx hes
  | scope flags inner =>
    rw [Visit.events, List.cons_append, List.append_assoc, walk]
    exact mem_walk_eventsOf inner (List.mem_cons_of_mem _ hx) hes

theorem mem_walk_eventsOf {x : Enclosing} (vs : List Visit) {scopes : List Enclosing} {next : Nat}
    {es : List Event} (hx : x ∈ scopes) (hes : ∀ next', ∀ m ∈ walk scopes next' es, x ∈ m.1) :
    ∀ m ∈ walk scopes next (eventsOf vs ++ es), x ∈ m.1 := by
  cases vs with
  | nil => exact hes next
  | cons v vs =>
    rw [eventsOf, List.append_assoc]
    exact mem_walk_events v hx fun _ => mem_walk_eventsOf vs hx hes

end

/-- A walk over a module opens the scope of the module and closes it at the end. -/
theorem walk_program (p : Program) : walk [] Tracker.root p.events =
    walk [.module] (Tracker.root + 1) (eventsOf (outlineAll p.body) ++ [.leave]) := by
  have h := walk_scope [] Tracker.root .ofModule (outlineAll p.body) []
  rw [List.append_nil] at h
  exact h

/-- A walk over a module meets its nodes. -/
theorem walk_events (p : Program) : walk [] Tracker.root p.events = told p.spots := by
  rw [walk_program, walk_outlineAll]
  exact List.append_nil _

/-- The module is open all through the walk. -/
theorem module_mem_walk (p : Program) :
    ∀ m ∈ walk [] Tracker.root p.events, Enclosing.module ∈ m.1 := by
  rw [walk_program]
  refine mem_walk_eventsOf (outlineAll p.body) List.mem_cons_self fun _ m hm => ?_
  cases hm

/-! ## Section 2: What the finished tracker knows -/

theorem declared_told (ss : List Spot) : declared (told ss) = ss.flatMap Spot.declarations := by
  have hspot : ∀ s : Spot, declared s.moments = s.declarations := by
    intro s
    have huses : s.node.references.filterMap (fun id => declaredAt? (s.scopes, .use id)) = [] :=
      List.filterMap_eq_nil_iff.mpr fun _ _ => rfl
    have hlandmarks : s.node.landmarks.filterMap (fun e => declaredAt? (s.scopes, e)) = [] := by
      cases s.node <;> rfl
    rw [declared, Spot.filterMap_moments, huses, hlandmarks, List.append_nil, List.append_nil]
    rfl
  induction ss with
  | nil => rfl
  | cons s ss ih =>
    rw [told_cons, List.flatMap_cons, ← ih, ← hspot s]
    exact List.filterMap_append

/-- **What a scope knows** after the walk over a module is what it owns. -/
theorem own?_collect (p : Program) (name : String) (scope : Nat) :
    (Tracker.collect p).own? name scope = p.owned? name scope := by
  have h := own?_foldl Tracks.new (module_mem_walk p) name scope
  have hwalk : walk [] 0 p.events = told p.spots := walk_events p
  have hnew : (Tracker.new true).own? name scope = none := rfl
  rw [hwalk, declared_told, hnew, foldl_learn] at h
  exact h

/-- What the tracker finds from the innermost of the scopes around a moment. -/
theorem getFrom?_collect (p : Program) {m : List Enclosing × Event} (hm : m ∈ told p.spots)
    (name : String) :
    (Tracker.collect p).getFrom? ((innermost? m.1).getD Tracker.root) name =
      p.visible? m.1 name := by
  rw [← walk_events] at hm
  -- the scopes around the moment are nested in the finished tracker as they were then
  have hnested : Nested (Tracker.collect p).frames m.1 := nested_foldl Tracks.new p.events m hm
  obtain ⟨s, ss, hscopes⟩ := List.exists_cons_of_ne_nil
    (List.ne_nil_of_mem (module_mem_walk p m hm))
  have hinner : innermost? m.1 = some s.number := by
    rw [hscopes]
    rfl
  rw [hinner, Option.getD_some, Tracker.getFrom?_eq hnested hinner, Program.visible?]
  congr 1
  funext s
  exact own?_collect p name s.number

/-! ## Section 3: The cursor along a walk -/

namespace Cursor

/-- Where a moment is met, those excepted at which scopes begin or end. -/
def noted : Cursor × Event → Option (Nat × Event)
  | (_, .enter _) => none
  | (_, .leave) => none
  | (c, e) => some (c.current, e)

theorem current_eq {c : Cursor} {scopes : List Enclosing}
    (h : c.stack = scopes.map Enclosing.number) :
    c.current = (innermost? scopes).getD Tracker.root := by
  rw [current, h, List.head?_map]
  rfl

/-- A cursor keeps the account of open scopes. -/
theorem filterMap_noted_replay {c : Cursor} {scopes : List Enclosing}
    (h : c.stack = scopes.map Enclosing.number) (es : List Event) :
    (c.replay es).filterMap noted =
      (walk scopes c.next es).map fun m => ((innermost? m.1).getD Tracker.root, m.2) := by
  -- the stack of the cursor holds the numbers of the open scopes at every moment
  induction es generalizing c scopes with
  | nil => rfl
  | cons e es ih =>
    cases e with
    | enter flags =>
      have hpush : c.push.stack = (⟨c.next, flags⟩ :: scopes).map Enclosing.number := by
        rw [push, h]
        rfl
      exact ih hpush
    | leave =>
      have hleave : c.leave.stack = scopes.tail.map Enclosing.number := by
        rw [leave, h, List.map_tail]
      exact ih hleave
    | declare b | use id | call node | await =>
      rw [replay, walk, List.map_cons, ← current_eq h, ← ih h]
      rfl

theorem tracker_of_mem_replay {c : Cursor} {es : List Event} :
    ∀ x ∈ c.replay es, x.1.tracker = c.tracker := by
  induction es generalizing c with
  | nil => simp [replay]
  | cons e es ih =>
    intro x hx
    rcases List.mem_cons.mp hx with rfl | hx
    · rfl
    · rw [ih x hx]
      cases e <;> rfl

end Cursor

/-! ## Section 4: Neither walk fails -/

/-- One moment of the walk that fills a tracker, checked. -/
def Tracker.step? (t : Tracker) : Event → Except ScopeFault Tracker
  | .enter flags => (t.enter flags).map Prod.snd
  | .declare b => t.declare ⟨b, b.owner t⟩
  | e => .ok (t.step e)

/-- One moment of a repeated walk, checked. -/
def Cursor.step? (c : Cursor) : Event → Except ScopeFault Cursor
  | .enter flags => c.enter flags
  | e => .ok (c.step e)

theorem frozen_step (t : Tracker) (e : Event) : (t.step e).frozen = t.frozen := by
  cases e with
  | leave => exact frozen_leave t
  | _ => rfl

/-- The tracker is never asked for something that it refuses. -/
theorem foldlM_step? {t : Tracker} {scopes : List Enclosing} {next : Nat}
    (h : Tracks t scopes next) (hfrozen : t.frozen = false) {es : List Event}
    (hmodule : ∀ m ∈ walk scopes next es, Enclosing.module ∈ m.1) :
    es.foldlM Tracker.step? t = .ok (es.foldl Tracker.step t) := by
  induction es generalizing t scopes next with
  | nil => rfl
  | cons e es ih =>
    have hnext : (t.step e).frozen = false := by rw [frozen_step, hfrozen]
    have hcons : ∀ e' : Event, (∀ m ∈ (scopes, e') :: walk scopes next es, .module ∈ m.1) →
        ∀ m ∈ walk scopes next es, Enclosing.module ∈ m.1 :=
      fun _ hm m hmem => hm m (List.mem_cons_of_mem _ hmem)
    rw [List.foldlM_cons, List.foldl_cons]
    cases e with
    | enter flags =>
      have hstep : t.step? (.enter flags) = .ok (t.push flags) := by
        simp [Tracker.step?, Tracker.enter, hfrozen, Except.map]
      rw [hstep]
      exact ih (h.enter flags) hnext hmodule
    | leave => exact ih h.leave hnext hmodule
    | declare b =>
      obtain ⟨-, hlt⟩ := h.owner?_eq (hmodule _ List.mem_cons_self) b
      have hstep : t.step? (.declare b) = .ok (t.record ⟨b, b.owner t⟩) := by
        simp [Tracker.step?, Tracker.declare, hfrozen, hlt]
      rw [hstep]
      exact ih (h.record _) hnext (hcons _ hmodule)
    | use id => exact ih h hnext (hcons _ hmodule)
    | call node => exact ih h hnext (hcons _ hmodule)
    | await => exact ih h hnext (hcons _ hmodule)

/-- A cursor over the finished tracker is never in a scope that it does not expect. -/
theorem step?_replay {t : Tracker} {scopes : List Enclosing} {next : Nat}
    (h : Tracks t scopes next) {c : Cursor} (hnext : c.next = next) {es : List Event}
    (htracker : c.tracker.frames = (es.foldl Tracker.step t).frames) :
    ∀ x ∈ c.replay es, x.1.step? x.2 = .ok (x.1.step x.2) := by
  induction es generalizing t scopes next c with
  | nil => simp [Cursor.replay]
  | cons e es ih =>
    intro x hx
    rcases List.mem_cons.mp hx with rfl | hx
    · cases e with
      | enter flags =>
        -- the scope that the tracker entered at this moment is still there at the end
        have hgrown : (t.push flags).frames <+: c.tracker.frames := by
          rw [htracker]
          exact frames_foldl (t.push flags) es
        have hexpects := Cursor.expects_of_grown hgrown (hnext.trans h.count.symm)
        exact if_pos hexpects
      | _ => rfl
    · cases e with
      | enter flags =>
        have hpush : c.push.next = next + 1 := congrArg (· + 1) hnext
        exact ih (h.enter flags) (c := c.push) hpush htracker x hx
      | leave => exact ih h.leave (c := c.leave) hnext htracker x hx
      | declare b => exact ih (h.record _) hnext htracker x hx
      | use id => exact ih h hnext htracker x hx
      | call node => exact ih h hnext htracker x hx
      | await => exact ih h hnext htracker x hx

/-! ## Section 5: Answers -/

/-- Every moment of a repeated walk is a moment of a node of the tree, and what is visible then is
    what the tree says. -/
theorem noted_replay (p : Program) :
    ((Cursor.new (.collect p)).replay p.events).filterMap Cursor.noted =
      (told p.spots).map fun m => ((innermost? m.1).getD Tracker.root, m.2) := by
  have hstack : (Cursor.new (.collect p)).stack = ([] : List Enclosing).map Enclosing.number := rfl
  rw [Cursor.filterMap_noted_replay hstack, ← walk_events]
  rfl

theorem eq_of_call_mem_moments {n node : Node} (h : Event.call node ∈ n.moments) : n = node := by
  have hlandmark : Event.call node ∈ n.landmarks := by
    simpa [Node.moments] using h
  cases n with
  | call callee typeArgs args optional span =>
    injection List.mem_singleton.mp hlandmark with hnode
    exact hnode.symm
  | _ => simp [Node.landmarks] at hlandmark

/-- A call that is met in a walk is a node of the tree, and what is visible there is what the tree
    says. -/
theorem exists_spot_of_call {p : Program} {x : Moment} (hx : x ∈ p.moments (.collect p))
    {node : Node} (hcall : x.event = .call node) :
    ∃ s ∈ p.spots, s.node = node ∧ ∀ name,
      (Tracker.collect p).getFrom? x.scope name = p.visible? s.scopes name := by
  obtain ⟨⟨c, e⟩, hce, rfl⟩ := List.mem_map.mp hx
  obtain rfl : e = .call node := hcall
  -- a call is noted, so it is one of the moments of the tree
  have hnoted : (c.current, Event.call node) ∈
      ((Cursor.new (.collect p)).replay p.events).filterMap Cursor.noted :=
    List.mem_filterMap.mpr ⟨_, hce, rfl⟩
  rw [noted_replay] at hnoted
  obtain ⟨m, hm, hnoted⟩ := List.mem_map.mp hnoted
  obtain ⟨s, hs, hms⟩ := List.mem_flatMap.mp hm
  obtain ⟨e, he, rfl⟩ := List.mem_map.mp hms
  injection hnoted with hcurrent hevent
  refine ⟨s, hs, eq_of_call_mem_moments (by rw [← hevent]; exact he), fun name => ?_⟩
  rw [← getFrom?_collect p hm name, hcurrent]

/-- What is asked and answered at a reference. -/
def Cursor.answer? : Cursor × Event → Option (Ident × Option Declaration)
  | (c, .use id) => some (id, c.get? id.name)
  | _ => none

/-- The references of a node with what they refer to. -/
def Spot.resolved (p : Program) (s : Spot) : List (Ident × Option Declaration) :=
  s.node.references.map fun id => (id, p.visible? s.scopes id.name)

/-- What a tracker answers at a reference in one of its scopes. -/
def Tracker.answer? (t : Tracker) : Nat × Event → Option (Ident × Option Declaration)
  | (scope, .use id) => some (id, t.getFrom? scope id.name)
  | _ => none

theorem filterMap_answer?_moments (p : Program) {s : Spot} (hs : s ∈ p.spots) :
    s.moments.filterMap (fun m =>
      (Tracker.collect p).answer? ((innermost? m.1).getD Tracker.root, m.2)) = s.resolved p := by
  have hvisible : ∀ id ∈ s.node.references,
      (Tracker.collect p).answer? ((innermost? s.scopes).getD Tracker.root, .use id) =
        some (id, p.visible? s.scopes id.name) := by
    intro id hid
    have hmoment : Event.use id ∈ s.node.moments :=
      List.mem_append_right _ (List.mem_append_left _ (List.mem_map_of_mem hid))
    have hmem : (s.scopes, Event.use id) ∈ told p.spots :=
      List.mem_flatMap.mpr ⟨s, hs, List.mem_map_of_mem hmoment⟩
    exact congrArg (fun d => some (id, d)) (getFrom?_collect p hmem id.name)
  have hdeclares : s.node.bindings.filterMap (fun b =>
      (Tracker.collect p).answer? ((innermost? s.scopes).getD Tracker.root, .declare b)) = [] :=
    List.filterMap_eq_nil_iff.mpr fun _ _ => rfl
  have hlandmarks : s.node.landmarks.filterMap (fun e =>
      (Tracker.collect p).answer? ((innermost? s.scopes).getD Tracker.root, e)) = [] := by
    cases s.node <;> rfl
  rw [Spot.filterMap_moments, hdeclares, hlandmarks, List.append_nil, List.nil_append,
    Spot.resolved, ← List.filterMap_eq_map]
  exact List.filterMap_congr hvisible

/-- **Repeated walks answer what the tree says.** The walk that collects the declarations of a
    module makes no move that the tracker refuses, and the cursor that repeats it never enters a
    scope that it does not expect. At every reference, one after the other, the cursor answers
    the declaration that the nearest scope around the reference owns. -/
theorem get?_replay (p : Program) :
    (p.events.foldlM Tracker.step? (Tracker.new true)).map Tracker.freeze =
        .ok (Tracker.collect p) ∧
      (∀ x ∈ (Cursor.new (.collect p)).replay p.events, x.1.step? x.2 = .ok (x.1.step x.2)) ∧
      ((Cursor.new (.collect p)).replay p.events).filterMap Cursor.answer? =
        p.spots.flatMap (Spot.resolved p) := by
  refine ⟨?_, ?_, ?_⟩
  · rw [foldlM_step? Tracks.new rfl (module_mem_walk p)]
    rfl
  · exact step?_replay Tracks.new rfl rfl
  · -- the questions of the cursor are questions to the tracker about the scope it is in
    have hcursor : ∀ x ∈ (Cursor.new (.collect p)).replay p.events,
        Cursor.answer? x = (Cursor.noted x).bind (Tracker.collect p).answer? := by
      intro x hx
      have htracker := Cursor.tracker_of_mem_replay x hx
      obtain ⟨c, e⟩ := x
      cases e with
      | use id =>
        have hget : c.get? id.name = (Tracker.collect p).getFrom? c.current id.name := by
          rw [Cursor.get?, htracker]
          rfl
        exact congrArg (fun d => some (id, d)) hget
      | _ => rfl
    rw [List.filterMap_congr hcursor, ← List.filterMap_filterMap, noted_replay,
      List.filterMap_map, told, List.filterMap_flatMap]
    apply List.flatMap_congr
    intro s hs
    exact filterMap_answer?_moments p hs

/-! ## Section 6: Calls -/

/-- What is made of a call at a moment of a walk, given what names stand for there. -/
def judged? {β : Type} (judge : Node → (String → Option Declaration) → Option β) (t : Tracker) :
    Nat × Event → Option β
  | (scope, .call node) => judge node (t.getFrom? scope)
  | _ => none

/-- **Calls are judged node by node**: a walk that makes something of the calls that it meets makes
    it of the nodes of the tree, by what the scopes around each of them own. -/
theorem Program.filterMap_calls {β : Type} (p : Program)
    (judge : Node → (String → Option Declaration) → Option β)
    (hother : ∀ n look, n.landmarks ≠ [.call n] → judge n look = none) :
    ((p.moments (.collect p)).filterMap fun x =>
        match x.event with
        | .call node => judge node ((Tracker.collect p).getFrom? x.scope)
        | _ => none) =
      p.spots.filterMap fun s => judge s.node (p.visible? s.scopes) := by
  have hmoments : ((p.moments (.collect p)).filterMap fun x =>
      match x.event with
      | .call node => judge node ((Tracker.collect p).getFrom? x.scope)
      | _ => none) =
        ((Cursor.new (.collect p)).replay p.events).filterMap fun x =>
          (Cursor.noted x).bind (judged? judge (.collect p)) := by
    rw [Program.moments, List.filterMap_map]
    refine List.filterMap_congr ?_
    rintro ⟨c, e⟩ -
    cases e <;> rfl
  rw [hmoments, ← List.filterMap_filterMap, noted_replay, List.filterMap_map, told,
    List.filterMap_flatMap, List.filterMap_eq_flatMap_toList]
  apply List.flatMap_congr
  intro s hs
  have hdeclares : s.node.bindings.filterMap (fun b =>
      judged? judge (.collect p) ((innermost? s.scopes).getD Tracker.root, .declare b)) = [] :=
    List.filterMap_eq_nil_iff.mpr fun _ _ => rfl
  have huses : s.node.references.filterMap (fun id =>
      judged? judge (.collect p) ((innermost? s.scopes).getD Tracker.root, .use id)) = [] :=
    List.filterMap_eq_nil_iff.mpr fun _ _ => rfl
  show s.moments.filterMap (fun m =>
    judged? judge (.collect p) ((innermost? m.1).getD Tracker.root, m.2)) = _
  rw [Spot.filterMap_moments, hdeclares, huses, List.nil_append, List.nil_append]
  by_cases hcall : s.node.landmarks = [.call s.node]
  · -- the tracker answers for the scopes around the call
    have hmem : (s.scopes, Event.call s.node) ∈ told p.spots := by
      refine List.mem_flatMap.mpr ⟨s, hs, List.mem_map_of_mem ?_⟩
      rw [Node.moments, hcall]
      simp
    have hvisible := funext (getFrom?_collect p hmem)
    rw [hcall, List.filterMap_cons, List.filterMap_nil, judged?, hvisible]
    cases judge s.node (p.visible? s.scopes) <;> rfl
  · have hnone : s.node.landmarks.filterMap (fun e =>
        judged? judge (.collect p) ((innermost? s.scopes).getD Tracker.root, e)) = [] := by
      cases hnode : s.node with
      | call callee typeArgs args optional span =>
        rw [hnode] at hcall
        exact absurd rfl hcall
      | _ => rfl
    rw [hnone, hother _ _ hcall]
    rfl

end BuildMacros.Script
