import BuildMacros.Proofs.Scope.Rebinding

/-! # A cursor follows any use of a tracker

    A cursor repeats what has been done to a tracker as far as it entered and left scopes.
    The two keep their own accounts: the tracker numbers scopes by how many there are, the
    cursor by how many it has entered. The accounts stay alike (`Mirrors`), because both
    have seen the same scopes begin and end, whether or not each beginning has its end.
    So wherever the tracker was, the cursor comes to the same place; but by then the tracker
    is finished, and tells what has been declared in the scopes around that place at any time
    (`replays_performAll`).
-/

namespace BuildMacros.Script

open Tracker (Command)

/-! ## Section 1: What a tracker refuses -/

namespace Tracker

/-- A command enters a scope. -/
def Command.isEnter : Command → Bool
  | .enter _ => true
  | _ => false

/-- Number of scopes that some commands enter. -/
def entered (commands : List Command) : Nat := commands.countP Command.isEnter

variable {t t' : Tracker} {c : Command} {commands : List Command}

/-- **A tracker refuses a declaration** in a scope that has not been entered yet, and nothing else
    before it is frozen. -/
theorem refused_or_performed (hfrozen : t.frozen = false) (hfreeze : ∀ c ∈ commands, c ≠ .freeze) :
    (∃ before d after, commands = before ++ .declare d :: after ∧
        t.count + entered before ≤ d.scope ∧ t.performAll commands = .error .noSuchScope) ∨
      ∃ t', t.performAll commands = .ok t' ∧ t'.frozen = false := by
  induction commands generalizing t with
  | nil => exact .inr ⟨t, rfl, hfrozen⟩
  | cons c commands ih =>
    have hmore : ∀ x ∈ commands, x ≠ .freeze := fun x hx => hfreeze x (List.mem_cons_of_mem c hx)
    -- what becomes of the other commands once this one has been performed
    have hnext : ∀ next : Tracker, t.perform c = .ok next → next.frozen = false →
        next.count = t.count + entered [c] →
          (∃ before d after, c :: commands = before ++ .declare d :: after ∧
              t.count + entered before ≤ d.scope ∧
                t.performAll (c :: commands) = .error .noSuchScope) ∨
            ∃ t', t.performAll (c :: commands) = .ok t' ∧ t'.frozen = false := by
      intro next hperform hnext hcount
      rw [performAll_cons_of_ok hperform]
      rcases ih hnext hmore with ⟨before, d, after, hsplit, hscope, herror⟩ | hok
      · refine .inl ⟨c :: before, d, after, by rw [hsplit, List.cons_append], ?_, herror⟩
        rw [hcount] at hscope
        simp only [entered, List.countP_cons, List.countP_nil] at hscope ⊢
        omega
      · exact .inr hok
    cases c with
    | enter flags =>
      have hperform : t.perform (.enter flags) = .ok (t.push flags) := by
        simp [perform, enter, hfrozen, Except.map]
      exact hnext (t.push flags) hperform hfrozen (count_push t flags)
    | leave =>
      have hleave : t.leave.frozen = false := by rw [frozen_leave, hfrozen]
      exact hnext t.leave rfl hleave (count_of_frames (frames_leave t))
    | declare d =>
      by_cases hscope : d.scope < t.count
      · have hperform : t.perform (.declare d) = .ok (t.record d) := by
          simp [perform, declare, hfrozen, hscope]
        exact hnext (t.record d) hperform hfrozen (count_of_frames (frames_record t d))
      · have hperform : t.perform (.declare d) = .error .noSuchScope := by
          simp [perform, declare, hfrozen, hscope]
        refine .inl ⟨[], d, commands, rfl, Nat.not_lt.mp hscope, ?_⟩
        rw [performAll, List.foldlM_cons, hperform]
        rfl
    | freeze => exact absurd rfl (hfreeze .freeze List.mem_cons_self)

/-! ## Section 2: Scopes stay where they are -/

/-- No command changes how the scopes are nested. -/
theorem frames_perform (h : t.perform c = .ok t') : t.frames <+: t'.frames := by
  rcases perform_cases h with ⟨flags, -, -, rfl⟩ | ⟨-, rfl⟩ | ⟨d, -, -, -, rfl⟩ | ⟨-, rfl⟩
  · exact frames_step t (.enter flags)
  · exact ⟨[], by rw [List.append_nil, frames_leave]⟩
  · exact ⟨[], by rw [List.append_nil, frames_record]⟩
  · exact List.prefix_rfl

theorem frames_performAll (h : t.performAll commands = .ok t') : t.frames <+: t'.frames := by
  induction commands generalizing t with
  | nil =>
    obtain rfl : t = t' := Except.ok.inj h
    exact List.prefix_rfl
  | cons c commands ih =>
    obtain ⟨next, hfirst, hrest⟩ := performAll_cons_iff.mp h
    exact (frames_perform hfirst).trans (ih hrest)

theorem parent?_of_grown (hgrown : t.frames <+: t'.frames) {id : Nat} (hid : id < t.count) :
    t'.parent? id = t.parent? id := by
  obtain ⟨later, hlater⟩ := hgrown
  rw [parent?_eq, parent?_eq, ← hlater, List.getElem?_append_left (by rwa [length_frames])]

namespace WellFormed

/-- Around a scope there will always be the scopes that there are. -/
theorem chain_of_grown (h : WellFormed t) (h' : WellFormed t') (hgrown : t.frames <+: t'.frames)
    {id : Nat} (hid : id < t.count) : t'.chain id = t.chain id := by
  induction id using Nat.strongRecOn with
  | ind id ih =>
    rw [h.chain_eq, h'.chain_eq, parent?_of_grown hgrown hid]
    cases houter : t.parent? id with
    | none => rfl
    | some outer =>
      have hlt := h.outer_lt id outer houter
      exact congrArg (id :: ·) (ih outer hlt (Nat.lt_trans hlt hid))

end WellFormed

/-- The open scopes, innermost first, or the root when none is open. -/
def around (t : Tracker) : List Nat := if t.stack.isEmpty then [root] else t.stack

/-- What a tracker knows later about a name where it was before: what the nearest of the scopes
    knows that were open then. -/
theorem getFrom?_here_of_grown (h : WellFormed t) (h' : WellFormed t')
    (hgrown : t.frames <+: t'.frames) (name : String) :
    t'.getFrom? t.here name = t.around.findSome? (t'.own? name) := by
  cases hstack : t.stack with
  | nil =>
    have hhere : t.here = root := by rw [here, current?, hstack, List.head?_nil, Option.getD_none]
    have hparent : t'.parent? root = none := by
      rw [Option.eq_none_iff_forall_ne_some]
      intro outer houter
      exact Nat.not_lt_zero outer (h'.outer_lt root outer houter)
    rw [getFrom?, hhere, h'.chain_eq, hparent, around, hstack]
    rfl
  | cons id outer =>
    have hhere : t.here = id := by rw [here, current?, hstack, List.head?_cons, Option.getD_some]
    have hopen : t.stack = [] ++ id :: outer := hstack
    have hid := (h.linked [] id outer hopen).1
    rw [getFrom?, hhere, h.chain_of_grown h' hgrown hid, h.chain_of_stack hopen, around, hstack]
    rfl

/-! ## Section 3: After the freezing -/

theorem enter_freeze (t : Tracker) (flags : ScopeFlags) :
    t.freeze.enter flags = .error .frozenEnter := rfl

theorem declare_freeze (t : Tracker) (d : Declaration) :
    t.freeze.declare d = .error (.frozenDeclare d.name) := rfl

/-- **A frozen tracker** performs commands that leave scopes or freeze it once more, and no others;
    and they change nothing. -/
theorem performAll_freeze_iff : t.freeze.performAll commands = .ok t' ↔
    t' = t.freeze ∧ ∀ c ∈ commands, c = .leave ∨ c = .freeze := by
  induction commands with
  | nil =>
    constructor
    · intro h
      exact ⟨(Except.ok.inj h).symm, fun c hc => by cases hc⟩
    · rintro ⟨rfl, -⟩
      rfl
  | cons c commands ih =>
    rw [performAll_cons_iff, List.forall_mem_cons]
    cases c with
    | enter flags =>
      constructor
      · rintro ⟨next, ⟨⟩, -⟩
      · rintro ⟨-, h | h, -⟩ <;> cases h
    | declare d =>
      constructor
      · rintro ⟨next, ⟨⟩, -⟩
      · rintro ⟨-, h | h, -⟩ <;> cases h
    | leave =>
      have hleave : t.freeze.perform .leave = .ok t.freeze := rfl
      simp [hleave, ih]
    | freeze =>
      have hfreeze : t.freeze.perform .freeze = .ok t.freeze := rfl
      simp [hfreeze, ih]

end Tracker

/-! ## Section 4: The cursor -/

namespace Cursor

/-- The place after a command to a tracker. A cursor repeats what enters and leaves scopes. -/
def follow (c : Cursor) : Command → Except ScopeFault Cursor
  | .enter flags => c.enter flags
  | .leave => .ok c.leave
  | .declare _ => .ok c
  | .freeze => .ok c

/-- The place after several commands. -/
def followAll (c : Cursor) (commands : List Command) : Except ScopeFault Cursor :=
  commands.foldlM follow c

/-- A cursor has the scopes open that the tracker had, and will number the next one alike. -/
structure Mirrors (c : Cursor) (t : Tracker) : Prop where
  stack : c.stack = t.stack
  next : c.next = t.count

namespace Mirrors

variable {c : Cursor} {t t' : Tracker}

/-- **One command** is followed to where it took the tracker. -/
theorem follow (h : Mirrors c t) {command : Command} (hfreeze : command ≠ .freeze)
    (hperform : t.perform command = .ok t') (hgrown : t'.frames <+: c.tracker.frames) :
    ∃ c', c.follow command = .ok c' ∧ c'.tracker = c.tracker ∧ Mirrors c' t' := by
  rcases Tracker.perform_cases hperform with
    ⟨flags, rfl, -, rfl⟩ | ⟨rfl, rfl⟩ | ⟨d, rfl, -, -, rfl⟩ | ⟨rfl, -⟩
  · have hexpects := expects_of_grown hgrown h.next
    refine ⟨c.push, if_pos hexpects, rfl, ?_, ?_⟩
    · rw [push, h.next, h.stack]
      rfl
    · rw [push, h.next, Tracker.count_push]
  · refine ⟨c.leave, rfl, rfl, ?_, ?_⟩
    · rw [leave, h.stack, stack_leave]
    · rw [leave, h.next, Tracker.count_of_frames (frames_leave t)]
  · exact ⟨c, rfl, rfl, h.stack, by rw [h.next, Tracker.count_of_frames (frames_record t d)]⟩
  · exact absurd rfl hfreeze

/-- **Several commands** are followed to where they took the tracker. -/
theorem followAll (h : Mirrors c t) {commands : List Command}
    (hfreeze : ∀ c ∈ commands, c ≠ .freeze) (hperform : t.performAll commands = .ok t')
    (hgrown : t'.frames <+: c.tracker.frames) :
    ∃ c', c.followAll commands = .ok c' ∧ c'.tracker = c.tracker ∧ Mirrors c' t' := by
  induction commands generalizing c t with
  | nil =>
    obtain rfl : t = t' := Except.ok.inj hperform
    exact ⟨c, rfl, rfl, h⟩
  | cons command commands ih =>
    obtain ⟨next, hfirst, hrest⟩ := Tracker.performAll_cons_iff.mp hperform
    have hnext : next.frames <+: c.tracker.frames := (Tracker.frames_performAll hrest).trans hgrown
    obtain ⟨c₁, hc₁, htracker, hmirrors⟩ :=
      h.follow (hfreeze command List.mem_cons_self) hfirst hnext
    rw [← htracker] at hgrown ⊢
    rw [Cursor.followAll, List.foldlM_cons, hc₁]
    exact ih hmirrors (fun x hx => hfreeze x (List.mem_cons_of_mem command hx)) hrest hgrown

theorem current_eq (h : Mirrors c t) : c.current = t.here := by
  rw [current, h.stack]
  rfl

end Mirrors

end Cursor

namespace Tracker

/-! ## Section 5: Replays -/

/-- **A replay comes to the same places.** Let any scopes be entered and left and any names be
    declared. The tracker refuses this only for a declaration in a scope that has not been entered
    by then. Otherwise, when it has been frozen, a new cursor follows every part of what was done
    without going astray, and is then where the tracker was: in the innermost open scope, or in the
    root. Its questions are answered from the finished tracker, so by what counts among all
    declarations, earlier and later ones, in the nearest of the scopes that were open. Leaving a
    scope when none is open does nothing to either. The frozen tracker enters no scope and declares
    nothing any more, and what else can be done to it leaves it as it is. -/
theorem replays_performAll {steps : List Command} (hsteps : ∀ c ∈ steps, c ≠ .freeze) :
    (∃ before d after, steps = before ++ .declare d :: after ∧ entered before ≤ d.scope ∧
        (Tracker.new true).performAll steps = .error .noSuchScope) ∨
      ∃ t, (Tracker.new true).performAll (steps ++ [.freeze]) = .ok t ∧
        (∀ before after, steps = before ++ after → ∃ past c,
          (Tracker.new true).performAll before = .ok past ∧
          (Cursor.new t).followAll before = .ok c ∧
          c.current = past.current?.getD root ∧
          (∀ name, c.get? name = t.getFrom? (past.current?.getD root) name ∧
            c.get? name = past.around.findSome? fun scope =>
              Declaration.pick (declarations steps scope name)) ∧
          (past.stack = [] → past.leave = past ∧ c.leave = c)) ∧
        (∀ flags, t.enter flags = .error .frozenEnter) ∧
        (∀ d, t.declare d = .error (.frozenDeclare d.name)) ∧
        ∀ more t', t.performAll more = .ok t' ↔
          t' = t ∧ ∀ c ∈ more, c = .leave ∨ c = .freeze := by
  rcases refused_or_performed (t := Tracker.new true) rfl hsteps with
    ⟨before, d, after, hsplit, hscope, herror⟩ | ⟨final, hfinal, -⟩
  · exact .inl ⟨before, d, after, hsplit, by simpa [Tracker.new, count] using hscope, herror⟩
  · right
    have hfrozen : (Tracker.new true).performAll (steps ++ [.freeze]) = .ok final.freeze :=
      performAll_append_iff.mpr ⟨final, hfinal, rfl⟩
    have hwell : WellFormed final.freeze := (WellFormed.new true).performAll hfrozen
    refine ⟨final.freeze, hfrozen, ?_, enter_freeze final, declare_freeze final,
      fun more t' => performAll_freeze_iff⟩
    intro before after hsplit
    rw [hsplit] at hfinal
    obtain ⟨past, hpast, hrest⟩ := performAll_append_iff.mp hfinal
    have hfinally : past.frames <+: final.frames := frames_performAll hrest
    have hgrown : past.frames <+: final.freeze.frames := hfinally
    have hbefore : ∀ c ∈ before, c ≠ .freeze := by
      intro c hc
      exact hsteps c (by rw [hsplit]; exact List.mem_append_left after hc)
    have hstart : Cursor.Mirrors (Cursor.new final.freeze) (Tracker.new true) := ⟨rfl, rfl⟩
    obtain ⟨c, hc, htracker, hmirrors⟩ := hstart.followAll hbefore hpast hgrown
    have hcurrent : c.current = past.here := hmirrors.current_eq
    refine ⟨past, c, hpast, hc, hcurrent, ?_, ?_⟩
    · intro name
      have hget : c.get? name = final.freeze.getFrom? past.here name := by
        rw [Cursor.get?, htracker, hcurrent]
        rfl
      refine ⟨hget, ?_⟩
      have hknown : final.freeze.own? name =
          fun scope => Declaration.pick (declarations steps scope name) := by
        funext scope
        rw [own?_eq_pick hfrozen, declarations_append]
        exact congrArg Declaration.pick (List.append_nil _)
      rw [hget, getFrom?_here_of_grown ((WellFormed.new true).performAll hpast) hwell hgrown,
        hknown]
    · intro hstack
      constructor
      · rw [leave, hstack]
      · have hempty : c.stack = [] := by rw [hmirrors.stack, hstack]
        rw [Cursor.leave, hempty, List.tail_nil, ← hempty]

/-- More scopes are left than entered, a second module is begun, and names are declared in scopes
    that have been left. -/
def unbalanced : List Command :=
  [.leave, .enter .ofModule, .enter .ofFunction, .leave, .leave, .leave, .enter .plain,
    .declare (functionIn 0 "x"), .declare (functionIn 1 "y"), .leave, .leave]

/-- A replay stands in the function and knows what has been declared later, there and in the module
    around it; the second module knows nothing of that. -/
theorem replays_unbalanced : (∀ c ∈ unbalanced, c ≠ .freeze) ∧
    ∃ t, (Tracker.new true).performAll (unbalanced ++ [.freeze]) = .ok t ∧
      (∃ c, (Cursor.new t).followAll (unbalanced.take 3) = .ok c ∧ c.current = 1 ∧
        c.get? "x" = some (functionIn 0 "x") ∧ c.get? "y" = some (functionIn 1 "y")) ∧
      (∃ c, (Cursor.new t).followAll (unbalanced.take 7) = .ok c ∧ c.current = 2 ∧
        c.get? "x" = none) ∧
      ∃ c, (Cursor.new t).followAll unbalanced = .ok c ∧ c.current = root ∧
        c.get? "x" = some (functionIn 0 "x") ∧ c.get? "y" = none := by
  have hsteps : ∀ c ∈ unbalanced, c ≠ .freeze := by simp [unbalanced]
  have hperformed : (Tracker.new true).performAll unbalanced = .ok _ := rfl
  refine ⟨hsteps, ?_⟩
  rcases replays_performAll hsteps with ⟨_, _, _, _, _, herror⟩ | ⟨t, ht, hplaces, -⟩
  · rw [hperformed] at herror
    cases herror
  · refine ⟨t, ht, ?_, ?_, ?_⟩
    · obtain ⟨past, c, hpast, hc, hcurrent, hget, -⟩ :=
        hplaces (unbalanced.take 3) (unbalanced.drop 3) rfl
      cases hpast
      exact ⟨c, hc, hcurrent, (hget "x").2, (hget "y").2⟩
    · obtain ⟨past, c, hpast, hc, hcurrent, hget, -⟩ :=
        hplaces (unbalanced.take 7) (unbalanced.drop 7) rfl
      cases hpast
      exact ⟨c, hc, hcurrent, (hget "x").2⟩
    · obtain ⟨past, c, hpast, hc, hcurrent, hget, -⟩ := hplaces unbalanced [] rfl
      cases hpast
      exact ⟨c, hc, hcurrent, (hget "x").2, (hget "y").2⟩

end Tracker

end BuildMacros.Script
