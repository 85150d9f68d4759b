import BuildMacros.Proofs.Scope.Walk

/-! # What a tracker knows after a walk

    Along a walk a tracker has the scopes open that the account of the walk says
    (`Tracks`). How the scopes are nested is never changed afterwards, so at the end
    of the walk the scopes around a moment are still those that were open then
    (`nested_foldl`). And what a scope knows about a name is what counts among the
    declarations of the whole walk (`own?_foldl`), the moment before or after which
    they were made notwithstanding.
-/

namespace BuildMacros.Script

/-! ## Section 1: Nesting -/

/-- What never changes about a scope: the scope around it and its properties. -/
def Scope.frame (s : Scope) : Option Nat × ScopeFlags := (s.parent, s.flags)

/-- The same for all scopes of a tracker. -/
def Tracker.frames (t : Tracker) : List (Option Nat × ScopeFlags) := t.scopes.map Scope.frame

/-- Number of the innermost of some scopes. -/
def innermost? (scopes : List Enclosing) : Option Nat := scopes.head?.map Enclosing.number

/-- Scopes that lie one inside the other, innermost first. Outer scopes have smaller numbers. -/
def Nested (frames : List (Option Nat × ScopeFlags)) : List Enclosing → Prop
  | [] => True
  | s :: ss =>
    frames[s.number]? = some (innermost? ss, s.flags) ∧ (∀ outer ∈ innermost? ss, outer < s.number)
      ∧ Nested frames ss

theorem Nested.of_grown {frames frames' : List (Option Nat × ScopeFlags)}
    {scopes : List Enclosing} (h : Nested frames scopes) (hgrown : frames <+: frames') :
    Nested frames' scopes := by
  induction scopes with
  | nil => trivial
  | cons s ss ih =>
    obtain ⟨hframe, houter, hnested⟩ := h
    obtain ⟨later, rfl⟩ := hgrown
    obtain ⟨hlt, -⟩ := List.getElem?_eq_some_iff.mp hframe
    refine ⟨?_, houter, ih hnested⟩
    rw [List.getElem?_append_left hlt, hframe]

theorem Nested.number_lt {frames : List (Option Nat × ScopeFlags)} {scopes : List Enclosing}
    (h : Nested frames scopes) : ∀ s ∈ scopes, s.number < frames.length := by
  induction scopes with
  | nil => simp
  | cons s ss ih =>
    intro a ha
    rcases List.mem_cons.mp ha with rfl | ha
    · exact (List.getElem?_eq_some_iff.mp h.1).1
    · exact ih h.2.2 a ha

namespace Tracker

theorem length_frames (t : Tracker) : t.frames.length = t.count := List.length_map _

theorem parent?_eq (t : Tracker) (id : Nat) : t.parent? id = (t.frames[id]?).bind Prod.fst := by
  rw [parent?, frames, List.getElem?_map]
  cases t.scopes[id]? <;> rfl

/-- The chain of a scope is made of the scopes around it. -/
theorem chainUpTo_eq {t : Tracker} {s : Enclosing} {ss : List Enclosing}
    (h : Nested t.frames (s :: ss)) {fuel : Nat} (hfuel : s.number < fuel) :
    t.chainUpTo fuel s.number = (s :: ss).map Enclosing.number := by
  -- on the scopes around; their numbers fall, so the bound is never reached
  induction ss generalizing s fuel with
  | nil =>
    obtain ⟨n, rfl⟩ : ∃ n, fuel = n + 1 := ⟨fuel - 1, by omega⟩
    rw [chainUpTo, parent?_eq, h.1]
    rfl
  | cons o ss ih =>
    obtain ⟨n, rfl⟩ : ∃ n, fuel = n + 1 := ⟨fuel - 1, by omega⟩
    have hlt : o.number < s.number := h.2.1 o.number rfl
    have hrest := ih h.2.2 (show o.number < n by omega)
    rw [chainUpTo, parent?_eq, h.1, List.map_cons, ← hrest]
    rfl

/-- What is visible in a scope is what the nearest of the scopes around it knows. -/
theorem getFrom?_eq {t : Tracker} {scopes : List Enclosing} (h : Nested t.frames scopes) {id : Nat}
    (hid : innermost? scopes = some id) (name : String) :
    t.getFrom? id name = scopes.findSome? fun s => t.own? name s.number := by
  cases scopes with
  | nil => cases hid
  | cons s ss =>
    injection hid with hid
    rw [getFrom?, chain, ← hid, chainUpTo_eq h (Nat.lt_succ_self _), List.findSome?_map]
    rfl

/-- The nearest open scope that a `var` declares in. -/
theorem hoistTarget?_eq {t : Tracker} {scopes : List Enclosing} (h : Nested t.frames scopes)
    (hstack : t.stack = scopes.map Enclosing.number) :
    t.hoistTarget? = (scopes.find? fun s => s.flags.hoists).map Enclosing.number := by
  -- the properties that the tracker has for open scopes are those of the account
  have hflags : ∀ s ∈ scopes, (t.scopes[s.number]?).any (·.flags.hoists) = s.flags.hoists := by
    clear hstack
    induction scopes with
    | nil => simp
    | cons s ss ih =>
      intro a ha
      rcases List.mem_cons.mp ha with rfl | ha
      · have hframe := h.1
        rw [frames, List.getElem?_map, Option.map_eq_some_iff] at hframe
        obtain ⟨sc, hsc, hframe⟩ := hframe
        have hsame : sc.flags = a.flags := congrArg Prod.snd hframe
        rw [hsc, Option.any_some, hsame]
      · exact ih h.2.2 a ha
  rw [hoistTarget?, hstack, List.find?_map]
  congr 1
  clear hstack h
  induction scopes with
  | nil => rfl
  | cons s ss ih =>
    have hs := hflags s List.mem_cons_self
    have hrest := ih fun a ha => hflags a (List.mem_cons_of_mem _ ha)
    rw [List.find?_cons, List.find?_cons, Function.comp, hs, hrest]

end Tracker

/-! ## Section 2: The tracker along a walk -/

/-- A tracker has the scopes open that the account of a walk says. -/
structure Tracks (t : Tracker) (scopes : List Enclosing) (next : Nat) : Prop where
  stack : t.stack = scopes.map Enclosing.number
  count : t.count = next
  preserve : t.preserve = true
  nested : Nested t.frames scopes

theorem Tracks.new : Tracks (Tracker.new true) [] 0 := ⟨rfl, rfl, rfl, trivial⟩

theorem Tracks.current? {t : Tracker} {scopes : List Enclosing} {next : Nat}
    (h : Tracks t scopes next) : t.current? = innermost? scopes := by
  rw [Tracker.current?, h.stack, List.head?_map, innermost?]

theorem frames_push (t : Tracker) (flags : ScopeFlags) :
    (t.push flags).frames = t.frames ++ [(t.current?, flags)] := by
  rw [Tracker.frames, Tracker.push, List.map_append]
  rfl

/-- A cursor expects the scope that its tracker entered under the number that is next. -/
theorem Cursor.expects_of_grown {c : Cursor} {t : Tracker} {flags : ScopeFlags}
    (hgrown : (t.push flags).frames <+: c.tracker.frames) (hnext : c.next = t.count) :
    c.expects flags = true := by
  have hframe : c.tracker.frames[c.next]? = some (t.current?, flags) := by
    obtain ⟨later, hlater⟩ := hgrown
    have hlen : t.frames.length = c.next := by rw [Tracker.length_frames, hnext]
    rw [← hlater, frames_push, List.append_assoc,
      List.getElem?_append_right (Nat.le_of_eq hlen), hlen, Nat.sub_self]
    rfl
  rw [Tracker.frames, List.getElem?_map, Option.map_eq_some_iff] at hframe
  obtain ⟨s, hs, hflags⟩ := hframe
  have hflags : s.flags = flags := congrArg Prod.snd hflags
  rw [Cursor.expects, hs]
  simpa using hflags

theorem stack_leave (t : Tracker) : t.leave.stack = t.stack.tail := by
  unfold Tracker.leave
  split
  · next h => rw [h, List.tail_nil]
  · next h => rw [h, List.tail_cons]

theorem preserve_leave (t : Tracker) : t.leave.preserve = t.preserve := by
  unfold Tracker.leave
  split <;> rfl

theorem frozen_leave (t : Tracker) : t.leave.frozen = t.frozen := by
  unfold Tracker.leave
  split <;> rfl

/-- A tracker that preserves what it has seen forgets nothing when a scope is left. -/
theorem scopes_leave {t : Tracker} (h : t.preserve = true) : t.leave.scopes = t.scopes := by
  unfold Tracker.leave
  split
  · rfl
  · exact if_pos h

theorem frames_leave (t : Tracker) : t.leave.frames = t.frames := by
  unfold Tracker.leave Tracker.frames
  split
  · rfl
  · next id stack _ =>
    show List.map Scope.frame (if t.preserve then t.scopes
      else t.scopes.modify id fun s => { s with declarations := [] }) = _
    split
    · rfl
    · apply List.ext_getElem?
      intro i
      rw [List.getElem?_map, List.getElem?_map, List.getElem?_modify]
      split <;> cases t.scopes[i]? <;> rfl

theorem frame_addTo (s : Scope) (d : Declaration) : (Tracker.addTo s d).frame = s.frame := by
  unfold Tracker.addTo
  split <;> rfl

theorem frames_record (t : Tracker) (d : Declaration) : (t.record d).frames = t.frames := by
  rw [Tracker.frames, Tracker.record, Tracker.frames]
  apply List.ext_getElem?
  intro i
  rw [List.getElem?_map, List.getElem?_map, List.getElem?_modify]
  split
  · cases t.scopes[i]? with
    | none => rfl
    | some s => exact congrArg some (frame_addTo s d)
  · cases t.scopes[i]? <;> rfl

/-- Nothing that happens in a walk changes how the scopes are nested. -/
theorem frames_step (t : Tracker) (e : Event) : t.frames <+: (t.step e).frames := by
  cases e with
  | enter flags =>
    rw [Tracker.step, frames_push]
    exact List.prefix_append _ _
  | leave => exact ⟨[], (List.append_nil _).trans (frames_leave t).symm⟩
  | declare b => exact ⟨[], (List.append_nil _).trans (frames_record t _).symm⟩
  | use id => exact List.prefix_refl _
  | call node => exact List.prefix_refl _
  | await => exact List.prefix_refl _

theorem frames_foldl (t : Tracker) (es : List Event) :
    t.frames <+: (es.foldl Tracker.step t).frames := by
  induction es generalizing t with
  | nil => exact List.prefix_refl _
  | cons e es ih => exact (frames_step t e).trans (ih _)

theorem Tracks.enter {t : Tracker} {scopes : List Enclosing} {next : Nat}
    (h : Tracks t scopes next) (flags : ScopeFlags) :
    Tracks (t.push flags) (⟨next, flags⟩ :: scopes) (next + 1) := by
  -- the new scope gets the number of scopes so far, the one that the account gives out
  have hlen : t.frames.length = next := by rw [Tracker.length_frames, h.count]
  refine ⟨?_, ?_, h.preserve, ?_, ?_, ?_⟩
  · rw [Tracker.push, h.stack, h.count]
    rfl
  · rw [Tracker.count, Tracker.push, List.length_append, ← h.count]
    rfl
  · rw [frames_push, List.getElem?_append_right (Nat.le_of_eq hlen), hlen, Nat.sub_self,
      h.current?]
    rfl
  · intro outer houter
    obtain ⟨s, hs, rfl⟩ := Option.map_eq_some_iff.mp houter
    rw [← hlen]
    exact h.nested.number_lt s (List.mem_of_mem_head? hs)
  · rw [frames_push]
    exact h.nested.of_grown (List.prefix_append _ _)

theorem Tracks.leave {t : Tracker} {scopes : List Enclosing} {next : Nat}
    (h : Tracks t scopes next) : Tracks t.leave scopes.tail next := by
  refine ⟨?_, ?_, ?_, ?_⟩
  · rw [stack_leave, h.stack, List.map_tail]
  · rw [Tracker.count, scopes_leave h.preserve]
    exact h.count
  · rw [preserve_leave, h.preserve]
  · rw [frames_leave]
    cases scopes with
    | nil => trivial
    | cons s ss => exact h.nested.2.2

theorem Tracks.record {t : Tracker} {scopes : List Enclosing} {next : Nat}
    (h : Tracks t scopes next) (d : Declaration) : Tracks (t.record d) scopes next := by
  refine ⟨h.stack, ?_, h.preserve, ?_⟩
  · rw [← h.count, ← Tracker.length_frames, frames_record, Tracker.length_frames]
  · rw [frames_record]
    exact h.nested

/-- A scope of the walk stays nested in the same scopes to the end of the walk. -/
theorem nested_foldl {t : Tracker} {scopes : List Enclosing} {next : Nat}
    (h : Tracks t scopes next) (es : List Event) :
    ∀ m ∈ walk scopes next es, Nested (es.foldl Tracker.step t).frames m.1 := by
  induction es generalizing t scopes next with
  | nil => simp [walk]
  | cons e es ih =>
    -- what is met at this moment: its scopes are nested already, and stay so
    have hhere : ∀ m ∈ (scopes, e) :: walk scopes next es, Tracks (t.step e) scopes next →
        Nested ((e :: es).foldl Tracker.step t).frames m.1 := by
      intro m hm hstep
      rcases List.mem_cons.mp hm with rfl | hm
      · exact h.nested.of_grown (frames_foldl t (e :: es))
      · exact ih hstep m hm
    intro m hm
    cases e with
    | enter flags => exact ih (h.enter flags) m hm
    | leave => exact ih h.leave m hm
    | declare b => exact hhere m hm (h.record _)
    | use id => exact hhere m hm h
    | call node => exact hhere m hm h
    | await => exact hhere m hm h

/-! ## Section 3: What a scope knows -/

/-- What a scope knows after one more declaration. -/
def learn (known : Option Declaration) (d : Declaration) : Option Declaration :=
  if Tracker.replaces known d then some d else known

theorem foldl_learn_some (known : Declaration) (ds : List Declaration) :
    ds.foldl learn (some known) =
      if known.isImport then (ds.find? fun d => !d.isImport).or (some known) else some known := by
  induction ds generalizing known with
  | nil => simp
  | cons d ds ih =>
    -- only a local declaration takes the place of what is known, and only of an import
    have hlearn : learn (some known) d =
        if known.isImport && !d.isImport then some d else some known := rfl
    rw [List.foldl_cons, List.find?_cons, hlearn]
    cases hknown : known.isImport <;> cases hd : d.isImport <;> simp [ih, hknown, hd]

/-- One after the other, the declarations leave the one that counts among them. -/
theorem foldl_learn (ds : List Declaration) : ds.foldl learn none = Declaration.pick ds := by
  cases ds with
  | nil => rfl
  | cons d ds =>
    have hfirst : learn none d = some d := rfl
    rw [List.foldl_cons, hfirst, foldl_learn_some, Declaration.pick, List.find?_cons]
    cases d.isImport <;> simp

theorem get?_addTo (s : Scope) (d : Declaration) (name : String) :
    (Tracker.addTo s d).declarations.get? name =
      if d.name = name then learn (s.declarations.get? name) d else s.declarations.get? name := by
  unfold Tracker.addTo learn
  -- other names in the scope are left alone
  by_cases hname : d.name = name
  · subst hname
    rw [if_pos rfl]
    split
    · exact Assoc.get?_insert_self _ _ _
    · rfl
  · rw [if_neg hname]
    split
    · exact Assoc.get?_insert_of_ne _ _ (Ne.symm hname)
    · rfl

theorem own?_record {t : Tracker} {d : Declaration} (h : d.scope < t.count) (name : String)
    (scope : Nat) : (t.record d).own? name scope =
      if d.name = name ∧ d.scope = scope then learn (t.own? name scope) d
      else t.own? name scope := by
  unfold Tracker.own? Tracker.record
  -- other scopes are left alone
  by_cases hscope : d.scope = scope
  · subst hscope
    rw [List.getElem?_modify_eq, List.getElem?_eq_getElem h]
    simp only [Option.map_eq_map, Option.map_some, Option.bind_some, get?_addTo, and_true]
  · rw [List.getElem?_modify_ne _ _ hscope, if_neg (fun h => hscope h.2)]

theorem own?_push (t : Tracker) (flags : ScopeFlags) (name : String) (scope : Nat) :
    (t.push flags).own? name scope = t.own? name scope := by
  unfold Tracker.own? Tracker.push
  -- a new scope knows nothing, as if it did not exist
  rcases Nat.lt_trichotomy scope t.scopes.length with h | h | h
  · rw [List.getElem?_append_left h]
  · rw [List.getElem?_append_right (Nat.le_of_eq h.symm), h, Nat.sub_self,
      List.getElem?_eq_none (Nat.le_refl _)]
    rfl
  · rw [List.getElem?_eq_none (Nat.le_of_lt h), List.getElem?_eq_none (by simp; omega)]

/-- The declaration made at a moment of a walk. -/
def declaredAt? : List Enclosing × Event → Option Declaration
  | (scopes, .declare b) => (b.owner? scopes).map fun owner => ⟨b, owner⟩
  | _ => none

/-- The declarations made at the moments of a walk. -/
def declared (moments : List (List Enclosing × Event)) : List Declaration :=
  moments.filterMap declaredAt?

/-- A binding made inside the module has an owner, the scope in which the tracker records it. -/
theorem Tracks.owner?_eq {t : Tracker} {scopes : List Enclosing} {next : Nat}
    (h : Tracks t scopes next) (hmodule : Enclosing.module ∈ scopes) (b : Binding) :
    b.owner? scopes = some (b.owner t) ∧ b.owner t < t.count := by
  have hlt : ∀ s ∈ scopes, s.number < t.count := by
    rw [← Tracker.length_frames]
    exact h.nested.number_lt
  have hroot : Tracker.root < t.count := hlt _ hmodule
  -- the module is open and takes every kind of declaration, so a scope is always found
  have hhoist : ∃ s, scopes.find? (fun s => s.flags.hoists) = some s ∧ s ∈ scopes := by
    have hsome : (scopes.find? fun s => s.flags.hoists).isSome = true := by
      rw [List.find?_isSome]
      exact ⟨_, hmodule, rfl⟩
    obtain ⟨s, hs⟩ := Option.isSome_iff_exists.mp hsome
    exact ⟨s, hs, List.mem_of_find?_eq_some hs⟩
  have hinner : ∃ s, scopes.head? = some s ∧ s ∈ scopes := by
    obtain ⟨s, ss, rfl⟩ := List.exists_cons_of_ne_nil (List.ne_nil_of_mem hmodule)
    exact ⟨s, rfl, List.mem_cons_self⟩
  obtain ⟨hoisting, hfind, hhoisting⟩ := hhoist
  obtain ⟨inner, hhead, hinner⟩ := hinner
  have htarget : t.hoistTarget? = some hoisting.number := by
    rw [Tracker.hoistTarget?_eq h.nested h.stack, hfind]
    rfl
  have hhere : t.here = inner.number := by
    rw [Tracker.here, h.current?, innermost?, hhead]
    rfl
  have hvar : (scopes.find? fun s => s.flags.hoists).map Enclosing.number =
      some (t.hoistTarget?.getD Tracker.root) ∧ t.hoistTarget?.getD Tracker.root < t.count := by
    rw [hfind, htarget]
    exact ⟨rfl, hlt _ hhoisting⟩
  have hother : scopes.head?.map Enclosing.number = some t.here ∧ t.here < t.count := by
    rw [hhead, hhere]
    exact ⟨rfl, hlt _ hinner⟩
  unfold Binding.owner? Binding.owner
  cases b.kind with
  | imported i => exact ⟨rfl, hroot⟩
  | «variable» kind =>
    cases kind with
    | var => exact hvar
    | _ => exact hother
  | _ => exact hother

/-- **What a scope knows after a walk** is what it knew before and what the declarations of the
    walk taught it, in the order of the walk. -/
theorem own?_foldl {t : Tracker} {scopes : List Enclosing} {next : Nat} (h : Tracks t scopes next)
    {es : List Event} (hmodule : ∀ m ∈ walk scopes next es, Enclosing.module ∈ m.1)
    (name : String) (scope : Nat) :
    (es.foldl Tracker.step t).own? name scope =
      ((declared (walk scopes next es)).filter fun d => d.name == name && d.scope == scope).foldl
        learn (t.own? name scope) := by
  -- along the walk, with what the scope knows so far as the start of the fold
  induction es generalizing t scopes next with
  | nil => rfl
  | cons e es ih =>
    cases e with
    | enter flags =>
      rw [List.foldl_cons, Tracker.step, ih (h.enter flags) hmodule, own?_push]
      rfl
    | leave =>
      have hown : t.leave.own? name scope = t.own? name scope := by
        rw [Tracker.own?, scopes_leave h.preserve, Tracker.own?]
      rw [List.foldl_cons, Tracker.step, ih h.leave hmodule, hown]
      rfl
    | declare b =>
      have hrest : ∀ m ∈ walk scopes next es, Enclosing.module ∈ m.1 :=
        fun m hm => hmodule m (List.mem_cons_of_mem _ hm)
      obtain ⟨howner, hlt⟩ := h.owner?_eq (hmodule _ List.mem_cons_self) b
      have hdeclared : declared (walk scopes next (.declare b :: es)) =
          ⟨b, b.owner t⟩ :: declared (walk scopes next es) := by
        have hfirst : declaredAt? (scopes, .declare b) = some ⟨b, b.owner t⟩ := by
          rw [declaredAt?, howner]
          rfl
        exact List.filterMap_cons_some hfirst
      rw [List.foldl_cons, Tracker.step, ih (h.record _) hrest, own?_record hlt, hdeclared,
        List.filter_cons]
      by_cases hd : b.name = name ∧ b.owner t = scope
      · rw [if_pos hd, if_pos (by simp [hd])]
        rfl
      · rw [if_neg hd, if_neg (by simpa using hd)]
    | use id => exact ih h fun m hm => hmodule m (List.mem_cons_of_mem _ hm)
    | call node => exact ih h fun m hm => hmodule m (List.mem_cons_of_mem _ hm)
    | await => exact ih h fun m hm => hmodule m (List.mem_cons_of_mem _ hm)

end BuildMacros.Script
