import BuildMacros.Proofs.Assoc
import BuildMacros.Proofs.Scope.Collecting

/-! # Trackers in use

    A tracker can be used in ways that no walk over a module would: all scopes are left
    and another one is entered, so that there are several roots; names are declared in
    scopes that have been left; and a tracker that does not preserve what it has seen
    forgets the declarations of a scope when it is left. Whatever is done to it, as long
    as nothing is refused, the tracker stays `WellFormed`: the scope around a scope has the
    smaller number, the open scopes lie one inside the other, and a declaration is kept
    under its own name in its own scope.

    The first of these is why questions are answered at all. Both `getFrom?` and
    `isWithin` go outwards from scope to scope, and are defined with a bound on their way.
    The bound is never reached: going outwards without one (`Searches`, `Climbs`) ends
    after finitely many scopes, with the same answer.
-/

namespace BuildMacros.Script.Tracker

/-! ## Section 1: Commands -/

/-- What can be done to a tracker. -/
inductive Command where
  | enter (flags : ScopeFlags)
  | leave
  | declare (d : Declaration)
  | freeze

/-- The tracker after a command, unless it is refused. -/
def perform (t : Tracker) : Command → Except ScopeFault Tracker
  | .enter flags => (t.enter flags).map Prod.snd
  | .leave => .ok t.leave
  | .declare d => t.declare d
  | .freeze => .ok t.freeze

/-- The tracker after several commands, unless one of them is refused. -/
def performAll (t : Tracker) (commands : List Command) : Except ScopeFault Tracker :=
  commands.foldlM perform t

variable {t t' : Tracker} {c : Command}

/-- **What a command does**, if it is not refused. -/
theorem perform_cases (h : t.perform c = .ok t') :
    (∃ flags, c = .enter flags ∧ t.frozen = false ∧ t' = t.push flags) ∨
      (c = .leave ∧ t' = t.leave) ∨
      (∃ d, c = .declare d ∧ t.frozen = false ∧ d.scope < t.count ∧ t' = t.record d) ∨
      (c = .freeze ∧ t' = t.freeze) := by
  cases c with
  | enter flags =>
    by_cases hfrozen : t.frozen = true
    · simp [perform, enter, hfrozen, Except.map] at h
    · simp [perform, enter, hfrozen, Except.map] at h
      exact .inl ⟨flags, rfl, by simpa using hfrozen, h.symm⟩
  | leave => exact .inr (.inl ⟨rfl, (Except.ok.inj h).symm⟩)
  | declare d =>
    by_cases hfrozen : t.frozen = true
    · simp [perform, declare, hfrozen] at h
    · by_cases hscope : d.scope < t.count
      · simp [perform, declare, hfrozen, hscope] at h
        exact .inr (.inr (.inl ⟨d, rfl, by simpa using hfrozen, hscope, h.symm⟩))
      · simp [perform, declare, hfrozen, hscope] at h
  | freeze => exact .inr (.inr (.inr ⟨rfl, (Except.ok.inj h).symm⟩))

theorem performAll_cons_of_ok {next : Tracker} (h : t.perform c = .ok next) (cs : List Command) :
    t.performAll (c :: cs) = next.performAll cs := by
  rw [performAll, List.foldlM_cons, h]
  rfl

/-- Commands are performed one after the other. -/
theorem performAll_cons_iff {cs : List Command} :
    t.performAll (c :: cs) = .ok t' ↔
      ∃ next, t.perform c = .ok next ∧ next.performAll cs = .ok t' := by
  cases hfirst : t.perform c with
  | error fault =>
    rw [performAll, List.foldlM_cons, hfirst]
    constructor
    · rintro ⟨⟩
    · rintro ⟨_, ⟨⟩, _⟩
  | ok next =>
    rw [performAll_cons_of_ok hfirst]
    constructor
    · intro h
      exact ⟨next, rfl, h⟩
    · rintro ⟨_, ⟨⟩, h⟩
      exact h

theorem performAll_append_iff {cs ds : List Command} :
    t.performAll (cs ++ ds) = .ok t' ↔
      ∃ next, t.performAll cs = .ok next ∧ next.performAll ds = .ok t' := by
  induction cs generalizing t with
  | nil =>
    constructor
    · intro h
      exact ⟨t, rfl, h⟩
    · rintro ⟨next, hnext, h⟩
      obtain rfl : t = next := Except.ok.inj hnext
      exact h
  | cons c cs ih =>
    rw [List.cons_append, performAll_cons_iff]
    simp only [ih, performAll_cons_iff]
    constructor
    · rintro ⟨first, hfirst, next, hnext, h⟩
      exact ⟨next, ⟨first, hfirst, hnext⟩, h⟩
    · rintro ⟨next, ⟨first, hfirst, hnext⟩, h⟩
      exact ⟨first, hfirst, next, hnext, h⟩

/-! ## Section 2: What every tracker has -/

/-- The state of a tracker that has only been used by commands. -/
structure WellFormed (t : Tracker) : Prop where
  /-- The scope around a scope has the smaller number. -/
  outer_lt : ∀ id outer, t.parent? id = some outer → outer < id
  /-- Every open scope lies in the next one, and the last one in none. -/
  linked : ∀ inner id outer, t.stack = inner ++ id :: outer →
    id < t.count ∧ t.parent? id = outer.head?
  /-- Declarations are kept under their own names in their own scopes. -/
  placed : ∀ (id : Nat) (s : Scope), t.scopes[id]? = some s →
    ∀ (name : String) (d : Declaration), (name, d) ∈ s.declarations → d.name = name ∧ d.scope = id

/-- Entering a scope adds one. -/
theorem count_push (t : Tracker) (flags : ScopeFlags) : (t.push flags).count = t.count + 1 := by
  simp [push, count]

theorem parent?_push_of_lt {id : Nat} (h : id < t.count) (flags : ScopeFlags) :
    (t.push flags).parent? id = t.parent? id := by
  rw [parent?_eq, parent?_eq, frames_push, List.getElem?_append_left]
  rwa [length_frames]

theorem parent?_push_count (t : Tracker) (flags : ScopeFlags) :
    (t.push flags).parent? t.count = t.current? := by
  rw [parent?_eq, frames_push, ← length_frames, List.getElem?_append_right (Nat.le_refl _)]
  simp

theorem parent?_of_le {id : Nat} (h : t.count ≤ id) : t.parent? id = none := by
  rw [parent?_eq, List.getElem?_eq_none, Option.bind_none]
  rwa [length_frames]

theorem parent?_of_frames (h : t'.frames = t.frames) (id : Nat) : t'.parent? id = t.parent? id := by
  rw [parent?_eq, parent?_eq, h]

theorem count_of_frames (h : t'.frames = t.frames) : t'.count = t.count := by
  rw [← length_frames, ← length_frames, h]

namespace WellFormed

theorem new (preserve : Bool) : WellFormed (Tracker.new preserve) := by
  refine ⟨?_, ?_, ?_⟩
  · intro id outer h
    simp [parent?, Tracker.new] at h
  · intro inner id outer h
    simp [Tracker.new] at h
  · intro id s h
    simp [Tracker.new] at h

/-- The innermost open scope exists. -/
theorem current_lt (h : WellFormed t) {id : Nat} (hid : t.current? = some id) : id < t.count := by
  obtain ⟨outer, hstack⟩ := List.head?_eq_some_iff.mp hid
  exact (h.linked [] id outer hstack).1

theorem push (h : WellFormed t) (flags : ScopeFlags) : WellFormed (t.push flags) := by
  refine ⟨?_, ?_, ?_⟩
  · intro id outer houter
    -- the scope is an old one, the new one, or none at all
    rcases Nat.lt_trichotomy id t.count with hlt | heq | hgt
    · rw [parent?_push_of_lt hlt] at houter
      exact h.outer_lt id outer houter
    · rw [heq, parent?_push_count] at houter
      rw [heq]
      exact h.current_lt houter
    · rw [parent?_of_le (by rw [count_push]; omega)] at houter
      cases houter
  · intro inner id outer hstack
    have hpushed : (t.push flags).stack = t.count :: t.stack := rfl
    rw [hpushed] at hstack
    rw [count_push]
    cases inner with
    | nil =>
      obtain ⟨hid, houter⟩ := List.cons.inj hstack
      rw [← hid, ← houter, parent?_push_count]
      exact ⟨Nat.lt_succ_self _, rfl⟩
    | cons a inner =>
      obtain ⟨hlt, hparent⟩ := h.linked inner id outer (List.cons.inj hstack).2
      rw [parent?_push_of_lt hlt]
      exact ⟨Nat.lt_succ_of_lt hlt, hparent⟩
  · intro id s hs name d hd
    have hscopes : (t.push flags).scopes = t.scopes ++ [⟨t.current?, flags, []⟩] := rfl
    rw [hscopes, List.getElem?_append] at hs
    split at hs
    · exact h.placed id s hs name d hd
    -- the new scope knows nothing
    · rw [List.getElem?_singleton] at hs
      split at hs
      · cases hs
        cases hd
      · cases hs

/-- The scopes lie in each other as before, and no more of them are open. -/
theorem linked_of_frames (h : WellFormed t) (hframes : t'.frames = t.frames)
    (hstack : t'.stack <:+ t.stack) (inner : List Nat) (id : Nat) (outer : List Nat)
    (hid : t'.stack = inner ++ id :: outer) : id < t'.count ∧ t'.parent? id = outer.head? := by
  obtain ⟨left, hleft⟩ := hstack
  rw [hid, ← List.append_assoc] at hleft
  rw [count_of_frames hframes, parent?_of_frames hframes]
  exact h.linked (left ++ inner) id outer hleft.symm

theorem leave (h : WellFormed t) : WellFormed t.leave := by
  have hframes := frames_leave t
  refine ⟨?_, ?_, ?_⟩
  · intro id outer houter
    rw [parent?_of_frames hframes] at houter
    exact h.outer_lt id outer houter
  · apply h.linked_of_frames hframes
    rw [stack_leave]
    exact List.tail_suffix _
  · intro id s hs name d hd
    unfold Tracker.leave at hs
    split at hs
    · exact h.placed id s hs name d hd
    · next left _ _ =>
      dsimp only at hs
      split at hs
      · exact h.placed id s hs name d hd
      · rw [List.getElem?_modify] at hs
        obtain ⟨s', hs', heq⟩ := Option.map_eq_some_iff.mp hs
        by_cases hleft : left = id
        -- a scope that is left may have been cleared
        · rw [if_pos hleft] at heq
          rw [← heq] at hd
          cases hd
        · rw [if_neg hleft] at heq
          rw [← heq] at hd
          exact h.placed id s' hs' name d hd

/-- What is in a scope after a declaration was in it before, or is the declaration. -/
theorem mem_addTo {s : Scope} {d other : Declaration} {name : String}
    (h : (name, other) ∈ (addTo s d).declarations) :
    (name, other) = (d.name, d) ∨ (name, other) ∈ s.declarations := by
  unfold addTo at h
  split at h
  · exact Assoc.mem_insert h
  · exact .inr h

theorem record (h : WellFormed t) (d : Declaration) : WellFormed (t.record d) := by
  have hframes := frames_record t d
  refine ⟨?_, ?_, ?_⟩
  · intro id outer houter
    rw [parent?_of_frames hframes] at houter
    exact h.outer_lt id outer houter
  · exact h.linked_of_frames hframes (List.suffix_refl _)
  · intro id s hs name other hother
    rw [Tracker.record, List.getElem?_modify] at hs
    obtain ⟨s', hs', heq⟩ := Option.map_eq_some_iff.mp hs
    by_cases hscope : d.scope = id
    · rw [if_pos hscope] at heq
      rw [← heq] at hother
      rcases mem_addTo hother with hnew | hold
      · obtain ⟨rfl, rfl⟩ := Prod.mk.inj hnew
        exact ⟨rfl, hscope⟩
      · exact h.placed id s' hs' name other hold
    · rw [if_neg hscope] at heq
      rw [← heq] at hother
      exact h.placed id s' hs' name other hother

theorem freeze (h : WellFormed t) : WellFormed t.freeze :=
  ⟨h.outer_lt, fun _ _ _ hstack => by simp [Tracker.freeze] at hstack, h.placed⟩

/-- **One command** keeps a tracker well-formed. -/
theorem perform (h : WellFormed t) (hc : t.perform c = .ok t') : WellFormed t' := by
  rcases perform_cases hc with ⟨flags, -, -, rfl⟩ | ⟨-, rfl⟩ | ⟨d, -, -, -, rfl⟩ | ⟨-, rfl⟩
  · exact h.push flags
  · exact h.leave
  · exact h.record d
  · exact h.freeze

/-- **Any commands** keep a tracker well-formed. -/
theorem performAll (h : WellFormed t) {commands : List Command}
    (hc : t.performAll commands = .ok t') : WellFormed t' := by
  induction commands generalizing t with
  | nil =>
    obtain rfl : t = t' := Except.ok.inj hc
    exact h
  | cons c commands ih =>
    obtain ⟨next, hfirst, hrest⟩ := performAll_cons_iff.mp hc
    exact ih (h.perform hfirst) hrest

/-! ## Section 3: The way outwards

    The number of a scope falls on the way outwards, so the bound `id + 1` of `chain id` is
    never reached. From here on the chain is only used through `chain_eq`.
-/

/-- Any bound above the number of the scope gives the same chain. -/
theorem chainUpTo_of_lt (h : WellFormed t) {id : Nat} : ∀ {n m : Nat}, id < n → id < m →
    t.chainUpTo n id = t.chainUpTo m id := by
  induction id using Nat.strongRecOn with
  | ind id ih =>
    intro n m hn hm
    obtain ⟨n, rfl⟩ : ∃ k, n = k + 1 := ⟨n - 1, by omega⟩
    obtain ⟨m, rfl⟩ : ∃ k, m = k + 1 := ⟨m - 1, by omega⟩
    rw [chainUpTo, chainUpTo]
    cases houter : t.parent? id with
    | none => rfl
    | some outer =>
      have hlt := h.outer_lt id outer houter
      exact congrArg (id :: ·) (ih outer hlt (by omega) (by omega))

/-- The chain of a scope goes on with the chain of the scope around it. -/
theorem chain_eq (h : WellFormed t) (id : Nat) :
    t.chain id = id :: ((t.parent? id).map t.chain).getD [] := by
  rw [chain, chainUpTo]
  cases houter : t.parent? id with
  | none => rfl
  | some outer =>
    have hlt := h.outer_lt id outer houter
    exact congrArg (id :: ·) (h.chainUpTo_of_lt hlt (Nat.lt_succ_self outer))

/-- What is visible in a scope: what the scope knows itself, or else what is visible around it. -/
theorem getFrom?_eq_or (h : WellFormed t) (id : Nat) (name : String) :
    t.getFrom? id name =
      (t.own? name id).or ((t.parent? id).bind fun outer => t.getFrom? outer name) := by
  rw [getFrom?, h.chain_eq, List.findSome?_cons]
  cases t.own? name id with
  | some d => rfl
  | none => cases t.parent? id <;> rfl

/-- A scope lies within itself and within what the scope around it lies in. -/
theorem isWithin_iff (h : WellFormed t) (id a : Nat) :
    t.isWithin id a = true ↔
      a = id ∨ ∃ outer, t.parent? id = some outer ∧ t.isWithin outer a = true := by
  rw [isWithin, List.contains_iff_mem, h.chain_eq, List.mem_cons]
  cases t.parent? id with
  | none => simp
  | some outer => simp [isWithin]

theorem isWithin_self (h : WellFormed t) (id : Nat) : t.isWithin id id = true :=
  (h.isWithin_iff id id).mpr (.inl rfl)

/-- A scope has a number no smaller than the scopes that it lies within. -/
theorem le_of_isWithin (h : WellFormed t) {id a : Nat} (ha : t.isWithin id a = true) : a ≤ id := by
  induction id using Nat.strongRecOn with
  | ind id ih =>
    rcases (h.isWithin_iff id a).mp ha with rfl | ⟨outer, houter, ha⟩
    · exact Nat.le_refl _
    · have hlt := h.outer_lt id outer houter
      have hle := ih outer hlt ha
      omega

theorem isWithin_antisymm (h : WellFormed t) {a b : Nat} (hab : t.isWithin a b = true)
    (hba : t.isWithin b a = true) : a = b :=
  Nat.le_antisymm (h.le_of_isWithin hba) (h.le_of_isWithin hab)

theorem isWithin_trans (h : WellFormed t) {a b c : Nat} (hab : t.isWithin a b = true)
    (hbc : t.isWithin b c = true) : t.isWithin a c = true := by
  induction a using Nat.strongRecOn with
  | ind a ih =>
    rcases (h.isWithin_iff a b).mp hab with rfl | ⟨outer, houter, hab⟩
    · exact hbc
    · have hlt := h.outer_lt a outer houter
      exact (h.isWithin_iff a c).mpr (.inr ⟨outer, houter, ih outer hlt hab⟩)

/-- The chain of an open scope are the scopes from it to the end of the stack. -/
theorem chain_of_stack (h : WellFormed t) {inner : List Nat} {id : Nat} {outer : List Nat}
    (hstack : t.stack = inner ++ id :: outer) : t.chain id = id :: outer := by
  induction outer generalizing inner id with
  | nil =>
    have hparent := (h.linked inner id [] hstack).2
    rw [h.chain_eq, hparent]
    rfl
  | cons next outer ih =>
    have hparent := (h.linked inner id (next :: outer) hstack).2
    have hnext : t.stack = (inner ++ [id]) ++ next :: outer := by simpa using hstack
    rw [h.chain_eq, hparent, List.head?_cons, Option.map_some, ih hnext]
    rfl

/-- The scope that a `var` declares in is open, so the innermost scope lies within it. -/
theorem isWithin_hoistTarget (h : WellFormed t) {target : Nat}
    (htarget : t.hoistTarget? = some target) :
    ∃ id, t.current? = some id ∧ t.isWithin id target = true := by
  have hopen : target ∈ t.stack := List.mem_of_find?_eq_some htarget
  cases hstack : t.stack with
  | nil =>
    rw [hstack] at hopen
    cases hopen
  | cons id outer =>
    have hwhole : t.stack = [] ++ id :: outer := hstack
    refine ⟨id, by rw [current?, hstack, List.head?_cons], ?_⟩
    rw [isWithin, List.contains_iff_mem, h.chain_of_stack hwhole, ← hstack]
    exact hopen

end WellFormed

/-! ## Section 4: Questions without a bound

    The loops that answer questions go from a scope to the one around it for as long as
    there is one. A derivation of `Searches` or `Climbs` is a finite run of such a loop, from
    the scope that it looks at next; `none` is the end of the way.
-/

/-- A run of the search for a name. -/
inductive Searches (t : Tracker) (name : String) : Option Nat → Option Declaration → Prop where
  | outside : Searches t name none none
  | missing {id : Nat} (h : t.scopes[id]? = none) : Searches t name (some id) none
  | found {id : Nat} {s : Scope} {d : Declaration} (h : t.scopes[id]? = some s)
      (hd : s.declarations.get? name = some d) : Searches t name (some id) (some d)
  | outwards {id : Nat} {s : Scope} {answer : Option Declaration} (h : t.scopes[id]? = some s)
      (hd : s.declarations.get? name = none) (rest : Searches t name s.parent answer) :
      Searches t name (some id) answer

/-- A run of the search for a scope among the scopes around another one. -/
inductive Climbs (t : Tracker) (ancestor : Nat) : Option Nat → Bool → Prop where
  | outside : Climbs t ancestor none false
  | reached : Climbs t ancestor (some ancestor) true
  | outwards {id : Nat} {answer : Bool} (h : id ≠ ancestor)
      (rest : Climbs t ancestor (t.parent? id) answer) : Climbs t ancestor (some id) answer

/-- A declaration of a name is the nearest one to a scope: it is known to the scope or to one around
    it, and the scopes before that one know nothing about the name. -/
def Nearest (t : Tracker) (id : Nat) (name : String) (d : Declaration) : Prop :=
  ∃ a, t.isWithin id a = true ∧ t.own? name a = some d ∧
    ∀ b, t.isWithin id b = true → t.isWithin b a = true → b ≠ a → t.own? name b = none

/-- A run of the search for a name has the answer of the tracker. -/
theorem Searches.eq {name : String} {start : Option Nat} {answer : Option Declaration}
    (hrun : Searches t name start answer) (h : WellFormed t) :
    (start.bind fun id => t.getFrom? id name) = answer := by
  induction hrun with
  | outside => rfl
  | missing hscope =>
    rw [Option.bind_some, h.getFrom?_eq_or, own?, parent?, hscope]
    rfl
  | found hscope hd =>
    rw [Option.bind_some, h.getFrom?_eq_or, own?, hscope, Option.bind_some, hd, Option.some_or]
  | outwards hscope hd _ ih =>
    rw [Option.bind_some, h.getFrom?_eq_or, own?, parent?, hscope, Option.bind_some, hd,
      Option.none_or]
    exact ih

/-- A run of the search for a scope has the answer of the tracker. -/
theorem Climbs.eq {ancestor : Nat} {start : Option Nat} {answer : Bool}
    (hrun : Climbs t ancestor start answer) (h : WellFormed t) :
    (start.any fun id => t.isWithin id ancestor) = answer := by
  induction hrun with
  | outside => rfl
  | reached => exact h.isWithin_self ancestor
  | outwards hne _ ih =>
    rw [Option.any_some, ← ih, Bool.eq_iff_iff, h.isWithin_iff, Option.any_eq_true]
    exact or_iff_right (Ne.symm hne)

namespace WellFormed

/-- From every scope there is a run of the search for a name. -/
theorem searches (h : WellFormed t) (name : String) (id : Nat) :
    Searches t name (some id) (t.getFrom? id name) := by
  -- there is one from the scope around it, which has a smaller number
  induction id using Nat.strongRecOn with
  | ind id ih =>
    rw [h.getFrom?_eq_or, own?]
    cases hscope : t.scopes[id]? with
    | none =>
      rw [parent?, hscope]
      exact .missing hscope
    | some s =>
      have hparent : t.parent? id = s.parent := by rw [parent?, hscope, Option.bind_some]
      rw [Option.bind_some, hparent]
      cases hd : s.declarations.get? name with
      | some d => exact .found hscope hd
      | none =>
        rw [Option.none_or]
        apply Searches.outwards hscope hd
        cases houter : s.parent with
        | none => exact .outside
        | some outer => exact ih outer (h.outer_lt id outer (hparent.trans houter))

/-- From every scope there is a run of the search for another one. -/
theorem climbs (h : WellFormed t) (ancestor id : Nat) :
    Climbs t ancestor (some id) (t.isWithin id ancestor) := by
  induction id using Nat.strongRecOn with
  | ind id ih =>
    by_cases hreached : id = ancestor
    · rw [hreached, h.isWithin_self]
      exact .reached
    · have hrest : t.isWithin id ancestor =
          (t.parent? id).any fun outer => t.isWithin outer ancestor := by
        rw [Bool.eq_iff_iff, h.isWithin_iff, Option.any_eq_true]
        exact or_iff_right (Ne.symm hreached)
      rw [hrest]
      apply Climbs.outwards hreached
      cases houter : t.parent? id with
      | none => exact .outside
      | some outer => exact ih outer (h.outer_lt id outer houter)

/-- **A search for a name** ends, and with the answer of the tracker. -/
theorem searches_iff (h : WellFormed t) (name : String) (id : Nat) (answer : Option Declaration) :
    Searches t name (some id) answer ↔ t.getFrom? id name = answer := by
  constructor
  · intro hrun
    exact hrun.eq h
  · intro hanswer
    rw [← hanswer]
    exact h.searches name id

/-- **A search for a scope** ends, and with the answer of the tracker. -/
theorem climbs_iff (h : WellFormed t) (ancestor id : Nat) (answer : Bool) :
    Climbs t ancestor (some id) answer ↔ t.isWithin id ancestor = answer := by
  constructor
  · intro hrun
    exact hrun.eq h
  · intro hanswer
    rw [← hanswer]
    exact h.climbs ancestor id

/-- A scope's own declaration is the nearest one. -/
theorem nearest_iff_of_own (h : WellFormed t) {id : Nat} {name : String} {known : Declaration}
    (hown : t.own? name id = some known) (d : Declaration) :
    t.Nearest id name d ↔ known = d := by
  constructor
  · intro ⟨a, ha, hd, hnearer⟩
    by_cases hid : id = a
    · rw [← hid, hown] at hd
      exact Option.some.inj hd
    -- the scope itself would be nearer
    · have hnone := hnearer id (h.isWithin_self id) ha hid
      simp [hown] at hnone
  · intro hd
    refine ⟨id, h.isWithin_self id, by rw [hown, hd], ?_⟩
    intro b hb hid hne
    exact absurd (h.isWithin_antisymm hid hb) hne

/-- What is nearest to a scope without a declaration of its own is what is nearest to the scope
    around it. -/
theorem nearest_iff_of_none (h : WellFormed t) {id : Nat} {name : String}
    (hown : t.own? name id = none) (d : Declaration) :
    t.Nearest id name d ↔ ∃ outer, t.parent? id = some outer ∧ t.Nearest outer name d := by
  constructor
  · intro ⟨a, ha, hd, hnearer⟩
    rcases (h.isWithin_iff id a).mp ha with rfl | ⟨outer, houter, ha⟩
    · simp [hown] at hd
    · refine ⟨outer, houter, a, ha, hd, ?_⟩
      intro b hb
      exact hnearer b ((h.isWithin_iff id b).mpr (.inr ⟨outer, houter, hb⟩))
  · intro ⟨outer, houter, a, ha, hd, hnearer⟩
    refine ⟨a, (h.isWithin_iff id a).mpr (.inr ⟨outer, houter, ha⟩), hd, ?_⟩
    intro b hb hba hne
    rcases (h.isWithin_iff id b).mp hb with rfl | ⟨outer', hsome, hb⟩
    · exact hown
    · obtain rfl : outer = outer' := Option.some.inj (houter.symm.trans hsome)
      exact hnearer b hb hba hne

/-- **The nearest declaration** of a name is the one that is visible. -/
theorem getFrom?_eq_some_iff (h : WellFormed t) (id : Nat) (name : String) (d : Declaration) :
    t.getFrom? id name = some d ↔ t.Nearest id name d := by
  induction id using Nat.strongRecOn with
  | ind id ih =>
    rw [h.getFrom?_eq_or]
    cases hown : t.own? name id with
    | some known =>
      rw [Option.some_or, Option.some_inj]
      exact (h.nearest_iff_of_own hown d).symm
    | none =>
      rw [Option.none_or, h.nearest_iff_of_none hown, Option.bind_eq_some_iff]
      apply exists_congr
      intro outer
      apply and_congr_right
      intro houter
      exact ih outer (h.outer_lt id outer houter)

end WellFormed

/-! ## Section 5: Any use of a tracker -/

/-- **Whatever has been done to a tracker**, as long as nothing was refused: the scopes are
    numbered inwards and the open ones lie one inside the other, up to one that lies in none;
    every declaration is kept under its own name in its own scope. So the loops that answer
    questions end, with the answers of the tracker. To lie within is a partial order; the
    innermost scope lies within the one that a `var` declares in; and what is visible of a name
    is what the nearest scope knows that knows it. -/
theorem answers_of_performAll {preserve : Bool} {commands : List Command}
    (h : (Tracker.new preserve).performAll commands = .ok t) :
    (∀ id outer, t.parent? id = some outer → outer < id) ∧
    (∀ inner id outer, t.stack = inner ++ id :: outer →
      id < t.count ∧ t.parent? id = outer.head?) ∧
    (∀ (id : Nat) (s : Scope), t.scopes[id]? = some s →
      ∀ (name : String) (d : Declaration), (name, d) ∈ s.declarations →
        d.name = name ∧ d.scope = id) ∧
    (∀ id name answer, Searches t name (some id) answer ↔ t.getFrom? id name = answer) ∧
    (∀ id a answer, Climbs t a (some id) answer ↔ t.isWithin id a = answer) ∧
    (∀ a, t.isWithin a a = true) ∧
    (∀ a b, t.isWithin a b = true → t.isWithin b a = true → a = b) ∧
    (∀ a b c, t.isWithin a b = true → t.isWithin b c = true → t.isWithin a c = true) ∧
    (∀ target, t.hoistTarget? = some target →
      ∃ id, t.current? = some id ∧ t.isWithin id target = true) ∧
    ∀ id name d, t.getFrom? id name = some d ↔ t.Nearest id name d := by
  have ht : WellFormed t := (WellFormed.new preserve).performAll h
  refine ⟨ht.outer_lt, ht.linked, ht.placed, ?_, ?_, ht.isWithin_self, ?_, ?_, ?_, ?_⟩
  · intro id name
    exact ht.searches_iff name id
  · intro id a
    exact ht.climbs_iff a id
  · intro a b
    exact ht.isWithin_antisymm
  · intro a b c
    exact ht.isWithin_trans
  · intro target
    exact ht.isWithin_hoistTarget
  · exact ht.getFrom?_eq_some_iff

/-- A function `name` that is declared in a scope. -/
def functionIn (scope : Nat) (name : String) : Declaration :=
  ⟨⟨name, .function, ⟨0, 0⟩, ⟨0, 0⟩⟩, scope⟩

/-- A module with a block in it, twice. `x` is declared in the first block when that has been left,
    and `y` in the second module from its block. -/
def twoRoots : List Command :=
  [.enter .ofModule, .enter .plain, .declare (functionIn 0 "y"), .leave,
    .declare (functionIn 1 "x"), .leave, .enter .ofModule, .enter .plain,
    .declare (functionIn 2 "y")]

/-- Of two modules, neither knows what is declared in the other one; what was declared in the
    first one is forgotten. -/
theorem answers_of_two_roots : ∃ t, (Tracker.new false).performAll twoRoots = .ok t ∧
    t.stack = [3, 2] ∧ t.parent? 2 = none ∧ t.hoistTarget? = some 2 ∧ t.isWithin 3 2 = true ∧
    Searches t "x" (some 1) (some (functionIn 1 "x")) ∧ Searches t "y" (some 1) none ∧
    Searches t "y" (some 3) (some (functionIn 2 "y")) ∧ Searches t "x" (some 3) none ∧
    Climbs t 0 (some 3) false := by
  have hgrown : (Tracker.new false).performAll twoRoots = .ok _ := rfl
  obtain ⟨-, hstack, -, hsearches, hclimbs, -⟩ := answers_of_performAll hgrown
  refine ⟨_, hgrown, rfl, (hstack [3] 2 [] rfl).2, rfl, rfl, ?_, ?_, ?_, ?_, ?_⟩
  · exact (hsearches 1 "x" _).mpr rfl
  · exact (hsearches 1 "y" _).mpr rfl
  · exact (hsearches 3 "y" _).mpr rfl
  · exact (hsearches 3 "x" _).mpr rfl
  · exact (hclimbs 3 0 _).mpr rfl

end BuildMacros.Script.Tracker
