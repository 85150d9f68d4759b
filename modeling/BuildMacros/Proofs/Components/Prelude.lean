import BuildMacros.Proofs.Components.Bindings
import Mathlib.Data.List.Basic

/-! # The lines in front of a module

    The calls of a file are answered one after the other. Each answer may add a component
    to the ones that are used, and lines to the prelude, and its identifier is made with
    the prelude as it stands then. But a component keeps its number once it has one. So
    the answers can be said with the prelude that is there in the end, call by call
    (`answerAll_eq`): a call is answered by its target, which does not depend on the other
    calls, and the targets alone decide which components are numbered and which lines
    there are.

    What an identifier begins and ends with leads back to its target, so no two lines bind
    one identifier of a component, whatever mixture of forms is asked for
    (`identifiers_bound_once`).
-/

namespace BuildMacros.Components

/-! ## Section 1: Lists that grow by new items -/

section

variable {α : Type} [BEq α] [LawfulBEq α]

/-- A list with one more item, if it is a new one. -/
def enlist (xs : List α) (a : α) : List α := if xs.contains a then xs else xs ++ [a]

/-- What is new among further items comes behind, each item once. -/
theorem foldl_enlist_eq (xs ys : List α) :
    ys.foldl enlist xs = xs ++ (ys.filter fun y => !xs.contains y).eraseDups := by
  induction ys generalizing xs with
  | nil => simp
  | cons y ys ih =>
    rw [List.foldl_cons, ih]
    unfold enlist
    by_cases hy : xs.contains y = true
    · rw [if_pos hy, List.filter_cons_of_neg (by simpa using hy)]
    · rw [if_neg hy, List.filter_cons_of_pos (by simpa using hy), List.eraseDups_cons,
        List.filter_filter, List.append_assoc, List.singleton_append]
      have hfresh : ∀ z ∈ ys, (!(xs ++ [y]).contains z) = (!z == y && !xs.contains z) := by
        intro z _
        by_cases hz : z = y
        · simp [hz]
        · simp [hz]
      rw [List.filter_congr hfresh]

theorem foldl_enlist_nil (ys : List α) : ys.foldl enlist [] = ys.eraseDups := by
  simp [foldl_enlist_eq]

theorem nodup_foldl_enlist {xs : List α} (h : xs.Nodup) (ys : List α) :
    (ys.foldl enlist xs).Nodup := by
  induction ys generalizing xs with
  | nil => exact h
  | cons y ys ih =>
    apply ih
    unfold enlist
    by_cases hy : xs.contains y = true
    · rwa [if_pos hy]
    · rw [if_neg hy]
      refine List.nodup_append.mpr ⟨h, List.pairwise_singleton _ y, ?_⟩
      intro a ha b hb heq
      rw [heq, List.mem_singleton.mp hb] at ha
      exact hy (List.contains_iff_mem.mpr ha)

/-- The place of an item stays the same. -/
theorem idxOf_foldl_enlist {xs : List α} {a : α} (h : a ∈ xs) (ys : List α) :
    (ys.foldl enlist xs).idxOf a = xs.idxOf a := by
  rw [foldl_enlist_eq, List.idxOf_append, if_pos h]

end

theorem Prelude.use_eq (p : Prelude) (index : Nat) :
    p.use index = { p with used := enlist p.used index } := by
  unfold Prelude.use enlist
  split <;> rfl

theorem Prelude.add_eq (p : Prelude) (lines : List String) :
    p.add lines = { p with lines := lines.foldl enlist p.lines } := rfl

/-! ## Section 2: What a call is answered by -/

/-- A component in a form. -/
structure Target where
  index : Nat
  component : Component
  form : Form
deriving DecidableEq, Repr

/-- The target of a requested name, if there is one. -/
def target? (r : ComponentRegistry) (bundle : Bundle) (name : String) : Option Target :=
  let q := Request.parse name
  (find? r bundle q).bind fun found =>
    r.components[found.index]?.map fun c => ⟨found.index, c, Form.of r c q found.isPlain⟩

namespace Target

/-- The identifier of a target whose component has a number. -/
def identifier (n : Nat) (t : Target) : String := numbered n ++ t.form.mark

/-- The lines that bind a target whose component has a number. -/
def lines (o : LoaderOptions) (n : Nat) (t : Target) : List String :=
  (t.form.bind o (numbered n) t.component).lines

end Target

/-- The targets of the calls that have one, in the order of the calls. -/
def targets (r : ComponentRegistry) (bundle : Bundle) (calls : List ResolveCall) : List Target :=
  calls.filterMap fun c => target? r bundle c.name

section

variable {r : ComponentRegistry} {o : LoaderOptions} {c : ResolveCall} {t : Target}

theorem answer_of_none (p : Prelude) (h : target? r o.bundle c.name = none) :
    answer r o p c = (p, none) := by
  unfold target? at h
  unfold answer
  dsimp only at h ⊢
  cases hfound : find? r o.bundle (Request.parse c.name) with
  | none => rfl
  | some found =>
    rw [hfound, Option.bind_some, Option.map_eq_none_iff] at h
    dsimp only
    rw [h]

/-- **One answer**: the target's component is used, its lines are added, and its identifier takes
    the place of the call. -/
theorem answer_of_some (p : Prelude) (h : target? r o.bundle c.name = some t) :
    let used := enlist p.used t.index
    answer r o p c = (⟨used, (t.lines o (used.idxOf t.index)).foldl enlist p.lines⟩,
      some ⟨c.span, t.identifier (used.idxOf t.index)⟩) := by
  unfold target? at h
  dsimp only at h
  obtain ⟨found, hfound, h⟩ := Option.bind_eq_some_iff.mp h
  obtain ⟨component, hcomponent, rfl⟩ := Option.map_eq_some_iff.mp h
  unfold answer
  simp only [hfound, hcomponent, Form.bind_identifier, Prelude.add_eq, Prelude.use_eq]
  rfl

/-- What is asked for once is answered in one way, as far as the component goes. -/
theorem target?_eq_some {bundle : Bundle} {name : String} (h : target? r bundle name = some t) :
    r.components[t.index]? = some t.component ∧
      ∃ q isPlain, t.form = Form.of r t.component q isPlain := by
  unfold target? at h
  dsimp only at h
  obtain ⟨found, -, h⟩ := Option.bind_eq_some_iff.mp h
  obtain ⟨component, hcomponent, rfl⟩ := Option.map_eq_some_iff.mp h
  exact ⟨hcomponent, _, _, rfl⟩

end

/-- No component is asked of the server by one call and imported as it is for another one. -/
theorem Form.of_ne_direct {r : ComponentRegistry} {c : Component} {q q' : Request}
    {isPlain isPlain' : Bool} (h : Form.of r c q isPlain = .bridged) :
    Form.of r c q' isPlain' ≠ .direct := by
  unfold Form.of at h ⊢
  dsimp only at h ⊢
  by_cases hbridged : (!c.raw && c.mode == .server && !r.hasVariant c.pascalName .client) = true
  · rw [if_pos hbridged]
    exact fun h => by cases h
  · rw [if_neg hbridged] at h
    repeat' split at h
    all_goals cases h

/-! ## Section 3: All answers -/

theorem mem_enlist_self (xs : List Nat) (a : Nat) : a ∈ enlist xs a := by
  unfold enlist
  by_cases ha : xs.contains a = true
  · rw [if_pos ha]
    exact List.contains_iff_mem.mp ha
  · rw [if_neg ha]
    simp

/-- **All answers**, said with the components that are used in the end. -/
theorem answerAll_eq (r : ComponentRegistry) (o : LoaderOptions) (p : Prelude)
    (calls : List ResolveCall) :
    let ts := targets r o.bundle calls
    let used := (ts.map Target.index).foldl enlist p.used
    answerAll r o p calls =
      (⟨used, (ts.flatMap fun t => t.lines o (used.idxOf t.index)).foldl enlist p.lines⟩,
        calls.filterMap fun c => (target? r o.bundle c.name).map fun t =>
          ⟨c.span, t.identifier (used.idxOf t.index)⟩) := by
  induction calls generalizing p with
  | nil => rfl
  | cons c calls ih =>
    cases htarget : target? r o.bundle c.name with
    | none =>
      have htargets : targets r o.bundle (c :: calls) = targets r o.bundle calls :=
        List.filterMap_cons_none htarget
      rw [answerAll, answer_of_none p htarget, htargets]
      simp only [List.filterMap_cons, htarget, Option.map_none]
      exact ih p
    | some t =>
      have htargets : targets r o.bundle (c :: calls) = t :: targets r o.bundle calls :=
        List.filterMap_cons_some htarget
      -- the number that the component has now is the one that it has in the end
      have hnumber := idxOf_foldl_enlist (mem_enlist_self p.used t.index)
        ((targets r o.bundle calls).map Target.index)
      rw [answerAll, answer_of_some p htarget, htargets]
      simp only [List.filterMap_cons, htarget, Option.map_some, ih, List.map_cons, List.foldl_cons,
        List.flatMap_cons, List.foldl_append, hnumber]
      rfl

/-! ## Section 4: Names and lines of a file -/

/-- Number of a target's component in the order of first use. -/
def Target.number (ts : List Target) (t : Target) : Nat :=
  (ts.map Target.index).eraseDups.idxOf t.index

/-- All answers of one file. -/
theorem answerAll_empty (r : ComponentRegistry) (o : LoaderOptions) (calls : List ResolveCall) :
    let ts := targets r o.bundle calls
    answerAll r o .empty calls =
      (⟨(ts.map Target.index).eraseDups, (ts.flatMap fun t => t.lines o (t.number ts)).eraseDups⟩,
        calls.filterMap fun c => (target? r o.bundle c.name).map fun t =>
          ⟨c.span, t.identifier (t.number ts)⟩) := by
  intro ts
  rw [answerAll_eq, Prelude.empty]
  dsimp only
  rw [foldl_enlist_nil, foldl_enlist_nil]
  rfl

section

variable {r : ComponentRegistry} {o : LoaderOptions} {calls : List ResolveCall} {t u : Target}
  {s s' l l' x : String}

/-- What a target's lines bind that is one of the file's own names: the number of the component
    with a mark of the form. -/
theorem exists_mark_of_binds {n : Nat} (hl : l ∈ t.lines o n) (hx : Binds l x) (hown : IsOwn x) :
    ∃ s ∈ t.form.marks, x = numbered n ++ s := by
  have hlines := t.form.forall₂_binds (blank_not_mem_numbered n) o t.component
  obtain ⟨i, hi, rfl⟩ := List.getElem_of_mem hl
  have hi' : i < (t.form.names (numbered n)).length := hlines.length_eq ▸ hi
  have hbinds := hlines.get hi hi'
  have hmem : x ∈ t.form.names (numbered n) := by
    rw [hx.name_eq hbinds]
    exact List.get_mem _ _
  rw [Form.names, List.mem_append] at hmem
  rcases hmem with hhelper | hmark
  · exact absurd hown (Form.not_isOwn_of_mem_helpers hhelper)
  · obtain ⟨s, hs, rfl⟩ := List.mem_map.mp hmark
    exact ⟨s, hs, rfl⟩

/-- A target's identifier is bound by one of its lines. -/
theorem exists_line_of_identifier (n : Nat) (t : Target) :
    ∃ l ∈ t.lines o n, Binds l (t.identifier n) := by
  have hlines := t.form.forall₂_binds (blank_not_mem_numbered n) o t.component
  have hmem : t.identifier n ∈ t.form.names (numbered n) :=
    List.mem_append_right _ (List.mem_map.mpr ⟨_, t.form.mark_mem_marks, rfl⟩)
  obtain ⟨i, hi, heq⟩ := List.getElem_of_mem hmem
  have hi' : i < (t.lines o n).length := hlines.length_eq ▸ hi
  refine ⟨_, List.getElem_mem hi', ?_⟩
  rw [← heq]
  exact hlines.get hi' hi

/-- Targets come from calls. -/
theorem exists_call_of_mem_targets (ht : t ∈ targets r o.bundle calls) :
    ∃ c ∈ calls, target? r o.bundle c.name = some t := List.mem_filterMap.mp ht

/-- **Names lead back to targets**: two targets of a file have no own name in common. -/
theorem target_eq_of_append_eq (ht : t ∈ targets r o.bundle calls)
    (hu : u ∈ targets r o.bundle calls) (hs : s ∈ t.form.marks) (hs' : s' ∈ u.form.marks)
    (h : numbered (t.number (targets r o.bundle calls)) ++ s =
      numbered (u.number (targets r o.bundle calls)) ++ s') : t = u := by
  obtain ⟨hnumber, rfl⟩ := numbered_append_inj hs hs' h
  have hmem : t.index ∈ ((targets r o.bundle calls).map Target.index).eraseDups :=
    List.mem_eraseDups.mpr (List.mem_map.mpr ⟨t, ht, rfl⟩)
  have hindex : t.index = u.index := (List.idxOf_inj hmem).mp hnumber
  obtain ⟨c, -, hc⟩ := exists_call_of_mem_targets ht
  obtain ⟨d, -, hd⟩ := exists_call_of_mem_targets hu
  obtain ⟨hcomponent, q, isPlain, hform⟩ := target?_eq_some hc
  obtain ⟨hcomponent', q', isPlain', hform'⟩ := target?_eq_some hd
  rw [hindex, hcomponent'] at hcomponent
  have hcomponent : u.component = t.component := Option.some.inj hcomponent
  rw [hcomponent] at hform'
  have hforms : t.form = u.form := by
    rcases Form.eq_of_mem_marks hs hs' with heq | ⟨hbridged, hdirect⟩ | ⟨hdirect, hbridged⟩
    · exact heq
    -- the server renders a component for all calls or for none
    · rw [hform] at hbridged
      rw [hform'] at hdirect
      exact absurd hdirect (Form.of_ne_direct hbridged)
    · rw [hform] at hdirect
      rw [hform'] at hbridged
      exact absurd hdirect (Form.of_ne_direct hbridged)
  obtain ⟨i, a, f⟩ := t
  obtain ⟨j, b, g⟩ := u
  dsimp only at hindex hcomponent hforms
  rw [hindex, hcomponent, hforms]

/-- Two lines of a file that bind one of its own names are the same line. -/
theorem line_eq_of_binds (hl : l ∈ (answerAll r o .empty calls).1.lines)
    (hl' : l' ∈ (answerAll r o .empty calls).1.lines) (hx : Binds l x) (hx' : Binds l' x)
    (hown : IsOwn x) : l = l' := by
  rw [answerAll_empty] at hl hl'
  dsimp only at hl hl'
  rw [List.mem_eraseDups] at hl hl'
  obtain ⟨t, ht, hl⟩ := List.mem_flatMap.mp hl
  obtain ⟨u, hu, hl'⟩ := List.mem_flatMap.mp hl'
  obtain ⟨s, hs, hname⟩ := exists_mark_of_binds hl hx hown
  obtain ⟨s', hs', hname'⟩ := exists_mark_of_binds hl' hx' hown
  have htargets := target_eq_of_append_eq ht hu hs hs' (hname.symm.trans hname')
  rw [← htargets] at hl'
  exact line_eq_of_forall₂ (t.form.forall₂_binds (blank_not_mem_numbered _) o t.component)
    (t.form.nodup_names (isOwn_numbered_append _)) hl hl' hx hx'

end

/-- The first call that asks for a component gives it the number of components before it. -/
theorem number_of_first {before after : List Target} {t : Target}
    (h : ∀ u ∈ before, u.index ≠ t.index) :
    t.number (before ++ t :: after) = (before.map Target.index).eraseDups.length := by
  have hfresh : t.index ∉ before.map Target.index := by
    intro hin
    obtain ⟨u, hu, heq⟩ := List.mem_map.mp hin
    exact h u hu heq
  have hrest : ((t.index :: after.map Target.index).removeAll
      (before.map Target.index)).eraseDups.head? = some t.index := by
    rw [List.removeAll, List.filter_cons_of_pos (by simpa using hfresh), List.eraseDups_cons]
    rfl
  obtain ⟨more, hmore⟩ := List.head?_eq_some_iff.mp hrest
  rw [Target.number, List.map_append, List.map_cons, List.eraseDups_append, hmore,
    List.idxOf_append, if_neg fun hin => hfresh (List.mem_eraseDups.mp hin), List.idxOf_cons_self]
  omega

/-- **Identifiers are bound once.** In one file, for all calls in any order: no line is repeated;
    a name with the common beginning that a line binds, or that takes the place of a call, is bound
    by exactly one line; what takes the place of a call is such a name, and it is bound; it is made
    of the number of the call's component and the mark of its form; two calls get the same
    identifier exactly if they get the same component in the same form; and a component that is
    asked for the first time is numbered by how many different ones were asked for before. -/
theorem identifiers_bound_once (r : ComponentRegistry) (o : LoaderOptions)
    (calls : List ResolveCall) :
    let lines := (answerAll r o .empty calls).1.lines
    let replaced := (answerAll r o .empty calls).2
    let ts := targets r o.bundle calls
    lines.Nodup ∧
      (∀ x, IsOwn x → ((∃ l ∈ lines, Binds l x) ∨ ∃ a ∈ replaced, a.identifier = x) →
        ∃! l, l ∈ lines ∧ Binds l x) ∧
      (∀ a ∈ replaced, IsOwn a.identifier ∧ ∃ l ∈ lines, Binds l a.identifier) ∧
      replaced = (calls.filterMap fun c => (target? r o.bundle c.name).map fun t =>
        ⟨c.span, t.identifier (t.number ts)⟩) ∧
      (∀ t ∈ ts, ∀ u ∈ ts, t.identifier (t.number ts) = u.identifier (u.number ts) ↔
        t.index = u.index ∧ t.form = u.form) ∧
      ∀ before t after, ts = before ++ t :: after → (∀ u ∈ before, u.index ≠ t.index) →
        t.number ts = (before.map Target.index).eraseDups.length := by
  intro lines replaced ts
  have hreplaced : replaced = calls.filterMap fun c => (target? r o.bundle c.name).map fun t =>
      ⟨c.span, t.identifier (t.number ts)⟩ := by
    show (answerAll r o .empty calls).2 = _
    rw [answerAll_empty]
  have hlines : lines = (ts.flatMap fun t => t.lines o (t.number ts)).eraseDups := by
    show (answerAll r o .empty calls).1.lines = _
    rw [answerAll_empty]
  have hbound : ∀ a ∈ replaced, IsOwn a.identifier ∧ ∃ l ∈ lines, Binds l a.identifier := by
    intro a ha
    rw [hreplaced] at ha
    obtain ⟨c, hc, ha⟩ := List.mem_filterMap.mp ha
    obtain ⟨t, ht, rfl⟩ := Option.map_eq_some_iff.mp ha
    have hmem : t ∈ ts := List.mem_filterMap.mpr ⟨c, hc, ht⟩
    obtain ⟨l, hl, hbinds⟩ := exists_line_of_identifier (o := o) (t.number ts) t
    refine ⟨isOwn_numbered_append _ _, l, ?_, hbinds⟩
    rw [hlines, List.mem_eraseDups]
    exact List.mem_flatMap.mpr ⟨t, hmem, hl⟩
  refine ⟨?_, ?_, hbound, hreplaced, ?_, ?_⟩
  · rw [hlines, ← foldl_enlist_nil]
    exact nodup_foldl_enlist List.nodup_nil _
  · intro x hown hx
    obtain ⟨l, hl, hbinds⟩ : ∃ l ∈ lines, Binds l x := by
      rcases hx with hx | ⟨a, ha, rfl⟩
      · exact hx
      · exact (hbound a ha).2
    refine ⟨l, ⟨hl, hbinds⟩, ?_⟩
    intro l' ⟨hl', hbinds'⟩
    exact line_eq_of_binds hl' hl hbinds' hbinds hown
  · intro t ht u hu
    constructor
    · intro h
      rw [target_eq_of_append_eq ht hu t.form.mark_mem_marks u.form.mark_mem_marks h]
      exact ⟨rfl, rfl⟩
    · intro ⟨hindex, hform⟩
      rw [Target.identifier, Target.identifier, Target.number, Target.number, hindex, hform]
  · intro before t after hts h
    rw [hts]
    exact number_of_first h

end BuildMacros.Components
