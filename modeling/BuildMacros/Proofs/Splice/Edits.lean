import BuildMacros.Proofs.Text.Slices
import BuildMacros.Splice

/-! # Accepted edits

    A splicer is driven by calls, some of which it rejects; a rejected call
    leaves it as it was. `accepted` is the record of the calls that took effect,
    and the edits of a splicer are exactly the edits of that record.

    What acceptance guarantees is `Sound`: every edit is a range of the text and
    no two edits conflict. The invariant that `finish` relies on follows from it
    once the edits are sorted: each edit ends where the next one starts or before
    (`Laid`), so that the cursor never runs past an edit.
-/

namespace BuildMacros

open BuildMacros.Text

/-! ## Section 1: Calls -/

/-- A call on a splicer. -/
inductive Call where
  | insert (pos : Nat) (text : String)
  | overwrite (start stop : Nat) (text : String)
  | prepend (text : String)
deriving DecidableEq, Repr

/-- The edit that a call asks for. -/
def Call.edit? : Call → Option Edit
  | insert pos text => some ⟨pos, pos, text⟩
  | overwrite start stop text => some ⟨start, stop, text⟩
  | prepend _ => none

/-- The text that a call puts in front of everything. -/
def Call.intro? : Call → Option String
  | prepend text => some text
  | _ => none

namespace Splicer

/-- Carries out a call, or says why it is rejected. -/
def call? (s : Splicer) : Call → Except Failure Splicer
  | .insert pos text => s.insert pos text
  | .overwrite start stop text => s.overwrite start stop text
  | .prepend text => .ok (s.prepend text)

/-- The splicer after a call, accepted or not. -/
def call (s : Splicer) (c : Call) : Splicer :=
  match s.call? c with
  | .ok t => t
  | .error _ => s

/-- The splicer of a text after a number of calls. -/
def run (source : String) (cs : List Call) : Splicer := cs.foldl call (new source)

/-- The calls among the following ones that are accepted, in order. -/
def accepted (s : Splicer) : List Call → List Call
  | [] => []
  | c :: cs =>
    match s.call? c with
    | .ok t => c :: accepted t cs
    | .error _ => accepted s cs

/-! ## Section 2: What acceptance means -/

theorem isRange_iff (s : Splicer) (start stop : Nat) :
    s.isRange start stop = true ↔ IsRange s.source.toList start stop := by
  simp only [isRange, Bool.and_eq_true, decide_eq_true_eq]
  constructor
  · rintro ⟨⟨⟨h₁, h₂⟩, h₃⟩, h₄⟩
    exact ⟨h₁, h₂, h₃, h₄⟩
  · rintro ⟨h₁, h₂, h₃, h₄⟩
    exact ⟨⟨⟨h₁, h₂⟩, h₃⟩, h₄⟩

/-- An accepted edit is a range that no earlier edit conflicts with. -/
theorem accept_eq_ok {s t : Splicer} {start stop : Nat} {text : String}
    (h : s.accept start stop text = .ok t) :
    IsRange s.source.toList start stop ∧ (∀ e ∈ s.edits, e.conflicts start stop = false) ∧
      t = { s with edits := s.edits ++ [⟨start, stop, text⟩] } := by
  unfold accept at h
  split at h
  · cases h
  · next hrange =>
    have hrange : IsRange s.source.toList start stop := by
      rw [← isRange_iff]
      simpa using hrange
    split at h
    · cases h
    · next hnone =>
      refine ⟨hrange, fun e he => ?_, ?_⟩
      · have := List.find?_eq_none.mp hnone e he
        simpa using this
      · cases h
        rfl

/-- **What a call can do**: put a text in front of everything, or add one edit to the end of the
    list, a range without conflicts. -/
theorem call?_eq_ok {s t : Splicer} {c : Call} (h : s.call? c = .ok t) :
    (∃ text, c = .prepend text ∧ t = s.prepend text) ∨
    (∃ e, c.edit? = some e ∧ c.intro? = none ∧ IsRange s.source.toList e.start e.stop ∧
      (∀ a ∈ s.edits, a.conflicts e.start e.stop = false) ∧
      t = { s with edits := s.edits ++ [e] }) := by
  cases c with
  | prepend text =>
    left
    simp only [call?] at h
    cases h
    exact ⟨text, rfl, rfl⟩
  | insert pos text =>
    right
    obtain ⟨hrange, hfree, ht⟩ := accept_eq_ok h
    exact ⟨⟨pos, pos, text⟩, rfl, rfl, hrange, hfree, ht⟩
  | overwrite start stop text =>
    right
    -- an empty range is rejected before anything else is looked at
    simp only [call?, overwrite] at h
    split at h
    · cases h
    · obtain ⟨hrange, hfree, ht⟩ := accept_eq_ok h
      exact ⟨⟨start, stop, text⟩, rfl, rfl, hrange, hfree, ht⟩

/-- An accepted replacement replaces something. -/
theorem start_lt_stop_of_call? {s t : Splicer} {start stop : Nat} {text : String}
    (h : s.call? (.overwrite start stop text) = .ok t) : start < stop := by
  simp only [call?, overwrite] at h
  split at h
  · cases h
  · next hne =>
    have := (accept_eq_ok h).1.le
    omega

theorem start_lt_stop_of_mem_accepted {s : Splicer} {cs : List Call} {start stop : Nat}
    {text : String} (h : Call.overwrite start stop text ∈ s.accepted cs) : start < stop := by
  induction cs generalizing s with
  | nil => simp [accepted] at h
  | cons c cs ih =>
    unfold accepted at h
    split at h
    · next t hok =>
      rcases List.mem_cons.mp h with rfl | hmem
      · exact start_lt_stop_of_call? hok
      · exact ih hmem
    · exact ih h

/-! ## Section 3: What the calls leave behind -/

theorem call_of_ok {s t : Splicer} {c : Call} (h : s.call? c = .ok t) : s.call c = t := by
  simp [call, h]

theorem call_of_error {s : Splicer} {c : Call} {f : Failure} (h : s.call? c = .error f) :
    s.call c = s := by
  simp [call, h]

theorem accepted_of_ok {s t : Splicer} {c : Call} (h : s.call? c = .ok t) (cs : List Call) :
    s.accepted (c :: cs) = c :: t.accepted cs := by
  simp [accepted, h]

theorem accepted_of_error {s : Splicer} {c : Call} {f : Failure} (h : s.call? c = .error f)
    (cs : List Call) : s.accepted (c :: cs) = s.accepted cs := by
  simp [accepted, h]

theorem source_call (s : Splicer) (c : Call) : (s.call c).source = s.source := by
  cases h : s.call? c with
  | error f => rw [call_of_error h]
  | ok t =>
    rw [call_of_ok h]
    rcases call?_eq_ok h with ⟨text, _, rfl⟩ | ⟨e, _, _, _, _, rfl⟩ <;> rfl

theorem source_foldl_call (s : Splicer) (cs : List Call) : (cs.foldl call s).source = s.source := by
  induction cs generalizing s with
  | nil => rfl
  | cons c cs ih => rw [List.foldl_cons, ih, source_call]

/-- The edits of a splicer are those of the accepted calls, in their order. -/
theorem edits_foldl_call (s : Splicer) (cs : List Call) :
    (cs.foldl call s).edits = s.edits ++ (s.accepted cs).filterMap Call.edit? := by
  -- from any splicer: which calls are accepted depends on the edits made before
  induction cs generalizing s with
  | nil => simp [accepted]
  | cons c cs ih =>
    rw [List.foldl_cons, ih]
    cases h : s.call? c with
    | error f => rw [call_of_error h, accepted_of_error h]
    | ok t =>
      rw [call_of_ok h, accepted_of_ok h]
      rcases call?_eq_ok h with ⟨text, rfl, rfl⟩ | ⟨e, he, _, _, _, rfl⟩
      · rfl
      · rw [List.filterMap_cons_some he, List.append_assoc, List.singleton_append]

/-- The text in front is made of the accepted texts for it, the latest first. -/
theorem intro_foldl_call (s : Splicer) (cs : List Call) :
    (cs.foldl call s).intro.toList =
      ((s.accepted cs).filterMap Call.intro?).reverse.flatMap String.toList ++ s.intro.toList := by
  induction cs generalizing s with
  | nil => simp [accepted]
  | cons c cs ih =>
    rw [List.foldl_cons, ih]
    cases h : s.call? c with
    | error f => rw [call_of_error h, accepted_of_error h]
    | ok t =>
      rw [call_of_ok h, accepted_of_ok h]
      rcases call?_eq_ok h with ⟨text, rfl, rfl⟩ | ⟨e, _, hintro, _, _, rfl⟩
      · simp [Call.intro?, prepend]
      · rw [List.filterMap_cons_none hintro]

/-! ## Section 4: The invariant -/

/-- Every edit is a range of the text, and no edit conflicts with an earlier one. -/
structure Sound (s : Splicer) : Prop where
  ranges : ∀ e ∈ s.edits, IsRange s.source.toList e.start e.stop
  free : s.edits.Pairwise fun a b => a.conflicts b.start b.stop = false

theorem Sound.new (source : String) : (new source).Sound :=
  ⟨by simp [Splicer.new], by simp [Splicer.new]⟩

/-- A call keeps a splicer sound. -/
theorem Sound.call {s : Splicer} (h : s.Sound) (c : Call) : (s.call c).Sound := by
  cases hcall : s.call? c with
  | error f =>
    rw [call_of_error hcall]
    exact h
  | ok t =>
    rw [call_of_ok hcall]
    rcases call?_eq_ok hcall with ⟨text, _, rfl⟩ | ⟨e, _, _, hrange, hfree, rfl⟩
    · exact ⟨h.ranges, h.free⟩
    · refine ⟨fun a ha => ?_, ?_⟩
      · rcases List.mem_append.mp ha with ha | ha
        · exact h.ranges a ha
        · rw [List.mem_singleton.mp ha]
          exact hrange
      -- the new edit is the last one, and was compared with all others
      · rw [List.pairwise_append]
        refine ⟨h.free, List.pairwise_singleton _ _, fun a ha b hb => ?_⟩
        rw [List.mem_singleton.mp hb]
        exact hfree a ha

/-- Calls keep a splicer sound. -/
theorem Sound.foldl {s : Splicer} (h : s.Sound) (cs : List Call) :
    (cs.foldl Splicer.call s).Sound := by
  induction cs generalizing s with
  | nil => exact h
  | cons c cs ih => exact ih (h.call c)

/-- Every splicer that calls lead to is sound. -/
theorem Sound.run (source : String) (cs : List Call) : (run source cs).Sound :=
  (Sound.new source).foldl cs

end Splicer

/-! ## Section 5: Edits in order -/

namespace Edit

/-- Two edits do not conflict, whichever was accepted first. -/
def Apart (a b : Edit) : Prop :=
  a.conflicts b.start b.stop = false ∨ b.conflicts a.start a.stop = false

theorem Apart.symm {a b : Edit} (h : a.Apart b) : b.Apart a := Or.symm h

theorem before_total (a b : Edit) : (a.before b || b.before a) = true := by
  simp only [before, Bool.or_eq_true, Bool.and_eq_true, decide_eq_true_eq, beq_iff_eq,
    Bool.not_eq_true']
  rcases Nat.lt_trichotomy a.start b.start with h | h | h
  · exact .inl (.inl h)
  · cases ha : a.isInsert
    · exact .inr (.inr ⟨h.symm, .inr rfl⟩)
    · exact .inl (.inr ⟨h, .inl rfl⟩)
  · exact .inr (.inl h)

theorem before_trans (a b c : Edit) (hab : a.before b = true) (hbc : b.before c = true) :
    a.before c = true := by
  simp only [before, Bool.or_eq_true, Bool.and_eq_true, decide_eq_true_eq, beq_iff_eq,
    Bool.not_eq_true'] at *
  -- positions come first, and kinds only where the positions are equal
  rcases hab with hab | ⟨hab, hab'⟩
  · rcases hbc with hbc | ⟨hbc, _⟩
    · exact .inl (by omega)
    · exact .inl (by omega)
  · rcases hbc with hbc | ⟨hbc, hbc'⟩
    · exact .inl (by omega)
    · refine .inr ⟨by omega, ?_⟩
      rcases hab' with hab' | hab'
      · exact .inl hab'
      · rcases hbc' with hbc' | hbc'
        · rw [hab'] at hbc'
          cases hbc'
        · exact .inr hbc'

/-- Of two edits that do not conflict the first in order ends before the other starts. -/
theorem stop_le_start {a b : Edit} (ha : a.start ≤ a.stop) (hb : b.start ≤ b.stop)
    (hab : a.before b = true) (h : a.Apart b) : a.stop ≤ b.start := by
  -- what is left when none of the three conditions for a conflict holds
  have hconf : ∀ x y : Edit, x.start ≤ x.stop → y.start ≤ y.stop →
      x.conflicts y.start y.stop = false →
      ¬(x.start < y.start ∧ y.start < x.stop) ∧ ¬(y.start < x.start ∧ x.start < y.stop) ∧
        ¬(x.start < x.stop ∧ y.start < y.stop ∧ x.start = y.start) := by
    intro x y hx hy hxy
    unfold conflicts isInsert at hxy
    split at hxy
    · next heq =>
      simp only [beq_iff_eq] at heq
      simp only [Bool.and_eq_false_iff, Bool.not_eq_false', beq_iff_eq,
        decide_eq_false_iff_not] at hxy
      omega
    · next hne =>
      simp only [beq_iff_eq] at hne
      split at hxy
      · next hins =>
        simp only [beq_iff_eq] at hins
        simp only [Bool.and_eq_false_iff, decide_eq_false_iff_not] at hxy
        omega
      · simp only [Bool.and_eq_false_iff, decide_eq_false_iff_not] at hxy
        omega
  simp only [before, isInsert, Bool.or_eq_true, Bool.and_eq_true, decide_eq_true_eq, beq_iff_eq,
    Bool.not_eq_true', beq_eq_false_iff_ne] at hab
  rcases h with h | h
  · obtain ⟨h₁, h₂, h₃⟩ := hconf a b ha hb h
    omega
  · obtain ⟨h₁, h₂, h₃⟩ := hconf b a hb ha h
    omega

end Edit

/-- Edits one behind the other from a cursor on: between them and under them lie ranges of the
    text, and what the last one leaves is a range too. -/
def Laid (source : List Char) (cursor : Nat) : List Edit → Prop
  | [] => IsRange source cursor (byteLength source)
  | e :: es =>
    IsRange source cursor e.start ∧ IsRange source e.start e.stop ∧ Laid source e.stop es

theorem Laid.isRange {source : List Char} {cursor : Nat} {es : List Edit}
    (h : Laid source cursor es) : IsRange source cursor (byteLength source) := by
  cases es with
  | nil => exact h
  | cons e es =>
    obtain ⟨hc, he, _⟩ := h
    have h₁ := hc.le
    have h₂ := hc.stop_le
    exact ⟨by omega, Nat.le_refl _, hc.start_boundary, isBoundary_byteLength source⟩

theorem Laid.le_start {source : List Char} {cursor : Nat} {es : List Edit}
    (h : Laid source cursor es) : ∀ e ∈ es, cursor ≤ e.start := by
  induction es generalizing cursor with
  | nil => simp
  | cons e es ih =>
    obtain ⟨hc, he, hes⟩ := h
    intro a ha
    rcases List.mem_cons.mp ha with rfl | ha
    · exact hc.le
    · have h₁ := ih hes a ha
      have h₂ := hc.le
      have h₃ := he.le
      omega

/-- Edits that do not overlap and stand in order are laid one behind the other. -/
theorem laid_of_pairwise {source : List Char} {cursor : Nat} {es : List Edit}
    (hcursor : IsRange source cursor (byteLength source)) (hle : ∀ e ∈ es, cursor ≤ e.start)
    (hrange : ∀ e ∈ es, IsRange source e.start e.stop)
    (hpair : es.Pairwise fun a b => a.stop ≤ b.start) : Laid source cursor es := by
  induction es generalizing cursor with
  | nil => exact hcursor
  | cons e es ih =>
    have he := hrange e List.mem_cons_self
    obtain ⟨hhead, htail⟩ := List.pairwise_cons.mp hpair
    have hstart : e.start ≤ byteLength source := Nat.le_trans he.le he.stop_le
    refine ⟨⟨hle e List.mem_cons_self, hstart, hcursor.start_boundary, he.start_boundary⟩, he, ?_⟩
    have hrest : IsRange source e.stop (byteLength source) :=
      ⟨he.stop_le, Nat.le_refl _, he.stop_boundary, isBoundary_byteLength source⟩
    refine ih hrest ?_ ?_ htail
    · exact hhead
    · exact fun a ha => hrange a (List.mem_cons_of_mem _ ha)

namespace Splicer

theorem Sound.pairwise_ordered {s : Splicer} (h : s.Sound) :
    s.ordered.Pairwise fun a b => a.stop ≤ b.start := by
  have hsorted : s.ordered.Pairwise fun a b => a.before b = true :=
    List.pairwise_mergeSort Edit.before_trans Edit.before_total s.edits
  -- being apart is symmetric, so it survives the sort
  have hapart : s.ordered.Pairwise Edit.Apart := by
    have hfree : s.edits.Pairwise Edit.Apart := h.free.imp fun hab => Or.inl hab
    exact hfree.perm (List.mergeSort_perm s.edits Edit.before).symm Edit.Apart.symm
  have hmem : ∀ e ∈ s.ordered, e.start ≤ e.stop := by
    intro e he
    exact (h.ranges e (List.mem_mergeSort.mp he)).le
  refine (hsorted.and hapart).imp_of_mem ?_
  rintro a b ha hb ⟨hab, hap⟩
  exact Edit.stop_le_start (hmem a ha) (hmem b hb) hab hap

/-- **The cursor never runs past an edit**: sorted, the edits are laid one behind the other. -/
theorem Sound.laid {s : Splicer} (h : s.Sound) : Laid s.source.toList 0 s.ordered := by
  refine laid_of_pairwise ?_ (fun _ _ => Nat.zero_le _) ?_ h.pairwise_ordered
  · exact ⟨Nat.zero_le _, Nat.le_refl _, isBoundary_zero _, isBoundary_byteLength _⟩
  · exact fun e he => h.ranges e (List.mem_mergeSort.mp he)

end Splicer

end BuildMacros
