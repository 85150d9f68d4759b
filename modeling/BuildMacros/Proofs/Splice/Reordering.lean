import BuildMacros.Proofs.Splice.Finish

/-! # Which calls are accepted, and in which order

    Whether two edits conflict does not depend on which of them came first
    (`conflicts_comm`). So a list of calls is accepted in full exactly when each call
    could be made alone and no two of them conflict (`accepted_eq_self_iff`), and
    then it is accepted in every order.

    The edited text and its map depend on the sorted edits only. A sorted list is
    determined by what it holds in each class of edits that the sort does not
    tell apart (`eq_of_sorted`); such a class is one replacement, or the insertions at
    one offset.
-/

namespace BuildMacros

open BuildMacros.Text

/-! ## Section 1: Conflicts -/

/-- Conflicts are mutual. -/
theorem Edit.conflicts_comm (a b : Edit) :
    a.conflicts b.start b.stop = b.conflicts a.start a.stop := by
  unfold conflicts isInsert
  cases ha : a.start == a.stop <;> cases hb : b.start == b.stop <;>
    simp [Bool.and_comm]

/-- An insertion conflicts with the replacements of what lies around its place. -/
theorem Edit.conflicts_insert (e : Edit) (pos : Nat) :
    e.conflicts pos pos = false ↔ ¬(e.start < pos ∧ pos < e.stop) := by
  simp only [conflicts, isInsert, beq_self_eq_true, if_true, Bool.and_eq_false_iff,
    Bool.not_eq_false', beq_iff_eq, decide_eq_false_iff_not]
  omega

/-- A replacement conflicts with the insertions inside it and the replacements that it meets. -/
theorem Edit.conflicts_replace (e : Edit) {start stop : Nat} (h : start < stop) :
    e.conflicts start stop = false ↔
      if e.start = e.stop then ¬(start < e.start ∧ e.start < stop)
      else e.stop ≤ start ∨ stop ≤ e.start := by
  have hne : (start == stop) = false := by
    simp only [beq_eq_false_iff_ne]
    omega
  by_cases he : e.start = e.stop
  · simp only [conflicts, isInsert, hne, he, beq_self_eq_true, Bool.false_eq_true, if_true,
      if_false, Bool.and_eq_false_iff, decide_eq_false_iff_not]
    omega
  · have hins : (e.start == e.stop) = false := by simpa using he
    simp only [conflicts, isInsert, hne, hins, he, Bool.false_eq_true, if_false,
      Bool.and_eq_false_iff, decide_eq_false_iff_not]
    omega

/-! ## Section 2: Single calls -/

/-- A call that is accepted when nothing is in its way. -/
def Call.Fits (source : List Char) : Call → Prop
  | insert pos _ => IsRange source pos pos
  | overwrite start stop _ => start < stop ∧ IsRange source start stop
  | prepend _ => True

/-- A call asks for an edit that does not conflict with another edit. -/
def Call.Clear (c : Call) (a : Edit) : Prop :=
  ∀ e, c.edit? = some e → a.conflicts e.start e.stop = false

namespace Splicer

theorem exists_accept_iff (s : Splicer) (start stop : Nat) (text : String) :
    (∃ t, s.accept start stop text = .ok t) ↔
      IsRange s.source.toList start stop ∧ ∀ a ∈ s.edits, a.conflicts start stop = false := by
  constructor
  · rintro ⟨t, ht⟩
    obtain ⟨hrange, hfree, -⟩ := accept_eq_ok ht
    exact ⟨hrange, hfree⟩
  · rintro ⟨hrange, hfree⟩
    have hnone : s.edits.find? (·.conflicts start stop) = none := by
      rw [List.find?_eq_none]
      intro a ha
      simp [hfree a ha]
    rw [← isRange_iff] at hrange
    exact ⟨{ s with edits := s.edits ++ [⟨start, stop, text⟩] }, by simp [accept, hrange, hnone]⟩

/-- **When a call is accepted**: it fits the source, and no accepted edit is in its way. -/
theorem exists_call?_iff (s : Splicer) (c : Call) :
    (∃ t, s.call? c = .ok t) ↔ c.Fits s.source.toList ∧ ∀ a ∈ s.edits, c.Clear a := by
  have hclear : ∀ (a e : Edit), (∀ e', some e = some e' → a.conflicts e'.start e'.stop = false) ↔
      a.conflicts e.start e.stop = false := by
    intro a e
    constructor
    · exact fun h => h e rfl
    · intro h e' he
      cases he
      exact h
  cases c with
  | prepend text =>
    refine ⟨fun _ => ⟨trivial, fun a _ e he => ?_⟩, fun _ => ⟨_, rfl⟩⟩
    cases he
  | insert pos text =>
    simp only [Call.Fits, Call.Clear, Call.edit?, hclear]
    exact s.exists_accept_iff pos pos text
  | overwrite start stop text =>
    have h := s.exists_accept_iff start stop text
    simp only [Call.Fits, Call.Clear, Call.edit?, hclear]
    by_cases heq : start = stop
    · -- an empty range is rejected before anything else is looked at
      have hreject : ∀ t, s.call? (.overwrite start stop text) ≠ .ok t := by
        intro t ht
        have := start_lt_stop_of_call? ht
        omega
      constructor
      · rintro ⟨t, ht⟩
        exact absurd ht (hreject t)
      · rintro ⟨⟨hlt, -⟩, -⟩
        omega
    · have hcall : s.call? (.overwrite start stop text) = s.accept start stop text := if_neg heq
      rw [hcall, h]
      constructor
      · rintro ⟨hrange, hfree⟩
        have := hrange.le
        exact ⟨⟨by omega, hrange⟩, hfree⟩
      · rintro ⟨⟨-, hrange⟩, hfree⟩
        exact ⟨hrange, hfree⟩

/-! ## Section 3: Lists of calls -/

theorem length_accepted_le (s : Splicer) (cs : List Call) :
    (s.accepted cs).length ≤ cs.length := by
  induction cs generalizing s with
  | nil => simp [accepted]
  | cons c cs ih =>
    unfold accepted
    split
    · exact Nat.succ_le_succ (ih _)
    · exact Nat.le_succ_of_le (ih s)

/-- The accepted part of a list is all of it when every call is accepted in its turn. -/
theorem accepted_cons_eq_iff (s : Splicer) (c : Call) (cs : List Call) :
    s.accepted (c :: cs) = c :: cs ↔
      (∃ t, s.call? c = .ok t) ∧ (s.call c).accepted cs = cs := by
  cases hcall : s.call? c with
  | ok t => simp [accepted_of_ok hcall, call_of_ok hcall]
  | error f =>
    rw [accepted_of_error hcall]
    constructor
    · intro h
      have := s.length_accepted_le cs
      rw [h, List.length_cons] at this
      omega
    · rintro ⟨⟨t, ht⟩, -⟩
      cases ht

/-- Two calls do not get in each other's way. -/
def Agree (c d : Call) : Prop := ∀ a, c.edit? = some a → d.Clear a

theorem Agree.symm {c d : Call} (h : Agree c d) : Agree d c := by
  intro b hb a ha
  rw [Edit.conflicts_comm]
  exact h a ha b hb

/-- What an accepted call leaves in the way of later ones. -/
theorem forall_clear_call {s t : Splicer} {c : Call} (h : s.call? c = .ok t) (d : Call) :
    (∀ a ∈ t.edits, d.Clear a) ↔ (∀ a ∈ s.edits, d.Clear a) ∧ Agree c d := by
  rcases call?_eq_ok h with ⟨text, rfl, rfl⟩ | ⟨e, he, -, -, -, rfl⟩
  · refine ⟨fun hd => ⟨hd, fun a ha => ?_⟩, fun hd => hd.1⟩
    cases ha
  · simp only [List.mem_append, List.mem_singleton, Agree, he, Option.some.injEq]
    constructor
    · intro hd
      refine ⟨fun a ha => hd a (.inl ha), ?_⟩
      rintro a rfl
      exact hd e (.inr rfl)
    · rintro ⟨hs, hc⟩ a (ha | rfl)
      · exact hs a ha
      · exact hc a rfl

/-- **When a list of calls is accepted in full**: each of them could be made alone, and no two get
    in each other's way. -/
theorem accepted_eq_self_iff (s : Splicer) (cs : List Call) :
    s.accepted cs = cs ↔ (∀ c ∈ cs, ∃ t, s.call? c = .ok t) ∧ cs.Pairwise Agree := by
  -- from any splicer: the calls made first add to what is in the way
  induction cs generalizing s with
  | nil => simp [accepted]
  | cons c cs ih =>
    rw [accepted_cons_eq_iff, List.forall_mem_cons, List.pairwise_cons, and_assoc]
    refine and_congr_right ?_
    rintro ⟨t, ht⟩
    have hlater : ∀ d, (∃ u, t.call? d = .ok u) ↔ (∃ u, s.call? d = .ok u) ∧ Agree c d := by
      intro d
      have hsource : t.source = s.source := by rw [← call_of_ok ht, source_call]
      rw [exists_call?_iff, exists_call?_iff, forall_clear_call ht, hsource, and_assoc]
    rw [call_of_ok ht, ih]
    simp only [hlater]
    constructor
    · rintro ⟨hcs, hpair⟩
      exact ⟨fun d hd => (hcs d hd).1, fun d hd => (hcs d hd).2, hpair⟩
    · rintro ⟨hcs, hagree, hpair⟩
      exact ⟨fun d hd => ⟨hcs d hd, hagree d hd⟩, hpair⟩

/-- What is accepted in full in one order is accepted in full in every order. -/
theorem accepted_eq_self_of_perm {s : Splicer} {cs ds : List Call} (h : s.accepted cs = cs)
    (hperm : cs.Perm ds) : s.accepted ds = ds := by
  rw [accepted_eq_self_iff] at h ⊢
  obtain ⟨hcalls, hpair⟩ := h
  refine ⟨fun c hc => hcalls c (hperm.mem_iff.mpr hc), ?_⟩
  exact hpair.perm hperm Agree.symm

end Splicer

/-! ## Section 4: Sorted lists -/

section

variable {α : Type} {le : α → α → Bool}

/-- The order does not tell two things apart. -/
def ties (le : α → α → Bool) (a b : α) : Bool := le a b && le b a

variable (total : ∀ a b, (le a b || le b a) = true)

include total

theorem ties_self (a : α) : ties le a a = true := by
  have := total a a
  simp only [Bool.or_self] at this
  simp [ties, this]

/-- Nothing is above the head of a sorted list. -/
theorem le_of_mem_sorted {a b : α} {bs : List α} (hb : ∀ c ∈ bs, le b c = true)
    (ha : a ∈ b :: bs) : le b a = true := by
  rcases List.mem_cons.mp ha with rfl | ha
  · have := total a a
    simpa using this
  · exact hb a ha

/-- A sorted list is determined by what it holds in each class of things that the order does not
    tell apart. -/
theorem eq_of_sorted {xs ys : List α} (hxs : xs.Pairwise fun a b => le a b = true)
    (hys : ys.Pairwise fun a b => le a b = true)
    (h : ∀ a, xs.filter (ties le a) = ys.filter (ties le a)) : xs = ys := by
  have hmem : ∀ {us vs : List α}, (∀ a, us.filter (ties le a) = vs.filter (ties le a)) →
      ∀ a, a ∈ us ↔ a ∈ vs := by
    intro us vs huv a
    have hclass : a ∈ us.filter (ties le a) ↔ a ∈ vs.filter (ties le a) := by rw [huv a]
    simpa [ties_self total a] using hclass
  induction xs generalizing ys with
  | nil =>
    cases ys with
    | nil => rfl
    | cons y ys => simpa using hmem h y
  | cons x xs ih =>
    cases ys with
    | nil => simpa using hmem h x
    | cons y ys =>
      obtain ⟨hx, hxs'⟩ := List.pairwise_cons.mp hxs
      obtain ⟨hy, hys'⟩ := List.pairwise_cons.mp hys
      -- each head stands somewhere in the other list, so neither comes after the other
      have hxy : ties le x y = true := by
        have h₁ := le_of_mem_sorted total hx ((hmem h y).mpr List.mem_cons_self)
        have h₂ := le_of_mem_sorted total hy ((hmem h x).mp List.mem_cons_self)
        simp [ties, h₁, h₂]
      have hhead := h x
      rw [List.filter_cons_of_pos (ties_self total x), List.filter_cons_of_pos hxy] at hhead
      obtain ⟨rfl, -⟩ := List.cons.inj hhead
      -- without the common head the classes are equal still
      have htail : ∀ a, xs.filter (ties le a) = ys.filter (ties le a) := by
        intro a
        have ha := h a
        cases hax : ties le a x with
        | true =>
          rw [List.filter_cons_of_pos hax, List.filter_cons_of_pos hax] at ha
          exact (List.cons.inj ha).2
        | false =>
          have hneg : ¬ties le a x = true := by simp [hax]
          rwa [List.filter_cons_of_neg hneg, List.filter_cons_of_neg hneg] at ha
      rw [ih hxs' hys' htail]

/-- Stably sorted, two lists are equal when they hold the same in each class, in the same order. -/
theorem mergeSort_eq_of_filter_eq
    (trans : ∀ a b c, le a b = true → le b c = true → le a c = true) {xs ys : List α}
    (h : ∀ a, xs.filter (ties le a) = ys.filter (ties le a)) :
    xs.mergeSort le = ys.mergeSort le := by
  refine eq_of_sorted total (List.pairwise_mergeSort trans total xs)
    (List.pairwise_mergeSort trans total ys) fun a => ?_
  -- the sort keeps the order inside a class
  have hclass : ∀ zs : List α, (zs.mergeSort le).filter (ties le a) = zs.filter (ties le a) := by
    intro zs
    apply filter_mergeSort trans total
    apply List.pairwise_of_forall_mem_list
    intro b hb c hc
    simp only [List.mem_filter, ties, Bool.and_eq_true] at hb hc
    exact trans b a c hb.2.2 hc.2.1
  rw [hclass, hclass, h a]

end

/-! ## Section 5: Edits in another order -/

/-- The sort tells edits apart by their positions and kinds. -/
theorem Edit.ties_before (a b : Edit) :
    ties before a b = ((b.isInsert == a.isInsert) && b.start == a.start) := by
  by_cases h : a.start = b.start
  · cases ha : a.isInsert <;> cases hb : b.isInsert <;> simp [ties, before, h, ha, hb]
  · have hab : (a.start == b.start) = false := by simpa using h
    have hba : (b.start == a.start) = false := by simpa using Ne.symm h
    simp only [ties, before, hab, hba, Bool.false_and, Bool.or_false, Bool.and_false,
      Bool.and_eq_false_iff, decide_eq_false_iff_not]
    omega

/-- The insertions at an offset that calls ask for are made of their texts. -/
theorem filter_insert_eq {cs : List Call}
    (hcs : ∀ start stop text, Call.overwrite start stop text ∈ cs → start < stop) (p : Nat) :
    ((cs.filterMap Call.edit?).filter fun e => e.isInsert && e.start == p) =
      (cs.filterMap (Call.insertedAt? p)).map fun text => ⟨p, p, text⟩ := by
  have htexts := flatMap_filter_edits (fun text => [text]) (bind_insertedAt hcs p)
  rw [List.flatMap_singleton', ← List.map_eq_flatMap] at htexts
  rw [← htexts, List.map_map]
  symm
  refine (List.map_congr_left fun e he => ?_).trans (List.map_id _)
  simp only [List.mem_filter, Edit.isInsert, Bool.and_eq_true, beq_iff_eq] at he
  obtain ⟨-, hstop, hstart⟩ := he
  obtain ⟨start, stop, text⟩ := e
  obtain rfl : start = stop := hstop
  obtain rfl : start = p := hstart
  rfl

namespace Splicer

/-- The edits of two sound splicers are the same in order when they are the same in some order and
    the insertions at each offset are the same in the same order. -/
theorem Sound.ordered_eq {s t : Splicer} (hs : s.Sound)
    (hperm : s.edits.Perm t.edits)
    (hinserts : ∀ p, (s.edits.filter fun e => e.isInsert && e.start == p) =
      t.edits.filter fun e => e.isInsert && e.start == p) : s.ordered = t.ordered := by
  apply mergeSort_eq_of_filter_eq Edit.before_total Edit.before_trans
  intro a
  rw [show ties Edit.before a = fun e => (e.isInsert == a.isInsert) && e.start == a.start from
    funext (Edit.ties_before a)]
  cases a.isInsert with
  | true => simpa only [beq_true] using hinserts a.start
  | false =>
    -- at most one replacement starts at an offset, so there is nothing to reorder
    have hone := hs.length_filter_le_one a.start
    have hclass := hperm.filter fun e => !e.isInsert && e.start == a.start
    simp only [beq_false]
    generalize (s.edits.filter fun e => !e.isInsert && e.start == a.start) = es at hone hclass ⊢
    rcases es with _ | ⟨e, _ | ⟨e', es⟩⟩
    · exact (List.nil_perm.mp hclass).symm
    · exact List.singleton_perm.mp hclass
    · simp at hone

/-- A list of calls that is accepted in full and puts nothing in front adds its edits. -/
theorem foldl_call_of_accepted {s : Splicer} {cs : List Call} (h : s.accepted cs = cs)
    (hcs : ∀ c ∈ cs, c.intro? = none) :
    (cs.foldl call s).source = s.source ∧ (cs.foldl call s).intro = s.intro ∧
      (cs.foldl call s).edits = s.edits ++ cs.filterMap Call.edit? := by
  refine ⟨source_foldl_call s cs, ?_, ?_⟩
  · have hintro := intro_foldl_call s cs
    rw [h, List.filterMap_eq_nil_iff.mpr hcs] at hintro
    exact String.toList_inj.mp hintro
  · rw [edits_foldl_call, h]

/-- **The order of accepted calls does not matter**, except among insertions at one offset. -/
theorem finish_eq_of_perm {s : Splicer} (hs : s.Sound) {cs ds : List Call}
    (hcs : ∀ c ∈ cs, c.intro? = none) (h : s.accepted cs = cs) (hperm : cs.Perm ds)
    (hinserts : ∀ p, cs.filterMap (Call.insertedAt? p) = ds.filterMap (Call.insertedAt? p)) :
    (ds.foldl call s).finish = (cs.foldl call s).finish ∧
      ∀ file, (ds.foldl call s).generateMap file = (cs.foldl call s).generateMap file := by
  have hds : ∀ c ∈ ds, c.intro? = none := fun c hc => hcs c (hperm.mem_iff.mpr hc)
  have h' : s.accepted ds = ds := accepted_eq_self_of_perm h hperm
  obtain ⟨hsource, hintro, hedits⟩ := foldl_call_of_accepted h hcs
  obtain ⟨hsource', hintro', hedits'⟩ := foldl_call_of_accepted h' hds
  have hordered : (ds.foldl call s).ordered = (cs.foldl call s).ordered := by
    refine Sound.ordered_eq (hs.foldl ds) ?_ fun p => ?_
    · rw [hedits, hedits']
      exact (hperm.symm.filterMap Call.edit?).append_left s.edits
    · have hlt : ∀ es, s.accepted es = es → ∀ a b text, Call.overwrite a b text ∈ es → a < b := by
        intro es hes a b text hmem
        rw [← hes] at hmem
        exact start_lt_stop_of_mem_accepted hmem
      rw [hedits, hedits', List.filter_append, List.filter_append, filter_insert_eq (hlt ds h'),
        filter_insert_eq (hlt cs h), hinserts p]
  refine ⟨?_, fun file => ?_⟩
  · rw [finish, finish, hordered, hsource, hsource', hintro, hintro']
  · simp only [generateMap, hordered, hsource, hsource', hintro, hintro']

/-! ## Section 6: Acceptance in terms of the calls -/

theorem isRange_iff_boundaries {cs : List Char} {start stop : Nat} :
    IsRange cs start stop ↔
      start ≤ stop ∧ isBoundary cs start = true ∧ isBoundary cs stop = true := by
  constructor
  · exact fun h => ⟨h.le, h.start_boundary, h.stop_boundary⟩
  · rintro ⟨hle, hstart, hstop⟩
    obtain ⟨before, after, rfl, hlen⟩ := exists_append_of_isBoundary hstop
    refine ⟨hle, ?_, hstart, hstop⟩
    rw [byteLength_append]
    omega

/-- What holds of the edits of a list of calls holds of the insertions and the replacements. -/
theorem forall_edits_iff (cs : List Call) (P : Edit → Prop) :
    (∀ e ∈ cs.filterMap Call.edit?, P e) ↔
      (∀ pos text, Call.insert pos text ∈ cs → P ⟨pos, pos, text⟩) ∧
      (∀ start stop text, Call.overwrite start stop text ∈ cs → P ⟨start, stop, text⟩) := by
  constructor
  · intro h
    exact ⟨fun pos text hc => h _ (List.mem_filterMap.mpr ⟨_, hc, rfl⟩),
      fun start stop text hc => h _ (List.mem_filterMap.mpr ⟨_, hc, rfl⟩)⟩
  · rintro ⟨hins, hrep⟩ e he
    obtain ⟨c, hc, hedit⟩ := List.mem_filterMap.mp he
    cases c with
    | prepend text => cases hedit
    | insert pos text =>
      cases hedit
      exact hins pos text hc
    | overwrite start stop text =>
      cases hedit
      exact hrep start stop text hc

section

variable (source : String) (calls : List Call)

theorem forall_edits_run_iff (P : Edit → Prop) :
    (∀ e ∈ (run source calls).edits, P e) ↔
      (∀ pos text, Call.insert pos text ∈ (new source).accepted calls → P ⟨pos, pos, text⟩) ∧
      (∀ start stop text, Call.overwrite start stop text ∈ (new source).accepted calls →
        P ⟨start, stop, text⟩) := by
  have hedits : (run source calls).edits = ((new source).accepted calls).filterMap Call.edit? :=
    edits_foldl_call (new source) calls
  rw [hedits, forall_edits_iff]

/-- An insertion is accepted at a boundary that no accepted replacement has inside. -/
theorem exists_insert_iff (pos : Nat) (text : String) :
    (∃ t, (run source calls).insert pos text = .ok t) ↔
      isBoundary source.toList pos = true ∧
        ∀ start stop old, Call.overwrite start stop old ∈ (new source).accepted calls →
          ¬(start < pos ∧ pos < stop) := by
  have hsource : (run source calls).source = source := source_foldl_call (new source) calls
  have haccept := (run source calls).exists_accept_iff pos pos text
  rw [hsource, isRange_iff_boundaries, forall_edits_run_iff] at haccept
  rw [show (run source calls).insert pos text = (run source calls).accept pos pos text from rfl,
    haccept]
  simp only [Edit.conflicts_insert, Nat.le_refl, true_and, and_self]
  constructor
  · rintro ⟨hpos, -, hrep⟩
    exact ⟨hpos, hrep⟩
  · rintro ⟨hpos, hrep⟩
    exact ⟨hpos, fun p _ _ => by omega, hrep⟩

/-- A replacement is accepted between two boundaries when no accepted insertion lies inside and it
    meets no accepted replacement. -/
theorem exists_overwrite_iff (start stop : Nat) (text : String) :
    (∃ t, (run source calls).overwrite start stop text = .ok t) ↔
      start < stop ∧ isBoundary source.toList start = true ∧
        isBoundary source.toList stop = true ∧
        (∀ pos old, Call.insert pos old ∈ (new source).accepted calls →
          ¬(start < pos ∧ pos < stop)) ∧
        ∀ start' stop' old, Call.overwrite start' stop' old ∈ (new source).accepted calls →
          stop' ≤ start ∨ stop ≤ start' := by
  have hsource : (run source calls).source = source := source_foldl_call (new source) calls
  have hcall := (run source calls).exists_call?_iff (.overwrite start stop text)
  have hclear : ∀ a : Edit, (Call.overwrite start stop text).Clear a ↔
      a.conflicts start stop = false := by
    intro a
    simp [Call.Clear, Call.edit?]
  simp only [hclear, hsource, Call.Fits, isRange_iff_boundaries, forall_edits_run_iff] at hcall
  refine hcall.trans ?_
  constructor
  · rintro ⟨⟨hlt, -, hstart, hstop⟩, hins, hrep⟩
    refine ⟨hlt, hstart, hstop, fun pos old hold => ?_, fun start' stop' old hold => ?_⟩
    · have := hins pos old hold
      rw [Edit.conflicts_replace _ hlt] at this
      simpa using this
    · have hne : start' ≠ stop' := Nat.ne_of_lt (start_lt_stop_of_mem_accepted hold)
      have := hrep start' stop' old hold
      rw [Edit.conflicts_replace _ hlt] at this
      simpa [hne] using this
  · rintro ⟨hlt, hstart, hstop, hins, hrep⟩
    refine ⟨⟨hlt, Nat.le_of_lt hlt, hstart, hstop⟩, fun pos old hold => ?_,
      fun start' stop' old hold => ?_⟩
    · rw [Edit.conflicts_replace _ hlt]
      simpa using hins pos old hold
    · have hne : start' ≠ stop' := Nat.ne_of_lt (start_lt_stop_of_mem_accepted hold)
      rw [Edit.conflicts_replace _ hlt]
      simpa [hne] using hrep start' stop' old hold

/-- **Acceptance and order.** Whatever was called on a splicer: an insertion is accepted exactly at
    a boundary that is not inside an accepted replacement; a replacement exactly between two
    boundaries, the first before the second, when no accepted insertion lies strictly between them
    and no accepted replacement meets them; and a rejected call changes nothing. Hence insertions
    and replacements that are accepted in full in one order are accepted in full in every order,
    and the edited text and its map are the same in all orders that keep the insertions at each
    offset in their order. -/
theorem accepted_in_every_order (source : String) (calls : List Call) :
    let s := run source calls
    let done := (new source).accepted calls
    (∀ pos text, (∃ t, s.insert pos text = .ok t) ↔
      isBoundary source.toList pos = true ∧
        ∀ start stop old, Call.overwrite start stop old ∈ done → ¬(start < pos ∧ pos < stop)) ∧
    (∀ start stop text, (∃ t, s.overwrite start stop text = .ok t) ↔
      start < stop ∧ isBoundary source.toList start = true ∧
        isBoundary source.toList stop = true ∧
        (∀ pos old, Call.insert pos old ∈ done → ¬(start < pos ∧ pos < stop)) ∧
        ∀ start' stop' old, Call.overwrite start' stop' old ∈ done →
          stop' ≤ start ∨ stop ≤ start') ∧
    (∀ c f, s.call? c = .error f → run source (calls ++ [c]) = s) ∧
    ∀ batch order : List Call, (∀ c ∈ batch, c.intro? = none) → s.accepted batch = batch →
      batch.Perm order →
        s.accepted order = order ∧
        ((∀ p, batch.filterMap (Call.insertedAt? p) = order.filterMap (Call.insertedAt? p)) →
          (run source (calls ++ order)).finish = (run source (calls ++ batch)).finish ∧
          ∀ file, (run source (calls ++ order)).generateMap file =
            (run source (calls ++ batch)).generateMap file) := by
  intro s done
  have happend : ∀ more, run source (calls ++ more) = more.foldl call s := fun more =>
    List.foldl_append
  refine ⟨exists_insert_iff source calls, exists_overwrite_iff source calls, ?_, ?_⟩
  · intro c f hc
    rw [happend, List.foldl_cons, call_of_error hc, List.foldl_nil]
  · intro batch order hbatch haccepted hperm
    refine ⟨accepted_eq_self_of_perm haccepted hperm, fun hinserts => ?_⟩
    rw [happend, happend]
    exact finish_eq_of_perm (Sound.run source calls) hbatch haccepted hperm hinserts

end

/-- Two insertions at the start of a replacement and one at its end, made before and after it. -/
theorem accepted_in_every_order_sample :
    let batch : List Call :=
      [.overwrite 1 3 "X", .insert 1 "1", .insert 3 "3", .insert 1 "2"]
    let order : List Call :=
      [.insert 3 "3", .insert 1 "1", .overwrite 1 3 "X", .insert 1 "2"]
    (run "aéb" [.prepend "-"]).accepted order = order ∧
      (run "aéb" ([.prepend "-"] ++ order)).finish =
        (run "aéb" ([.prepend "-"] ++ batch)).finish := by
  intro batch order
  have h := (accepted_in_every_order "aéb" [.prepend "-"]).2.2.2 batch order (by decide)
    (by decide) (by decide)
  refine ⟨h.1, (h.2 fun p => ?_).1⟩
  by_cases h₁ : 1 = p
  · subst h₁
    rfl
  · by_cases h₃ : 3 = p
    · subst h₃
      rfl
    · simp [batch, order, List.filterMap_cons, Call.insertedAt?, h₁, h₃]

end Splicer

end BuildMacros
