import BuildMacros.Proofs.Assoc
import BuildMacros.Proofs.Splice.Edits
import Mathlib.Data.List.Basic

/-! # The edited text, offset by offset

    `finish` sorts the edits and copies what lies between them. `standing` says
    what the result is without order and cursor: at every offset stand the
    insertions made there, then the replacement that starts there, then what the
    source has there, unless it is replaced.

    The two are compared once, for anything that may stand at an offset
    (`interleave_eq_standing`): characters, bytes, or characters with a note of
    where they come from.
-/

namespace BuildMacros

open BuildMacros.Text

/-! ## Section 1: What stands at an offset -/

/-- The edit replaces the byte at an offset. -/
def Edit.covers (e : Edit) (p : Nat) : Bool := e.start ≤ p && p < e.stop

/-- No edit starts at an offset, whichever kind of edit is asked for. -/
theorem filter_start_eq_nil {es : List Edit} {p : Nat} (h : ∀ e ∈ es, e.start ≠ p)
    (q : Edit → Bool) : (es.filter fun e => q e && e.start == p) = [] := by
  rw [List.filter_eq_nil_iff]
  intro e he
  simp only [Bool.and_eq_true, beq_iff_eq, not_and]
  exact fun _ => h e he

section

variable {β : Type} (unit : Nat → List β) (text : Edit → List β)

/-- What stands at an offset: insertions, a replacement, and what the source has there. -/
def standing (es : List Edit) (p : Nat) : List β :=
  (es.filter fun e => e.isInsert && e.start == p).flatMap text
    ++ (es.filter fun e => !e.isInsert && e.start == p).flatMap text
    ++ if es.any (·.covers p) then [] else unit p

/-- Edits in order, with what `cut` finds between them. -/
def interleave (cut : Nat → Nat → List β) (last cursor : Nat) : List Edit → List β
  | [] => cut cursor last
  | e :: es => cut cursor e.start ++ text e ++ interleave cut last e.stop es

variable {unit text}

theorem standing_nil (p : Nat) : standing unit text [] p = unit p := by
  simp [standing]

/-- Where no edit starts and none replaces anything, the source stands. -/
theorem standing_of_free {es : List Edit} {p : Nat} (hstart : ∀ e ∈ es, e.start ≠ p)
    (hcovers : ∀ e ∈ es, e.covers p = false) : standing unit text es p = unit p := by
  have hnone := filter_start_eq_nil hstart
  have hany : es.any (·.covers p) = false :=
    List.any_eq_false.mpr fun e he => by rw [hcovers e he]; exact Bool.false_ne_true
  rw [standing, hnone, hnone, hany]
  simp

theorem standing_of_lt {es : List Edit} {p : Nat} (h : ∀ e ∈ es, p < e.start) :
    standing unit text es p = unit p := by
  refine standing_of_free (fun e he => Nat.ne_of_gt (h e he)) fun e he => ?_
  have := h e he
  rw [Edit.covers, Bool.and_eq_false_iff, decide_eq_false_iff_not]
  exact .inl (by omega)

/-- An insertion stands before everything else at its offset. -/
theorem standing_cons_insert {e : Edit} (he : e.isInsert = true) (es : List Edit) :
    standing unit text (e :: es) e.start = text e ++ standing unit text es e.start := by
  have hstop : e.start = e.stop := by simpa [Edit.isInsert] using he
  have hcov : e.covers e.start = false := by
    simp only [Edit.covers, Bool.and_eq_false_iff, decide_eq_false_iff_not]
    omega
  simp [standing, he, hcov, List.append_assoc]

/-- A replacement stands alone at its offset when all other edits start behind it. -/
theorem standing_cons_replace {e : Edit} (he : e.start < e.stop) {es : List Edit}
    (h : ∀ a ∈ es, e.start < a.start) :
    standing unit text (e :: es) e.start = text e := by
  have hins : e.isInsert = false := by
    simp only [Edit.isInsert, beq_eq_false_iff_ne]
    omega
  have hcov : e.covers e.start = true := by
    simp only [Edit.covers, Bool.and_eq_true, decide_eq_true_eq]
    omega
  have hrest := filter_start_eq_nil fun a ha => Nat.ne_of_gt (h a ha)
  simp [standing, hins, hcov, hrest]

/-- Under a replacement nothing stands. -/
theorem standing_cons_covered {e : Edit} {es : List Edit} {p : Nat} (h₁ : e.start < p)
    (h₂ : p < e.stop) (h : ∀ a ∈ es, p < a.start) : standing unit text (e :: es) p = [] := by
  have hcov : e.covers p = true := by
    simp only [Edit.covers, Bool.and_eq_true, decide_eq_true_eq]
    omega
  have hne : ∀ a ∈ e :: es, a.start ≠ p := by
    intro a ha
    rcases List.mem_cons.mp ha with rfl | ha
    · omega
    · have := h a ha
      omega
  rw [standing, filter_start_eq_nil hne, filter_start_eq_nil hne]
  simp [hcov]

/-- Behind an edit it makes no difference. -/
theorem standing_cons_of_le {e : Edit} {p : Nat} (h₁ : e.start < p) (h₂ : e.stop ≤ p)
    (es : List Edit) : standing unit text (e :: es) p = standing unit text es p := by
  have hne : (e.start == p) = false := by
    simp only [beq_eq_false_iff_ne]
    omega
  have hcov : e.covers p = false := by
    simp only [Edit.covers, Bool.and_eq_false_iff, decide_eq_false_iff_not]
    omega
  simp [standing, hne, hcov]

/-! ## Section 2: Interleaving -/

/-- What respects putting together can be done piece by piece. -/
theorem interleave_hom {γ : Type} {f : List β → List γ} (hf : ∀ xs ys, f (xs ++ ys) = f xs ++ f ys)
    (cut : Nat → Nat → List β) (last cursor : Nat) (es : List Edit) :
    f (interleave text cut last cursor es) =
      interleave (fun e => f (text e)) (fun a b => f (cut a b)) last cursor es := by
  induction es generalizing cursor with
  | nil => rfl
  | cons e es ih => rw [interleave, interleave, hf, hf, ih]

theorem flatMap_range'_congr {f g : Nat → List β} {a n : Nat}
    (h : ∀ p, a ≤ p → p < a + n → f p = g p) :
    (List.range' a n).flatMap f = (List.range' a n).flatMap g := by
  apply List.flatMap_congr
  intro p hp
  obtain ⟨i, hi, rfl⟩ := List.mem_range'.mp hp
  exact h _ (by omega) (by omega)

/-- What stands from an offset on, divided at a later one. -/
theorem flatMap_range'_split (f : Nat → List β) {a b c : Nat} (hab : a ≤ b) (hbc : b ≤ c) :
    (List.range' a (c - a)).flatMap f =
      (List.range' a (b - a)).flatMap f ++ (List.range' b (c - b)).flatMap f := by
  rw [show c - a = (b - a) + (c - b) by omega, ← List.range'_append_1, List.flatMap_append]
  rw [show a + (b - a) = b by omega]

/-- What stands from an edit on is the text of the edit and what stands from its end on. -/
theorem flatMap_standing_cons {e : Edit} {es : List Edit} {last : Nat} (hle : e.start ≤ e.stop)
    (hlast : e.stop ≤ last) (h : ∀ a ∈ es, e.stop ≤ a.start) :
    (List.range' e.start (last + 1 - e.start)).flatMap (standing unit text (e :: es)) =
      text e ++ (List.range' e.stop (last + 1 - e.stop)).flatMap (standing unit text es) := by
  have hhead : ∀ f : Nat → List β, (List.range' e.start (last + 1 - e.start)).flatMap f =
      f e.start ++ (List.range' (e.start + 1) (last + 1 - (e.start + 1))).flatMap f := by
    intro f
    rw [show last + 1 - e.start = (last + 1 - (e.start + 1)) + 1 by omega, List.range'_succ,
      List.flatMap_cons]
  rcases Nat.eq_or_lt_of_le hle with heq | hlt
  · -- an insertion: it stands first at its offset, and changes nothing behind it
    have hins : e.isInsert = true := by simpa [Edit.isInsert] using heq
    rw [← heq, hhead, hhead, standing_cons_insert hins, List.append_assoc]
    congr 2
    apply flatMap_range'_congr
    intro p hp _
    exact standing_cons_of_le (by omega) (by omega) es
  · -- a replacement: it stands at its offset, and nothing stands up to its end
    have hafter : ∀ a ∈ es, e.start < a.start := fun a ha => by
      have := h a ha
      omega
    have hunder : (List.range' (e.start + 1) (e.stop - (e.start + 1))).flatMap
        (standing unit text (e :: es)) = [] := by
      rw [List.flatMap_eq_nil_iff]
      intro p hp
      obtain ⟨i, hi, rfl⟩ := List.mem_range'.mp hp
      refine standing_cons_covered (by omega) (by omega) fun a ha => ?_
      have := h a ha
      omega
    have hbehind : (List.range' e.stop (last + 1 - e.stop)).flatMap
        (standing unit text (e :: es)) =
          (List.range' e.stop (last + 1 - e.stop)).flatMap (standing unit text es) := by
      apply flatMap_range'_congr
      intro p hp _
      exact standing_cons_of_le (by omega) hp es
    rw [hhead, standing_cons_replace hlt hafter]
    have hend : e.stop ≤ last + 1 := by omega
    rw [flatMap_range'_split _ (show e.start + 1 ≤ e.stop by omega) hend]
    rw [hunder, hbehind, List.nil_append]

/-- **Edits in order are what stands at the offsets in order.** The cut between two edits has to
    be what the source has at the offsets between them. -/
theorem interleave_eq_standing {source : List Char} {cut : Nat → Nat → List β} {cursor : Nat}
    {es : List Edit} (hlaid : Laid source cursor es)
    (hcut : ∀ a b, IsRange source a b → cut a b = (List.range' a (b - a)).flatMap unit)
    (hend : unit (byteLength source) = []) :
    interleave text cut (byteLength source) cursor es =
      (List.range' cursor (byteLength source + 1 - cursor)).flatMap (standing unit text es) := by
  induction es generalizing cursor with
  | nil =>
    have hle := hlaid.isRange.le
    rw [interleave, hcut _ _ hlaid]
    rw [show byteLength source + 1 - cursor = (byteLength source - cursor) + 1 by omega]
    rw [← List.range'_append_1, List.flatMap_append]
    rw [show cursor + (byteLength source - cursor) = byteLength source by omega]
    have hlast : (List.range' (byteLength source) 1).flatMap (standing unit text []) = [] := by
      simp [standing_nil, hend]
    rw [hlast, List.append_nil]
    apply flatMap_range'_congr
    intro p _ _
    exact (standing_nil p).symm
  | cons e es ih =>
    obtain ⟨hcursor, hedit, hes⟩ := hlaid
    have hbehind := hes.le_start
    have hbefore : (List.range' cursor (e.start - cursor)).flatMap
        (standing unit text (e :: es)) = cut cursor e.start := by
      rw [hcut _ _ hcursor]
      apply flatMap_range'_congr
      intro p _ hp
      have hle := hcursor.le
      refine standing_of_lt fun a ha => ?_
      rcases List.mem_cons.mp ha with rfl | ha
      · omega
      · have h₁ := hbehind a ha
        have h₂ := hedit.le
        omega
    have hstart := hcursor.stop_le
    rw [flatMap_range'_split _ hcursor.le (show e.start ≤ byteLength source + 1 by omega), hbefore]
    rw [flatMap_standing_cons hedit.le hedit.stop_le hbehind, ← ih hes, interleave,
      List.append_assoc]

/-! ## Section 3: The order of the edits -/

/-- What stands at an offset does not depend on the order of edits at other offsets. -/
theorem standing_mergeSort (es : List Edit) (p : Nat) :
    standing unit text (es.mergeSort Edit.before) p = standing unit text es p := by
  have hstable : ∀ b : Bool, ((es.mergeSort Edit.before).filter fun e =>
      (e.isInsert == b) && e.start == p) =
        es.filter fun e => (e.isInsert == b) && e.start == p := by
    intro b
    apply filter_mergeSort Edit.before_trans Edit.before_total
    apply List.pairwise_of_forall_mem_list
    intro x hx y hy
    simp only [List.mem_filter, Bool.and_eq_true, beq_iff_eq] at hx hy
    obtain ⟨-, hxb, hxp⟩ := hx
    obtain ⟨-, hyb, hyp⟩ := hy
    cases b <;> simp [Edit.before, hxp, hyp, hxb, hyb]
  have hins := hstable true
  have hrep := hstable false
  simp only [beq_true, beq_false] at hins hrep
  have hcov : (es.mergeSort Edit.before).any (·.covers p) = es.any (·.covers p) := by
    rw [Bool.eq_iff_iff, List.any_eq_true, List.any_eq_true]
    simp only [List.mem_mergeSort]
  rw [standing, hins, hrep, hcov, ← standing]

end

end BuildMacros
