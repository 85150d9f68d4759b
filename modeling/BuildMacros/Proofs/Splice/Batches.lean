import BuildMacros.Proofs.Splice.Reordering

/-! # Batches of calls

    A pass plans its edits and carries them out one after another; the first one
    that is refused ends the pass with a failure. A batch is carried out as a whole
    when each call fits the text and no two of them get in each other's way, and
    edits of ranges that lie one behind the other never do.

    A pass may fail for other reasons as well. `EditSafe` says that no failure of a
    computation is about a refused edit; it is put together along the computation.
-/

namespace BuildMacros

open BuildMacros.Text

/-! ## Section 1: Failures about edits -/

/-- The failure says that an edit was refused. -/
def Failure.isEdit : Failure → Bool
  | overlappingEdit .. => true
  | invalidEdit .. => true
  | _ => false

/-- If the computation fails, it is not because an edit was refused. -/
def EditSafe {α : Type} (r : Except Failure α) : Prop := ∀ f, r = .error f → f.isEdit = false

namespace EditSafe

variable {α β : Type}

theorem ok (a : α) : EditSafe (.ok a) := by
  intro f hf
  cases hf

theorem error {f : Failure} (h : f.isEdit = false) : EditSafe (.error f : Except Failure α) := by
  intro f' hf
  cases hf
  exact h

/-- A computation is safe when its first step is and every way of going on is. -/
theorem bind {r : Except Failure α} {g : α → Except Failure β} (hr : EditSafe r)
    (hg : ∀ a, r = .ok a → EditSafe (g a)) : EditSafe (r >>= g) := by
  cases r with
  | error f => exact error (hr f rfl)
  | ok a => exact hg a rfl

/-- A computation that succeeds is safe. -/
theorem of_exists {r : Except Failure α} (h : ∃ a, r = .ok a) : EditSafe r := by
  obtain ⟨a, rfl⟩ := h
  exact ok a

end EditSafe

/-! ## Section 2: Calls that do not get in each other's way -/

namespace Splicer

/-- Insertions never get in each other's way. -/
theorem agree_insert (p q : Nat) (text text' : String) :
    Agree (.insert p text) (.insert q text') := by
  rintro _ ⟨⟩ _ ⟨⟩
  rw [Edit.conflicts_insert]
  exact fun h => absurd h.1 (Nat.not_lt_of_gt h.2)

/-- Edits of which one ends before the other starts do not get in each other's way. -/
theorem agree_of_apart {c d : Call}
    (h : ∀ a b, c.edit? = some a → d.edit? = some b → a.stop ≤ b.start ∨ b.stop ≤ a.start) :
    Agree c d := by
  intro a ha b hb
  have hapart := h a b ha hb
  unfold Edit.conflicts Edit.isInsert
  -- an insertion is inside a range only strictly, so touching ranges are apart as well
  by_cases hb' : b.start = b.stop
  · simp only [hb', beq_self_eq_true, if_true, Bool.and_eq_false_iff, decide_eq_false_iff_not]
    omega
  · by_cases ha' : a.start = a.stop
    · simp only [hb', ha', beq_iff_eq, if_true, if_false, Bool.and_eq_false_iff,
        decide_eq_false_iff_not]
      omega
    · simp only [hb', ha', beq_iff_eq, if_false, Bool.and_eq_false_iff, decide_eq_false_iff_not]
      omega

/-! ## Section 3: Whole batches -/

theorem foldlM_call?_of_accepted {s : Splicer} {cs : List Call} (h : s.accepted cs = cs) :
    cs.foldlM call? s = .ok (cs.foldl call s) := by
  induction cs generalizing s with
  | nil => rfl
  | cons c cs ih =>
    obtain ⟨⟨t, ht⟩, hrest⟩ := (accepted_cons_eq_iff s c cs).mp h
    have hcall := call_of_ok ht
    rw [hcall] at hrest
    rw [List.foldlM_cons, ht, List.foldl_cons, hcall]
    exact ih hrest

/-- A batch that is carried out makes the splicer that the calls make one by one. -/
theorem foldl_call_of_foldlM {s t : Splicer} {cs : List Call} (h : cs.foldlM call? s = .ok t) :
    cs.foldl call s = t := by
  induction cs generalizing s with
  | nil =>
    cases h
    rfl
  | cons c cs ih =>
    rw [List.foldlM_cons] at h
    obtain ⟨u, hc, hrest⟩ := exists_of_bind_eq_ok h
    rw [List.foldl_cons, call_of_ok hc]
    exact ih hrest

/-- No call of a batch that is carried out is refused. -/
theorem accepted_of_foldlM {s t : Splicer} {cs : List Call} (h : cs.foldlM call? s = .ok t) :
    s.accepted cs = cs := by
  induction cs generalizing s with
  | nil => rfl
  | cons c cs ih =>
    rw [List.foldlM_cons] at h
    obtain ⟨u, hc, hrest⟩ := exists_of_bind_eq_ok h
    rw [accepted_of_ok hc, ih hrest]

/-- What a batch that puts nothing in front makes of a new splicer. -/
theorem spec_of_foldlM {source : String} {s : Splicer} {cs : List Call}
    (h : cs.foldlM call? (new source) = .ok s) (hcs : ∀ c ∈ cs, c.intro? = none) :
    s.Sound ∧ s.source = source ∧ s.intro = "" ∧ s.edits = cs.filterMap Call.edit? := by
  have hspec := foldl_call_of_accepted (accepted_of_foldlM h) hcs
  have hsound := (Sound.new source).foldl cs
  rw [foldl_call_of_foldlM h] at hspec hsound
  exact ⟨hsound, hspec⟩

/-- A pass that carries out a batch for each of several items carries out all their batches. -/
theorem foldlM_eq_foldlM_call? {α : Type} {step : Splicer → α → Except Failure Splicer}
    (batch : α → List Call) (hstep : ∀ s a, step s a = (batch a).foldlM call? s) (as : List α)
    (s : Splicer) : as.foldlM step s = (as.flatMap batch).foldlM call? s := by
  induction as generalizing s with
  | nil => rfl
  | cons a as ih =>
    rw [List.foldlM_cons, List.flatMap_cons, List.foldlM_append, hstep]
    exact bind_congr ih

/-- **A batch that fits is carried out**: when each call fits the text and no two get in each
    other's way, no call is refused. -/
theorem exists_foldlM_call? (source : String) (cs : List Call)
    (hfits : ∀ c ∈ cs, c.Fits source.toList) (hagree : cs.Pairwise Agree) :
    ∃ s, cs.foldlM call? (new source) = .ok s := by
  have haccepted : (new source).accepted cs = cs := by
    rw [accepted_eq_self_iff]
    refine ⟨fun c hc => (exists_call?_iff _ c).mpr ⟨hfits c hc, ?_⟩, hagree⟩
    simp [new]
  exact ⟨_, foldlM_call?_of_accepted haccepted⟩

end Splicer

end BuildMacros
