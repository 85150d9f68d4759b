import BuildMacros.Proofs.Text.Slices
import BuildMacros.Text.Class

/-! # Parts of a text

    Scripts, templates and the names in them are parts of a larger text, found by
    reading that text from the left. `StandsAt` says where a part stands in a whole;
    ranges of a part are ranges of the whole, moved by the part's offset. A reader
    that consumes what it reads leaves a suffix of the text, and the lengths of both
    tell how far it went.
-/

namespace BuildMacros.Text

/-! ## Section 1: Where a part stands -/

/-- The part stands in the whole at an offset. -/
def StandsAt (part : List Char) (pos : Nat) (whole : List Char) : Prop :=
  ∃ before after, whole = before ++ (part ++ after) ∧ byteLength before = pos

namespace StandsAt

variable {part inner whole : List Char} {pos shift start stop : Nat}

theorem refl (cs : List Char) : StandsAt cs 0 cs := ⟨[], [], by simp, rfl⟩

/-- A part of a part is a part, and the offsets add up. -/
theorem trans (hinner : StandsAt inner shift part) (hpart : StandsAt part pos whole) :
    StandsAt inner (shift + pos) whole := by
  obtain ⟨b, a, rfl, rfl⟩ := hinner
  obtain ⟨b', a', rfl, rfl⟩ := hpart
  refine ⟨b' ++ b, a ++ a', by simp, ?_⟩
  rw [byteLength_append, Nat.add_comm]

theorem boundary (h : StandsAt part pos whole) : isBoundary whole pos = true := by
  obtain ⟨before, after, rfl, rfl⟩ := h
  exact isBoundary_append before (part ++ after)

theorem boundary_end (h : StandsAt part pos whole) :
    isBoundary whole (pos + byteLength part) = true := by
  obtain ⟨before, after, rfl, rfl⟩ := h
  rw [← List.append_assoc, ← byteLength_append]
  exact isBoundary_append (before ++ part) after

/-- A part takes up a range. -/
theorem isRange (h : StandsAt part pos whole) : IsRange whole pos (pos + byteLength part) := by
  refine ⟨Nat.le_add_right _ _, ?_, h.boundary, h.boundary_end⟩
  obtain ⟨before, after, rfl, rfl⟩ := h
  simp only [byteLength_append]
  omega

/-- Boundaries of a part are boundaries of the whole. -/
theorem boundary_add (h : StandsAt part pos whole) (hb : isBoundary part start = true) :
    isBoundary whole (start + pos) = true := by
  obtain ⟨before, after, rfl, rfl⟩ := exists_append_of_isBoundary hb
  have hpart : StandsAt after (byteLength before) (before ++ after) :=
    ⟨before, [], by simp, rfl⟩
  exact (hpart.trans h).boundary

/-- Ranges of a part are ranges of the whole. -/
theorem isRange_add (h : StandsAt part pos whole) (hr : IsRange part start stop) :
    IsRange whole (start + pos) (stop + pos) := by
  have hle := hr.le
  have hstop := hr.stop_le
  have hwhole := h.isRange.stop_le
  exact ⟨by omega, by omega, h.boundary_add hr.start_boundary, h.boundary_add hr.stop_boundary⟩

/-- The whole has the characters of the part. -/
theorem slice_add (h : StandsAt part pos whole) (hr : IsRange part start stop) :
    slice whole (start + pos) (stop + pos) = slice part start stop := by
  obtain ⟨xs, ys, zs, rfl, rfl, rfl⟩ := hr.exists_append
  obtain ⟨before, after, rfl, rfl⟩ := h
  have hwhole : before ++ (xs ++ (ys ++ zs) ++ after) =
      (before ++ xs) ++ (ys ++ (zs ++ after)) := by
    simp only [List.append_assoc]
  have hstart : byteLength xs + byteLength before = byteLength (before ++ xs) := by
    rw [byteLength_append, Nat.add_comm]
  rw [hwhole, Nat.add_right_comm, hstart, slice_append_append, slice_append_append]

/-- Ranges of the whole that end inside the part are ranges of the part. -/
theorem isRange_add_iff (h : StandsAt part pos whole) (hstop : stop ≤ byteLength part) :
    IsRange whole (start + pos) (stop + pos) ↔ IsRange part start stop := by
  refine ⟨fun hr => ?_, h.isRange_add⟩
  obtain ⟨before, after, rfl, rfl⟩ := h
  have hboundary : ∀ n, n ≤ byteLength part →
      isBoundary (before ++ (part ++ after)) (n + byteLength before) = isBoundary part n := by
    intro n hn
    rw [isBoundary_append_of_le _ _ (by omega), Nat.add_sub_cancel,
      isBoundary_append_of_ge _ _ hn]
  have hle : start ≤ stop := Nat.le_of_add_le_add_right hr.le
  refine ⟨hle, hstop, ?_, ?_⟩
  · rw [← hboundary start (Nat.le_trans hle hstop)]
    exact hr.start_boundary
  · rw [← hboundary stop hstop]
    exact hr.stop_boundary

/-- What is left of a text when its head is read stands behind what was read. -/
theorem of_suffix (h : part <:+ whole) :
    StandsAt part (byteLength whole - byteLength part) whole := by
  obtain ⟨before, rfl⟩ := h
  refine ⟨before, [], by simp, ?_⟩
  rw [byteLength_append, Nat.add_sub_cancel]

/-- A part of what is left after some text. -/
theorem append_left (before : List Char) (h : StandsAt part pos whole) :
    StandsAt part (pos + byteLength before) (before ++ whole) :=
  h.trans ⟨before, [], by simp, rfl⟩

end StandsAt

/-! ## Section 2: Readers leave suffixes -/

/-- What is left is no longer than the text. -/
theorem byteLength_le_of_suffix {rest cs : List Char} (h : rest <:+ cs) :
    byteLength rest ≤ byteLength cs := by
  obtain ⟨before, rfl⟩ := h
  rw [byteLength_append]
  omega

theorem eq_append_of_strip? {lead cs rest : List Char} (h : strip? lead cs = some rest) :
    cs = lead ++ rest := by
  induction lead generalizing cs with
  | nil => simpa [strip?] using h
  | cons p ps ih =>
    cases cs with
    | nil => cases h
    | cons c cs =>
      simp only [strip?] at h
      split at h
      · next heq =>
        rw [List.cons_append, beq_iff_eq.mp heq, ih h]
      · cases h

theorem suffix_of_strip? {lead cs rest : List Char} (h : strip? lead cs = some rest) :
    rest <:+ cs := ⟨lead, (eq_append_of_strip? h).symm⟩

/-- What a folded word takes in is the same whatever follows it. -/
theorem exists_append_of_stripFolded? {lead cs rest : List Char}
    (h : stripFolded? lead cs = some rest) :
    ∃ front, cs = front ++ rest ∧ ∀ rest', stripFolded? lead (front ++ rest') = some rest' := by
  induction lead generalizing cs with
  | nil =>
    cases h
    exact ⟨[], rfl, fun _ => rfl⟩
  | cons p ps ih =>
    cases cs with
    | nil => cases h
    | cons c cs =>
      rw [stripFolded?] at h
      split at h
      · next hfold =>
        obtain ⟨front, rfl, hfront⟩ := ih h
        refine ⟨c :: front, rfl, fun rest' => ?_⟩
        rw [List.cons_append, stripFolded?, if_pos hfold, hfront]
      · cases h

theorem suffix_of_stripFolded? {lead cs rest : List Char}
    (h : stripFolded? lead cs = some rest) : rest <:+ cs := by
  obtain ⟨front, rfl, -⟩ := exists_append_of_stripFolded? h
  exact List.suffix_append front rest

/-- Only an angle bracket folds to one. -/
theorem eq_of_foldsTo {c : Char} (h : foldsTo '<' c = true) : c = '<' := by
  have hlower : c.toLower = '<' := by simpa [foldsTo] using h
  unfold Char.toLower at hlower
  split at hlower
  · next hupper =>
    -- a capital letter becomes a small one
    have hfrom : 65 ≤ c.val.toNat := UInt32.le_iff_toNat_le.mp hupper.1
    have hto : c.val.toNat ≤ 90 := UInt32.le_iff_toNat_le.mp hupper.2
    have hval : (c.val.toNat + 32) % 4294967296 = 60 :=
      congrArg (fun d : Char => d.val.toNat) hlower
    omega
  · exact hlower

end BuildMacros.Text
