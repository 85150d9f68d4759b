import BuildMacros.Proofs.Splice.Reordering
import BuildMacros.Proofs.Text.Placement

/-! # Parts of a text in a splicer

    A script of a component is a part of its file, and its spans count from the start of
    the script. Its edits are made in the file, moved by the offset of the script. `embed`
    takes a splicer of the part to a splicer of the whole, with all edits moved.

    A call on the part and the moved call on the whole are accepted together, and what they
    make is taken to each other by `embed` (`call?_embed`). A run of calls follows by
    induction (`foldlM_embed`), and in the end the whole has the edited part between what
    stood before and behind it (`finish_embed`).
-/

namespace BuildMacros

open BuildMacros.Text

/-! ## Section 1: Moved edits -/

namespace Edit

/-- The edit of a part, as an edit of the whole. -/
def moved (offset : Nat) (e : Edit) : Edit := ⟨e.start + offset, e.stop + offset, e.text⟩

theorem before_moved (offset : Nat) (a b : Edit) :
    (a.moved offset).before (b.moved offset) = a.before b := by
  have hinsert : ∀ e : Edit, (e.moved offset).isInsert = e.isInsert := by
    intro e
    simp [moved, isInsert]
  have hstart : (a.start + offset == b.start + offset) = (a.start == b.start) := by
    rw [Bool.eq_iff_iff]
    simp
  rw [before, before, hinsert, hinsert]
  simp [moved, hstart]

end Edit

namespace Splicer

theorem dropBytes_zero (cs : List Char) : dropBytes 0 cs = cs := by
  cases cs <;> rfl

/-- A range of a part, cut out of the whole. -/
theorem slice_part {before part after : List Char} {start stop : Nat}
    (h : IsRange part start stop) :
    slice (before ++ (part ++ after)) (start + byteLength before) (stop + byteLength before) =
      slice part start stop := by
  obtain ⟨xs, ys, zs, rfl, rfl, rfl⟩ := h.exists_append
  have hwhole := slice_append_append (before ++ xs) ys (zs ++ after)
  have hstart : byteLength xs + byteLength before = byteLength (before ++ xs) := by
    rw [byteLength_append, Nat.add_comm]
  have hstop : byteLength xs + byteLength ys + byteLength before =
      byteLength (before ++ xs) + byteLength ys := by
    rw [← hstart, Nat.add_right_comm]
  rw [slice_append_append, hstart, hstop]
  simpa using hwhole

/-- Edits that are laid in a part change nothing but the part. -/
theorem splice_part {before part after : List Char} {cursor : Nat} {es : List Edit}
    (h : Laid part cursor es) :
    splice (before ++ (part ++ after)) (cursor + byteLength before)
        (es.map (Edit.moved (byteLength before))) =
      splice part cursor es ++ after := by
  induction es generalizing cursor with
  | nil =>
    obtain ⟨xs, ys, rfl, rfl⟩ := exists_append_of_isBoundary h.start_boundary
    have hwhole := dropBytes_append (before ++ xs) (ys ++ after)
    rw [List.map_nil, splice, splice, dropBytes_append]
    simpa [byteLength_append, Nat.add_comm] using hwhole
  | cons e es ih =>
    have hmax : max (e.stop + byteLength before) (cursor + byteLength before) =
        e.stop + byteLength before := by
      have hpart := Laid.max_eq h
      omega
    rw [List.map_cons, splice, splice, Laid.max_eq h]
    show slice _ _ (e.start + byteLength before) ++ e.text.toList ++
      splice _ (max (e.stop + byteLength before) _) _ = _
    rw [hmax, slice_part h.1, ih h.2.2]
    simp

/-- Edits that are laid in a part leave what stands before the part as it is. -/
theorem splice_whole {before part after : List Char} {es : List Edit} (h : Laid part 0 es) :
    splice (before ++ (part ++ after)) 0 (es.map (Edit.moved (byteLength before))) =
      before ++ (splice part 0 es ++ after) := by
  cases es with
  | nil =>
    rw [List.map_nil, splice, splice, dropBytes_zero, dropBytes_zero]
  | cons e es =>
    have hmax : max (e.stop + byteLength before) 0 = e.stop + byteLength before := by omega
    rw [List.map_cons, splice, splice, Laid.max_eq h]
    show slice _ 0 (e.start + byteLength before) ++ e.text.toList ++
      splice _ (max (e.stop + byteLength before) 0) _ = _
    rw [hmax, splice_part h.2.2]
    obtain ⟨xs, ys, hpart, hstart⟩ := exists_append_of_isBoundary h.1.stop_boundary
    have hwhole := slice_zero_append (before ++ xs) (ys ++ after)
    have hinner := slice_zero_append xs ys
    rw [byteLength_append, hstart, Nat.add_comm] at hwhole
    rw [hstart] at hinner
    rw [hpart, hinner]
    simp only [List.append_assoc] at hwhole ⊢
    rw [hwhole]
    simp

end Splicer

/-! ## Section 2: Moved calls -/

namespace Call

/-- The call on a part, as a call on the whole. -/
def moved (offset : Nat) : Call → Call
  | insert pos text => insert (pos + offset) text
  | overwrite start stop text => overwrite (start + offset) (stop + offset) text
  | prepend text => prepend text

/-- The call asks for an edit that ends within a number of bytes. -/
def Within (size : Nat) : Call → Prop
  | insert pos _ => pos ≤ size
  | overwrite _ stop _ => stop ≤ size
  | prepend _ => False

end Call

theorem Edit.conflicts_moved (offset : Nat) (e : Edit) (start stop : Nat) :
    (e.moved offset).conflicts (start + offset) (stop + offset) = e.conflicts start stop := by
  have heq : ∀ a b : Nat, (a + offset == b + offset) = (a == b) := by
    intro a b
    rw [Bool.eq_iff_iff]
    simp
  simp [conflicts, isInsert, moved, heq]

/-! ## Section 3: Splicers of a part -/

namespace Splicer

/-- A splicer of a part, as a splicer of the whole. -/
def embed (before after : List Char) (s : Splicer) : Splicer :=
  ⟨String.ofList (before ++ (s.source.toList ++ after)), s.intro,
    s.edits.map (Edit.moved (byteLength before))⟩

/-- A text as a splicer of its part. -/
theorem embed_new {code part : String} {before after : List Char}
    (hcode : code.toList = before ++ (part.toList ++ after)) :
    (new part).embed before after = new code := by
  rw [embed, new, new, List.map_nil, ← hcode, String.ofList_toList]

variable {before after : List Char} {s t : Splicer}

/-- Adding an edit to the part adds the moved edit to the whole. -/
theorem embed_append (e : Edit) :
    ({ s with edits := s.edits ++ [e] } : Splicer).embed before after =
      { s.embed before after with
        edits := (s.embed before after).edits ++ [e.moved (byteLength before)] } := by
  simp [embed]

theorem accept_eq_ok_iff {start stop : Nat} {text : String} :
    s.accept start stop text = .ok t ↔ IsRange s.source.toList start stop ∧
      (∀ e ∈ s.edits, e.conflicts start stop = false) ∧
      t = { s with edits := s.edits ++ [⟨start, stop, text⟩] } := by
  refine ⟨accept_eq_ok, ?_⟩
  rintro ⟨hrange, hfree, rfl⟩
  obtain ⟨u, hu⟩ := (s.exists_accept_iff start stop text).mpr ⟨hrange, hfree⟩
  rw [hu, (accept_eq_ok hu).2.2]

/-- An edit of the part is accepted exactly if the moved edit of the whole is. -/
theorem accept_embed {start stop : Nat} {text : String}
    (hstop : stop ≤ byteLength s.source.toList) :
    (s.embed before after).accept (start + byteLength before) (stop + byteLength before) text =
        .ok t ↔
      ∃ u, s.accept start stop text = .ok u ∧ t = u.embed before after := by
  have hstands : StandsAt s.source.toList (byteLength before)
      (s.embed before after).source.toList := ⟨before, after, by simp [embed], rfl⟩
  have hfree : (∀ e ∈ (s.embed before after).edits,
      e.conflicts (start + byteLength before) (stop + byteLength before) = false) ↔
        ∀ e ∈ s.edits, e.conflicts start stop = false := by
    simp only [embed, List.forall_mem_map, Edit.conflicts_moved]
  rw [accept_eq_ok_iff, hstands.isRange_add_iff hstop, hfree]
  constructor
  · rintro ⟨hrange, hclear, rfl⟩
    exact ⟨_, accept_eq_ok_iff.mpr ⟨hrange, hclear, rfl⟩, by rw [embed_append]; rfl⟩
  · rintro ⟨u, hu, rfl⟩
    obtain ⟨hrange, hclear, rfl⟩ := accept_eq_ok_iff.mp hu
    exact ⟨hrange, hclear, by rw [embed_append]; rfl⟩

/-- **One call**: the part accepts it exactly if the whole accepts the moved one. -/
theorem call?_embed {c : Call} (hc : c.Within (byteLength s.source.toList)) :
    (s.embed before after).call? (c.moved (byteLength before)) = .ok t ↔
      ∃ u, s.call? c = .ok u ∧ t = u.embed before after := by
  cases c with
  | insert pos text => exact accept_embed hc
  | overwrite start stop text =>
    show overwrite _ (start + byteLength before) (stop + byteLength before) text = .ok t ↔
      ∃ u, overwrite s start stop text = .ok u ∧ t = u.embed before after
    unfold overwrite
    by_cases hempty : start = stop
    -- an empty range is refused in the part and in the whole
    · rw [if_pos hempty, if_pos (congrArg (· + byteLength before) hempty)]
      constructor
      · intro h
        cases h
      · rintro ⟨u, hu, -⟩
        cases hu
    · rw [if_neg hempty, if_neg fun h => hempty (Nat.add_right_cancel h)]
      exact accept_embed hc
  | prepend text => exact hc.elim

/-- **A run of calls**, all of which are edits inside the part. -/
theorem foldlM_embed {cs : List Call} (hcs : ∀ c ∈ cs, c.Within (byteLength s.source.toList)) :
    (cs.map (Call.moved (byteLength before))).foldlM call? (s.embed before after) = .ok t ↔
      ∃ u, cs.foldlM call? s = .ok u ∧ t = u.embed before after := by
  induction cs generalizing s with
  | nil =>
    constructor
    · intro h
      cases h
      exact ⟨s, rfl, rfl⟩
    · rintro ⟨u, hu, rfl⟩
      cases hu
      rfl
  | cons c cs ih =>
    have hc := hcs c List.mem_cons_self
    -- what a call makes has the same source, so the rest stays inside the part
    have hrest : ∀ {u : Splicer}, s.call? c = .ok u →
        ∀ d ∈ cs, d.Within (byteLength u.source.toList) := by
      intro u hu d hd
      have hsource : u.source = s.source := by rw [← call_of_ok hu, source_call]
      rw [hsource]
      exact hcs d (List.mem_cons_of_mem c hd)
    rw [List.map_cons, List.foldlM_cons, List.foldlM_cons]
    constructor
    · intro h
      obtain ⟨v, hv, h⟩ := exists_of_bind_eq_ok h
      obtain ⟨u, hu, rfl⟩ := (call?_embed hc).mp hv
      obtain ⟨w, hw, rfl⟩ := (ih (hrest hu)).mp h
      exact ⟨w, by rw [hu]; exact hw, rfl⟩
    · rintro ⟨w, hw, rfl⟩
      obtain ⟨u, hu, hw⟩ := exists_of_bind_eq_ok hw
      rw [(call?_embed hc).mpr ⟨u, hu, rfl⟩]
      exact (ih (hrest hu)).mpr ⟨w, hw, rfl⟩

/-- Edits inside a part put nothing in front of it. -/
theorem intro_of_foldlM {size : Nat} {cs : List Call} (hcs : ∀ c ∈ cs, c.Within size)
    (h : cs.foldlM call? s = .ok t) : t.intro = s.intro := by
  induction cs generalizing s with
  | nil =>
    cases h
    rfl
  | cons c cs ih =>
    rw [List.foldlM_cons] at h
    obtain ⟨u, hu, h⟩ := exists_of_bind_eq_ok h
    rw [ih (fun d hd => hcs d (List.mem_cons_of_mem c hd)) h]
    rcases call?_eq_ok hu with ⟨text, rfl, -⟩ | ⟨e, -, -, -, -, rfl⟩
    · exact (hcs _ List.mem_cons_self).elim
    · rfl

/-- **The edited whole**: the edited part, between what stood before and behind it. -/
theorem finish_embed (hs : s.Sound) (hintro : s.intro = "") :
    (s.embed before after).finish.toList = before ++ (s.finish.toList ++ after) := by
  have hordered : (s.embed before after).ordered = s.ordered.map (Edit.moved (byteLength before)) :=
    (List.map_mergeSort fun a _ b _ => (Edit.before_moved _ a b).symm).symm
  have hwhole : splice (before ++ (s.source.toList ++ after)) 0
      (s.ordered.map (Edit.moved (byteLength before))) =
        before ++ (splice s.source.toList 0 s.ordered ++ after) := splice_whole hs.laid
  -- moving the edits does not change their order, so the sort may be taken inside
  rw [finish, finish, hordered]
  simp [embed, hintro, hwhole]

end Splicer

end BuildMacros
