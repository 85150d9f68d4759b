import BuildMacros.Proofs.Splice.Embedding
import Mathlib.Data.List.Nodup

/-! # Insertions into a part of a text

    The edits of a script are insertions of one kind or another. What insertions into a
    part do to the whole is what they do to the part (`finish_insertions`).

    The text with insertions is written down here without a splicer, for the sake of
    those who ask what the parser makes of it (`inserted`).

    An edit that puts back what it replaces, with a text at one of its boundaries, is an
    insertion in disguise (`Edit.Restores`). Where all edits are of that kind, nothing of
    the source is lost or moved (`Sound.finish_of_restores`).
-/

namespace BuildMacros

open BuildMacros.Text

/-! ## Section 1: Insertions -/

/-- A text inserted at an offset. -/
def Edit.insertion (x : Nat × String) : Edit := ⟨x.1, x.1, x.2⟩

namespace Splicer

/-- The text with insertions at some of its offsets, in the order of the offsets. -/
def inserted (text : List Char) (xs : List (Nat × String)) : List Char :=
  splice text 0 ((xs.map Edit.insertion).mergeSort Edit.before)

/-- Insertions that come in the order of their offsets are made as they come. -/
theorem inserted_of_pairwise (text : List Char) {xs : List (Nat × String)}
    (h : xs.Pairwise fun x y => x.1 ≤ y.1) :
    inserted text xs = splice text 0 (xs.map Edit.insertion) := by
  have hbefore : (xs.map Edit.insertion).Pairwise fun a b => a.before b = true := by
    refine List.pairwise_map.mpr (h.imp fun {x y} hxy => ?_)
    have hle : x.1 ≤ y.1 := hxy
    rw [Edit.before, Bool.or_eq_true]
    rcases Nat.lt_or_eq_of_le hle with hlt | heq
    · exact .inl (decide_eq_true hlt)
    · refine .inr (Bool.and_eq_true_iff.mpr ⟨beq_iff_eq.mpr heq, ?_⟩)
      simp [Edit.insertion, Edit.isInsert]
  rw [inserted, List.mergeSort_of_pairwise hbefore]

/-- Insertions at boundaries never conflict. -/
theorem sound_insertions {text : List Char} {xs : List (Nat × String)}
    (h : ∀ x ∈ xs, IsRange text x.1 x.1) :
    (⟨String.ofList text, "", xs.map Edit.insertion⟩ : Splicer).Sound := by
  refine ⟨fun e he => ?_, List.pairwise_map.mpr (List.pairwise_of_forall fun x y => ?_)⟩
  · obtain ⟨x, hx, rfl⟩ := List.mem_map.mp he
    simpa [Edit.insertion] using h x hx
  · simp [Edit.conflicts, Edit.insertion, Edit.isInsert]

/-- Insertions at boundaries are laid in the text. -/
theorem laid_insertions {text : List Char} {xs : List (Nat × String)}
    (h : ∀ x ∈ xs, IsRange text x.1 x.1) :
    Laid text 0 ((xs.map Edit.insertion).mergeSort Edit.before) := by
  simpa [ordered] using (sound_insertions h).laid

/-- A batch of insertions that is carried out leaves nothing but its insertions. -/
theorem eq_of_foldlM_insert {s t : Splicer} {xs : List (Nat × String)}
    (h : xs.foldlM (fun s x => s.insert x.1 x.2) s = .ok t) :
    t = { s with edits := s.edits ++ xs.map Edit.insertion } := by
  induction xs generalizing s with
  | nil =>
    cases h
    simp
  | cons x xs ih =>
    rw [List.foldlM_cons] at h
    obtain ⟨u, hx, hrest⟩ := exists_of_bind_eq_ok h
    obtain ⟨-, -, rfl⟩ := accept_eq_ok hx
    rw [ih hrest]
    simp [Edit.insertion]

/-- **Insertions into a part** of a text: the part with the insertions, between what stood before
    and behind it. -/
theorem finish_insertions {source : String} {before part after : List Char}
    (hsource : source.toList = before ++ (part ++ after)) {xs : List (Nat × String)}
    (hxs : ∀ x ∈ xs, IsRange part x.1 x.1) {s : Splicer}
    (hs : (xs.map fun x => (x.1 + byteLength before, x.2)).foldlM
      (fun s x => s.insert x.1 x.2) (new source) = .ok s) :
    s.finish.toList = before ++ (inserted part xs ++ after) := by
  have hembed : s =
      (⟨String.ofList part, "", xs.map Edit.insertion⟩ : Splicer).embed before after := by
    have hmoved : (xs.map fun x => (x.1 + byteLength before, x.2)).map Edit.insertion =
        (xs.map Edit.insertion).map (Edit.moved (byteLength before)) := by
      rw [List.map_map, List.map_map]
      rfl
    rw [eq_of_foldlM_insert hs, hmoved]
    simp [embed, new, ← hsource]
  rw [hembed, finish_embed (sound_insertions hxs) rfl]
  simp [finish, ordered, inserted]

end Splicer

/-! ## Section 2: Edits that put back what they replace -/

/-- The edit puts back what it replaces, with a text inserted at one of its boundaries. -/
structure Edit.Restores (source : List Char) (e : Edit) (x : Nat × String) : Prop where
  before : IsRange source e.start x.1
  after : IsRange source x.1 e.stop
  text : e.text.toList = slice source e.start x.1 ++ (x.2.toList ++ slice source x.1 e.stop)

theorem Edit.restores_insertion {source : List Char} {x : Nat × String}
    (h : IsRange source x.1 x.1) : (insertion x).Restores source x := by
  refine ⟨h, h, ?_⟩
  simp [insertion, slice_self h]

/-- Edits that are laid from some offset on are laid from an earlier one on. -/
theorem Laid.extend {source : List Char} {a b : Nat} {es : List Edit} (hab : IsRange source a b)
    (h : Laid source b es) : Laid source a es := by
  cases es with
  | nil => exact hab.trans h
  | cons e es => exact ⟨hab.trans h.1, h.2⟩

namespace Splicer

/-- What stands in front of the cursor may be cut off first. -/
theorem slice_append_splice {source : List Char} {a b : Nat} {es : List Edit}
    (hab : IsRange source a b) (h : Laid source b es) :
    slice source a b ++ splice source b es = splice source a es := by
  cases es with
  | nil =>
    have hwhole : IsRange source a (byteLength source) := hab.trans h
    have h : IsRange source b (byteLength source) := h
    rw [splice, splice, dropBytes_eq_slice h, dropBytes_eq_slice hwhole, slice_append_slice hab h]
  | cons e es =>
    have hextend := Laid.max_eq (Laid.extend hab h)
    rw [splice, splice, Laid.max_eq h, hextend, ← slice_append_slice hab h.1]
    simp only [List.append_assoc]

section

variable {α : Type} {edit : α → Edit} {mark : α → Nat × String}

/-- Edits in order that put back what they replace are insertions in order. -/
theorem splice_of_restores {source : List Char} {cursor : Nat} {as : List α}
    (hlaid : Laid source cursor (as.map edit))
    (h : ∀ a ∈ as, (edit a).Restores source (mark a)) :
    Laid source cursor ((as.map mark).map Edit.insertion) ∧
      splice source cursor (as.map edit) =
        splice source cursor ((as.map mark).map Edit.insertion) := by
  induction as generalizing cursor with
  | nil => exact ⟨hlaid, rfl⟩
  | cons a as ih =>
    obtain ⟨hcursor, -, hrest⟩ := hlaid
    obtain ⟨hbefore, hafter, htext⟩ := h a List.mem_cons_self
    obtain ⟨hmarks, hsplice⟩ := ih hrest fun b hb => h b (List.mem_cons_of_mem a hb)
    have hmark : IsRange source (mark a).1 (mark a).1 :=
      ⟨Nat.le_refl _, hbefore.stop_le, hbefore.stop_boundary, hbefore.stop_boundary⟩
    have hlaid' : Laid source cursor (((a :: as).map mark).map Edit.insertion) :=
      ⟨hcursor.trans hbefore, hmark, hmarks.extend hafter⟩
    refine ⟨hlaid', ?_⟩
    have hmax : max (edit a).stop cursor = (edit a).stop := by
      have hle := hcursor.le
      have hle' := hbefore.le
      have hle'' := hafter.le
      omega
    -- what is left of the replaced range joins what stands before the next edit
    show slice source cursor (edit a).start ++ (edit a).text.toList ++
        splice source (max (edit a).stop cursor) (as.map edit) =
      slice source cursor (mark a).1 ++ (mark a).2.toList ++
        splice source (max (mark a).1 cursor) ((as.map mark).map Edit.insertion)
    have hmax' : max (mark a).1 cursor = (mark a).1 := Laid.max_eq hlaid'
    rw [hmax, hmax', htext, hsplice, ← slice_append_slice hcursor hbefore,
      ← slice_append_splice hafter hmarks]
    simp only [List.append_assoc]

/-- What insertions make stand at an offset. -/
theorem standing_insertions {β : Type} (unit : Nat → List β) (text : Edit → List β)
    (xs : List (Nat × String)) (p : Nat) :
    standing unit text (xs.map Edit.insertion) p =
      (xs.filter (·.1 == p)).flatMap (fun x => text (.insertion x)) ++ unit p := by
  have hinsert : ∀ x, (Edit.insertion x).isInsert = true := by
    intro x
    simp [Edit.insertion, Edit.isInsert]
  have hcovers : ∀ x, (Edit.insertion x).covers p = false := by
    intro x
    show (decide (x.1 ≤ p) && decide (p < x.1)) = false
    simp only [Bool.and_eq_false_iff, decide_eq_false_iff_not]
    omega
  simp [standing, List.filter_map, List.flatMap_map, List.any_map, Function.comp_def, hinsert,
    hcovers]
  rfl

/-- Of insertions at different offsets at most one is made at each offset, in whichever order. -/
theorem filter_eq_of_perm {xs ys : List (Nat × String)} (hperm : xs.Perm ys)
    (hnodup : (xs.map Prod.fst).Nodup) (p : Nat) :
    xs.filter (·.1 == p) = ys.filter (·.1 == p) := by
  have hclass := hperm.filter (·.1 == p)
  have hone : ((xs.map Prod.fst).filter (· == p)).length ≤ 1 := by
    rw [← List.countP_eq_length_filter]
    exact List.nodup_iff_count_le_one.mp hnodup p
  rw [List.filter_map, List.length_map] at hone
  have hone : (xs.filter (·.1 == p)).length ≤ 1 := hone
  generalize xs.filter (·.1 == p) = zs at hclass hone ⊢
  rcases zs with _ | ⟨z, _ | ⟨z', zs⟩⟩
  · exact (List.nil_perm.mp hclass).symm
  · exact List.singleton_perm.mp hclass
  · simp at hone

/-- **Edits that put back what they replace** only insert: at every offset stand the text that is
    inserted there and what the source has there. -/
theorem Sound.finish_of_restores {s : Splicer} (hs : s.Sound) (hintro : s.intro = "")
    {as : List α} (hedits : s.edits = as.map edit)
    (h : ∀ a ∈ as, (edit a).Restores s.source.toList (mark a))
    (hnodup : ((as.map mark).map Prod.fst).Nodup) :
    s.finish.toList = (List.range (byteLength s.source.toList + 1)).flatMap fun p =>
      ((as.map mark).filter (·.1 == p)).flatMap (fun x => x.2.toList) ++
        slice s.source.toList p (p + 1) := by
  -- the sort is done before the edits are looked at as insertions
  let sorted := as.mergeSort fun a b => (edit a).before (edit b)
  have hordered : s.ordered = sorted.map edit := by
    have hsort : sorted.map edit = (as.map edit).mergeSort Edit.before :=
      List.map_mergeSort fun _ _ _ _ => rfl
    rw [ordered, hedits, hsort]
  have hperm : (sorted.map mark).Perm (as.map mark) := (List.mergeSort_perm as _).map mark
  have hlaid := hs.laid
  rw [hordered] at hlaid
  obtain ⟨hmarks, hsplice⟩ := splice_of_restores hlaid fun a ha => h a (List.mem_mergeSort.mp ha)
  have hend : slice s.source.toList (byteLength s.source.toList)
      (byteLength s.source.toList + 1) = [] := slice_byteLength _ _
  rw [finish, hintro, String.toList_append, String.toList_empty, List.nil_append,
    String.toList_ofList, hordered, hsplice, splice_eq_interleave hmarks,
    interleave_eq_standing hmarks (fun a b hab => slice_eq_flatMap hab) hend,
    Nat.sub_zero, ← List.range_eq_range']
  apply List.flatMap_congr
  intro p _
  rw [standing_insertions, filter_eq_of_perm hperm ((hperm.map Prod.fst).nodup_iff.mpr hnodup)]
  rfl

end

end Splicer

end BuildMacros
