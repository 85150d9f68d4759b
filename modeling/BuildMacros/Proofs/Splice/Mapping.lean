import BuildMacros.Proofs.Splice.Tracing

/-! # The map of an edited text lays out its glyphs

    `generateMap` goes through the edits piece by piece, and through copied text
    line by line. `drawing_eq_lay` says that this comes to laying out, one by one,
    the glyphs of the edited text. Nothing is drawn from outside the source:
    `generateMap?`, which checks every piece, always answers.
-/

namespace BuildMacros

open BuildMacros.Text BuildMacros.SourceMap

/-! ## Section 1: Drawing is laying out glyphs -/

namespace SourceMap.Drawing

/-- Lines copied from the source, when the first of them is open already. -/
def openLines (source : List Char) (d : Drawing) (pos : Nat) : List (List Char) → Drawing
  | [] => d
  | l :: ls =>
    match ls with
    | [] => d.generated l
    | _ => lines source ((d.generated l).step '\n') (pos + byteLength l + 1) ls

theorem lines_cons (source : List Char) (d : Drawing) (pos : Nat) (l : List Char)
    (ls : List (List Char)) :
    lines source d pos (l :: ls) =
      openLines source (if l.isEmpty then d else d.mark (locate source pos)) pos (l :: ls) := by
  cases l <;> cases ls <;> rfl

theorem openLines_cons (source : List Char) (d : Drawing) (pos : Nat) (c : Char)
    (l : List Char) (ls : List (List Char)) :
    openLines source d pos ((c :: l) :: ls) =
      openLines source (d.step c) (pos + c.utf8Size) (l :: ls) := by
  have hgen : d.generated (c :: l) = (d.step c).generated l := rfl
  cases ls with
  | nil => exact hgen
  | cons m ms =>
    show lines source ((d.generated (c :: l)).step '\n')
        (pos + byteLength (c :: l) + 1) (m :: ms) =
      lines source (((d.step c).generated l).step '\n')
        (pos + c.utf8Size + byteLength l + 1) (m :: ms)
    rw [hgen, byteLength, ← Nat.add_assoc pos]

/-- Copying line by line and laying out character by character are the same, both at the start of
    a line and inside one. -/
theorem lines_eq_lay (source : List Char) (d : Drawing) (pos : Nat) (cs : List Char) :
    lines source d pos (fields (· == '\n') cs) =
        d.lay ((Glyph.ofChunk source true pos cs).map Glyph.marked) ∧
      openLines source d pos (fields (· == '\n') cs) =
        d.lay ((Glyph.ofChunk source false pos cs).map Glyph.marked) := by
  induction cs generalizing d pos with
  | nil => exact ⟨rfl, rfl⟩
  | cons c cs ih =>
    -- the first line of the rest is opened by a newline, or else it is the line of the character
    obtain ⟨l, ls, hfields⟩ := List.exists_cons_of_ne_nil (@fields_ne_nil (· == '\n') cs)
    by_cases hc : c = '\n'
    · subst hc
      have hnext := (ih (d.step '\n') (pos + '\n'.utf8Size)).1
      rw [hfields] at hnext
      rw [fields_cons_of_sep rfl, hfields]
      refine ⟨?_, ?_⟩
      · exact hnext
      · exact hnext
    · have hsep : (c == '\n') = false := by simpa using hc
      rw [@fields_cons_of_not_sep (· == '\n') c hsep cs l ls hfields]
      refine ⟨?_, ?_⟩
      · have hnext := (ih ((d.mark (locate source pos)).step c) (pos + c.utf8Size)).2
        rw [hfields] at hnext
        rw [lines_cons, List.isEmpty_cons, if_neg (by simp), openLines_cons, hnext]
        rw [Glyph.ofChunk, List.map_cons, lay_cons, hsep]
        simp [put, markIf, Glyph.marked, hc]
      · have hnext := (ih (d.step c) (pos + c.utf8Size)).2
        rw [hfields] at hnext
        rw [openLines_cons, hnext, Glyph.ofChunk, List.map_cons, lay_cons, hsep]
        rfl

theorem chunk_eq_lay {source : List Char} (d : Drawing) {a b : Nat} (h : IsRange source a b) :
    chunk source d a b =
      d.lay ((Glyph.ofChunk source true a (slice source a b)).map Glyph.marked) := by
  unfold chunk
  -- an empty range is not gone through at all
  by_cases hle : b ≤ a
  · have heq : b = a := by
      have := h.le
      omega
    subst heq
    have hnil : slice source b b = [] := by
      obtain ⟨xs, ys, zs, rfl, hxs, hys⟩ := h.exists_append
      have hempty : ys = [] := by
        cases ys with
        | nil => rfl
        | cons y ys =>
          have := byteLength_pos_of_ne_nil (List.cons_ne_nil y ys)
          omega
      have hslice := slice_append_append xs ys zs
      rw [hempty] at hslice ⊢
      rw [hxs]
      exact hslice
    rw [if_pos hle, hnil]
    rfl
  · rw [if_neg hle]
    exact (lines_eq_lay source d a _).1

theorem replacement_eq_lay (source : List Char) (d : Drawing) (e : Edit) :
    replacement source d e.start e.text.toList =
      d.lay ((Glyph.ofEdit source e).map Glyph.marked) := by
  unfold replacement Glyph.ofEdit
  cases e.text.toList with
  | nil => rfl
  | cons c cs =>
    -- behind the first character there are no segments
    have hrest : ((cs.zipIdx 1).map fun x =>
        (⟨x.1, if x.2 = 0 then some (locate source e.start) else none, .edit e x.2⟩ : Glyph)).map
          Glyph.marked = cs.map fun c => ⟨c, none⟩ := by
      have hcongr : (cs.zipIdx 1).map (Glyph.marked ∘ fun x =>
          (⟨x.1, if x.2 = 0 then some (locate source e.start) else none, .edit e x.2⟩ : Glyph)) =
            (cs.zipIdx 1).map ((fun c => (⟨c, none⟩ : Marked)) ∘ Prod.fst) := by
        apply List.map_congr_left
        intro x hx
        have hpos := (List.mem_zipIdx hx).1
        simp [Glyph.marked, show x.2 ≠ 0 by omega]
      rw [List.map_map, hcongr, ← List.map_map, List.zipIdx_map_fst]
    rw [List.isEmpty_cons, if_neg (by simp), List.zipIdx_cons, List.map_cons, List.map_cons,
      lay_cons, hrest]
    exact generated_eq_lay _ cs

end SourceMap.Drawing

namespace Splicer

theorem draw_eq_lay {source : List Char} {cursor : Nat} {es : List Edit}
    (h : Laid source cursor es) (d : Drawing) :
    draw source cursor d es =
      d.lay ((interleave (Glyph.ofEdit source)
        (fun a b => Glyph.ofChunk source true a (slice source a b))
        (byteLength source) cursor es).map Glyph.marked) := by
  induction es generalizing cursor d with
  | nil => exact d.chunk_eq_lay h
  | cons e es ih =>
    rw [draw, Laid.max_eq h, ih h.2.2, Drawing.chunk_eq_lay d h.1, Drawing.replacement_eq_lay,
      interleave, List.map_append, List.map_append, Drawing.lay_append, Drawing.lay_append]

/-- The drawing that the map of a splicer writes down. -/
def drawing (s : Splicer) : Drawing :=
  draw s.source.toList 0 (Drawing.empty.generated s.intro.toList) s.ordered

theorem mappings_generateMap (s : Splicer) (file : String) :
    (s.generateMap file).mappings.toList = encode s.drawing.toLines := String.toList_ofList

theorem Sound.drawing_eq_lay {s : Splicer} (h : s.Sound) :
    s.drawing = Drawing.empty.lay (s.glyphs.map Glyph.marked) := by
  have hintro : s.intro.toList.map (fun c => (⟨c, none⟩ : Marked)) =
      (Glyph.ofIntro s.intro.toList).map Glyph.marked := by
    rw [Glyph.ofIntro, List.map_map]
    rfl
  rw [drawing, draw_eq_lay h.laid, Drawing.generated_eq_lay, glyphs, List.map_append,
    Drawing.lay_append, hintro]

/-! ## Section 2: Checked pieces -/

/-- The pieces that the map lays out from a cursor on. -/
def piecesFrom (source : List Char) (cursor : Nat) : List Edit → List Piece
  | [] => [.chunk cursor (byteLength source)]
  | e :: es =>
    .chunk cursor e.start :: .replacement e.start e.text.toList
      :: piecesFrom source (max e.stop cursor) es

/-- The map, every piece of which is checked: nothing when one of them refers to something that is
    no part of the source. -/
def generateMap? (s : Splicer) (file : String) : Option SourceMap :=
  let pieces := .generated s.intro.toList :: piecesFrom s.source.toList 0 s.ordered
  (pieces.foldlM (Drawing.add? s.source.toList) Drawing.empty).map fun d =>
    .new file s.source (String.ofList (encode d.toLines))

theorem add?_chunk {source : List Char} {a b : Nat} (h : IsRange source a b) (d : Drawing) :
    Drawing.add? source d (.chunk a b) = some (d.chunk source a b) := by
  simp [Drawing.add?, Drawing.isRange, h.start_boundary, h.stop_boundary]

theorem add?_replacement {source : List Char} {a : Nat} (h : isBoundary source a = true)
    (d : Drawing) (cs : List Char) :
    Drawing.add? source d (.replacement a cs) = some (d.replacement source a cs) := by
  simp [Drawing.add?, h]

/-- Over edits in order every piece refers to a part of the source. -/
theorem foldlM_piecesFrom {source : List Char} {cursor : Nat} {es : List Edit}
    (h : Laid source cursor es) (d : Drawing) :
    (piecesFrom source cursor es).foldlM (Drawing.add? source) d =
      some (draw source cursor d es) := by
  induction es generalizing cursor d with
  | nil =>
    rw [piecesFrom, List.foldlM_cons, add?_chunk h]
    rfl
  | cons e es ih =>
    obtain ⟨hcursor, hedit, hes⟩ := h
    have hmax := Laid.max_eq ⟨hcursor, hedit, hes⟩
    rw [piecesFrom, draw, hmax, List.foldlM_cons, add?_chunk hcursor]
    simp only [Option.bind_eq_bind, Option.bind_some, List.foldlM_cons,
      add?_replacement hedit.start_boundary, ih hes]

/-- **The map is always drawn**: no piece of it lies outside the source or cuts a character. -/
theorem Sound.generateMap?_eq {s : Splicer} (h : s.Sound) (file : String) :
    s.generateMap? file = some (s.generateMap file) := by
  have hfirst : Drawing.add? s.source.toList Drawing.empty (.generated s.intro.toList) =
      some (Drawing.empty.generated s.intro.toList) := rfl
  rw [generateMap?]
  simp only [List.foldlM_cons, hfirst, Option.bind_eq_bind, Option.bind_some,
    foldlM_piecesFrom h.laid]
  rfl

end Splicer

end BuildMacros
