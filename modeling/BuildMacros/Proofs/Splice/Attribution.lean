import BuildMacros.Proofs.Splice.Mapping

/-! # What the map says about the edited text

    What the map says about a character is what the last segment of its line said
    when the character was laid out. `Guided` states that this is right for all
    glyphs of a list, given what is said before the first one.

    A piece guides itself, whatever is said before it, because each of its lines
    starts with a segment of its own. So lists that guide themselves can be put
    together, and the whole text is guided (`Sound.guided`).
-/

namespace BuildMacros

open BuildMacros.Text BuildMacros.SourceMap

/-! ## Section 1: Guided glyphs -/

namespace Glyph

/-- What is said about a glyph, when `here` is what would be said without its own segment. -/
def said (here : Option Position) (g : Glyph) : Option Position := g.mark.or here

/-- What is said right behind a glyph. A new line says nothing. -/
def after (here : Option Position) (g : Glyph) : Option Position :=
  if g.char = '\n' then none else (g.said here).map fun p => p.advance (units16 g.char)

/-- What is said about a glyph is right. Text kept from the source comes from where it stood there,
    and the first character of an edit has a segment for the start of the edit. -/
structure Right (source : List Char) (here : Option Position) (g : Glyph) : Prop where
  kept : ∀ offset, g.origin = .kept offset → g.char ≠ '\n' →
    g.said here = some (position source offset)
  edit : ∀ e, g.origin = .edit e 0 → g.mark = some (position source e.start)

end Glyph

/-- Everything that is said about a list of glyphs is right. -/
def Guided (source : List Char) (here : Option Position) : List Glyph → Prop
  | [] => True
  | g :: gs => g.Right source here ∧ Guided source (g.after here) gs

theorem Guided.append {source : List Char} {here : Option Position} {xs ys : List Glyph}
    (hxs : Guided source here xs) (hys : ∀ here, Guided source here ys) :
    Guided source here (xs ++ ys) := by
  induction xs generalizing here with
  | nil => exact hys here
  | cons x xs ih => exact ⟨hxs.1, ih hxs.2⟩

/-- Glyphs about which there is nothing to say. -/
theorem Guided.of_forall {source : List Char} {here : Option Position} {gs : List Glyph}
    (hkept : ∀ g ∈ gs, ∀ offset, g.origin ≠ .kept offset)
    (hedit : ∀ g ∈ gs, ∀ e, g.origin ≠ .edit e 0) : Guided source here gs := by
  induction gs generalizing here with
  | nil => trivial
  | cons g gs ih =>
    refine ⟨⟨fun o ho => ?_, fun e he => ?_⟩, ih ?_ ?_⟩
    · exact absurd ho (hkept g List.mem_cons_self o)
    · exact absurd he (hedit g List.mem_cons_self e)
    · exact fun x hx => hkept x (List.mem_cons_of_mem _ hx)
    · exact fun x hx => hedit x (List.mem_cons_of_mem _ hx)

/-! ## Section 2: Pieces guide themselves -/

theorem guided_ofIntro (source : List Char) (here : Option Position) (cs : List Char) :
    Guided source here (Glyph.ofIntro cs) := by
  apply Guided.of_forall
  · intro g hg offset
    obtain ⟨c, _, rfl⟩ := List.mem_map.mp hg
    exact Origin.noConfusion
  · intro g hg e
    obtain ⟨c, _, rfl⟩ := List.mem_map.mp hg
    exact Origin.noConfusion

theorem guided_ofEdit {source : List Char} {e : Edit} (h : isBoundary source e.start = true)
    (here : Option Position) : Guided source here (Glyph.ofEdit source e) := by
  unfold Glyph.ofEdit
  cases e.text.toList with
  | nil => trivial
  | cons c cs =>
    rw [List.zipIdx_cons, List.map_cons]
    refine ⟨⟨fun _ ho => Origin.noConfusion ho, fun a ha => ?_⟩, ?_⟩
    · injection ha with hea _
      subst hea
      exact congrArg some (locate_eq_position h)
    · -- behind the first character nothing has an offset
      apply Guided.of_forall
      · intro g hg offset
        obtain ⟨x, _, rfl⟩ := List.mem_map.mp hg
        exact Origin.noConfusion
      · intro g hg a ha
        obtain ⟨x, hx, rfl⟩ := List.mem_map.mp hg
        injection ha with _ hzero
        have := (List.mem_zipIdx hx).1
        omega

/-- Behind a character the position has moved on by the units of the character. -/
theorem position_next (xs : List Char) {c : Char} (hc : c ≠ '\n') (ys : List Char) :
    position (xs ++ c :: ys) (byteLength xs + c.utf8Size) =
      (position (xs ++ c :: ys) (byteLength xs)).advance (units16 c) := by
  have hlen : byteLength (xs ++ [c]) = byteLength xs + c.utf8Size := by
    rw [byteLength_append]
    rfl
  rw [position_append, ← endPosition_append_of_ne xs hc, ← hlen]
  have happend : xs ++ c :: ys = (xs ++ [c]) ++ ys := by simp
  rw [happend, position_append]

/-- Copied text guides itself from the start of a line on, and in a line from where the position is
    said already. -/
theorem guided_ofChunk {here : Option Position} (fresh : Bool) (xs ys zs : List Char)
    (h : fresh = true ∨ here = some (position (xs ++ (ys ++ zs)) (byteLength xs))) :
    Guided (xs ++ (ys ++ zs)) here
      (Glyph.ofChunk (xs ++ (ys ++ zs)) fresh (byteLength xs) ys) := by
  induction ys generalizing fresh xs here with
  | nil => trivial
  | cons c ys ih =>
    have hlocate : locate (xs ++ (c :: ys ++ zs)) (byteLength xs) =
        position (xs ++ (c :: ys ++ zs)) (byteLength xs) :=
      locate_eq_position (isBoundary_append xs _)
    have hsource : xs ++ (c :: ys ++ zs) = (xs ++ [c]) ++ (ys ++ zs) := by simp
    have hlen : byteLength (xs ++ [c]) = byteLength xs + c.utf8Size := by
      rw [byteLength_append]
      rfl
    -- at the start of a line the segment says it, inside a line the text before
    have hsaid : c ≠ '\n' →
        (if (fresh && c != '\n') = true then
            some (locate (xs ++ (c :: ys ++ zs)) (byteLength xs)) else none).or here =
          some (position (xs ++ (c :: ys ++ zs)) (byteLength xs)) := by
      intro hc
      rcases h with rfl | h
      · rw [if_pos (by simpa using hc), hlocate]
        rfl
      · rw [h, hlocate]
        cases fresh <;> simp [hc]
    refine ⟨⟨fun o ho hc => ?_, fun _ he => Origin.noConfusion he⟩, ?_⟩
    · injection ho with ho
      rw [← ho]
      exact hsaid hc
    · -- a newline starts a fresh line; within a line the position moves on with the text
      have hnext : (c == '\n') = true ∨
          Glyph.after here ⟨c, if (fresh && c != '\n') = true then
            some (locate (xs ++ (c :: ys ++ zs)) (byteLength xs)) else none,
              .kept (byteLength xs)⟩ =
            some (position ((xs ++ [c]) ++ (ys ++ zs)) (byteLength (xs ++ [c]))) := by
        by_cases hc : c = '\n'
        · left
          simpa using hc
        · right
          have hadvance := position_next xs hc (ys ++ zs)
          rw [← hsource, hlen]
          rw [Glyph.after, if_neg hc, Glyph.said, hsaid hc]
          exact congrArg some hadvance.symm
      have hrest := ih (c == '\n') (xs ++ [c]) hnext
      rw [← hsource, hlen] at hrest
      exact hrest

theorem guided_slice {source : List Char} {a b : Nat} (h : IsRange source a b)
    (here : Option Position) :
    Guided source here (Glyph.ofChunk source true a (slice source a b)) := by
  obtain ⟨xs, ys, zs, rfl, rfl, rfl⟩ := h.exists_append
  rw [slice_append_append]
  exact guided_ofChunk true xs ys zs (.inl rfl)

theorem guided_interleave {source : List Char} {cursor : Nat} {es : List Edit}
    (h : Laid source cursor es) (here : Option Position) :
    Guided source here (interleave (Glyph.ofEdit source)
      (fun a b => Glyph.ofChunk source true a (slice source a b))
      (byteLength source) cursor es) := by
  induction es generalizing cursor here with
  | nil => exact guided_slice h here
  | cons e es ih =>
    obtain ⟨hcursor, hedit, hes⟩ := h
    have hpiece : ∀ here, Guided source here (Glyph.ofEdit source e) :=
      guided_ofEdit hedit.start_boundary
    exact ((guided_slice hcursor here).append hpiece).append (ih hes)

/-- **The whole text is guided**: the map says the right thing at every glyph. -/
theorem Splicer.Sound.guided {s : Splicer} (h : s.Sound) (here : Option Position) :
    Guided s.source.toList here s.glyphs :=
  (guided_ofIntro _ here _).append (guided_interleave h.laid)

/-! ## Section 3: A drawing says what its glyphs say -/

namespace SourceMap.Drawing

theorem open?_markIf (d : Drawing) (m : Option Position) :
    (d.markIf m).open? = m.or d.open? := by
  cases m with
  | none => rfl
  | some p => simp [markIf, mark, open?, Position.advance]

theorem open?_put {d : Drawing} (h : d.Tidy) (g : Glyph) :
    (d.put g.marked).open? = g.after d.open? := by
  have hmark : (d.markIf g.mark).open? = g.said d.open? := open?_markIf d g.mark
  have hcolumn : (d.markIf g.mark).column = d.column := by cases g.mark <;> rfl
  have hle := (h.current_markIf g.mark).2
  show ((d.markIf g.mark).step g.char).open? = _
  unfold step Glyph.after
  by_cases hc : g.char = '\n'
  · rw [if_pos hc, if_pos hc]
    rfl
  · rw [if_neg hc, if_neg hc, ← hmark]
    cases hcurrent : (d.markIf g.mark).current with
    | nil => simp [open?, hcurrent]
    | cons s ss =>
      -- the distance from the segment grows with the column
      have hs : s.column ≤ (d.markIf g.mark).column := by
        rw [hcolumn]
        exact hle s (by simp [hcurrent])
      simp only [open?, hcurrent, List.head?_cons, Option.map_some, Option.some.injEq,
        Position.advance, Position.mk.injEq, true_and]
      omega

/-- Along guided glyphs the drawing is right at each of them. -/
theorem right_of_guided {source : List Char} {d : Drawing} (hd : d.Tidy) {xs : List Glyph}
    {g : Glyph} {ys : List Glyph} (h : Guided source d.open? (xs ++ g :: ys)) :
    g.Right source (d.lay (xs.map Glyph.marked)).open? := by
  induction xs generalizing d with
  | nil => exact h.1
  | cons x xs ih =>
    rw [List.map_cons, lay_cons]
    refine ih (hd.put _) ?_
    rw [open?_put hd]
    exact h.2

end SourceMap.Drawing

/-! ## Section 4: The map by characters -/

namespace Splicer

theorem Sound.map_char_glyphs {s : Splicer} (h : s.Sound) :
    (s.glyphs.map Glyph.marked).map Marked.char = s.finish.toList := by
  rw [← h.map_fst_trace, ← h.map_traced_glyphs, List.map_map, List.map_map]
  rfl

/-- The glyph of a character of the trace, with what stands before and behind it. -/
theorem Sound.exists_glyph {s : Splicer} (h : s.Sound) {i : Nat} {x : Char × Origin}
    (hx : s.trace[i]? = some x) :
    ∃ before g behind, s.glyphs = before ++ g :: behind ∧ g.traced = x ∧
      (before.map Glyph.marked).map Marked.char = s.finish.toList.take i := by
  rw [← h.map_traced_glyphs, List.getElem?_map, Option.map_eq_some_iff] at hx
  obtain ⟨g, hg, htraced⟩ := hx
  obtain ⟨hi, hget⟩ := List.getElem?_eq_some_iff.mp hg
  refine ⟨s.glyphs.take i, g, s.glyphs.drop (i + 1), ?_, htraced, ?_⟩
  · rw [← hget, ← List.drop_eq_getElem_cons hi, List.take_append_drop]
  · rw [← h.map_char_glyphs, List.map_take, List.map_take]

/-- What the map says about a character kept from the source. -/
theorem Sound.lookup?_kept {s : Splicer} (h : s.Sound) {i : Nat} {c : Char} {offset : Nat}
    (hkept : s.trace[i]? = some (c, .kept offset)) (hc : c ≠ '\n') :
    lookup? s.drawing.toLines (endPosition (s.finish.toList.take i)) =
      some (position s.source.toList offset) := by
  obtain ⟨before, g, behind, hglyphs, htraced, hbefore⟩ := h.exists_glyph hkept
  have hchar : g.char = c := congrArg Prod.fst htraced
  have horigin : g.origin = .kept offset := congrArg Prod.snd htraced
  -- the text is guided whatever is said before it, so also from the empty drawing on
  have hguided := h.guided Drawing.empty.open?
  rw [hglyphs] at hguided
  have hright := Drawing.right_of_guided Drawing.Tidy.empty hguided
  rw [h.drawing_eq_lay, hglyphs, List.map_append, List.map_cons, ← hbefore, Drawing.lookup?_lay,
    Drawing.open?_markIf]
  exact hright.kept offset horigin (by rwa [hchar])

/-- The map has a segment at the first character of an edit. -/
theorem Sound.exists_segment_edit {s : Splicer} (h : s.Sound) {i : Nat} {c : Char} {e : Edit}
    (hedit : s.trace[i]? = some (c, .edit e 0)) :
    ∃ line, s.drawing.toLines[(endPosition (s.finish.toList.take i)).line]? = some line ∧
      ⟨(endPosition (s.finish.toList.take i)).column, position s.source.toList e.start⟩ ∈ line := by
  obtain ⟨before, g, behind, hglyphs, htraced, hbefore⟩ := h.exists_glyph hedit
  have horigin : g.origin = .edit e 0 := congrArg Prod.snd htraced
  have hguided := h.guided Drawing.empty.open?
  rw [hglyphs] at hguided
  have hright := Drawing.right_of_guided Drawing.Tidy.empty hguided
  rw [h.drawing_eq_lay, hglyphs, List.map_append, List.map_cons, ← hbefore]
  exact Drawing.exists_segment_lay _ (hright.edit e horigin) _

/-- The trace has the first character of every edit that has one. -/
theorem Sound.exists_first {s : Splicer} (h : s.Sound) {e : Edit} (he : e ∈ s.edits) {c : Char}
    {cs : List Char} (htext : e.text.toList = c :: cs) :
    ∃ i : Nat, s.trace[i]? = some (c, .edit e 0) := by
  have hfirst : (c, Origin.edit e 0) ∈ e.traced := by
    rw [Edit.traced, htext, List.zipIdx_cons, List.map_cons]
    exact List.mem_cons_self
  exact List.mem_iff_getElem?.mp (h.mem_trace he hfirst)

/-- **The map of an edited text, character by character.** Whatever is called on a splicer, its map
    is drawn without leaving the source and is read back as groups of segments, one group for each
    line of the edited text, with growing columns. A character kept from the source, other than a
    newline, is mapped to where it stood; and the first character of every edit has a segment of
    its own, which points to the start of the edit. -/
theorem decode?_generateMap_run (source : String) (calls : List Call) (file : String) :
    let s := run source calls
    let pos := fun i => endPosition (s.finish.toList.take i)
    s.generateMap? file = some (s.generateMap file) ∧
    s.trace.map Prod.fst = s.finish.toList ∧
    ∃ groups : List (List Segment),
      decode? (s.generateMap file).mappings.toList =
        some (groups.map fun group => group.map Segment.mapping) ∧
      groups.length = s.finish.toList.count '\n' + 1 ∧
      (∀ group ∈ groups, group.Pairwise fun a b => a.column < b.column) ∧
      (∀ i c offset, s.trace[i]? = some (c, .kept offset) → c ≠ '\n' →
        lookup? groups (pos i) = some (position source.toList offset)) ∧
      (∀ e ∈ s.edits, ∀ c cs, e.text.toList = c :: cs →
        ∃ i : Nat, s.trace[i]? = some (c, .edit e 0)) ∧
      (∀ i c e, s.trace[i]? = some (c, .edit e 0) →
        ∃ group, groups[(pos i).line]? = some group ∧
          ⟨(pos i).column, position source.toList e.start⟩ ∈ group) := by
  intro s pos
  have hsound : s.Sound := Sound.run source calls
  have hsource : s.source = source := source_foldl_call (new source) calls
  have hne : s.drawing.toLines ≠ [] := by
    intro hnil
    have := Drawing.length_toLines s.drawing
    rw [hnil] at this
    simp at this
  refine ⟨hsound.generateMap?_eq file, hsound.map_fst_trace, s.drawing.toLines, ?_, ?_, ?_, ?_, ?_,
    ?_⟩
  · rw [mappings_generateMap, decode?_encode hne]
  · rw [Drawing.length_toLines, hsound.drawing_eq_lay, Drawing.place_lay, hsound.map_char_glyphs]
    rfl
  · rw [hsound.drawing_eq_lay]
    exact (Drawing.Tidy.empty.lay _).toLines
  · intro i c offset hkept hc
    have hlookup := hsound.lookup?_kept hkept hc
    rwa [hsource] at hlookup
  · exact fun e he c cs htext => hsound.exists_first he htext
  · intro i c e hedit
    have hsegment := hsound.exists_segment_edit hedit
    rwa [hsource] at hsegment

end Splicer

end BuildMacros
