import BuildMacros.Proofs.SourceMap.Decoding
import BuildMacros.Proofs.SourceMap.Layout
import BuildMacros.Proofs.Splice.Finish

/-! # Where the characters of an edited text come from

    `trace` is the edited text with a note at every character: it was put in
    front, kept from an offset of the source, or belongs to the text of an edit.
    It is put together offset by offset, as `standing` says.

    `generateMap` goes through the edits on its own. `glyphs` is what it goes
    through, character by character, with the segments that it puts down; leaving
    the segments out gives the trace again.
-/

namespace BuildMacros

open BuildMacros.Text BuildMacros.SourceMap

/-! ## Section 1: Origins -/

/-- Where a character of an edited text comes from. -/
inductive Origin where
  /-- It was put in front of everything. -/
  | intro
  /-- It stands at an offset of the source. -/
  | kept (offset : Nat)
  /-- It is the character with the given number in the text of an edit. -/
  | edit (e : Edit) (index : Nat)
deriving DecidableEq, Repr

/-- The characters of an edit with their origins. -/
def Edit.traced (e : Edit) : List (Char × Origin) :=
  e.text.toList.zipIdx.map fun (c, i) => (c, .edit e i)

/-- The character of a text that starts at an offset, if one does, with its origin. -/
def keptAt (source : List Char) (p : Nat) : List (Char × Origin) :=
  (slice source p (p + 1)).map fun c => (c, .kept p)

/-- The edited text with the origins of its characters. -/
def Splicer.trace (s : Splicer) : List (Char × Origin) :=
  s.intro.toList.map (fun c => (c, .intro))
    ++ (List.range (s.source.utf8ByteSize + 1)).flatMap
      (standing (keptAt s.source.toList) Edit.traced s.edits)

theorem standing_map {β γ : Type} (f : β → γ) (unit : Nat → List β) (text : Edit → List β)
    (es : List Edit) (p : Nat) : (standing unit text es p).map f =
      standing (fun q => (unit q).map f) (fun e => (text e).map f) es p := by
  unfold standing
  rw [List.map_append, List.map_append, List.map_flatMap, List.map_flatMap]
  split <;> rfl

theorem Edit.map_fst_traced (e : Edit) : e.traced.map Prod.fst = e.text.toList := by
  rw [Edit.traced, List.map_map]
  exact List.zipIdx_map_fst 0 _

/-- Without the notes the trace is the edited text. -/
theorem Splicer.Sound.map_fst_trace {s : Splicer} (h : s.Sound) :
    s.trace.map Prod.fst = s.finish.toList := by
  have hfinish : id s.finish.toList = id s.intro.toList ++
      (List.range (byteLength s.source.toList + 1)).flatMap
        (standing (fun p => slice s.source.toList p (p + 1)) (fun e => id e.text.toList) s.edits) :=
    h.hom_finish (fun _ _ => rfl) (fun a b hab => slice_eq_flatMap hab) (slice_byteLength _ _)
  rw [id, id] at hfinish
  rw [hfinish, trace, List.map_append, List.map_map, List.map_flatMap, utf8ByteSize_eq]
  congr 1
  · simp [Function.comp_def]
  · apply List.flatMap_congr
    intro p _
    rw [standing_map]
    simp only [Edit.map_fst_traced, keptAt, List.map_map, Function.comp_def, List.map_id', id]

/-- Every accepted edit is in the trace with its whole text. -/
theorem Splicer.Sound.mem_trace {s : Splicer} (h : s.Sound) {e : Edit} (he : e ∈ s.edits)
    {x : Char × Origin} (hx : x ∈ e.traced) : x ∈ s.trace := by
  have hrange := h.ranges e he
  have hle : e.start ≤ byteLength s.source.toList := Nat.le_trans hrange.le hrange.stop_le
  rw [trace, List.mem_append, List.mem_flatMap]
  refine .inr ⟨e.start, List.mem_range.mpr (by rw [utf8ByteSize_eq]; omega), ?_⟩
  -- insertions and replacements stand at their offset in different places
  unfold standing
  rw [List.mem_append, List.mem_append, List.mem_flatMap, List.mem_flatMap]
  left
  cases hins : e.isInsert with
  | true => exact .inl ⟨e, List.mem_filter.mpr ⟨he, by simp [hins]⟩, hx⟩
  | false => exact .inr ⟨e, List.mem_filter.mpr ⟨he, by simp [hins]⟩, hx⟩

/-! ## Section 2: Ranges that are kept -/

namespace Splicer

/-- The text of a range stands in the edited text in one piece, as it stands in the source. -/
def Keeps (s : Splicer) (start stop : Nat) : Prop :=
  (List.range' start (stop - start)).flatMap (keptAt s.source.toList) <:+: s.trace

/-- **What no edit touches is kept.** Replacements may end where the range starts, but nothing may
    be inserted there. -/
theorem keeps_of_forall {s : Splicer} {start stop : Nat}
    (hrange : IsRange s.source.toList start stop)
    (hfree : ∀ e ∈ s.edits, e.start < start ∧ e.stop ≤ start ∨ stop ≤ e.start) :
    s.Keeps start stop := by
  have hle := hrange.le
  have hstop := hrange.stop_le
  have hinside : (List.range' start (stop - start)).flatMap
      (standing (keptAt s.source.toList) Edit.traced s.edits) =
        (List.range' start (stop - start)).flatMap (keptAt s.source.toList) := by
    refine flatMap_range'_congr fun p hstart hp => ?_
    refine standing_of_free (fun e he => ?_) fun e he => ?_
    · have := hfree e he
      omega
    · have := hfree e he
      rw [Edit.covers, Bool.and_eq_false_iff, decide_eq_false_iff_not, decide_eq_false_iff_not]
      omega
  have hparts := flatMap_range'_split (standing (keptAt s.source.toList) Edit.traced s.edits)
    (Nat.zero_le start) (Nat.le_succ_of_le (Nat.le_trans hle hstop))
  rw [flatMap_range'_split _ hle (Nat.le_succ_of_le hstop), hinside] at hparts
  rw [Keeps, trace, utf8ByteSize_eq, List.range_eq_range', ← Nat.sub_zero (byteLength _ + 1),
    hparts]
  -- in front of the range stand the texts put in front and what the edits make of its left
  exact ⟨_ ++ _, _, by simp only [List.append_assoc]; rfl⟩

/-- What is replaced is not kept. -/
theorem not_covers_of_kept {s : Splicer} {c : Char} {p : Nat} (h : (c, .kept p) ∈ s.trace) :
    ∀ e ∈ s.edits, e.covers p = false := by
  have htraced : ∀ es : List Edit, (c, Origin.kept p) ∉ es.flatMap Edit.traced := by
    intro es hmem
    obtain ⟨e, -, hmem⟩ := List.mem_flatMap.mp hmem
    obtain ⟨x, -, hx⟩ := List.mem_map.mp hmem
    cases hx
  rw [trace, List.mem_append, List.mem_flatMap] at h
  rcases h with h | ⟨q, -, h⟩
  · obtain ⟨x, -, hx⟩ := List.mem_map.mp h
    cases hx
  · rw [standing, List.mem_append, List.mem_append] at h
    rcases h with (h | h) | h
    · exact absurd h (htraced _)
    · exact absurd h (htraced _)
    · split at h
      · cases h
      · next hnone =>
        obtain ⟨x, -, hx⟩ := List.mem_map.mp h
        cases hx
        exact fun e he => Bool.not_eq_true _ |>.mp fun hcovers =>
          hnone (List.any_eq_true.mpr ⟨e, he, hcovers⟩)

/-- **No replaced range is kept.** -/
theorem Sound.not_keeps {s : Splicer} (h : s.Sound) {e : Edit} (he : e ∈ s.edits)
    (hlt : e.start < e.stop) : ¬s.Keeps e.start e.stop := by
  intro hkeeps
  have hrange := h.ranges e he
  -- the range has a character, which is replaced
  obtain ⟨c, hc⟩ := List.exists_mem_of_ne_nil _ (hrange.slice_ne_nil hlt)
  rw [slice_eq_flatMap hrange] at hc
  obtain ⟨p, hp, hc⟩ := List.mem_flatMap.mp hc
  have hmem : (c, Origin.kept p) ∈ s.trace := by
    refine hkeeps.subset (List.mem_flatMap.mpr ⟨p, hp, ?_⟩)
    exact List.mem_map.mpr ⟨c, hc, rfl⟩
  obtain ⟨i, hi, rfl⟩ := List.mem_range'.mp hp
  have hcovers := not_covers_of_kept hmem e he
  rw [Edit.covers, Bool.and_eq_false_iff, decide_eq_false_iff_not, decide_eq_false_iff_not]
    at hcovers
  omega

end Splicer

/-! ## Section 3: What the map goes through -/

/-- A character with the segment before it and its origin. -/
structure Glyph where
  char : Char
  mark : Option Position
  origin : Origin

namespace Glyph

/-- The character as a drawing lays it out. -/
def marked (g : Glyph) : Marked := ⟨g.char, g.mark⟩

/-- The character as the trace notes it. -/
def traced (g : Glyph) : Char × Origin := (g.char, g.origin)

/-- The text put in front. -/
def ofIntro (cs : List Char) : List Glyph := cs.map fun c => ⟨c, none, .intro⟩

/-- A part of the source from an offset on. The first character of each line gets a segment;
    `fresh` says that a line begins here. -/
def ofChunk (source : List Char) (fresh : Bool) (pos : Nat) : List Char → List Glyph
  | [] => []
  | c :: cs =>
    ⟨c, if fresh && c != '\n' then some (locate source pos) else none, .kept pos⟩
      :: ofChunk source (c == '\n') (pos + c.utf8Size) cs

/-- The text of an edit. Its first character gets a segment. -/
def ofEdit (source : List Char) (e : Edit) : List Glyph :=
  e.text.toList.zipIdx.map fun (c, i) =>
    ⟨c, if i = 0 then some (locate source e.start) else none, .edit e i⟩

theorem map_traced_ofChunk (source : List Char) (fresh : Bool) (pos : Nat) (cs : List Char) :
    (ofChunk source fresh pos cs).map traced = (located pos cs).map fun x => (x.1, .kept x.2) := by
  induction cs generalizing fresh pos with
  | nil => rfl
  | cons c cs ih =>
    rw [ofChunk, located, List.map_cons, List.map_cons, ih]
    rfl

theorem map_traced_ofEdit (source : List Char) (e : Edit) :
    (ofEdit source e).map traced = e.traced := by
  rw [ofEdit, Edit.traced, List.map_map]
  rfl

end Glyph

/-- The characters of the edited text in the order in which the map goes through them. -/
def Splicer.glyphs (s : Splicer) : List Glyph :=
  Glyph.ofIntro s.intro.toList
    ++ interleave (Glyph.ofEdit s.source.toList)
      (fun a b => Glyph.ofChunk s.source.toList true a (slice s.source.toList a b))
      (byteLength s.source.toList) 0 s.ordered

/-- The map goes through the characters of the edited text. -/
theorem Splicer.Sound.map_traced_glyphs {s : Splicer} (h : s.Sound) :
    s.glyphs.map Glyph.traced = s.trace := by
  have hchunk : ∀ a b, IsRange s.source.toList a b →
      (Glyph.ofChunk s.source.toList true a (slice s.source.toList a b)).map Glyph.traced =
        (List.range' a (b - a)).flatMap (keptAt s.source.toList) := by
    intro a b hab
    rw [Glyph.map_traced_ofChunk, located_slice hab, List.map_flatMap]
    simp only [List.map_map, Function.comp_def]
    rfl
  -- no character of the source stands at its end
  have hend : keptAt s.source.toList (byteLength s.source.toList) = [] := by
    rw [keptAt, slice_byteLength]
    rfl
  rw [glyphs, List.map_append, interleave_hom (fun _ _ => List.map_append), trace]
  simp only [Glyph.map_traced_ofEdit]
  rw [interleave_eq_standing h.laid hchunk hend, Nat.sub_zero, ← List.range_eq_range',
    utf8ByteSize_eq]
  congr 1
  · rw [Glyph.ofIntro, List.map_map]
    rfl
  · apply List.flatMap_congr
    intro p _
    exact standing_mergeSort s.edits p

end BuildMacros
