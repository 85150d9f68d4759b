import BuildMacros.Proofs.SourceMap.Positions

/-! # What a drawing knows about the text it lays out

    Laying out a text is one step per character, before which a segment may be
    put down: `lay` is that loop over `Marked` characters. Two things hold along
    it. The open line and its column are where the text so far ends
    (`place_lay`). And segments only grow to the right (`Tidy`), because every
    segment is followed by a character of its own.

    So what a map says about a character is what the drawing said when the
    character was laid out: segments that come later on its line lie behind it
    (`exists_line_lay`, `lookup?_lay`).
-/

namespace BuildMacros.SourceMap

open BuildMacros.Text

/-! ## Section 1: Looking up a position -/

/-- The last segment of a line at or before a column. -/
def lastUpTo? (line : List Segment) (column : Nat) : Option Segment :=
  (line.filter fun s => s.column ≤ column).getLast?

/-- Where a position of the generated text comes from: the last segment at or before it on its
    line, and the distance from there. -/
def lookup? (lines : List (List Segment)) (p : Position) : Option Position :=
  (lines[p.line]?).bind fun line =>
    (lastUpTo? line p.column).map fun s => s.origin.advance (p.column - s.column)

/-! ## Section 2: Marked characters -/

/-- A character, and where the segment right before it points, when there is one. -/
structure Marked where
  char : Char
  mark : Option Position
deriving DecidableEq, Repr

namespace Drawing

/-- Puts down a segment when there is one. -/
def markIf (d : Drawing) : Option Position → Drawing
  | some p => d.mark p
  | none => d

/-- Lays out one marked character. -/
def put (d : Drawing) (x : Marked) : Drawing := (d.markIf x.mark).step x.char

/-- Lays out marked characters. -/
def lay (d : Drawing) (xs : List Marked) : Drawing := xs.foldl put d

theorem lay_cons (d : Drawing) (x : Marked) (xs : List Marked) :
    d.lay (x :: xs) = (d.put x).lay xs := rfl

theorem lay_append (d : Drawing) (xs ys : List Marked) :
    d.lay (xs ++ ys) = (d.lay xs).lay ys := List.foldl_append

/-- Text without segments. -/
theorem generated_eq_lay (d : Drawing) (cs : List Char) :
    d.generated cs = d.lay (cs.map fun c => ⟨c, none⟩) := by
  unfold generated lay
  rw [List.foldl_map]
  rfl

/-! ## Section 3: The place of a drawing -/

/-- The open line and the column reached in it. -/
def place (d : Drawing) : Position := ⟨d.finished.length, d.column⟩

/-- Where the place reached comes from: the last segment of the open line and the distance from
    it. -/
def open? (d : Drawing) : Option Position :=
  d.current.head?.map fun s => s.origin.advance (d.column - s.column)

theorem place_markIf (d : Drawing) (m : Option Position) : (d.markIf m).place = d.place := by
  cases m <;> rfl

theorem place_step_newline (d : Drawing) : (d.step '\n').place = ⟨d.place.line + 1, 0⟩ := rfl

theorem place_step_of_ne (d : Drawing) {c : Char} (h : c ≠ '\n') :
    (d.step c).place = d.place.advance (units16 c) := by
  unfold step
  rw [if_neg h]
  rfl

/-- The place of a drawing is where the text laid out so far ends. -/
theorem place_lay (xs : List Marked) : (empty.lay xs).place = endPosition (xs.map Marked.char) := by
  -- at the end of the text, where drawing and position grow alike
  induction xs using List.reverseRecOn with
  | nil => rfl
  | append_singleton xs x ih =>
    rw [lay_append, List.map_append, List.map_singleton, lay_cons]
    show ((empty.lay xs).put x).place = _
    unfold put
    by_cases h : x.char = '\n'
    · rw [h, place_step_newline, place_markIf, ih, endPosition_append_newline]
    · rw [place_step_of_ne _ h, place_markIf, ih, endPosition_append_of_ne _ h]

theorem length_toLines (d : Drawing) : d.toLines.length = d.place.line + 1 := by
  simp [toLines, place]

/-! ## Section 4: Segments grow to the right -/

/-- Columns grow along every line, and the open line has no segment at its end. -/
structure Tidy (d : Drawing) : Prop where
  finished : ∀ line ∈ d.finished, line.Pairwise fun a b => a.column < b.column
  current : d.current.Pairwise fun a b => b.column < a.column
  behind : ∀ s ∈ d.current, s.column < d.column

theorem Tidy.empty : Drawing.empty.Tidy :=
  ⟨by simp [Drawing.empty], by simp [Drawing.empty], by simp [Drawing.empty]⟩

/-- A segment that is put down is the last one of its line. -/
theorem Tidy.current_markIf {d : Drawing} (h : d.Tidy) (m : Option Position) :
    (d.markIf m).current.Pairwise (fun a b => b.column < a.column) ∧
      ∀ s ∈ (d.markIf m).current, s.column ≤ d.column := by
  cases m with
  | none => exact ⟨h.current, fun s hs => Nat.le_of_lt (h.behind s hs)⟩
  | some p =>
    refine ⟨List.pairwise_cons.mpr ⟨h.behind, h.current⟩, fun s hs => ?_⟩
    rcases List.mem_cons.mp hs with rfl | hs
    · exact Nat.le_refl _
    · exact Nat.le_of_lt (h.behind s hs)

/-- One more character keeps a drawing tidy. -/
theorem Tidy.put {d : Drawing} (h : d.Tidy) (x : Marked) : (d.put x).Tidy := by
  obtain ⟨hcurrent, hle⟩ := h.current_markIf x.mark
  have hfinished : (d.markIf x.mark).finished = d.finished := by cases x.mark <;> rfl
  have hcolumn : (d.markIf x.mark).column = d.column := by cases x.mark <;> rfl
  unfold Drawing.put step
  by_cases hx : x.char = '\n'
  · -- the open line is finished, and a line without segments is opened
    rw [if_pos hx]
    refine ⟨fun line hline => ?_, List.Pairwise.nil, by simp⟩
    rcases List.mem_cons.mp hline with rfl | hline
    · exact List.pairwise_reverse.mpr hcurrent
    · rw [hfinished] at hline
      exact h.finished line hline
  · -- the column moves on by one at least
    rw [if_neg hx]
    refine ⟨by rw [hfinished]; exact h.finished, hcurrent, fun s hs => ?_⟩
    have h₁ := hle s hs
    have h₂ := units16_pos x.char
    show s.column < (d.markIf x.mark).column + units16 x.char
    omega

theorem Tidy.lay {d : Drawing} (h : d.Tidy) (xs : List Marked) : (d.lay xs).Tidy := by
  induction xs generalizing d with
  | nil => exact h
  | cons x xs ih => exact ih (h.put x)

/-- In a tidy drawing the columns of every line grow. -/
theorem Tidy.toLines {d : Drawing} (h : d.Tidy) :
    ∀ line ∈ d.toLines, line.Pairwise fun a b => a.column < b.column := by
  intro line hline
  rw [Drawing.toLines, List.mem_reverse, List.mem_cons] at hline
  rcases hline with rfl | hline
  · exact List.pairwise_reverse.mpr h.current
  · exact h.finished line hline

/-! ## Section 5: What stays of a line -/

/-- Laying out more text adds to the open line, from its column on, and to nothing before it. -/
theorem exists_toLines_lay (d : Drawing) (xs : List Marked) :
    ∃ later rest, (d.lay xs).toLines =
        d.finished.reverse ++ (d.current.reverse ++ later) :: rest ∧
      ∀ s ∈ later, d.column ≤ s.column := by
  induction xs generalizing d with
  | nil => exact ⟨[], [], by simp [lay, toLines], by simp⟩
  | cons x xs ih =>
    obtain ⟨later, rest, hlines, hlater⟩ := ih (d.put x)
    -- a segment of its own is the only thing that a character adds to its line
    have hmark : ∃ added, (d.markIf x.mark).current.reverse = d.current.reverse ++ added ∧
        (d.markIf x.mark).finished = d.finished ∧ (d.markIf x.mark).column = d.column ∧
        ∀ s ∈ added, d.column ≤ s.column := by
      cases x.mark with
      | none => exact ⟨[], by simp [markIf], rfl, rfl, by simp⟩
      | some p =>
        refine ⟨[⟨d.column, p⟩], by simp [markIf, mark], rfl, rfl, fun s hs => ?_⟩
        obtain rfl := List.mem_singleton.mp hs
        exact Nat.le_refl _
    obtain ⟨added, hcurrent, hfinished, hcolumn, hadded⟩ := hmark
    rw [lay_cons, hlines]
    unfold put step
    by_cases hx : x.char = '\n'
    -- a newline finishes the line, so what follows goes to later ones
    · rw [if_pos hx]
      refine ⟨added, later :: rest, ?_, hadded⟩
      simp [hcurrent, hfinished, List.append_assoc]
    · rw [if_neg hx]
      refine ⟨added ++ later, rest, ?_, fun s hs => ?_⟩
      · simp [hcurrent, hfinished, List.append_assoc]
      · rcases List.mem_append.mp hs with hs | hs
        · exact hadded s hs
        · have hput := hlater s hs
          unfold put step at hput
          rw [if_neg hx] at hput
          have : (d.markIf x.mark).column + units16 x.char ≤ s.column := hput
          omega

/-- After one more character everything that is added to its line lies behind it. -/
theorem exists_toLines_lay_step (d : Drawing) (c : Char) (xs : List Marked) :
    ∃ later rest, ((d.step c).lay xs).toLines =
        d.finished.reverse ++ (d.current.reverse ++ later) :: rest ∧
      ∀ s ∈ later, d.column < s.column := by
  obtain ⟨later, rest, hlines, hlater⟩ := exists_toLines_lay (d.step c) xs
  unfold step at hlines hlater ⊢
  by_cases hc : c = '\n'
  · rw [if_pos hc] at hlines ⊢
    exact ⟨[], later :: rest, by rw [hlines]; simp, by simp⟩
  · rw [if_neg hc] at hlines hlater ⊢
    refine ⟨later, rest, hlines, fun s hs => ?_⟩
    have h₁ : d.column + units16 c ≤ s.column := hlater s hs
    have h₂ := units16_pos c
    omega

/-- **The line of a character.** In the finished drawing it begins as it stood when the character
    was laid out, and goes on behind the character. -/
theorem exists_line_lay (xs : List Marked) (x : Marked) (ys : List Marked) :
    ∃ later, (empty.lay (xs ++ x :: ys)).toLines[(endPosition (xs.map Marked.char)).line]? =
        some (((empty.lay xs).markIf x.mark).current.reverse ++ later) ∧
      ∀ s ∈ later, (endPosition (xs.map Marked.char)).column < s.column := by
  obtain ⟨later, rest, hlines, hlater⟩ :=
    exists_toLines_lay_step ((empty.lay xs).markIf x.mark) x.char ys
  have hplace : ((empty.lay xs).markIf x.mark).place = endPosition (xs.map Marked.char) := by
    rw [place_markIf, place_lay]
  refine ⟨later, ?_, fun s hs => ?_⟩
  · rw [lay_append, lay_cons]
    unfold put
    rw [hlines, ← hplace]
    have hlen : ((empty.lay xs).markIf x.mark).finished.reverse.length =
        ((empty.lay xs).markIf x.mark).place.line := List.length_reverse
    rw [← hlen, List.getElem?_append_right (Nat.le_refl _), Nat.sub_self]
    rfl
  · rw [← hplace]
    exact hlater s hs

/-- **What the map says about a character** is what the drawing said when the character was laid
    out. -/
theorem lookup?_lay (xs : List Marked) (x : Marked) (ys : List Marked) :
    lookup? (empty.lay (xs ++ x :: ys)).toLines (endPosition (xs.map Marked.char)) =
      ((empty.lay xs).markIf x.mark).open? := by
  obtain ⟨later, hline, hlater⟩ := exists_line_lay xs x ys
  obtain ⟨-, hle⟩ := (Tidy.empty.lay xs).current_markIf x.mark
  have hcolumn : ((empty.lay xs).markIf x.mark).column =
      (endPosition (xs.map Marked.char)).column := by
    rw [← place_lay, ← place_markIf _ x.mark]
    rfl
  have hcolumn' : (empty.lay xs).column = (endPosition (xs.map Marked.char)).column := by
    rw [← place_lay]
    rfl
  -- of the whole line exactly the segments up to the character count
  have hfilter : (((empty.lay xs).markIf x.mark).current.reverse ++ later).filter
      (fun s => s.column ≤ (endPosition (xs.map Marked.char)).column) =
        ((empty.lay xs).markIf x.mark).current.reverse := by
    rw [List.filter_append]
    have h₁ : later.filter
        (fun s => s.column ≤ (endPosition (xs.map Marked.char)).column) = [] := by
      rw [List.filter_eq_nil_iff]
      intro s hs
      have := hlater s hs
      simp only [decide_eq_true_eq]
      omega
    rw [h₁, List.append_nil, List.filter_eq_self]
    intro s hs
    have := hle s (List.mem_reverse.mp hs)
    simp only [decide_eq_true_eq]
    omega
  rw [lookup?, hline, Option.bind_some, lastUpTo?, hfilter, List.getLast?_reverse, open?, hcolumn]

/-- A segment that was put down before a character is found at the position of the character. -/
theorem exists_segment_lay (xs : List Marked) {x : Marked} {p : Position} (hx : x.mark = some p)
    (ys : List Marked) :
    ∃ line, (empty.lay (xs ++ x :: ys)).toLines[(endPosition (xs.map Marked.char)).line]? =
      some line ∧ ⟨(endPosition (xs.map Marked.char)).column, p⟩ ∈ line := by
  obtain ⟨later, hline, -⟩ := exists_line_lay xs x ys
  refine ⟨_, hline, ?_⟩
  have hcolumn : (empty.lay xs).column = (endPosition (xs.map Marked.char)).column := by
    rw [← place_lay]
    rfl
  rw [hx, ← hcolumn]
  simp [markIf, mark]

end Drawing

end BuildMacros.SourceMap
