import BuildMacros.Proofs.Text.Slices
import BuildMacros.SourceMap.Mappings
import Mathlib.Data.List.Induction

/-! # Lines and columns

    The position of an offset is where the text before it ends. `locate` finds
    it by searching the offsets at which lines start; `locate_eq_position` says
    that it finds the right one, at every boundary of the text.
-/

namespace BuildMacros.SourceMap

open BuildMacros.Text

/-! ## Section 1: The end of a text -/

/-- The position of an offset: where the text before it ends. -/
def position (source : List Char) (offset : Nat) : Position := endPosition (slice source 0 offset)

/-- A position further on in its line. -/
def Position.advance (p : Position) (n : Nat) : Position := ⟨p.line, p.column + n⟩

theorem position_append (xs ys : List Char) :
    position (xs ++ ys) (byteLength xs) = endPosition xs := by
  rw [position, slice_zero_append]

theorem endPosition_append_newline (cs : List Char) :
    endPosition (cs ++ ['\n']) = ⟨(endPosition cs).line + 1, 0⟩ := by
  simp [endPosition, length16]

theorem endPosition_append_of_ne (cs : List Char) {c : Char} (h : c ≠ '\n') :
    endPosition (cs ++ [c]) = (endPosition cs).advance (units16 c) := by
  have hcount : (cs ++ [c]).count '\n' = cs.count '\n' := by
    rw [List.count_append, List.count_singleton]
    simp [h]
  have htake : (cs ++ [c]).reverse.takeWhile (· != '\n') =
      c :: cs.reverse.takeWhile (· != '\n') := by
    rw [List.reverse_append, List.reverse_singleton, List.singleton_append,
      List.takeWhile_cons_of_pos (by simpa using h)]
  rw [endPosition, hcount, htake, length16]
  simp [Position.advance, endPosition, Nat.add_comm]

theorem units16_pos (c : Char) : 0 < units16 c := by
  unfold units16
  split <;> omega

/-- A text is whole lines and an open one. -/
theorem exists_open_line (cs : List Char) :
    ∃ whole line, cs = whole ++ line ∧ endPosition cs = ⟨whole.count '\n', length16 line⟩ ∧
      (whole = [] ∨ ∃ ws, whole = ws ++ ['\n']) := by
  -- at the end of the text, where the open line grows
  induction cs using List.reverseRecOn with
  | nil => exact ⟨[], [], rfl, rfl, .inl rfl⟩
  | append_singleton cs c ih =>
    obtain ⟨whole, line, hcs, hend, hwhole⟩ := ih
    by_cases hc : c = '\n'
    · subst hc
      refine ⟨cs ++ ['\n'], [], by rw [List.append_nil], ?_, .inr ⟨cs, rfl⟩⟩
      rw [endPosition_append_newline]
      simp [endPosition, length16]
    · refine ⟨whole, line ++ [c], by rw [hcs, List.append_assoc], ?_, hwhole⟩
      rw [endPosition_append_of_ne cs hc, hend, length16_append]
      simp [Position.advance, length16]

/-! ## Section 2: Where lines start -/

theorem lineStartsAfter_append (pos : Nat) (xs ys : List Char) :
    lineStartsAfter pos (xs ++ ys) =
      lineStartsAfter pos xs ++ lineStartsAfter (pos + byteLength xs) ys := by
  induction xs generalizing pos with
  | nil => rfl
  | cons c xs ih =>
    rw [List.cons_append, lineStartsAfter, lineStartsAfter, byteLength, ← Nat.add_assoc]
    simp only [ih]
    split <;> rfl

theorem lineStartsAfter_bounds {pos : Nat} {cs : List Char} :
    ∀ n ∈ lineStartsAfter pos cs, pos < n ∧ n ≤ pos + byteLength cs := by
  induction cs generalizing pos with
  | nil => simp [lineStartsAfter]
  | cons c cs ih =>
    intro n hn
    have hc := Char.utf8Size_pos c
    simp only [byteLength]
    have hrest : n ∈ lineStartsAfter (pos + c.utf8Size) cs → pos < n ∧
        n ≤ pos + (c.utf8Size + byteLength cs) := by
      intro h
      have := ih n h
      omega
    simp only [lineStartsAfter] at hn
    split at hn
    · rcases List.mem_cons.mp hn with rfl | hn
      · omega
      · exact hrest hn
    · exact hrest hn

theorem length_lineStartsAfter (pos : Nat) (cs : List Char) :
    (lineStartsAfter pos cs).length = cs.count '\n' := by
  induction cs generalizing pos with
  | nil => rfl
  | cons c cs ih =>
    rw [lineStartsAfter]
    split
    · next h => rw [h, List.length_cons, ih, List.count_cons_self]
    · next h => rw [ih, List.count_cons_of_ne h]

/-- The last line that starts in a text of whole lines starts at its end, all others before. -/
theorem exists_lineStarts_whole {whole : List Char}
    (h : whole = [] ∨ ∃ ws, whole = ws ++ ['\n']) :
    ∃ earlier, 0 :: lineStartsAfter 0 whole = earlier ++ [byteLength whole] ∧
      earlier.length = whole.count '\n' ∧ ∀ n ∈ earlier, n < byteLength whole := by
  rcases h with rfl | ⟨ws, rfl⟩
  · exact ⟨[], rfl, rfl, by simp⟩
  · have hlen : byteLength (ws ++ ['\n']) = byteLength ws + 1 := by
      rw [byteLength_append]
      rfl
    refine ⟨0 :: lineStartsAfter 0 ws, ?_, ?_, ?_⟩
    · rw [lineStartsAfter_append, hlen, Nat.zero_add]
      rfl
    · rw [List.length_cons, length_lineStartsAfter, List.count_append]
      rfl
    · intro n hn
      rw [hlen]
      rcases List.mem_cons.mp hn with rfl | hn
      · omega
      · have := (lineStartsAfter_bounds n hn).2
        omega

/-- The search finds the last start that does not lie behind an offset. -/
theorem lineOf_append {earlier later : List Nat} {start offset : Nat} (hle : start ≤ offset)
    (hearlier : ∀ n ∈ earlier, n < start) (hlater : ∀ n ∈ later, offset < n) :
    lineOf (earlier ++ start :: later) offset = earlier.length := by
  have hnot : offset ∉ earlier := fun h => by
    have := hearlier _ h
    omega
  unfold lineOf search
  -- the offset is a start itself and is found, or it would be inserted behind one
  by_cases heq : start = offset
  · subst heq
    have hidx : (earlier ++ start :: later).idxOf? start = some earlier.length := by
      rw [List.idxOf?, List.findIdx?_append, List.findIdx?_cons]
      have hnone : earlier.findIdx? (· == start) = none := by
        rw [List.findIdx?_eq_none_iff]
        intro n hn
        simp only [beq_eq_false_iff_ne]
        rintro rfl
        exact hnot hn
      simp [hnone]
    rw [hidx]
  · have hidx : (earlier ++ start :: later).idxOf? offset = none := by
      rw [List.idxOf?_eq_none_iff]
      intro h
      rcases List.mem_append.mp h with h | h
      · exact hnot h
      · rcases List.mem_cons.mp h with h | h
        · exact heq h.symm
        · have := hlater _ h
          omega
    have hcount : (earlier ++ start :: later).countP (· < offset) = earlier.length + 1 := by
      have h₁ : earlier.countP (· < offset) = earlier.length := by
        rw [List.countP_eq_length]
        intro n hn
        have := hearlier n hn
        simp only [decide_eq_true_eq]
        omega
      have h₂ : later.countP (· < offset) = 0 := by
        rw [List.countP_eq_zero]
        intro n hn
        have := hlater n hn
        simp only [decide_eq_true_eq]
        omega
      have h₃ : start < offset := by omega
      rw [List.countP_append, List.countP_cons, h₁, h₂, if_pos (decide_eq_true h₃)]
    rw [hidx, hcount]
    rfl

/-- **The search over line starts finds the position of every boundary.** -/
theorem locate_eq_position {source : List Char} {offset : Nat}
    (h : isBoundary source offset = true) : locate source offset = position source offset := by
  obtain ⟨xs, ys, rfl, rfl⟩ := exists_append_of_isBoundary h
  obtain ⟨whole, line, rfl, hend, hwhole⟩ := exists_open_line xs
  obtain ⟨earlier, hstarts, hlen, hearlier⟩ := exists_lineStarts_whole hwhole
  rw [position_append, hend, List.append_assoc]
  -- no line starts in the open line but at its start
  have hopen : lineStartsAfter (byteLength whole) line = [] := by
    have hcount : ((whole ++ line).count '\n') = whole.count '\n' := congrArg Position.line hend
    rw [List.count_append] at hcount
    apply List.eq_nil_of_length_eq_zero
    rw [length_lineStartsAfter]
    omega
  have hall : lineStarts (whole ++ (line ++ ys)) = earlier ++ byteLength whole ::
      lineStartsAfter (byteLength whole + byteLength line) ys := by
    rw [lineStarts, lineStartsAfter_append, Nat.zero_add, lineStartsAfter_append, hopen,
      List.nil_append, ← List.cons_append, hstarts, List.append_assoc, List.singleton_append]
  have hline : lineOf (lineStarts (whole ++ (line ++ ys))) (byteLength (whole ++ line)) =
      whole.count '\n' := by
    rw [hall, byteLength_append, lineOf_append (by omega) hearlier, hlen]
    exact fun n hn => (lineStartsAfter_bounds n hn).1
  have hstart : (lineStarts (whole ++ (line ++ ys))).getD (whole.count '\n') 0 =
      byteLength whole := by
    rw [hall, ← hlen, List.getD_eq_getElem?_getD, List.getElem?_append_right (Nat.le_refl _)]
    simp
  simp only [locate, hline, hstart]
  rw [byteLength_append, slice_append_append]

end BuildMacros.SourceMap
