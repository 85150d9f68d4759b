import BuildMacros.Proofs.SourceMap.Vlq
import BuildMacros.Proofs.Text.Fields
import BuildMacros.SourceMap.Mappings

/-! # Reading the mappings of a source map

    `decode?` reads a `mappings` field by the rules of the format, version 3, and
    knows nothing of how it was written. Semicolons divide groups, one for each
    generated line, and commas the segments of a group. A segment has one, four
    or five numbers, and each of them is relative to the last number of its kind:
    the generated column in the same group, all others in the whole map.

    What `encode` writes is read back as it was (`decode?_encode`).
-/

namespace BuildMacros.SourceMap

open BuildMacros.Text

/-! ## Section 1: The format -/

/-- What one segment says: a generated column, where it comes from, and a name. -/
structure Mapping where
  column : Int
  /-- Number of the source, line and column in it. -/
  origin : Option (Int × Int × Int)
  name : Option Int
deriving DecidableEq, Repr

/-- The numbers that the next ones are relative to. -/
structure Totals where
  column : Int
  source : Int
  line : Int
  originColumn : Int
  name : Int

/-- The start of a map. -/
def Totals.zero : Totals := ⟨0, 0, 0, 0, 0⟩

/-- One segment. -/
def readSegment (t : Totals) : List Int → Option (Totals × Mapping)
  | [c] => some ({ t with column := t.column + c }, ⟨t.column + c, none, none⟩)
  | [c, s, l, k] =>
    let t' : Totals := ⟨t.column + c, t.source + s, t.line + l, t.originColumn + k, t.name⟩
    some (t', ⟨t'.column, some (t'.source, t'.line, t'.originColumn), none⟩)
  | [c, s, l, k, n] =>
    let t' : Totals := ⟨t.column + c, t.source + s, t.line + l, t.originColumn + k, t.name + n⟩
    some (t', ⟨t'.column, some (t'.source, t'.line, t'.originColumn), some t'.name⟩)
  | _ => none

/-- The segments of a group. -/
def readSegments (t : Totals) : List (List Char) → Option (Totals × List Mapping)
  | [] => some (t, [])
  | p :: ps =>
    (Vlq.decodeAll p).bind fun ns =>
      (readSegment t ns).bind fun first =>
        (readSegments first.1 ps).map fun rest => (rest.1, first.2 :: rest.2)

/-- Groups; the generated column starts anew in each of them. -/
def readGroups (t : Totals) : List (List Char) → Option (List (List Mapping))
  | [] => some []
  | g :: gs =>
    let segments := if g.isEmpty then [] else fields (· == ',') g
    (readSegments { t with column := 0 } segments).bind fun first =>
      (readGroups first.1 gs).map fun rest => first.2 :: rest

/-- The groups of a `mappings` field. -/
def decode? (cs : List Char) : Option (List (List Mapping)) :=
  readGroups .zero (fields (· == ';') cs)

/-! ## Section 2: Reading back -/

/-- What a segment of a map with one source says. -/
def Segment.mapping (s : Segment) : Mapping :=
  ⟨s.column, some (0, s.origin.line, s.origin.column), none⟩

/-- The totals after a segment with a given column and origin. -/
def Totals.at (column : Nat) (origin : Position) : Totals :=
  ⟨column, 0, origin.line, origin.column, 0⟩

theorem decodeAll_encodeSegment (column : Nat) (origin : Position) (s : Segment) :
    Vlq.decodeAll (encodeSegment column origin s) =
      some [(s.column : Int) - column, 0, (s.origin.line : Int) - origin.line,
        (s.origin.column : Int) - origin.column] := by
  have h := Vlq.decodeAll_flatMap_encode [(s.column : Int) - column, 0,
    (s.origin.line : Int) - origin.line, (s.origin.column : Int) - origin.column]
  simpa [encodeSegment, List.append_assoc] using h

theorem readSegment_difference (column : Nat) (origin : Position) (s : Segment) :
    readSegment (.at column origin) [(s.column : Int) - column, 0,
      (s.origin.line : Int) - origin.line, (s.origin.column : Int) - origin.column] =
        some (.at s.column s.origin, s.mapping) := by
  have hback : ∀ a b : Int, a + (b - a) = b := by
    intro a b
    omega
  simp [readSegment, Totals.at, Segment.mapping, hback]

/-- Column of the last segment of a line, or the column before it. -/
def lastColumn (column : Nat) (line : List Segment) : Nat :=
  (line.getLast?.map Segment.column).getD column

/-- A line is read back, and leaves the totals at its last segment. -/
theorem readSegments_encodeLine (column : Nat) (origin : Position) (line : List Segment) :
    readSegments (.at column origin) (encodeLine column origin line) =
      some (.at (lastColumn column line) (lastOrigin origin line), line.map Segment.mapping) := by
  induction line generalizing column origin with
  | nil => rfl
  | cons s ss ih =>
    -- the totals after a longer line are those after its rest
    have hlast : lastColumn s.column ss = lastColumn column (s :: ss) ∧
        lastOrigin s.origin ss = lastOrigin origin (s :: ss) := by
      unfold lastColumn lastOrigin
      rw [List.getLast?_cons]
      cases ss.getLast? <;> exact ⟨rfl, rfl⟩
    rw [encodeLine, readSegments, decodeAll_encodeSegment, Option.bind_some,
      readSegment_difference, Option.bind_some, ih, hlast.1, hlast.2]
    rfl

theorem encodeSegment_ne_nil (column : Nat) (origin : Position) (s : Segment) :
    encodeSegment column origin s ≠ [] := by
  simp [encodeSegment, Vlq.encode_ne_nil]

theorem mem_alphabet_of_mem_encodeLine {column : Nat} {origin : Position} {line : List Segment} :
    ∀ p ∈ encodeLine column origin line, ∀ c ∈ p, c ∈ Vlq.alphabet := by
  induction line generalizing column origin with
  | nil => simp [encodeLine]
  | cons s ss ih =>
    intro p hp c hc
    rcases List.mem_cons.mp hp with rfl | hp
    · simp only [encodeSegment, List.mem_append] at hc
      rcases hc with ((hc | hc) | hc) | hc <;> exact Vlq.mem_alphabet_of_mem_encode hc
    · exact ih p hp c hc

theorem comma_not_mem_alphabet : ',' ∉ Vlq.alphabet := by decide

theorem semicolon_not_mem_alphabet : ';' ∉ Vlq.alphabet := by decide

/-- The segments of a written line; an empty line has none. -/
theorem segments_join_encodeLine (column : Nat) (origin : Position) (line : List Segment) :
    (if (join [','] (encodeLine column origin line)).isEmpty then []
      else fields (· == ',') (join [','] (encodeLine column origin line))) =
        encodeLine column origin line := by
  -- an empty line would be read as one segment without numbers, hence the case
  cases line with
  | nil => rfl
  | cons s ss =>
    have hne : join [','] (encodeLine column origin (s :: ss)) ≠ [] :=
      join_ne_nil (encodeSegment_ne_nil column origin s) _
    rw [if_neg (by simpa using hne)]
    apply fields_join
    · simp [encodeLine]
    · intro p hp hc
      exact comma_not_mem_alphabet (mem_alphabet_of_mem_encodeLine p hp _ hc)

theorem semicolon_not_mem_encodeLines {origin : Position} {lines : List (List Segment)} :
    ∀ g ∈ encodeLines origin lines, ';' ∉ g := by
  induction lines generalizing origin with
  | nil => simp [encodeLines]
  | cons l ls ih =>
    intro g hg hc
    rcases List.mem_cons.mp hg with rfl | hg
    · rcases mem_join hc with hc | ⟨p, hp, hc⟩
      · simp at hc
      · exact semicolon_not_mem_alphabet (mem_alphabet_of_mem_encodeLine p hp _ hc)
    · exact ih g hg hc

theorem readGroups_encodeLines (column : Nat) (origin : Position) (lines : List (List Segment)) :
    readGroups (.at column origin) (encodeLines origin lines) =
      some (lines.map (·.map Segment.mapping)) := by
  induction lines generalizing column origin with
  | nil => rfl
  | cons l ls ih =>
    -- only the column starts anew; the other totals go on across lines
    have hcolumn : ({ Totals.at column origin with column := 0 } : Totals) = .at 0 origin := rfl
    rw [encodeLines, readGroups, hcolumn, segments_join_encodeLine, readSegments_encodeLine]
    simp only [Option.bind_some, ih]
    rfl

/-- **What is written is read back**: the lines of a map, line by line. -/
theorem decode?_encode {lines : List (List Segment)} (h : lines ≠ []) :
    decode? (encode lines) = some (lines.map (·.map Segment.mapping)) := by
  have hne : encodeLines ⟨0, 0⟩ lines ≠ [] := by
    cases lines with
    | nil => exact absurd rfl h
    | cons l ls => simp [encodeLines]
  rw [decode?, encode, fields_join hne semicolon_not_mem_encodeLines]
  exact readGroups_encodeLines 0 ⟨0, 0⟩ lines

end BuildMacros.SourceMap
