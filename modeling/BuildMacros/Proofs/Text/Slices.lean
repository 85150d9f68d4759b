import BuildMacros.Text.Basic

/-! # Cutting a text at its boundaries

    Facts about `slice`, `dropBytes` and `isBoundary` that hold at boundaries,
    all of them drawn from one: an offset is a boundary exactly when the text
    is two texts put together, the first of which is that many bytes long. A
    range between two boundaries is therefore the middle of three texts, and
    what `slice` does to it can be computed.

    `bytes` is the UTF-8 encoding itself. On ranges `slice` cuts characters out
    where the encoding has these bytes.
-/

namespace BuildMacros.Text

/-! ## Section 1: The encoding -/

/-- UTF-8 encoding of a text. -/
def bytes (cs : List Char) : List UInt8 := cs.flatMap String.utf8EncodeChar

@[simp] theorem bytes_append (xs ys : List Char) : bytes (xs ++ ys) = bytes xs ++ bytes ys := by
  simp [bytes]

theorem length_bytes (cs : List Char) : (bytes cs).length = byteLength cs := by
  induction cs with
  | nil => rfl
  | cons c cs ih =>
    have hcons : bytes (c :: cs) = String.utf8EncodeChar c ++ bytes cs := rfl
    rw [hcons, List.length_append, ih, String.length_utf8EncodeChar, byteLength]

/-- Bytes of a string. -/
def utf8 (s : String) : List UInt8 := s.toUTF8.data.toList

theorem utf8_eq_bytes (s : String) : utf8 s = bytes s.toList := by
  rw [utf8, String.toUTF8_eq_toByteArray, ← String.utf8Encode_toList, List.utf8Encode]
  simp [bytes]

theorem utf8ByteSize_eq (s : String) : s.utf8ByteSize = byteLength s.toList := by
  rw [← length_bytes, ← utf8_eq_bytes]
  rfl

theorem byteLength_pos_of_ne_nil {cs : List Char} (h : cs ≠ []) : 0 < byteLength cs := by
  cases cs with
  | nil => exact absurd rfl h
  | cons c cs =>
    have hc := Char.utf8Size_pos c
    simp only [byteLength]
    omega

/-! ## Section 2: Boundaries -/

theorem isBoundary_zero (cs : List Char) : isBoundary cs 0 = true := by
  cases cs <;> simp [isBoundary]

theorem isBoundary_append (xs ys : List Char) : isBoundary (xs ++ ys) (byteLength xs) = true := by
  induction xs with
  | nil => exact isBoundary_zero ys
  | cons c xs ih => simp [isBoundary, byteLength, ih]

theorem isBoundary_byteLength (cs : List Char) : isBoundary cs (byteLength cs) = true := by
  have h := isBoundary_append cs []
  rwa [List.append_nil] at h

theorem isBoundary_append_of_le (xs ys : List Char) {pos : Nat} (h : byteLength xs ≤ pos) :
    isBoundary (xs ++ ys) pos = isBoundary ys (pos - byteLength xs) := by
  induction xs generalizing pos with
  | nil => simp [byteLength]
  | cons c xs ih =>
    have hc := Char.utf8Size_pos c
    simp only [byteLength] at h ⊢
    have hne : (pos == 0) = false := by simpa using (by omega : pos ≠ 0)
    have hle : c.utf8Size ≤ pos := by omega
    rw [List.cons_append, isBoundary, hne, ih (by omega), Nat.sub_sub]
    simp [hle]

/-- Boundaries inside the head of a text are boundaries of the head. -/
theorem isBoundary_append_of_ge (xs ys : List Char) {pos : Nat} (h : pos ≤ byteLength xs) :
    isBoundary (xs ++ ys) pos = isBoundary xs pos := by
  induction xs generalizing pos with
  | nil =>
    obtain rfl : pos = 0 := Nat.le_zero.mp h
    rw [isBoundary_zero, isBoundary_zero]
  | cons c xs ih =>
    rw [byteLength] at h
    rw [List.cons_append, isBoundary, isBoundary, ih (by omega)]

/-- A boundary divides the text. -/
theorem exists_append_of_isBoundary {cs : List Char} {pos : Nat} (h : isBoundary cs pos = true) :
    ∃ before after, cs = before ++ after ∧ byteLength before = pos := by
  induction cs generalizing pos with
  | nil =>
    have hpos : pos = 0 := by simpa [isBoundary] using h
    exact ⟨[], [], rfl, hpos.symm⟩
  | cons c cs ih =>
    -- either the boundary stands before the first character, or it is one of the rest
    by_cases hpos : pos = 0
    · exact ⟨[], c :: cs, rfl, hpos.symm⟩
    · have hrest : c.utf8Size ≤ pos ∧ isBoundary cs (pos - c.utf8Size) = true := by
        simpa [isBoundary, hpos] using h
      obtain ⟨before, after, hcs, hlen⟩ := ih hrest.2
      refine ⟨c :: before, after, by rw [hcs, List.cons_append], ?_⟩
      simp only [byteLength]
      omega

/-! ## Section 3: Slices -/

theorem sliceAt_of_stop_le {pos start stop : Nat} (cs : List Char) (h : stop ≤ pos) :
    sliceAt pos start stop cs = [] := by
  cases cs <;> simp [sliceAt, h]

/-- Characters before the range are passed over. -/
theorem sliceAt_append_of_le {pos start stop : Nat} (xs ys : List Char)
    (h : pos + byteLength xs ≤ start) :
    sliceAt pos start stop (xs ++ ys) = sliceAt (pos + byteLength xs) start stop ys := by
  induction xs generalizing pos with
  | nil => simp [byteLength]
  | cons c xs ih =>
    have hc := Char.utf8Size_pos c
    simp only [byteLength] at h ⊢
    -- a range that ends here is empty on both sides
    by_cases hstop : stop ≤ pos
    · rw [sliceAt_of_stop_le _ hstop, sliceAt_of_stop_le _ (by omega)]
    · have hlt : pos < start := by omega
      rw [List.cons_append, sliceAt, if_neg hstop, if_pos hlt, ih (by omega)]
      rw [Nat.add_assoc]

/-- Characters inside the range are kept. -/
theorem sliceAt_append_of_ge {pos start stop : Nat} (xs ys : List Char) (h : start ≤ pos)
    (hstop : pos + byteLength xs ≤ stop) :
    sliceAt pos start stop (xs ++ ys) = xs ++ sliceAt (pos + byteLength xs) start stop ys := by
  induction xs generalizing pos with
  | nil => simp [byteLength]
  | cons c xs ih =>
    have hc := Char.utf8Size_pos c
    simp only [byteLength] at hstop ⊢
    rw [List.cons_append, sliceAt, if_neg (by omega), if_neg (by omega), ih (by omega) (by omega)]
    rw [List.cons_append, Nat.add_assoc]

/-- The slice between two boundaries. -/
theorem slice_append_append (xs ys zs : List Char) :
    slice (xs ++ (ys ++ zs)) (byteLength xs) (byteLength xs + byteLength ys) = ys := by
  unfold slice
  rw [sliceAt_append_of_le _ _ (by omega), sliceAt_append_of_ge _ _ (by omega) (by omega)]
  rw [sliceAt_of_stop_le _ (by omega), List.append_nil]

theorem slice_zero_append (xs ys : List Char) : slice (xs ++ ys) 0 (byteLength xs) = xs := by
  have h := slice_append_append [] xs ys
  simpa [byteLength] using h

theorem dropBytes_append (xs ys : List Char) : dropBytes (byteLength xs) (xs ++ ys) = ys := by
  induction xs with
  | nil => cases ys <;> rfl
  | cons c xs ih =>
    have hc := Char.utf8Size_pos c
    -- the number of bytes is written as a successor, as `dropBytes` is defined
    obtain ⟨n, hn⟩ : ∃ n, c.utf8Size + byteLength xs = n + 1 :=
      ⟨c.utf8Size + byteLength xs - 1, by omega⟩
    rw [byteLength, List.cons_append, hn, dropBytes, ← hn, Nat.add_sub_cancel_left]
    · exact ih
    · simp

/-- Dropping all of the head and some more. -/
theorem dropBytes_add (xs ys : List Char) (n : Nat) :
    dropBytes (n + byteLength xs) (xs ++ ys) = dropBytes n ys := by
  induction xs with
  | nil => rfl
  | cons c xs ih =>
    have hc := Char.utf8Size_pos c
    obtain ⟨k, hk⟩ : ∃ k, n + (c.utf8Size + byteLength xs) = k + 1 :=
      ⟨n + (c.utf8Size + byteLength xs) - 1, by omega⟩
    have hrest : k + 1 - c.utf8Size = n + byteLength xs := by omega
    rw [byteLength, List.cons_append, hk, dropBytes, hrest]
    · exact ih
    · simp

/-- Dropping no more than the head leaves what follows it. -/
theorem dropBytes_append_of_le (xs ys : List Char) {n : Nat} (h : n ≤ byteLength xs) :
    dropBytes n (xs ++ ys) = dropBytes n xs ++ ys := by
  induction xs generalizing n with
  | nil =>
    obtain rfl : n = 0 := Nat.le_zero.mp h
    cases ys <;> rfl
  | cons c xs ih =>
    rw [byteLength] at h
    cases n with
    | zero => rfl
    | succ n =>
      rw [List.cons_append, dropBytes, dropBytes, ih (by omega)]
      · simp
      · simp

/-- What is left is shorter by what is dropped. -/
theorem byteLength_dropBytes_le (cs : List Char) {n : Nat} (h : n ≤ byteLength cs) :
    n + byteLength (dropBytes n cs) ≤ byteLength cs := by
  induction cs generalizing n with
  | nil =>
    obtain rfl : n = 0 := Nat.le_zero.mp h
    exact Nat.le_refl _
  | cons c cs ih =>
    rw [byteLength] at h
    cases n with
    | zero => simp [dropBytes]
    | succ n =>
      have hrest := ih (n := n + 1 - c.utf8Size) (by omega)
      rw [dropBytes, byteLength]
      · omega
      · simp

/-! ## Section 4: Ranges -/

/-- A range of a text: it lies in the text and its ends are boundaries. -/
structure IsRange (cs : List Char) (start stop : Nat) : Prop where
  le : start ≤ stop
  stop_le : stop ≤ byteLength cs
  start_boundary : isBoundary cs start = true
  stop_boundary : isBoundary cs stop = true

instance (cs : List Char) (start stop : Nat) : Decidable (IsRange cs start stop) :=
  decidable_of_iff
    (start ≤ stop ∧ stop ≤ byteLength cs ∧ isBoundary cs start = true ∧ isBoundary cs stop = true)
    ⟨fun ⟨h₁, h₂, h₃, h₄⟩ => ⟨h₁, h₂, h₃, h₄⟩, fun ⟨h₁, h₂, h₃, h₄⟩ => ⟨h₁, h₂, h₃, h₄⟩⟩

/-- A range is the middle of three texts. -/
theorem IsRange.exists_append {cs : List Char} {start stop : Nat} (h : IsRange cs start stop) :
    ∃ xs ys zs, cs = xs ++ (ys ++ zs) ∧ start = byteLength xs
      ∧ stop = byteLength xs + byteLength ys := by
  obtain ⟨xs, rest, hcs, hxs⟩ := exists_append_of_isBoundary h.start_boundary
  have hle := h.le
  -- the second boundary is one of what the first one leaves
  have hrest : isBoundary rest (stop - byteLength xs) = true := by
    have hstop := h.stop_boundary
    rwa [hcs, isBoundary_append_of_le _ _ (by omega)] at hstop
  obtain ⟨ys, zs, hys, hlen⟩ := exists_append_of_isBoundary hrest
  exact ⟨xs, ys, zs, by rw [hcs, hys], hxs.symm, by omega⟩

/-- A range from the first boundary of one range to the last one of the next. -/
theorem IsRange.trans {cs : List Char} {a b c : Nat} (hab : IsRange cs a b) (hbc : IsRange cs b c) :
    IsRange cs a c :=
  ⟨Nat.le_trans hab.le hbc.le, hbc.stop_le, hab.start_boundary, hbc.stop_boundary⟩

/-- Where the range of a slice lies in the encoding. -/
theorem bytes_slice {cs : List Char} {start stop : Nat} (h : IsRange cs start stop) :
    bytes (slice cs start stop) = ((bytes cs).drop start).take (stop - start) := by
  obtain ⟨xs, ys, zs, rfl, rfl, rfl⟩ := h.exists_append
  rw [slice_append_append, bytes_append, bytes_append, ← length_bytes xs, List.drop_left]
  rw [Nat.add_sub_cancel_left, ← length_bytes ys, List.take_left]

theorem IsRange.slice_ne_nil {cs : List Char} {start stop : Nat} (h : IsRange cs start stop)
    (hlt : start < stop) : slice cs start stop ≠ [] := by
  obtain ⟨xs, ys, zs, rfl, rfl, rfl⟩ := h.exists_append
  rw [slice_append_append]
  rintro rfl
  simp [byteLength] at hlt

/-- A part of a list, item by item. -/
theorem take_drop_eq_flatMap {α : Type} (l : List α) (a n : Nat) :
    (l.drop a).take n = (List.range' a n).flatMap fun p => l[p]?.toList := by
  induction n generalizing a with
  | zero => simp
  | succ n ih =>
    rw [List.range'_succ, List.flatMap_cons, ← ih]
    by_cases h : a < l.length
    · rw [List.drop_eq_getElem_cons h, List.take_succ_cons, List.getElem?_eq_getElem h]
      rfl
    · rw [List.drop_eq_nil_of_le (by omega), List.drop_eq_nil_of_le (by omega),
        List.getElem?_eq_none (by omega)]
      simp

/-- The encoding of a slice, byte by byte. -/
theorem bytes_slice_eq_flatMap {cs : List Char} {start stop : Nat} (h : IsRange cs start stop) :
    bytes (slice cs start stop) =
      (List.range' start (stop - start)).flatMap fun p => (bytes cs)[p]?.toList := by
  rw [bytes_slice h, take_drop_eq_flatMap]

theorem dropBytes_eq_slice {cs : List Char} {start : Nat}
    (h : IsRange cs start (byteLength cs)) :
    dropBytes start cs = slice cs start (byteLength cs) := by
  obtain ⟨xs, ys, zs, rfl, rfl, hstop⟩ := h.exists_append
  -- nothing is left behind a range that ends with the text
  have hzs : zs = [] := by
    rcases List.eq_nil_or_concat zs with hnil | ⟨us, c, hne⟩
    · exact hnil
    · have hpos := byteLength_pos_of_ne_nil (show zs ≠ [] by rw [hne]; simp)
      simp only [byteLength_append] at hstop
      omega
  subst hzs
  rw [dropBytes_append, hstop, slice_append_append, List.append_nil]

/-! ## Section 5: Characters and their offsets -/

/-- The characters of a text, the first of which stands at an offset, with their offsets. -/
def located (pos : Nat) : List Char → List (Char × Nat)
  | [] => []
  | c :: cs => (c, pos) :: located (pos + c.utf8Size) cs

theorem map_fst_located (pos : Nat) (cs : List Char) : (located pos cs).map Prod.fst = cs := by
  induction cs generalizing pos with
  | nil => rfl
  | cons c cs ih => rw [located, List.map_cons, ih]

theorem slice_succ_self (xs : List Char) (c : Char) (rest : List Char) :
    slice (xs ++ c :: rest) (byteLength xs) (byteLength xs + 1) = [c] := by
  have hc := Char.utf8Size_pos c
  unfold slice
  rw [sliceAt_append_of_le _ _ (by omega), sliceAt, if_neg (by omega), if_neg (by omega),
    sliceAt_of_stop_le _ (by omega)]

/-- Inside a character none starts. -/
theorem slice_succ_inside (xs : List Char) (c : Char) (rest : List Char) {p : Nat}
    (h₁ : byteLength xs < p) (h₂ : p < byteLength xs + c.utf8Size) :
    slice (xs ++ c :: rest) p (p + 1) = [] := by
  unfold slice
  rw [sliceAt_append_of_le _ _ (by omega), sliceAt, if_neg (by omega), if_pos (by omega),
    sliceAt_of_stop_le _ (by omega)]

/-- The characters of a part of a text are those that start at the offsets of the part. -/
theorem located_eq_flatMap (xs ys zs : List Char) :
    located (byteLength xs) ys = (List.range' (byteLength xs) (byteLength ys)).flatMap fun p =>
      (slice (xs ++ (ys ++ zs)) p (p + 1)).map fun c => (c, p) := by
  induction ys generalizing xs with
  | nil => rfl
  | cons c ys ih =>
    have hc := Char.utf8Size_pos c
    have ih := ih (xs ++ [c])
    have hlen : byteLength (xs ++ [c]) = byteLength xs + c.utf8Size := by
      rw [byteLength_append]
      rfl
    rw [hlen, List.append_assoc, List.singleton_append] at ih
    -- the offsets of the character itself, and behind it
    have hrange : List.range' (byteLength xs) (byteLength (c :: ys)) =
        byteLength xs :: (List.range' (byteLength xs + 1) (c.utf8Size - 1) ++
          List.range' (byteLength xs + c.utf8Size) (byteLength ys)) := by
      rw [show byteLength xs + c.utf8Size = byteLength xs + 1 + (c.utf8Size - 1) by omega,
        List.range'_append_1, ← List.range'_succ]
      congr 1
      simp only [byteLength]
      omega
    have hinside : ((List.range' (byteLength xs + 1) (c.utf8Size - 1)).flatMap fun p =>
        (slice (xs ++ (c :: ys ++ zs)) p (p + 1)).map fun c => (c, p)) = [] := by
      rw [List.flatMap_eq_nil_iff]
      intro p hp
      obtain ⟨i, hi, rfl⟩ := List.mem_range'.mp hp
      rw [List.cons_append, slice_succ_inside _ _ _ (by omega) (by omega)]
      rfl
    rw [hrange, List.flatMap_cons, List.flatMap_append, hinside, List.nil_append, located, ih]
    rw [List.cons_append, slice_succ_self]
    rfl

/-- The characters of a range, one offset after the other. -/
theorem located_slice {cs : List Char} {a b : Nat} (h : IsRange cs a b) :
    located a (slice cs a b) = (List.range' a (b - a)).flatMap fun p =>
      (slice cs p (p + 1)).map fun c => (c, p) := by
  obtain ⟨xs, ys, zs, rfl, rfl, rfl⟩ := h.exists_append
  rw [slice_append_append, Nat.add_sub_cancel_left, located_eq_flatMap xs ys zs]

theorem slice_eq_flatMap {cs : List Char} {a b : Nat} (h : IsRange cs a b) :
    slice cs a b = (List.range' a (b - a)).flatMap fun p => slice cs p (p + 1) := by
  have hfst := congrArg (List.map Prod.fst) (located_slice h)
  rw [map_fst_located, List.map_flatMap] at hfst
  simpa [Function.comp_def] using hfst

/-- An empty range has no text. -/
theorem slice_self {cs : List Char} {p : Nat} (h : IsRange cs p p) : slice cs p p = [] := by
  rw [slice_eq_flatMap h, Nat.sub_self]
  rfl

/-- Slices that join. -/
theorem slice_append_slice {cs : List Char} {a b c : Nat} (hab : IsRange cs a b)
    (hbc : IsRange cs b c) : slice cs a b ++ slice cs b c = slice cs a c := by
  have hsplit : b - a + (c - b) = c - a := by
    have hle := hab.le
    have hle' := hbc.le
    omega
  rw [slice_eq_flatMap hab, slice_eq_flatMap hbc, slice_eq_flatMap (hab.trans hbc), ← hsplit,
    ← List.range'_append_1, List.flatMap_append, Nat.add_sub_cancel' hab.le]

/-- No character starts at the end. -/
theorem slice_byteLength (cs : List Char) (stop : Nat) : slice cs (byteLength cs) stop = [] := by
  have h : sliceAt 0 (byteLength cs) stop (cs ++ []) =
      sliceAt (0 + byteLength cs) (byteLength cs) stop [] :=
    sliceAt_append_of_le cs [] (by omega)
  rw [List.append_nil] at h
  exact h

end BuildMacros.Text
