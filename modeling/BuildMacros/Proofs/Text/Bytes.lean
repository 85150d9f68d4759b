import BuildMacros.Proofs.Text.Infixes
import BuildMacros.Proofs.Text.Placement

/-! # Reading a text byte by byte

    A loop can read a text without decoding it: it looks at the byte at an offset and reads on
    by one. Most offsets that it passes lie inside of characters. Still it does what a loop
    over the characters does, because the bytes of characters beyond ASCII are beyond ASCII, too:
    a test that treats all of these alike can be made on the bytes (`exists_byteAt?`).
-/

namespace BuildMacros.Text

/-! ## Section 1: Bytes at offsets -/

/-- The byte at an offset, as the character with its number. -/
def byteAt? (t : List Char) (i : Nat) : Option Char :=
  (bytes t)[i]?.map fun b => Char.ofNat b.toNat

theorem toNat_ofNat_byte (b : UInt8) : (Char.ofNat b.toNat).toNat = b.toNat := by
  have hlt := b.toNat_lt
  rw [Char.ofNat, dif_pos]
  · rfl
  · left
    omega

/-- The encoding of an ASCII character is its number. -/
theorem utf8EncodeChar_of_lt {c : Char} (h : c.toNat < 128) :
    String.utf8EncodeChar c = [UInt8.ofNat c.toNat] := by
  have hval : c.val.toNat ≤ 127 := Nat.le_of_lt_succ h
  rw [String.utf8EncodeChar]
  exact if_pos hval

/-- The bytes of all other characters are beyond ASCII. -/
theorem le_of_mem_utf8EncodeChar {c : Char} (h : 128 ≤ c.toNat) {b : UInt8}
    (hb : b ∈ String.utf8EncodeChar c) : 128 ≤ b.toNat := by
  have hval : ¬c.val.toNat ≤ 127 := Nat.not_le_of_lt h
  have hnumber : ∃ n, b = UInt8.ofNat n ∧ 128 ≤ n ∧ n < 256 := by
    unfold String.utf8EncodeChar at hb
    dsimp only at hb
    rw [if_neg hval] at hb
    split at hb
    · simp only [List.mem_cons, List.not_mem_nil, or_false] at hb
      rcases hb with hb | hb
      · exact ⟨_, hb, by omega, by omega⟩
      · exact ⟨_, hb, by omega, by omega⟩
    · split at hb
      · simp only [List.mem_cons, List.not_mem_nil, or_false] at hb
        rcases hb with hb | hb | hb
        · exact ⟨_, hb, by omega, by omega⟩
        · exact ⟨_, hb, by omega, by omega⟩
        · exact ⟨_, hb, by omega, by omega⟩
      · simp only [List.mem_cons, List.not_mem_nil, or_false] at hb
        rcases hb with hb | hb | hb | hb
        · exact ⟨_, hb, by omega, by omega⟩
        · exact ⟨_, hb, by omega, by omega⟩
        · exact ⟨_, hb, by omega, by omega⟩
        · exact ⟨_, hb, by omega, by omega⟩
  obtain ⟨n, rfl, hle, hlt⟩ := hnumber
  rw [UInt8.toNat_ofNat', Nat.mod_eq_of_lt hlt]
  exact hle

theorem utf8Size_of_lt {c : Char} (h : c.toNat < 128) : c.utf8Size = 1 := by
  rw [← String.length_utf8EncodeChar, utf8EncodeChar_of_lt h, List.length_singleton]

/-- Behind some text the bytes are those of what follows it. -/
theorem byteAt?_append (before rest : List Char) (k : Nat) :
    byteAt? (before ++ rest) (byteLength before + k) = byteAt? rest k := by
  rw [byteAt?, bytes_append, ← length_bytes, List.getElem?_append_right (Nat.le_add_right _ _),
    Nat.add_sub_cancel_left]
  rfl

theorem byteAt?_length (before rest : List Char) :
    byteAt? (before ++ rest) (byteLength before) = byteAt? rest 0 :=
  byteAt?_append before rest 0

/-- An ASCII character is one byte. -/
theorem byteAt?_cons_of_lt {c : Char} (h : c.toNat < 128) (rest : List Char) :
    byteAt? (c :: rest) 0 = some c := by
  have hbytes : bytes (c :: rest) = UInt8.ofNat c.toNat :: bytes rest := by
    show String.utf8EncodeChar c ++ bytes rest = _
    rw [utf8EncodeChar_of_lt h, List.singleton_append]
  rw [byteAt?, hbytes, List.getElem?_cons_zero, Option.map_some, UInt8.toNat_ofNat',
    Nat.mod_eq_of_lt (by omega), Char.ofNat_toNat]

/-- All bytes of another character are beyond ASCII. -/
theorem byteAt?_cons_of_le {c : Char} (h : 128 ≤ c.toNat) (rest : List Char) {k : Nat}
    (hk : k < c.utf8Size) : ∃ b, byteAt? (c :: rest) k = some b ∧ 128 ≤ b.toNat := by
  rw [← String.length_utf8EncodeChar] at hk
  have hget : (bytes (c :: rest))[k]? = some (String.utf8EncodeChar c)[k] := by
    show (String.utf8EncodeChar c ++ bytes rest)[k]? = _
    rw [List.getElem?_append_left hk, List.getElem?_eq_getElem hk]
  refine ⟨_, by rw [byteAt?, hget, Option.map_some], ?_⟩
  rw [toNat_ofNat_byte]
  exact le_of_mem_utf8EncodeChar h (List.getElem_mem hk)

/-- The next byte is an ASCII character exactly if the next character is. -/
theorem byteAt?_zero_eq_iff {a : Char} (ha : a.toNat < 128) {rest : List Char} :
    byteAt? rest 0 = some a ↔ rest.head? = some a := by
  cases rest with
  | nil => simp [byteAt?, bytes]
  | cons c rest =>
    rw [List.head?_cons]
    by_cases hascii : c.toNat < 128
    · rw [byteAt?_cons_of_lt hascii]
    · obtain ⟨b, hb, hle⟩ := byteAt?_cons_of_le (Nat.le_of_not_lt hascii) rest c.utf8Size_pos
      rw [hb, Option.some.injEq, Option.some.injEq]
      constructor
      · rintro rfl
        omega
      · rintro rfl
        exact absurd ha hascii

/-- An ASCII character moves the offset by one. -/
theorem byteLength_append_ascii {c : Char} (h : c.toNat < 128) (before rest : List Char) :
    byteLength (before ++ c :: rest) = byteLength before + 1 + byteLength rest := by
  rw [byteLength_append, byteLength, utf8Size_of_lt h, Nat.add_assoc]

/-- The byte behind an ASCII character. -/
theorem byteAt?_succ {c : Char} (h : c.toNat < 128) (before rest : List Char) :
    byteAt? (before ++ c :: rest) (byteLength before + 1) = byteAt? rest 0 := by
  have hnext := byteAt?_length (before ++ [c]) rest
  rwa [byteLength_append_ascii h, ← List.append_cons] at hnext

theorem lt_of_byteAt? {b : Char} (h : byteAt? t i = some b) : i < byteLength t := by
  obtain ⟨byte, hbyte, -⟩ := Option.map_eq_some_iff.mp h
  rw [← length_bytes]
  exact (List.getElem?_eq_some_iff.mp hbyte).1

/-! ## Section 2: Tests -/

/-- A test that treats all characters beyond ASCII alike. -/
def Uniform (p : Char → Bool) : Prop := ∀ a b : Char, 128 ≤ a.toNat → 128 ≤ b.toNat → p a = p b

/-- A test is uniform if it says the same of all characters beyond ASCII. -/
theorem Uniform.of_forall {p : Char → Bool} {v : Bool} (h : ∀ a : Char, 128 ≤ a.toNat → p a = v) :
    Uniform p := by
  intro a b ha hb
  rw [h a ha, h b hb]

/-- **A test of a character can be made on each of its bytes.** -/
theorem exists_byteAt? {p : Char → Bool} (hp : Uniform p) (c : Char) (rest : List Char) {k : Nat}
    (hk : k < c.utf8Size) : ∃ b, byteAt? (c :: rest) k = some b ∧ p b = p c := by
  by_cases hascii : c.toNat < 128
  · obtain rfl : k = 0 := by
      rw [utf8Size_of_lt hascii] at hk
      omega
    exact ⟨c, byteAt?_cons_of_lt hascii rest, rfl⟩
  · have hwide : 128 ≤ c.toNat := Nat.le_of_not_lt hascii
    obtain ⟨b, hb, hle⟩ := byteAt?_cons_of_le hwide rest hk
    exact ⟨b, hb, hp b c hle hwide⟩

/-- A character that passes a test which those beyond ASCII fail is an ASCII character. -/
theorem lt_of_passes {p : Char → Bool} (hp : ∀ a : Char, 128 ≤ a.toNat → p a = false) {c : Char}
    (hc : p c = true) : c.toNat < 128 := by
  apply Nat.lt_of_not_le
  intro hwide
  rw [hp c hwide] at hc
  cases hc

theorem beq_eq_false_of_le {a c : Char} (ha : 128 ≤ a.toNat) (hc : c.toNat < 128) :
    (a == c) = false := by
  rw [beq_eq_false_iff_ne]
  rintro rfl
  omega

/-- Letters and digits are ASCII: they lie in three ranges below 128. -/
theorem lt_of_isAlphanum {c : Char} (h : c.isAlphanum = true) : c.toNat < 128 := by
  have hbelow : ∀ last : UInt32, last.toNat < 128 → c.val ≤ last → c.toNat < 128 :=
    fun last hlast hc => Nat.lt_of_le_of_lt (UInt32.le_iff_toNat_le.mp hc) hlast
  have hclass : (c.isUpper || c.isLower || c.isDigit) = true := h
  rw [Bool.or_eq_true, Bool.or_eq_true] at hclass
  rcases hclass with (hupper | hlower) | hdigit
  · exact hbelow 'Z'.val (by decide) (of_decide_eq_true hupper).2
  · exact hbelow 'z'.val (by decide) (of_decide_eq_true (Bool.and_eq_true_iff.mp hlower).2)
  · exact hbelow '9'.val (by decide) (of_decide_eq_true (Bool.and_eq_true_iff.mp hdigit).2)

theorem isAlphanum_eq_false_of_le {a : Char} (ha : 128 ≤ a.toNat) : a.isAlphanum = false :=
  Bool.eq_false_iff.mpr fun h => absurd (lt_of_isAlphanum h) (Nat.not_lt_of_le ha)

theorem isAlpha_eq_false_of_le {a : Char} (ha : 128 ≤ a.toNat) : a.isAlpha = false :=
  (Bool.or_eq_false_iff.mp (isAlphanum_eq_false_of_le ha)).1

theorem isAsciiBlank_eq_false_of_le {a : Char} (ha : 128 ≤ a.toNat) : isAsciiBlank a = false := by
  have hne : a.toNat ≠ 12 := by omega
  simp [isAsciiBlank, beq_eq_false_of_le ha, hne]

theorem uniform_isAsciiBlank : Uniform isAsciiBlank :=
  Uniform.of_forall fun _ => isAsciiBlank_eq_false_of_le

theorem uniform_isAlpha : Uniform Char.isAlpha := Uniform.of_forall fun _ => isAlpha_eq_false_of_le

theorem uniform_beq {c : Char} (hc : c.toNat < 128) : Uniform fun a => a == c :=
  Uniform.of_forall fun _ ha => beq_eq_false_of_le ha hc

/-! ## Section 3: Loops -/

section

variable {i : Nat}

/-- A loop that reads on by one as long as a test of the offset holds. -/
inductive Runs (go : Nat → Bool) : Nat → Nat → Prop where
  | stop {i : Nat} (h : go i = false) : Runs go i i
  | step {i j : Nat} (h : go i = true) (rest : Runs go (i + 1) j) : Runs go i j

/-- The byte at the offset passes a test. -/
def passes (t : List Char) (p : Char → Bool) (i : Nat) : Bool := (byteAt? t i).any p

theorem Runs.unique {go : Nat → Bool} {j j' : Nat} (h : Runs go i j) (h' : Runs go i j') :
    j = j' := by
  induction h with
  | stop h =>
    cases h' with
    | stop => rfl
    | step h' => simp [h] at h'
  | step h _ ih =>
    cases h' with
    | stop h' => simp [h] at h'
    | step _ rest' => exact ih rest'

theorem Runs.le {go : Nat → Bool} {j : Nat} (h : Runs go i j) : i ≤ j := by
  induction h with
  | stop => exact Nat.le_refl _
  | step _ _ ih => exact Nat.le_of_succ_le ih

/-- A loop that passes some offsets goes on behind them. -/
theorem Runs.advance {go : Nat → Bool} {i j n : Nat} (hpass : ∀ k, k < n → go (i + k) = true)
    (h : Runs go (i + n) j) : Runs go i j := by
  induction n generalizing i with
  | zero => exact h
  | succ n ih =>
    refine .step (hpass 0 (Nat.succ_pos n)) (ih ?_ ?_)
    · intro k hk
      have hnext := hpass (k + 1) (Nat.succ_lt_succ hk)
      rwa [← Nat.add_assoc, Nat.add_right_comm] at hnext
    · rwa [← Nat.add_assoc, Nat.add_right_comm] at h

/-- **A loop over the bytes of characters** stops where the characters fail the test. -/
theorem runs_takeWhile {p : Char → Bool} (hp : Uniform p) (before rest : List Char) :
    Runs (passes (before ++ rest) p) (byteLength before)
      (byteLength (before ++ rest.takeWhile p)) := by
  induction rest generalizing before with
  | nil =>
    rw [List.takeWhile_nil, List.append_nil]
    apply Runs.stop
    have hend := byteAt?_length before []
    rw [List.append_nil] at hend
    rw [passes, hend]
    rfl
  | cons c rest ih =>
    by_cases hc : p c = true
    · rw [List.takeWhile_cons_of_pos hc, List.append_cons before c (rest.takeWhile p)]
      refine Runs.advance (n := c.utf8Size) ?_ ?_
      · intro k hk
        obtain ⟨b, hb, hpb⟩ := exists_byteAt? hp c rest hk
        rw [passes, byteAt?_append, hb, Option.any_some, hpb]
        exact hc
      · have hnext := ih (before ++ [c])
        rwa [byteLength_append before [c], ← List.append_cons before c rest] at hnext
    · rw [List.takeWhile_cons_of_neg hc, List.append_nil]
      apply Runs.stop
      obtain ⟨b, hb, hpb⟩ := exists_byteAt? hp c rest c.utf8Size_pos
      rw [passes, byteAt?_length, hb, Option.any_some, hpb]
      simpa using hc

end

/-! ## Section 4: Cuts and searches -/

section

variable {t before rest : List Char} {i : Nat}

/-- A text splits in one way at an offset. -/
theorem append_inj_of_byteLength {xs ys xs' ys' : List Char} (h : xs ++ ys = xs' ++ ys')
    (hlength : byteLength xs = byteLength xs') : xs = xs' ∧ ys = ys' := by
  have hys : ys = ys' := by
    rw [← dropBytes_append xs ys, ← dropBytes_append xs' ys', h, hlength]
  rw [hys] at h
  exact ⟨List.append_cancel_right h, hys⟩

/-- A name that is cut out of a text. -/
theorem cut_append (before name after : List Char) :
    IsRange (before ++ (name ++ after)) (byteLength before) (byteLength (before ++ name)) ∧
      slice (before ++ (name ++ after)) (byteLength before) (byteLength (before ++ name)) =
        name := by
  rw [byteLength_append]
  constructor
  · exact StandsAt.isRange ⟨before, after, rfl, rfl⟩
  · exact slice_append_append before name after

/-- What stands at an offset is what the rest of the text begins with. -/
theorem standsAt_byteLength_iff {word : List Char} :
    StandsAt word (byteLength before) (before ++ rest) ↔ ∃ after, rest = word ++ after := by
  constructor
  · rintro ⟨b, after, heq, hlength⟩
    exact ⟨after, (append_inj_of_byteLength heq hlength.symm).2⟩
  · rintro ⟨after, hrest⟩
    exact ⟨before, after, by rw [hrest], rfl⟩

/-- Inside of a character nothing stands. -/
theorem not_standsAt_inside {word : List Char} {c : Char} {k : Nat} (hk : byteLength before < k)
    (hlt : k < byteLength before + c.utf8Size) : ¬StandsAt word k (before ++ c :: rest) := by
  intro h
  have hboundary := h.boundary
  rw [isBoundary_append_of_le _ _ (Nat.le_of_lt hk), isBoundary, Bool.or_eq_true, beq_iff_eq,
    Bool.and_eq_true, decide_eq_true_eq] at hboundary
  omega

/-- Behind the end of a text no word stands. -/
theorem not_standsAt_of_le {word : List Char} (hword : word ≠ []) {k : Nat}
    (hk : byteLength t ≤ k) : ¬StandsAt word k t := by
  intro h
  have hstop := h.isRange.stop_le
  have hpos := byteLength_pos_of_ne_nil hword
  omega

/-- A search for a word from an offset on, at which the text is cut. It ends behind the first
    occurrence, or with the text. -/
inductive Finds (t word : List Char) (i : Nat) : Nat → Prop where
  | found {j : Nat} (hcut : isBoundary t i = true) (hle : i ≤ j) (h : StandsAt word j t)
      (hfirst : ∀ k, i ≤ k → k < j → ¬StandsAt word k t) : Finds t word i (j + byteLength word)
  | missing (hcut : isBoundary t i = true) (h : ∀ k, i ≤ k → ¬StandsAt word k t) :
      Finds t word i (byteLength t)

theorem Finds.le {word : List Char} {j : Nat} (h : Finds t word i j) : i ≤ j := by
  cases h with
  | found _ hle => exact Nat.le_add_right_of_le hle
  | missing hcut =>
    obtain ⟨before, after, rfl, rfl⟩ := exists_append_of_isBoundary hcut
    rw [byteLength_append]
    exact Nat.le_add_right _ _

theorem Finds.unique {word : List Char} {j j' : Nat} (h : Finds t word i j)
    (h' : Finds t word i j') : j = j' := by
  cases h with
  | @found k _ hle h hfirst =>
    cases h' with
    | @found k' _ hle' h' hfirst' =>
      -- neither of the two occurrences is before the other one
      have hk : ¬k < k' := fun hlt => hfirst' k hle hlt h
      have hk' : ¬k' < k := fun hlt => hfirst k' hle' hlt h'
      obtain rfl : k = k' := by omega
      rfl
    | missing _ h' => exact absurd h (h' k hle)
  | missing _ h =>
    cases h' with
    | @found k' _ hle' h' _ => exact absurd h' (h k' hle')
    | missing => rfl

end

end BuildMacros.Text
