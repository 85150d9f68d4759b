import BuildMacros.SourceMap.Vlq

/-! # Reading base64 VLQ back

    `decodeUnsigned` reads one number off the head of a row of digits and leaves
    the rest alone (`decodeUnsigned_encodeUnsigned`); so numbers written one
    behind the other are read back one by one (`decodeAll_flatMap_encode`). Every
    character written is a digit, and therefore none of the characters that
    separate numbers in a map.
-/

namespace BuildMacros.SourceMap.Vlq

/-! ## Section 1: Digits -/

theorem value?_digit {n : Nat} (h : n < 64) : value? (digit n) = some n := by
  have hall : ∀ n : Fin 64, value? (digit n) = some n.val := by decide +kernel
  exact hall ⟨n, h⟩

theorem digit_mem_alphabet {n : Nat} (h : n < 64) : digit n ∈ alphabet :=
  List.isSome_idxOf?.mp (Option.isSome_iff_exists.mpr ⟨n, value?_digit h⟩)

/-! ## Section 2: Unsigned numbers -/

theorem encodeUnsigned_of_lt {n : Nat} (h : n < 32) : encodeUnsigned n = [digit n] := by
  rw [encodeUnsigned, if_pos h]

theorem encodeUnsigned_of_le {n : Nat} (h : 32 ≤ n) :
    encodeUnsigned n = digit (n % 32 + 32) :: encodeUnsigned (n / 32) := by
  rw [encodeUnsigned, if_neg (by omega)]

theorem encodeUnsigned_ne_nil (n : Nat) : encodeUnsigned n ≠ [] := by
  rw [encodeUnsigned]
  split <;> simp

/-- A number is read off the head of a row. -/
theorem decodeUnsigned_encodeUnsigned (n : Nat) (rest : List Char) :
    decodeUnsigned (encodeUnsigned n ++ rest) = some (n, rest) := by
  induction n using Nat.strongRecOn with
  | ind n ih =>
    by_cases h : n < 32
    · rw [encodeUnsigned_of_lt h, List.singleton_append, decodeUnsigned,
        value?_digit (by omega : n < 64)]
      show (if n < 32 then some (n, rest) else _) = some (n, rest)
      rw [if_pos h]
    · -- the digit says that another one follows, which is what the hypothesis reads
      rw [encodeUnsigned_of_le (by omega), List.cons_append, decodeUnsigned,
        value?_digit (by omega : n % 32 + 32 < 64)]
      show (if n % 32 + 32 < 32 then some (n % 32 + 32, encodeUnsigned (n / 32) ++ rest) else
        (decodeUnsigned (encodeUnsigned (n / 32) ++ rest)).bind fun r =>
          some (n % 32 + 32 - 32 + 32 * r.1, r.2)) = some (n, rest)
      rw [if_neg (by omega), ih (n / 32) (by omega)]
      show some (n % 32 + 32 - 32 + 32 * (n / 32), rest) = some (n, rest)
      rw [show n % 32 + 32 - 32 + 32 * (n / 32) = n by omega]

theorem mem_alphabet_of_mem_encodeUnsigned {n : Nat} {c : Char} (h : c ∈ encodeUnsigned n) :
    c ∈ alphabet := by
  induction n using Nat.strongRecOn with
  | ind n ih =>
    by_cases hn : n < 32
    · rw [encodeUnsigned_of_lt hn, List.mem_singleton] at h
      rw [h]
      exact digit_mem_alphabet (by omega)
    · rw [encodeUnsigned_of_le (by omega), List.mem_cons] at h
      rcases h with rfl | h
      · exact digit_mem_alphabet (by omega)
      · exact ih (n / 32) (by omega) h

/-! ## Section 3: Numbers with a sign -/

theorem ofUnsigned_toUnsigned (n : Int) : ofUnsigned (toUnsigned n) = n := by
  unfold toUnsigned ofUnsigned
  by_cases h : n < 0
  · rw [if_pos h, if_pos (by omega), show (2 * n.natAbs + 1) / 2 = n.natAbs by omega]
    show -(n.natAbs : Int) = n
    omega
  · rw [if_neg h, if_neg (by omega), show 2 * n.natAbs / 2 = n.natAbs by omega]
    show (n.natAbs : Int) = n
    omega

theorem encode_ne_nil (n : Int) : encode n ≠ [] := encodeUnsigned_ne_nil _

theorem mem_alphabet_of_mem_encode {n : Int} {c : Char} (h : c ∈ encode n) : c ∈ alphabet :=
  mem_alphabet_of_mem_encodeUnsigned h

theorem decodeRow_cons (fuel : Nat) (n : Int) (rest : List Char) :
    decodeRow (fuel + 1) (encode n ++ rest) = (decodeRow fuel rest).map (n :: ·) := by
  obtain ⟨c, cs, hcs⟩ := List.exists_cons_of_ne_nil (encode_ne_nil n)
  have hread : decodeUnsigned (encode n ++ rest) = some (toUnsigned n, rest) :=
    decodeUnsigned_encodeUnsigned _ _
  have hstep : decodeRow (fuel + 1) (c :: (cs ++ rest)) =
      (decodeUnsigned (c :: (cs ++ rest))).bind fun r =>
        (decodeRow fuel r.2).bind fun ns => some (ofUnsigned r.1 :: ns) := rfl
  rw [hcs, List.cons_append] at hread ⊢
  rw [hstep, hread, Option.bind_some, ofUnsigned_toUnsigned]
  cases decodeRow fuel rest <;> rfl

/-- A row of numbers is read back, whatever bound above their number is given. -/
theorem decodeRow_flatMap_encode (ns : List Int) {fuel : Nat} (h : ns.length ≤ fuel) :
    decodeRow fuel (ns.flatMap encode) = some ns := by
  induction ns generalizing fuel with
  | nil => cases fuel <;> rfl
  | cons n ns ih =>
    obtain ⟨fuel, rfl⟩ : ∃ k, fuel = k + 1 := ⟨fuel - 1, by simp at h; omega⟩
    rw [List.flatMap_cons, decodeRow_cons, ih (by simpa using h)]
    rfl

/-- Every number takes a digit at least. -/
theorem length_le_length_flatMap_encode (ns : List Int) :
    ns.length ≤ (ns.flatMap encode).length := by
  induction ns with
  | nil => simp
  | cons n ns ih =>
    have hpos := List.length_pos_iff.mpr (encode_ne_nil n)
    simp only [List.flatMap_cons, List.length_append, List.length_cons]
    omega

/-- **Numbers written one behind the other are read back.** -/
theorem decodeAll_flatMap_encode (ns : List Int) : decodeAll (ns.flatMap encode) = some ns :=
  decodeRow_flatMap_encode ns (length_le_length_flatMap_encode ns)

end BuildMacros.SourceMap.Vlq
