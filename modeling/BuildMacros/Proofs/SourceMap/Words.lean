import BuildMacros.Proofs.SourceMap.Vlq
import Mathlib.Algebra.Group.Int.Defs
import Mathlib.Algebra.Group.Nat.Defs

/-! # Base64 VLQ on machine words

    A number is written by shifting its magnitude to the left by one, which makes
    room for the sign, and then to the right by five until nothing is left. On words of
    64 bits the first shift may lose the highest bit or make the word negative, and a
    negative word is never shifted down to zero.

    For magnitudes below `2 ^ 62` nothing of this happens, and for no others is the right
    text written (`encodeWord_eq_encode_iff`). The lemmas speak of the unsigned value of a
    word, on which all operations are arithmetic.
-/

namespace BuildMacros.SourceMap.Vlq

/-! ## Section 1: Operations on words -/

section

variable {w : Int64}

/-- The value of a word with its sign. -/
theorem toInt_eq_ite (w : Int64) :
    w.toInt = if w.toBitVec.toNat < 2 ^ 63 then (w.toBitVec.toNat : Int)
      else w.toBitVec.toNat - 2 ^ 64 := by
  rw [← Int64.toInt_toBitVec, BitVec.toInt_eq_toNat_cond]
  split <;> split <;> omega

/-- Words that are not negative. -/
theorem toInt_nonneg_iff : 0 ≤ w.toInt ↔ w.toBitVec.toNat < 2 ^ 63 := by
  have hint := toInt_eq_ite w
  have hlt := w.toBitVec.isLt
  split at hint <;> omega

theorem toInt_of_lt (h : w.toBitVec.toNat < 2 ^ 63) : w.toInt = w.toBitVec.toNat := by
  rw [toInt_eq_ite, if_pos h]

theorem toNatClampNeg_of_lt (h : w.toBitVec.toNat < 2 ^ 63) :
    w.toNatClampNeg = w.toBitVec.toNat := by
  rw [Int64.toNatClampNeg, toInt_of_lt h, Int.toNat_natCast]

theorem eq_zero_iff : w = 0 ↔ w.toBitVec.toNat = 0 := by
  rw [← Int64.toBitVec_inj, ← BitVec.toNat_inj]
  rfl

theorem pos_iff (h : w.toBitVec.toNat < 2 ^ 63) : 0 < w ↔ 0 < w.toBitVec.toNat := by
  rw [Int64.lt_iff_toInt_lt, Int64.toInt_zero, toInt_of_lt h]
  omega

theorem toNat_shiftLeft_one (w : Int64) :
    (w <<< 1).toBitVec.toNat = 2 * w.toBitVec.toNat % 2 ^ 64 := by
  have hcount : ((1 : Int64).toBitVec.smod 64).toNat = 1 := by decide
  rw [Int64.toBitVec_shiftLeft, BitVec.shiftLeft_eq', hcount, BitVec.toNat_shiftLeft,
    Nat.shiftLeft_eq, Nat.mul_comm]

/-- The sign, set in a word whose lowest bit is free. -/
theorem toNat_or_one (h : w.toBitVec.toNat % 2 = 0) :
    (w ||| 1).toBitVec.toNat = w.toBitVec.toNat + 1 := by
  obtain ⟨k, hk⟩ : ∃ k, w.toBitVec.toNat = 2 ^ 1 * k := ⟨w.toBitVec.toNat / 2, by omega⟩
  rw [Int64.toBitVec_or, BitVec.toNat_or, hk]
  exact (Nat.two_pow_add_eq_or_of_lt (i := 1) (by decide : 1 < 2 ^ 1) k).symm

theorem toNat_and_low (w : Int64) : (w &&& 31).toBitVec.toNat = w.toBitVec.toNat % 32 := by
  rw [Int64.toBitVec_and, BitVec.toNat_and]
  exact Nat.and_two_pow_sub_one_eq_mod w.toBitVec.toNat 5

/-- The mark that another digit follows, set in five bits. -/
theorem toNat_or_mark (h : w.toBitVec.toNat < 32) :
    (w ||| 32).toBitVec.toNat = w.toBitVec.toNat + 32 := by
  rw [Int64.toBitVec_or, BitVec.toNat_or, Nat.or_comm, Nat.add_comm]
  exact (Nat.two_pow_add_eq_or_of_lt (i := 5) h 1).symm

/-- The right shift rounds down, also below zero. -/
theorem toInt_shiftRight_five (w : Int64) : (w >>> 5).toInt = w.toInt / 32 := by
  have hcount : ((5 : Int64).toBitVec.smod 64).toNat = 5 := by decide
  rw [← Int64.toInt_toBitVec, Int64.toBitVec_shiftRight, BitVec.sshiftRight_eq', hcount,
    BitVec.toInt_sshiftRight, Int.shiftRight_eq_div_pow]
  rfl

theorem toNat_shiftRight_five (h : w.toBitVec.toNat < 2 ^ 63) :
    (w >>> 5).toBitVec.toNat = w.toBitVec.toNat / 32 := by
  have hshift := toInt_shiftRight_five w
  have hrest : (w >>> 5).toBitVec.toNat < 2 ^ 63 := by
    rw [← toInt_nonneg_iff]
    have hnonneg := toInt_nonneg_iff.mpr h
    omega
  rw [toInt_of_lt h, toInt_of_lt hrest] at hshift
  omega

end

/-! ## Section 2: The loop -/

section

variable {w : Int64} {fuel : Nat} {cs : List Char}

/-- The last digit. -/
theorem wordDigits_of_lt (h : w.toBitVec.toNat < 32) :
    wordDigits (fuel + 1) w = some [digit w.toBitVec.toNat] := by
  have hrest := toNat_shiftRight_five (w := w) (by omega)
  have hlow := toNat_and_low w
  have hzero : w >>> 5 = 0 := eq_zero_iff.mpr (by omega)
  have hdone : ¬(0 : Int64) < w >>> 5 := by
    rw [pos_iff (by omega)]
    omega
  rw [wordDigits, if_pos hzero, if_neg hdone, toNatClampNeg_of_lt (by omega), hlow,
    Nat.mod_eq_of_lt h]

/-- A digit that others follow. -/
theorem wordDigits_of_le (h : 32 ≤ w.toBitVec.toNat) (hlt : w.toBitVec.toNat < 2 ^ 63) :
    wordDigits (fuel + 1) w =
      (wordDigits fuel (w >>> 5)).map (digit (w.toBitVec.toNat % 32 + 32) :: ·) := by
  have hrest := toNat_shiftRight_five hlt
  have hlow := toNat_and_low w
  have hmark := toNat_or_mark (w := w &&& 31) (by omega)
  have hmore : (0 : Int64) < w >>> 5 := (pos_iff (by omega)).mpr (by omega)
  have hne : w >>> 5 ≠ 0 := by
    rw [Ne, eq_zero_iff]
    omega
  rw [wordDigits, if_neg hne, if_pos hmore, toNatClampNeg_of_lt (by omega), hmark, hlow]
  cases wordDigits fuel (w >>> 5) <;> rfl

/-- A word that is not negative is written as the number that it stands for, in as many digits as
    this takes. -/
theorem wordDigits_eq (h : w.toBitVec.toNat < 2 ^ 63)
    (hfuel : w.toBitVec.toNat < 32 ^ (fuel + 1)) :
    wordDigits (fuel + 1) w = some (encodeUnsigned w.toBitVec.toNat) := by
  induction fuel generalizing w with
  | zero =>
    have hsmall : w.toBitVec.toNat < 32 := by omega
    rw [wordDigits_of_lt hsmall, encodeUnsigned_of_lt hsmall]
  | succ fuel ih =>
    by_cases hsmall : w.toBitVec.toNat < 32
    · rw [wordDigits_of_lt hsmall, encodeUnsigned_of_lt hsmall]
    · have hrest := toNat_shiftRight_five h
      have hless : w.toBitVec.toNat / 32 < 32 ^ (fuel + 1) := by
        rw [Nat.div_lt_iff_lt_mul (by decide), ← Nat.pow_succ]
        exact hfuel
      rw [wordDigits_of_le (by omega) h, encodeUnsigned_of_le (by omega),
        ih (by omega) (by omega), hrest]
      rfl

/-- Thirteen digits are enough. -/
theorem wordDigits_thirteen (h : w.toBitVec.toNat < 2 ^ 63) :
    wordDigits 13 w = some (encodeUnsigned w.toBitVec.toNat) :=
  wordDigits_eq h (by omega)

/-- No number of digits is enough for a negative word. -/
theorem nonneg_of_wordDigits (h : wordDigits fuel w = some cs) : 0 ≤ w.toInt := by
  induction fuel generalizing w cs with
  | zero => cases h
  | succ fuel ih =>
    -- what is shifted by five is negative as long as the word is
    have hshift := toInt_shiftRight_five w
    rw [wordDigits] at h
    split at h
    · next hzero =>
      rw [hzero, Int64.toInt_zero] at hshift
      omega
    · obtain ⟨rest, hrest, -⟩ := Option.bind_eq_some_iff.mp h
      have hnonneg := ih hrest
      omega

end

/-! ## Section 3: Numbers with a sign -/

/-- Shifting to the left loses what does not fit a word, and nothing else. -/
theorem toNat_shifted (n : Int64) : (shifted n).toBitVec.toNat = toUnsigned n.toInt % 2 ^ 64 := by
  have hlt := n.toBitVec.isLt
  have hint := toInt_eq_ite n
  have hsign : n < 0 ↔ n.toInt < 0 := Int64.lt_iff_toInt_lt
  unfold shifted toUnsigned
  by_cases h : n < 0
  · have hneg := hsign.mp h
    have hmagnitude : (-n).toBitVec.toNat = 2 ^ 64 - n.toBitVec.toNat := by
      rw [Int64.toBitVec_neg, BitVec.toNat_neg]
      split at hint <;> omega
    have hfree : ((-n) <<< 1).toBitVec.toNat % 2 = 0 := by
      rw [toNat_shiftLeft_one]
      omega
    rw [if_pos h, if_pos hneg, toNat_or_one hfree, toNat_shiftLeft_one, hmagnitude]
    split at hint <;> omega
  · have hnonneg : ¬n.toInt < 0 := fun hneg => h (hsign.mpr hneg)
    rw [if_neg h, if_neg hnonneg, toNat_shiftLeft_one]
    split at hint <;> omega

theorem toUnsigned_lt_iff {n : Int} : toUnsigned n < 2 ^ 63 ↔ n.natAbs < 2 ^ 62 := by
  unfold toUnsigned
  split <;> omega

/-- No bit is lost and none becomes a sign. -/
theorem toInt_shifted {n : Int64} (h : n.toInt.natAbs < 2 ^ 62) :
    (shifted n).toInt = toUnsigned n.toInt := by
  have hlt := toUnsigned_lt_iff.mpr h
  have hshifted := toNat_shifted n
  rw [Nat.mod_eq_of_lt (by omega)] at hshifted
  rw [toInt_of_lt (by omega), hshifted]

theorem encodeWord_eq {n : Int64} (h : n.toInt.natAbs < 2 ^ 62) :
    encodeWord n = some (encode n.toInt) := by
  have hlt := toUnsigned_lt_iff.mpr h
  have hshifted := toNat_shifted n
  rw [Nat.mod_eq_of_lt (by omega)] at hshifted
  rw [encodeWord, wordDigits_thirteen (by omega), hshifted, encode]

theorem encodeUnsigned_inj {m n : Nat} (h : encodeUnsigned m = encodeUnsigned n) : m = n := by
  have hm := decodeUnsigned_encodeUnsigned m []
  rw [h, decodeUnsigned_encodeUnsigned n [], Option.some.injEq, Prod.mk.injEq] at hm
  exact hm.1.symm

/-- **Words write numbers** of magnitudes below `2 ^ 62`, and of no others. -/
theorem encodeWord_eq_encode_iff {n : Int64} :
    encodeWord n = some (encode n.toInt) ↔ n.toInt.natAbs < 2 ^ 62 := by
  refine ⟨fun h => ?_, encodeWord_eq⟩
  have hlt := toInt_nonneg_iff.mp (nonneg_of_wordDigits h)
  rw [encodeWord, wordDigits_thirteen hlt, Option.some.injEq, encode] at h
  rw [← toUnsigned_lt_iff, ← encodeUnsigned_inj h]
  exact hlt

/-! ## Section 4: Rows of numbers -/

/-- Nothing behind the digits of a number is taken for a part of it. -/
theorem encode_append_inj {m n : Int} {rest rest' : List Char}
    (h : encode m ++ rest = encode n ++ rest') : m = n ∧ rest = rest' := by
  have hm := decodeUnsigned_encodeUnsigned (toUnsigned m) rest
  have hn := decodeUnsigned_encodeUnsigned (toUnsigned n) rest'
  rw [encode, encode] at h
  rw [h, hn, Option.some.injEq, Prod.mk.injEq] at hm
  refine ⟨?_, hm.2.symm⟩
  rw [← ofUnsigned_toUnsigned m, ← hm.1, ofUnsigned_toUnsigned]

theorem toInt_ofInt_of_natAbs_lt {n : Int} (h : n.natAbs < 2 ^ 62) : (Int64.ofInt n).toInt = n :=
  Int64.toInt_ofInt_of_le (by omega) (by omega)

/-- **Numbers in a row**, of magnitudes below `2 ^ 62`: words write them and lose no bit by
    shifting. The row consists of digits of base 64 and is read back as these numbers. No number is
    written as nothing, and each one and what follows it can be told from the text. -/
theorem rows_read_back {ns : List Int} (h : ∀ n ∈ ns, n.natAbs < 2 ^ 62) :
    (∀ n ∈ ns, (shifted (Int64.ofInt n)).toInt = toUnsigned n ∧
      encodeWord (Int64.ofInt n) = some (encode n)) ∧
    (∀ c ∈ ns.flatMap encode, c ∈ alphabet) ∧
    decodeAll (ns.flatMap encode) = some ns ∧
    ∀ n ∈ ns, encode n ≠ [] ∧ ∀ (m : Int) (rest rest' : List Char),
      encode n ++ rest = encode m ++ rest' → n = m ∧ rest = rest' := by
  refine ⟨fun n hn => ?_, fun c hc => ?_, decodeAll_flatMap_encode ns,
    fun n _ => ⟨encode_ne_nil n, fun m rest rest' => encode_append_inj⟩⟩
  · have hword := toInt_ofInt_of_natAbs_lt (h n hn)
    have hbound : (Int64.ofInt n).toInt.natAbs < 2 ^ 62 := by
      rw [hword]
      exact h n hn
    have hshifted := toInt_shifted hbound
    have hencoded := encodeWord_eq hbound
    rw [hword] at hshifted hencoded
    exact ⟨hshifted, hencoded⟩
  · obtain ⟨n, -, hdigit⟩ := List.mem_flatMap.mp hc
    exact mem_alphabet_of_mem_encode hdigit

/-- Numbers on both sides of one, two and thirteen digits. -/
def edgeNumbers : List Int :=
  [0, 1, -1, 15, 16, 123, -16, 4611686018427387903, -4611686018427387903]

theorem rows_read_back_edges :
    (∀ n ∈ edgeNumbers, n.natAbs < 2 ^ 62) ∧
      edgeNumbers.map (fun n => (encodeWord (Int64.ofInt n)).map String.ofList) =
        [some "A", some "C", some "D", some "e", some "gB", some "2H", some "hB",
          some "+///////////H", some "////////////H"] ∧
      decodeAll (edgeNumbers.flatMap encode) = some edgeNumbers := by
  have hbound : ∀ n ∈ edgeNumbers, n.natAbs < 2 ^ 62 := by decide
  exact ⟨hbound, by decide +kernel, (rows_read_back hbound).2.2.1⟩

end BuildMacros.SourceMap.Vlq
