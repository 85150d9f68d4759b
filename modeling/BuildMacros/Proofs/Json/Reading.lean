import BuildMacros.Json.Reader

/-! # Written values are read again

    A value is written without blanks, and the reader of values takes back what was
    written, whatever follows it in the text: strings end at their quote, arrays and
    objects at their bracket. Only a number has no end of its own, so what follows it
    must not go on with it (`Closes`).

    `Readable` says which values this is true of: numbers are integers of 64 bits, as
    signed or as unsigned ones, and nothing lies deeper than the reader goes.
-/

namespace BuildMacros.Json

/-! ## Section 1: Strings -/

theorem hexValue?_hexDigit : ∀ n < 16, hexValue? (hexDigit n) = some n := by decide

/-- A control character is read from the two digits that it is written with. -/
theorem unicodeEscape_hexDigits {c : Char} (h : c.toNat < 32) (rest : List Char) :
    unicodeEscape ('0' :: '0' :: hexDigit (c.toNat / 16) :: hexDigit c.toNat :: rest) =
      some (c, rest) := by
  have hhigh : hexValue? (hexDigit (c.toNat / 16)) = some (c.toNat / 16) :=
    hexValue?_hexDigit _ (by omega)
  have hlow : hexValue? (hexDigit c.toNat) = some (c.toNat % 16) := by
    have hmod : hexDigit c.toNat = hexDigit (c.toNat % 16) := by
      rw [hexDigit, hexDigit, Nat.mod_mod]
    rw [hmod]
    exact hexValue?_hexDigit _ (by omega)
  have hunit : hexUnit ('0' :: '0' :: hexDigit (c.toNat / 16) :: hexDigit c.toNat :: rest) =
      some (c.toNat, rest) := by
    have hzero : hexValue? '0' = some 0 := by decide
    have hvalue : ((0 * 16 + 0) * 16 + c.toNat / 16) * 16 + c.toNat % 16 = c.toNat := by omega
    simp only [hexUnit, hzero, hhigh, hlow, Option.bind_eq_bind, Option.bind_some, hvalue]
    rfl
  have hplain : (decide (c.toNat < 0xD800) || decide (0xDFFF < c.toNat)) = true := by
    rw [Bool.or_eq_true, decide_eq_true_eq]
    exact .inl (by omega)
  simp only [unicodeEscape, hunit, Option.bind_eq_bind, Option.bind_some, if_pos hplain,
    Char.ofNat_toNat]
  rfl

section

variable {fuel : Nat} {rest : List Char}

/-- A character that stands for itself. -/
theorem stringTail_plain {c : Char} (hquote : c ≠ '"') (hbackslash : c ≠ '\\')
    (hcontrol : ¬c.toNat < 32) :
    stringTail (fuel + 1) (c :: rest) =
      (stringTail fuel rest).bind fun r => some (c :: r.1, r.2) := by
  simp only [stringTail, if_neg hquote, if_neg hbackslash, if_neg hcontrol]
  rfl

/-- A character that is written with a letter of its own. -/
theorem stringTail_escape {e c : Char} (h : simpleEscape? e = some c) (hletter : e ≠ 'u') :
    stringTail (fuel + 1) ('\\' :: e :: rest) =
      (stringTail fuel rest).bind fun r => some (c :: r.1, r.2) := by
  have hquote : ¬ '\\' = '"' := by decide
  rw [stringTail.eq_def]
  simp only [if_neg hquote, if_true]
  rw [h]
  rfl

/-- A character that is written with its number. -/
theorem stringTail_unicode {c : Char} {text : List Char}
    (h : unicodeEscape text = some (c, rest)) :
    stringTail (fuel + 1) ('\\' :: 'u' :: text) =
      (stringTail fuel rest).bind fun r => some (c :: r.1, r.2) := by
  show (unicodeEscape text).bind _ = _
  rw [h]
  rfl

/-- A character is read back as it was written. -/
theorem stringTail_quoteChar (c : Char) :
    stringTail (fuel + 1) (quoteChar c ++ rest) =
      (stringTail fuel rest).bind fun r => some (c :: r.1, r.2) := by
  have hchar : ∀ n, c.toNat = n → c = Char.ofNat n := fun n hn => by rw [← hn, Char.ofNat_toNat]
  -- case by case as it is written: with a letter, with its number, or as it is
  unfold quoteChar
  split
  · next h =>
    subst h
    exact stringTail_escape (by decide) (by decide)
  split
  · next h =>
    subst h
    exact stringTail_escape (by decide) (by decide)
  split
  · next h => exact stringTail_escape (hchar _ h ▸ by decide) (by decide)
  split
  · next h => exact stringTail_escape (hchar _ h ▸ by decide) (by decide)
  split
  · next h => exact stringTail_escape (hchar _ h ▸ by decide) (by decide)
  split
  · next h => exact stringTail_escape (hchar _ h ▸ by decide) (by decide)
  split
  · next h => exact stringTail_escape (hchar _ h ▸ by decide) (by decide)
  split
  · next hcontrol =>
    exact stringTail_unicode (unicodeEscape_hexDigits hcontrol rest)
  · next hquote hbackslash _ _ _ _ _ hcontrol =>
    exact stringTail_plain hquote hbackslash hcontrol

end

theorem length_le_length_flatMap_quoteChar (cs : List Char) :
    cs.length ≤ (cs.flatMap quoteChar).length := by
  induction cs with
  | nil => exact Nat.le_refl _
  | cons c cs ih =>
    have hpos : 0 < (quoteChar c).length := by
      unfold quoteChar
      repeat' split
      all_goals simp
    rw [List.flatMap_cons, List.length_append, List.length_cons]
    omega

theorem stringTail_quoted (cs rest : List Char) {fuel : Nat} (h : cs.length < fuel) :
    stringTail fuel (cs.flatMap quoteChar ++ '"' :: rest) = some (cs, rest) := by
  induction cs generalizing fuel with
  | nil =>
    obtain ⟨n, rfl⟩ : ∃ n, fuel = n + 1 := ⟨fuel - 1, by omega⟩
    rfl
  | cons c cs ih =>
    rw [List.length_cons] at h
    obtain ⟨n, rfl⟩ : ∃ n, fuel = n + 1 := ⟨fuel - 1, by omega⟩
    rw [List.flatMap_cons, List.append_assoc, stringTail_quoteChar, ih (by omega)]
    rfl

/-- **A string is read back as it was written**, with every character that it has. -/
theorem stringToken_quote (s : String) (rest : List Char) :
    stringToken ((quote s).toList ++ rest) = some (s, rest) := by
  have htext : (quote s).toList ++ rest =
      '"' :: (s.toList.flatMap quoteChar ++ '"' :: rest) := by
    rw [quote, quoteChars, String.toList_ofList]
    simp
  have hlength := length_le_length_flatMap_quoteChar s.toList
  rw [htext, stringToken,
    stringTail_quoted _ _ (by rw [List.length_append, List.length_cons]; omega),
    Option.map_some, String.ofList_toList]

/-! ## Section 2: Numbers -/

/-- A number does not go on with the text. -/
def Closes (rest : List Char) : Prop :=
  ∀ c, rest.head? = some c → c.isDigit = false ∧ c ≠ '.' ∧ c ≠ 'e' ∧ c ≠ 'E'

theorem Closes.nil : Closes [] := nofun

theorem Closes.of_cons {c : Char} (h : c.isDigit = false ∧ c ≠ '.' ∧ c ≠ 'e' ∧ c ≠ 'E')
    (rest : List Char) : Closes (c :: rest) := by
  rintro d ⟨⟩
  exact h

/-- The digits of a number in front of a text that it does not go on in. -/
theorem takeWhile_isDigit {ds rest : List Char} (hds : ∀ c ∈ ds, c.isDigit = true)
    (hrest : Closes rest) :
    (ds ++ rest).takeWhile Char.isDigit = ds ∧ (ds ++ rest).dropWhile Char.isDigit = rest := by
  rw [List.takeWhile_append_of_pos hds, List.dropWhile_append_of_pos hds]
  cases rest with
  | nil => exact ⟨List.append_nil ds, rfl⟩
  | cons c rest =>
    have hc : ¬c.isDigit = true := by simp [(hrest c rfl).1]
    rw [List.takeWhile_cons_of_neg hc, List.dropWhile_cons_of_neg hc, List.append_nil]
    exact ⟨rfl, rfl⟩

theorem fractionPart_of_closes {rest : List Char} (h : Closes rest) :
    fractionPart rest = some ([], rest) := by
  unfold fractionPart
  split
  · exact absurd rfl (h '.' rfl).2.1
  · rfl

theorem exponentPart_of_closes {rest : List Char} (h : Closes rest) :
    exponentPart rest = some (0, rest) := by
  unfold exponentPart
  split
  · exact absurd rfl (h 'e' rfl).2.2.1
  · exact absurd rfl (h 'E' rfl).2.2.2
  · rfl

/-- A number is written with at least one digit. -/
theorem exists_toDigits (n : Nat) :
    ∃ c cs, Nat.toDigits 10 n = c :: cs ∧ c.isDigit = true := by
  obtain ⟨c, cs, hcs⟩ := List.exists_cons_of_ne_nil (Nat.toDigits_ne_nil (b := 10) (n := n))
  refine ⟨c, cs, hcs, Nat.isDigit_of_mem_toDigits (b := 10) (n := n) (by decide) (by decide) ?_⟩
  rw [hcs]
  exact List.mem_cons_self

theorem eq_zero_of_digitChar : ∀ n < 10, Nat.digitChar n = '0' → n = 0 := by decide

/-- Only zero is written with a zero in front. -/
theorem eq_zero_of_head?_toDigits {n : Nat} (h : (Nat.toDigits 10 n).head? = some '0') : n = 0 := by
  induction n using Nat.strongRecOn with
  | ind n ih =>
    by_cases hn : n < 10
    · rw [Nat.toDigits_of_lt_base hn] at h
      exact eq_zero_of_digitChar n hn (Option.some.inj h)
    · -- the digits in front of the last one are those of a smaller number, which is not zero
      obtain ⟨c, cs, hcs, -⟩ := exists_toDigits (n / 10)
      have hzero := ih (n / 10) (by omega)
      rw [Nat.toDigits_of_base_le (by decide) (by omega), hcs] at h
      rw [hcs] at hzero
      have := hzero h
      omega

/-- The value of the digits of a number. -/
theorem digitsValue_toDigits (n : Nat) : digitsValue (Nat.toDigits 10 n) = n :=
  Nat.ofDigitChars_ten_toDigits

/-- The digits of a number in front of which nothing has to be dropped. -/
theorem not_padded (n : Nat) :
    ((Nat.toDigits 10 n).isEmpty ||
      (Nat.toDigits 10 n).head? == some '0' &&
        decide ((Nat.toDigits 10 n).length > 1)) = false := by
  rw [Bool.or_eq_false_iff, Bool.and_eq_false_iff]
  refine ⟨by simp [Nat.toDigits_ne_nil], ?_⟩
  by_cases hzero : (Nat.toDigits 10 n).head? = some '0'
  · right
    rw [eq_zero_of_head?_toDigits hzero]
    decide
  · left
    simpa using hzero

/-- An integer of 64 bits, signed or unsigned. -/
def IsShort (i : Int) : Prop := Int64.minValue.toInt ≤ i ∧ i < Int.ofNat UInt64.size

/-- The digits of a short integer, behind its sign if it has one. -/
theorem unsigned_natAbs {i : Int} (h : IsShort i) {rest : List Char} (hrest : Closes rest) :
    unsigned (decide (i < 0)) (Nat.toDigits 10 i.natAbs ++ rest) = some (.int i, rest) := by
  have hdigits : ∀ c ∈ Nat.toDigits 10 i.natAbs, c.isDigit = true := fun c hc =>
    Nat.isDigit_of_mem_toDigits (by decide) (by decide) hc
  obtain ⟨htake, hdrop⟩ := takeWhile_isDigit hdigits hrest
  simp only [unsigned, htake, hdrop, not_padded, Bool.false_eq_true, if_false,
    fractionPart_of_closes hrest, exponentPart_of_closes hrest, digitsValue_toDigits,
    Option.bind_eq_bind, Option.bind_some, if_true]
  obtain ⟨hleast, hgreatest⟩ := h
  by_cases hneg : i < 0
  · have hvalue : -(Int.ofNat i.natAbs) = i := by
      rw [Int.ofNat_eq_natCast]
      omega
    have hpos : 0 < i.natAbs := by omega
    simp only [hneg, hvalue, hpos, hleast, decide_true, Bool.and_true, if_true]
    rfl
  · have hvalue : Int.ofNat i.natAbs = i := by
      rw [Int.ofNat_eq_natCast]
      omega
    have hsize : i.natAbs < UInt64.size := by
      rw [Int.ofNat_eq_natCast] at hgreatest
      omega
    simp only [hneg, hvalue, hsize, decide_true, decide_false, Bool.false_and, Bool.not_false,
      Bool.and_true, Bool.false_eq_true, if_false, if_true]
    rfl

/-- How an integer is written. -/
theorem toList_toString_int (i : Int) :
    (toString i).toList = (if i < 0 then ['-'] else []) ++ Nat.toDigits 10 i.natAbs := by
  rw [Int.toString_eq_repr, Int.repr_eq_if]
  by_cases hneg : i < 0
  · have habs : (-i).toNat = i.natAbs := by omega
    rw [if_neg (by omega), if_pos hneg, String.toList_append, Nat.toList_repr, habs]
    rfl
  · have habs : i.toNat = i.natAbs := by omega
    rw [if_pos (by omega), if_neg hneg, Nat.toList_repr, habs, List.nil_append]

/-- The first character of an integer. -/
theorem exists_toString_int (i : Int) :
    ∃ c cs, (toString i).toList = c :: cs ∧ (c.isDigit = true ∨ c = '-') := by
  rw [toList_toString_int]
  by_cases hneg : i < 0
  · rw [if_pos hneg]
    exact ⟨'-', _, rfl, .inr rfl⟩
  · rw [if_neg hneg, List.nil_append]
    obtain ⟨c, cs, hcs, hc⟩ := exists_toDigits i.natAbs
    exact ⟨c, cs, hcs, .inl hc⟩

/-- **An integer is read back as it was written.** -/
theorem number_toString {i : Int} (h : IsShort i) {rest : List Char} (hrest : Closes rest) :
    number ((toString i).toList ++ rest) = some (.int i, rest) := by
  have hread := unsigned_natAbs h hrest
  rw [toList_toString_int]
  by_cases hneg : i < 0
  · rw [decide_eq_true hneg] at hread
    rw [if_pos hneg]
    exact hread
  · rw [decide_eq_false hneg] at hread
    rw [if_neg hneg, List.nil_append]
    unfold number
    split
    · next heq =>
      -- a digit is no sign
      obtain ⟨c, cs, hcs, hc⟩ := exists_toDigits i.natAbs
      rw [hcs] at heq
      rw [(List.cons.inj heq).1] at hc
      exact absurd hc (by decide)
    · exact hread

/-! ## Section 3: Values -/

/-- A value that is read back: its integers are short, it has no other numbers, and it is nested at
    most so deep. -/
inductive Readable : Nat → Json → Prop where
  | null {n : Nat} : Readable n .null
  | bool {n : Nat} (b : Bool) : Readable n (.bool b)
  | int {n : Nat} {i : Int} (h : IsShort i) : Readable n (.int i)
  | string {n : Nat} (s : String) : Readable n (.string s)
  | array {n : Nat} {items : List Json} (h : ∀ v ∈ items, Readable n v) :
      Readable (n + 1) (.array items)
  | object {n : Nat} {fields : List (String × Json)} (h : ∀ f ∈ fields, Readable n f.2) :
      Readable (n + 1) (.object fields)

/-- A reader takes a written value back, and the value does not look like blanks or like the end of
    an array. -/
structure ReadBack (read : Reader Json) (v : Json) : Prop where
  starts : ∃ c cs, v.render.toList = c :: cs ∧ isBlank c = false ∧ c ≠ ']'
  reads : ∀ rest, Closes rest → read (v.render.toList ++ rest) = some (v, rest)

theorem skip_cons {c : Char} (h : isBlank c = false) (cs : List Char) : skip (c :: cs) = c :: cs :=
  List.dropWhile_cons_of_neg (by simp [h])

theorem ReadBack.skip {read : Reader Json} {v : Json} (h : ReadBack read v) (rest : List Char) :
    Json.skip (v.render.toList ++ rest) = v.render.toList ++ rest := by
  obtain ⟨c, cs, hcs, hc, -⟩ := h.starts
  rw [hcs]
  exact skip_cons hc (cs ++ rest)

section

variable {read : Reader Json}

theorem toList_renderItems (v w : Json) (vs : List Json) :
    (renderItems (v :: w :: vs)).toList =
      v.render.toList ++ ',' :: (renderItems (w :: vs)).toList := by
  rw [renderItems, String.toList_append, String.toList_append, List.append_assoc]
  rfl

/-- The items of an array, up to its bracket. -/
theorem itemsWith_render {items : List Json} (hne : items ≠ [])
    (h : ∀ v ∈ items, ReadBack read v) {fuel : Nat} (hfuel : items.length ≤ fuel)
    (rest : List Char) :
    itemsWith read fuel ((renderItems items).toList ++ ']' :: rest) = some (items, rest) := by
  -- behind an item stands a comma, and behind the last one the bracket: no number goes on in them
  induction items generalizing fuel with
  | nil => exact absurd rfl hne
  | cons v vs ih =>
    obtain ⟨n, rfl⟩ : ∃ n, fuel = n + 1 := ⟨fuel - 1, by rw [List.length_cons] at hfuel; omega⟩
    have hv := h v List.mem_cons_self
    cases vs with
    | nil =>
      have hread := hv.reads (']' :: rest) (Closes.of_cons (by decide) rest)
      have hskip : skip (']' :: rest) = ']' :: rest := skip_cons (by decide) rest
      simp only [renderItems, itemsWith, hv.skip, hread, hskip, Option.bind_eq_bind,
        Option.bind_some]
      rfl
    | cons w vs =>
      have hmore := ih (List.cons_ne_nil w vs) (fun x hx => h x (List.mem_cons_of_mem v hx))
        (Nat.le_of_succ_le_succ hfuel)
      have hread := hv.reads (',' :: ((renderItems (w :: vs)).toList ++ ']' :: rest))
        (Closes.of_cons (by decide) _)
      have hskip : ∀ cs, skip (',' :: cs) = ',' :: cs := skip_cons (by decide)
      rw [toList_renderItems, List.append_assoc, List.cons_append]
      simp only [itemsWith, hv.skip, hread, hskip, hmore, Option.bind_eq_bind, Option.bind_some]
      rfl

/-- An array that is not empty begins with its first item. -/
theorem exists_renderItems {v : Json} (hv : ReadBack read v) (vs : List Json) (rest : List Char) :
    ∃ c cs, (renderItems (v :: vs)).toList ++ rest = c :: cs ∧ isBlank c = false ∧ c ≠ ']' := by
  obtain ⟨c, cs, hcs, hc⟩ := hv.starts
  cases vs with
  | nil => exact ⟨c, cs ++ rest, by rw [renderItems, hcs, List.cons_append], hc⟩
  | cons w vs =>
    rw [toList_renderItems, hcs]
    exact ⟨c, _, rfl, hc⟩

theorem length_le_renderItems (items : List Json) :
    items.length ≤ (renderItems items).toList.length + 1 := by
  induction items with
  | nil => exact Nat.zero_le _
  | cons v vs ih =>
    cases vs with
    | nil => simp
    | cons w vs =>
      rw [toList_renderItems, List.length_append]
      simp only [List.length_cons] at ih ⊢
      omega

theorem toList_quote (s : String) :
    (quote s).toList = '"' :: (s.toList.flatMap quoteChar ++ ['"']) := by
  rw [quote, quoteChars, String.toList_ofList, List.cons_append]

theorem skip_quote (k : String) (rest : List Char) :
    skip ((quote k).toList ++ rest) = (quote k).toList ++ rest := by
  rw [toList_quote]
  exact skip_cons (by decide) _

theorem toList_renderField (k : String) (v : Json) :
    (renderFields [(k, v)]).toList = (quote k).toList ++ ':' :: v.render.toList := by
  rw [renderFields, String.toList_append, String.toList_append, List.append_assoc]
  rfl

theorem toList_renderFields (f g : String × Json) (fs : List (String × Json)) :
    (renderFields (f :: g :: fs)).toList =
      (renderFields [f]).toList ++ ',' :: (renderFields (g :: fs)).toList := by
  obtain ⟨k, v⟩ := f
  rw [renderFields, renderFields]
  simp only [String.toList_append, List.append_assoc]
  rfl

/-- An object that is not empty begins with its first key. -/
theorem exists_renderFields (f : String × Json) (fs : List (String × Json)) (rest : List Char) :
    ∃ cs, (renderFields (f :: fs)).toList ++ rest = '"' :: cs := by
  cases fs with
  | nil =>
    rw [toList_renderField, toList_quote]
    exact ⟨_, rfl⟩
  | cons g fs =>
    rw [toList_renderFields, toList_renderField, toList_quote]
    exact ⟨_, rfl⟩

/-- The fields of an object, up to its brace. -/
theorem fieldsWith_render {fields : List (String × Json)} (hne : fields ≠ [])
    (h : ∀ f ∈ fields, ReadBack read f.2) {fuel : Nat} (hfuel : fields.length ≤ fuel)
    (rest : List Char) :
    fieldsWith read fuel ((renderFields fields).toList ++ '}' :: rest) = some (fields, rest) := by
  induction fields generalizing fuel with
  | nil => exact absurd rfl hne
  | cons f fs ih =>
    obtain ⟨n, rfl⟩ : ∃ n, fuel = n + 1 := ⟨fuel - 1, by rw [List.length_cons] at hfuel; omega⟩
    obtain ⟨k, v⟩ := f
    have hv : ReadBack read v := h (k, v) List.mem_cons_self
    have hcolon : ∀ cs, skip (':' :: cs) = ':' :: cs := skip_cons (by decide)
    cases fs with
    | nil =>
      have hread := hv.reads ('}' :: rest) (Closes.of_cons (by decide) rest)
      have hskip : skip ('}' :: rest) = '}' :: rest := skip_cons (by decide) rest
      rw [toList_renderField, List.append_assoc, List.cons_append]
      simp only [fieldsWith, skip_quote, stringToken_quote, hcolon, hv.skip, hread, hskip,
        Option.bind_eq_bind, Option.bind_some]
      rfl
    | cons g fs =>
      have hmore := ih (List.cons_ne_nil g fs) (fun x hx => h x (List.mem_cons_of_mem (k, v) hx))
        (Nat.le_of_succ_le_succ hfuel)
      have hread := hv.reads (',' :: ((renderFields (g :: fs)).toList ++ '}' :: rest))
        (Closes.of_cons (by decide) _)
      have hskip : ∀ cs, skip (',' :: cs) = ',' :: cs := skip_cons (by decide)
      rw [toList_renderFields, toList_renderField]
      simp only [List.append_assoc, List.cons_append]
      simp only [fieldsWith, skip_quote, stringToken_quote, hcolon, hv.skip, hread, hskip, hmore,
        Option.bind_eq_bind, Option.bind_some]
      rfl

theorem length_le_renderFields (fields : List (String × Json)) :
    fields.length ≤ (renderFields fields).toList.length + 1 := by
  induction fields with
  | nil => exact Nat.zero_le _
  | cons f fs ih =>
    cases fs with
    | nil => simp
    | cons g fs =>
      rw [toList_renderFields, List.length_append]
      simp only [List.length_cons] at ih ⊢
      omega

end

/-- A number begins with a digit or a sign, and with nothing else. -/
theorem ne_of_number {c d : Char} (h : c.isDigit = true ∨ c = '-')
    (hd : ¬(d.isDigit = true ∨ d = '-')) : c ≠ d := fun heq => hd (heq ▸ h)

/-- What begins with a digit or a sign is a number. -/
theorem value_of_number {c : Char} (h : c.isDigit = true ∨ c = '-') (n : Nat) (cs : List Char) :
    value (n + 1) (c :: cs) = number (c :: cs) := by
  simp only [value]
  split
  · next heq => exact absurd (List.cons.inj heq).1 (ne_of_number h (by decide))
  · next heq => exact absurd (List.cons.inj heq).1 (ne_of_number h (by decide))
  · next heq => exact absurd (List.cons.inj heq).1 (ne_of_number h (by decide))
  · next heq => exact absurd (List.cons.inj heq).1 (ne_of_number h (by decide))
  · next heq => exact absurd (List.cons.inj heq).1 (ne_of_number h (by decide))
  · next heq => exact absurd (List.cons.inj heq).1 (ne_of_number h (by decide))
  · rfl

/-- An array that is not empty. -/
theorem value_array {n : Nat} {c : Char} {cs rest : List Char} (hskip : skip rest = c :: cs)
    (hc : c ≠ ']') :
    value (n + 2) ('[' :: rest) =
      (itemsWith (value (n + 1)) (c :: cs).length (c :: cs)).map fun r => (.array r.1, r.2) := by
  rw [value, hskip]
  · split
    · next heq => exact absurd (List.cons.inj heq).1 hc
    · rfl
  · exact nofun

/-- An object that is not empty. -/
theorem value_object {n : Nat} {c : Char} {cs rest : List Char} (hskip : skip rest = c :: cs)
    (hc : c ≠ '}') :
    value (n + 2) ('{' :: rest) =
      (fieldsWith (value (n + 1)) (c :: cs).length (c :: cs)).map fun r => (.object r.1, r.2) := by
  rw [value, hskip]
  · split
    · next heq => exact absurd (List.cons.inj heq).1 hc
    · rfl
  · exact nofun

/-- **A value is read back as it was written.** -/
theorem Readable.readBack {n : Nat} {v : Json} (h : Readable n v) : ReadBack (value (n + 1)) v := by
  induction h with
  | null => exact ⟨⟨'n', _, rfl, by decide, by decide⟩, fun rest _ => rfl⟩
  | bool b =>
    cases b with
    | true => exact ⟨⟨'t', _, rfl, by decide, by decide⟩, fun rest _ => rfl⟩
    | false => exact ⟨⟨'f', _, rfl, by decide, by decide⟩, fun rest _ => rfl⟩
  | @int n i h =>
    obtain ⟨c, cs, hcs, hc⟩ := exists_toString_int i
    have hrender : (render (.int i)).toList = c :: cs := by rw [render, hcs]
    constructor
    · refine ⟨c, cs, hrender, ?_, ne_of_number hc (by decide)⟩
      have hspace : c ≠ ' ' := ne_of_number hc (by decide)
      have hfeed : c ≠ '\n' := ne_of_number hc (by decide)
      have htab : c ≠ '\t' := ne_of_number hc (by decide)
      have hreturn : c ≠ '\r' := ne_of_number hc (by decide)
      simp [isBlank, hspace, hfeed, htab, hreturn]
    · intro rest hrest
      have hread := number_toString h hrest
      rw [hcs] at hread
      rw [hrender, List.cons_append, value_of_number hc]
      exact hread
  | string s =>
    constructor
    · exact ⟨'"', _, toList_quote s, by decide, by decide⟩
    · intro rest _
      have hread := stringToken_quote s rest
      rw [render]
      rw [toList_quote, List.cons_append] at hread ⊢
      show (stringToken _).map _ = _
      rw [hread]
      rfl
  | @array n items h ih =>
    have hrender :
        (render (.array items)).toList = '[' :: ((renderItems items).toList ++ [']']) := by
      rw [render, String.toList_append, String.toList_append]
      rfl
    refine ⟨⟨'[', _, hrender, by decide, by decide⟩, fun rest _ => ?_⟩
    rw [hrender, List.cons_append, List.append_assoc, List.singleton_append]
    cases items with
    | nil => rfl
    | cons v vs =>
      obtain ⟨c, cs, hcs, hblank, hc⟩ :=
        exists_renderItems (ih v List.mem_cons_self) vs (']' :: rest)
      have hfuel : (v :: vs).length ≤ ((renderItems (v :: vs)).toList ++ ']' :: rest).length := by
        have hle := length_le_renderItems (v :: vs)
        simp only [List.length_append, List.length_cons] at hle ⊢
        omega
      have hread := itemsWith_render (List.cons_ne_nil v vs) ih hfuel rest
      rw [hcs] at hread ⊢
      rw [value_array (skip_cons hblank cs) hc, hread]
      rfl
  | @object n fields h ih =>
    have hrender : (render (.object fields)).toList =
        '{' :: ((renderFields fields).toList ++ ['}']) := by
      rw [render, String.toList_append, String.toList_append]
      rfl
    refine ⟨⟨'{', _, hrender, by decide, by decide⟩, fun rest _ => ?_⟩
    rw [hrender, List.cons_append, List.append_assoc, List.singleton_append]
    cases fields with
    | nil => rfl
    | cons f fs =>
      obtain ⟨cs, hcs⟩ := exists_renderFields f fs ('}' :: rest)
      have hfuel : (f :: fs).length ≤ ((renderFields (f :: fs)).toList ++ '}' :: rest).length := by
        have hle := length_le_renderFields (f :: fs)
        simp only [List.length_append, List.length_cons] at hle ⊢
        omega
      have hread := fieldsWith_render (List.cons_ne_nil f fs) ih hfuel rest
      rw [hcs] at hread ⊢
      rw [value_object (skip_cons (by decide) cs) (by decide), hread]
      rfl

/-- **The text of a value is read as the value.** -/
theorem parse_render {v : Json} (h : Readable 127 v) : parse v.render = some v := by
  have hread := h.readBack.reads [] Closes.nil
  have hskip := h.readBack.skip []
  rw [List.append_nil] at hread hskip
  rw [parse, hskip, hread]
  rfl

end BuildMacros.Json
