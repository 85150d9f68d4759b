import BuildMacros.Naming
import BuildMacros.Proofs.Text.Case

/-! # Names that are cased already

    Casing a name a second time splits it again, and not always at the same places:
    the words of `a-b-c` are joined to `ABC`, which is one word. But every new word
    begins with a character that is upper case already, and nothing separates the words
    any more. So the texts in pascal case are those without separators whose first
    character is its own upper case (`pascal_eq_self_iff`).

    What the pascal case of a text consists of is said by `mem_pascal` and
    `head?_pascal`; it is a text in pascal case (`pascal_pascal`). Casing may make several
    characters out of one, but no separators and no small ASCII letters
    (`count_pascal_le`).
-/

namespace BuildMacros.Naming

open BuildMacros.Text

/-! ## Section 1: Words joined again -/

/-- The character is its own upper case. -/
def IsFixed (c : Char) : Prop := upper c = [c]

theorem splitFrom_of_sep {c : Char} (h : isSeparator c = true) (word cs : List Char) :
    splitFrom word (c :: cs) =
      if word.isEmpty then splitFrom [] cs else word.reverse :: splitFrom [] cs := by
  rw [splitFrom.eq_def]
  simp only [h, if_true]

theorem splitFrom_first {c : Char} (h : isSeparator c = false) (cs : List Char) :
    splitFrom [] (c :: cs) = splitFrom [c] cs := by
  rw [splitFrom.eq_def]
  simp only [h, Bool.false_eq_true, if_false]

theorem splitFrom_next {c : Char} (h : isSeparator c = false) (prev : Char) (word cs : List Char) :
    splitFrom (prev :: word) (c :: cs) =
      if isWordStart prev c cs.head? then (prev :: word).reverse :: splitFrom [c] cs
      else splitFrom (c :: prev :: word) cs := by
  rw [splitFrom.eq_def]
  simp only [h, Bool.false_eq_true, if_false]

/-- Words start with capitals. -/
theorem isUpper_of_isWordStart {prev c : Char} {next : Option Char}
    (h : isWordStart prev c next = true) : isUpper c = true := by
  simp only [isWordStart, Bool.or_eq_true, Bool.and_eq_true] at h
  rcases h with (⟨-, h⟩ | ⟨⟨-, h⟩, -⟩) | ⟨-, h⟩ <;> exact h

/-- More text behind a word that is capitalised already. -/
theorem upperFirst_append {word : List Char} (h : upperFirst word = word) (hne : word ≠ [])
    (cs : List Char) : upperFirst (word ++ cs) = word ++ cs := by
  cases word with
  | nil => exact absurd rfl hne
  | cons c word =>
    rw [upperFirst] at h
    rw [List.cons_append, upperFirst, ← List.append_assoc, h, List.cons_append]

/-- Splitting a text without separators and joining the capitalised words gives the text, when the
    first word begins with its own upper case. The others do. -/
theorem flatMap_upperFirst_splitFrom {word cs : List Char}
    (hsep : ∀ c ∈ cs, isSeparator c = false) (hword : upperFirst word.reverse = word.reverse)
    (hhead : word = [] → ∀ c, cs.head? = some c → IsFixed c) :
    (splitFrom word cs).flatMap upperFirst = word.reverse ++ cs := by
  induction cs generalizing word with
  | nil =>
    cases word with
    | nil => rfl
    | cons prev word => simpa [splitFrom] using hword
  | cons c cs ih =>
    obtain ⟨hc, hsep⟩ := List.forall_mem_cons.mp hsep
    -- a new word that begins with its own upper case
    have hstart : IsFixed c → (splitFrom [c] cs).flatMap upperFirst = c :: cs := by
      intro hfixed
      have hone : upperFirst [c] = [c] := by simpa [upperFirst, IsFixed] using hfixed
      exact ih hsep hone (by simp)
    cases word with
    | nil =>
      rw [splitFrom_first hc]
      exact hstart (hhead rfl c rfl)
    | cons prev word =>
      rw [splitFrom_next hc]
      by_cases hnew : isWordStart prev c cs.head? = true
      · rw [if_pos hnew, List.flatMap_cons, hword,
          hstart (upper_of_isUpper (isUpper_of_isWordStart hnew))]
      · have hlonger := upperFirst_append hword (by simp) [c]
        rw [← List.reverse_cons] at hlonger
        rw [if_neg hnew, ih hsep hlonger (by simp), List.reverse_cons, List.append_assoc]
        rfl

/-- Texts in pascal case stay as they are. -/
theorem pascal_eq_self {cs : List Char} (hsep : ∀ c ∈ cs, isSeparator c = false)
    (hhead : ∀ c, cs.head? = some c → IsFixed c) : pascal cs = cs :=
  flatMap_upperFirst_splitFrom hsep rfl fun _ => hhead

/-! ## Section 2: What pascal case consists of -/

/-- The words of a text are not empty, and no separator of the text is in them. -/
theorem mem_splitFrom {word cs w : List Char} (hw : w ∈ splitFrom word cs) :
    w ≠ [] ∧ ∀ c ∈ w, c ∈ word ∨ c ∈ cs ∧ isSeparator c = false := by
  induction cs generalizing word with
  | nil =>
    cases word with
    | nil => simp [splitFrom] at hw
    | cons prev word =>
      have hw : w = (prev :: word).reverse := by simpa [splitFrom] using hw
      subst hw
      exact ⟨by simp, fun c hc => .inl (List.mem_reverse.mp hc)⟩
  | cons c cs ih =>
    -- what is known of the words of the rest, read with some word before it
    have hrest : ∀ word' : List Char,
        (∀ d ∈ word', d ∈ word ∨ d ∈ c :: cs ∧ isSeparator d = false) → w ∈ splitFrom word' cs →
          w ≠ [] ∧ ∀ d ∈ w, d ∈ word ∨ d ∈ c :: cs ∧ isSeparator d = false := by
      intro word' hword' hw
      obtain ⟨hne, hmem⟩ := ih hw
      refine ⟨hne, fun d hd => ?_⟩
      rcases hmem d hd with hd | ⟨hd, hsep⟩
      · exact hword' d hd
      · exact .inr ⟨List.mem_cons_of_mem c hd, hsep⟩
    have hread : w = word.reverse → word ≠ [] →
        w ≠ [] ∧ ∀ d ∈ w, d ∈ word ∨ d ∈ c :: cs ∧ isSeparator d = false := by
      rintro rfl hne
      exact ⟨by simpa using hne, fun d hd => .inl (List.mem_reverse.mp hd)⟩
    by_cases hsep : isSeparator c = true
    · rw [splitFrom_of_sep hsep] at hw
      split at hw
      · exact hrest [] (by simp) hw
      · next hne =>
        rcases List.mem_cons.mp hw with hw | hw
        · exact hread hw (by simpa using hne)
        · exact hrest [] (by simp) hw
    · rw [Bool.not_eq_true] at hsep
      cases word with
      | nil =>
        rw [splitFrom_first hsep] at hw
        exact hrest [c] (by simp [hsep]) hw
      | cons prev word =>
        rw [splitFrom_next hsep] at hw
        split at hw
        · rcases List.mem_cons.mp hw with hw | hw
          · exact hread hw (by simp)
          · exact hrest [c] (by simp [hsep]) hw
        · refine hrest (c :: prev :: word) (fun d hd => ?_) hw
          rcases List.mem_cons.mp hd with rfl | hd
          · exact .inr ⟨List.mem_cons_self, hsep⟩
          · exact .inl hd

/-- A character of the pascal case stands in the text, or in the upper case of a character of the
    text, and that is no separator. -/
theorem mem_pascal {c : Char} {cs : List Char} (h : c ∈ pascal cs) :
    ∃ d ∈ cs, isSeparator d = false ∧ (c = d ∨ c ∈ upper d) := by
  obtain ⟨w, hw, hc⟩ := List.mem_flatMap.mp h
  obtain ⟨-, hmem⟩ := mem_splitFrom hw
  have hplain : ∀ d ∈ w, d ∈ cs ∧ isSeparator d = false := by
    intro d hd
    simpa using hmem d hd
  cases w with
  | nil => cases hc
  | cons d w =>
    rcases List.mem_append.mp hc with hc | hc
    · obtain ⟨hd, hsep⟩ := hplain d List.mem_cons_self
      exact ⟨d, hd, hsep, .inr hc⟩
    · obtain ⟨hd, hsep⟩ := hplain c (List.mem_cons_of_mem d hc)
      exact ⟨c, hd, hsep, .inl rfl⟩

/-- The pascal case begins with the upper case of a character. -/
theorem head?_pascal {c : Char} {cs : List Char} (h : (pascal cs).head? = some c) :
    ∃ d ∈ cs, isSeparator d = false ∧ (upper d).head? = some c := by
  unfold pascal splitByCase at h
  cases hwords : splitFrom [] cs with
  | nil => simp [hwords] at h
  | cons w words =>
    have hw : w ∈ splitFrom [] cs := by simp [hwords]
    obtain ⟨hne, hmem⟩ := mem_splitFrom hw
    cases w with
    | nil => exact absurd rfl hne
    | cons d w =>
      obtain ⟨hd, hsep⟩ : d ∈ cs ∧ isSeparator d = false := by simpa using hmem d List.mem_cons_self
      refine ⟨d, hd, hsep, ?_⟩
      rw [hwords, List.flatMap_cons, upperFirst, List.append_assoc, List.head?_append] at h
      cases hup : upper d with
      | nil => exact absurd hup (upper_ne_nil d)
      | cons u us => simpa [hup] using h

/-- The words of a text, one behind the other, are the text without its separators. -/
theorem flatten_splitFrom (word cs : List Char) :
    (splitFrom word cs).flatten = word.reverse ++ cs.filter fun c => !isSeparator c := by
  induction cs generalizing word with
  | nil => cases word <;> simp [splitFrom]
  | cons c cs ih =>
    by_cases hsep : isSeparator c = true
    · rw [splitFrom_of_sep hsep, List.filter_cons_of_neg (by simp [hsep])]
      split
      · next hempty =>
        rw [ih, List.isEmpty_iff.mp hempty]
      · rw [List.flatten_cons, ih]
        rfl
    · rw [Bool.not_eq_true] at hsep
      rw [List.filter_cons_of_pos (by simp [hsep])]
      cases word with
      | nil =>
        rw [splitFrom_first hsep, ih]
        rfl
      | cons prev word =>
        rw [splitFrom_next hsep]
        split
        · rw [List.flatten_cons, ih]
          rfl
        · rw [ih, List.reverse_cons, List.append_assoc]
          rfl

/-! ## Section 3: Casing twice -/

/-- Separators come out of casing only where they went in. -/
theorem isSeparator_of_mem_upper {c d : Char} (h : d ∈ upper c) (hsep : isSeparator c = false) :
    isSeparator d = false := by
  rw [Bool.eq_false_iff]
  intro hd
  have hmark : d.toNat < 128 ∧ ¬IsCapital d.toNat := by
    simp only [isSeparator, Bool.or_eq_true, beq_iff_eq] at hd
    rcases hd with (((rfl | rfl) | rfl) | rfl) | rfl <;> decide
  rw [(eq_of_mem_upper h hmark.1 hmark.2).1, hsep] at hd
  cases hd

theorem isSeparator_of_mem_pascal {c : Char} {cs : List Char} (h : c ∈ pascal cs) :
    isSeparator c = false := by
  obtain ⟨d, -, hsep, rfl | hc⟩ := mem_pascal h
  · exact hsep
  · exact isSeparator_of_mem_upper hc hsep

theorem isFixed_of_head?_pascal {c : Char} {cs : List Char} (h : (pascal cs).head? = some c) :
    IsFixed c := by
  obtain ⟨d, -, -, hhead⟩ := head?_pascal h
  exact upper_of_head?_upper hhead

/-- **Casing twice** is casing once. -/
theorem pascal_pascal (cs : List Char) : pascal (pascal cs) = pascal cs :=
  pascal_eq_self (fun _ => isSeparator_of_mem_pascal) fun _ => isFixed_of_head?_pascal

/-- **The texts in pascal case** have no separators, and their first character is its own upper
    case. -/
theorem pascal_eq_self_iff {cs : List Char} :
    pascal cs = cs ↔
      (∀ c ∈ cs, isSeparator c = false) ∧ ∀ c, cs.head? = some c → IsFixed c := by
  constructor
  · intro h
    rw [← h]
    exact ⟨fun _ => isSeparator_of_mem_pascal, fun _ => isFixed_of_head?_pascal⟩
  · rintro ⟨hsep, hhead⟩
    exact pascal_eq_self hsep hhead

/-- **Casing an ASCII text** drops its separators and turns single letters into single capitals, so
    the characters that are no separators stay as many as they were. -/
theorem length_pascal_ascii {cs : List Char} (hcs : ∀ c ∈ cs, c.toNat < 128) :
    (pascal cs).length = cs.countP fun c => !isSeparator c := by
  have hwords : ∀ ws : List (List Char), (∀ w ∈ ws, ∀ c ∈ w, c.toNat < 128) →
      (ws.flatMap upperFirst).length = ws.flatten.length := by
    intro ws hws
    induction ws with
    | nil => rfl
    | cons w ws ih =>
      obtain ⟨hw, hws⟩ := List.forall_mem_cons.mp hws
      have hfirst : (upperFirst w).length = w.length := by
        cases w with
        | nil => rfl
        | cons c w => rw [upperFirst, upper_of_ascii (hw c List.mem_cons_self)]; rfl
      rw [List.flatMap_cons, List.flatten_cons, List.length_append, List.length_append, hfirst,
        ih hws]
  have hascii : ∀ w ∈ splitFrom [] cs, ∀ c ∈ w, c.toNat < 128 := by
    intro w hw c hc
    obtain ⟨hc, -⟩ : c ∈ cs ∧ isSeparator c = false := by simpa using (mem_splitFrom hw).2 c hc
    exact hcs c hc
  rw [pascal, splitByCase, hwords _ hascii, flatten_splitFrom, List.reverse_nil, List.nil_append,
    List.countP_eq_length_filter]

/-! ## Section 4: Small letters -/

/-- Code points of the small ASCII letters. -/
def IsSmall (n : Nat) : Prop := 97 ≤ n ∧ n ≤ 122

instance (n : Nat) : Decidable (IsSmall n) := inferInstanceAs (Decidable (_ ∧ _))

/-- A small ASCII letter is in the upper case of no character. -/
theorem not_isSmall_of_mem_upper {c d : Char} (h : d ∈ upper c) : ¬IsSmall d.toNat := by
  intro hsmall
  have hascii : d.toNat < 128 := by unfold IsSmall at hsmall; omega
  have hcapital : ¬IsCapital d.toNat := by unfold IsSmall at hsmall; unfold IsCapital; omega
  obtain ⟨rfl, hfixed⟩ := eq_of_mem_upper h hascii hcapital
  rw [upper_of_ascii hascii, List.cons.injEq] at hfixed
  obtain ⟨n, rfl⟩ := exists_ascii hascii
  clear h hascii hcapital
  -- no small letter is its own upper case
  revert n
  decide

/-- Capitals in front of words are no small letters more. -/
theorem count_upperFirst_le {a : Char} (ha : IsSmall a.toNat) (w : List Char) :
    (upperFirst w).count a ≤ w.count a := by
  cases w with
  | nil => exact Nat.le_refl _
  | cons c w =>
    have hnone : (upper c).count a = 0 :=
      List.count_eq_zero.mpr fun h => not_isSmall_of_mem_upper h ha
    rw [upperFirst, List.count_append, hnone, Nat.zero_add]
    exact List.count_le_count_cons

/-- **Casing makes no small letters**: a small ASCII letter stands in the pascal case of a text at
    most as often as in the text. -/
theorem count_pascal_le {a : Char} (ha : IsSmall a.toNat) (cs : List Char) :
    (pascal cs).count a ≤ cs.count a := by
  have hwords : ∀ ws : List (List Char), (ws.flatMap upperFirst).count a ≤ ws.flatten.count a := by
    intro ws
    induction ws with
    | nil => exact Nat.le_refl _
    | cons w ws ih =>
      rw [List.flatMap_cons, List.flatten_cons, List.count_append, List.count_append]
      exact Nat.add_le_add (count_upperFirst_le ha w) ih
  calc (pascal cs).count a
      ≤ (splitFrom [] cs).flatten.count a := hwords _
    _ ≤ cs.count a := by
      rw [flatten_splitFrom]
      exact List.filter_sublist.count_le a

end BuildMacros.Naming
