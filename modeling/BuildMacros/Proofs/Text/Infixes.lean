import BuildMacros.Proofs.Text.Fields
import BuildMacros.Proofs.Text.Placement

/-! # Pieces of a text

    `contains` searches for a word, and finds it exactly when it is an infix of the
    text. What the functions on texts cut out of a text, fields, words and trimmed
    texts, are infixes of it.
-/

namespace BuildMacros.Text

/-! ## Section 1: Searching -/

theorem strip?_append (lead rest : List Char) : strip? lead (lead ++ rest) = some rest := by
  induction lead with
  | nil => rfl
  | cons p ps ih => simpa [strip?] using ih

theorem startsWith_iff {lead cs : List Char} : startsWith lead cs = true ↔ lead <+: cs := by
  rw [startsWith, Option.isSome_iff_exists]
  constructor
  · rintro ⟨rest, h⟩
    exact ⟨rest, (eq_append_of_strip? h).symm⟩
  · rintro ⟨rest, rfl⟩
    exact ⟨rest, strip?_append lead rest⟩

theorem endsWith_iff {tail cs : List Char} : endsWith tail cs = true ↔ tail <:+ cs := by
  rw [endsWith, startsWith_iff, List.reverse_prefix]

theorem strip?_eq_some_iff {lead cs rest : List Char} :
    strip? lead cs = some rest ↔ cs = lead ++ rest := by
  constructor
  · exact eq_append_of_strip?
  · rintro rfl
    exact strip?_append lead rest

/-- **A search finds infixes** and nothing else. -/
theorem contains_iff {word cs : List Char} : contains word cs = true ↔ word <:+: cs := by
  induction cs with
  | nil => rw [contains, startsWith_iff, List.prefix_nil, List.infix_nil]
  | cons c cs ih => rw [contains, Bool.or_eq_true, startsWith_iff, ih, List.infix_cons_iff]

/-! ## Section 2: Cutting -/

/-- The first field is the head of a text, and all fields are infixes. -/
theorem infix_of_fields {sep : Char → Bool} {cs f : List Char} {fs : List (List Char)}
    (h : fields sep cs = f :: fs) : f <+: cs ∧ ∀ g ∈ fs, g <:+: cs := by
  induction cs generalizing f fs with
  | nil =>
    cases h
    simp
  | cons c cs ih =>
    obtain ⟨g, gs, hcs⟩ := List.exists_cons_of_ne_nil (@fields_ne_nil sep cs)
    obtain ⟨hhead, htail⟩ := ih hcs
    have hcons : ∀ x, x <:+: cs → x <:+: c :: cs := fun x hx =>
      hx.trans (List.suffix_cons c cs).isInfix
    cases hc : sep c with
    | true =>
      rw [fields_cons_of_sep hc, hcs] at h
      cases h
      refine ⟨ List.nil_prefix, fun x hx => hcons x ?_⟩
      rcases List.mem_cons.mp hx with rfl | hx
      · exact hhead.isInfix
      · exact htail x hx
    | false =>
      rw [fields_cons_of_not_sep hc hcs] at h
      cases h
      exact ⟨List.cons_prefix_cons.mpr ⟨rfl, hhead⟩, fun x hx => hcons x (htail x hx)⟩

theorem infix_of_mem_fields {sep : Char → Bool} {cs f : List Char} (h : f ∈ fields sep cs) :
    f <:+: cs := by
  obtain ⟨g, gs, hcs⟩ := List.exists_cons_of_ne_nil (@fields_ne_nil sep cs)
  rw [hcs] at h
  rcases List.mem_cons.mp h with rfl | h
  · exact (infix_of_fields hcs).1.isInfix
  · exact (infix_of_fields hcs).2 f h

theorem infix_of_mem_words {blank : Char → Bool} {cs w : List Char} (h : w ∈ words blank cs) :
    w <:+: cs := infix_of_mem_fields (List.mem_filter.mp h).1

theorem prefix_dropEnd (p : Char → Bool) (cs : List Char) : dropEnd p cs <+: cs := by
  rw [dropEnd, ← List.reverse_suffix, List.reverse_reverse]
  exact List.dropWhile_suffix p

theorem infix_trim (p : Char → Bool) (cs : List Char) : trim p cs <:+: cs :=
  (prefix_dropEnd p _).isInfix.trans (List.dropWhile_suffix p).isInfix

/-- A trimmed text begins with none of the characters that are dropped. -/
theorem eq_false_of_head?_trim {p : Char → Bool} {cs : List Char} {c : Char}
    (h : (trim p cs).head? = some c) : p c = false := by
  obtain ⟨rest, hrest⟩ := List.head?_eq_some_iff.mp h
  obtain ⟨tail, htail⟩ := prefix_dropEnd p (cs.dropWhile p)
  rw [trim] at hrest
  rw [hrest, List.cons_append] at htail
  have hhead := List.head?_dropWhile_not p cs
  rw [← htail] at hhead
  simpa using hhead

/-- What is dropped at the end of a text. -/
theorem dropEnd_append {p : Char → Bool} {tail : List Char} (h : ∀ c ∈ tail, p c = true)
    (cs : List Char) : dropEnd p (cs ++ tail) = dropEnd p cs := by
  have hreverse : ∀ c ∈ tail.reverse, p c = true := fun c hc => h c (List.mem_reverse.mp hc)
  rw [dropEnd, dropEnd, List.reverse_append, List.dropWhile_append_of_pos hreverse]

theorem dropWhile_eq_self {p : Char → Bool} {cs : List Char}
    (h : ∀ c, cs.head? = some c → p c = false) : cs.dropWhile p = cs := by
  cases cs with
  | nil => rfl
  | cons c cs => rw [List.dropWhile_cons_of_neg (by simp [h c rfl])]

theorem dropEnd_eq_self {p : Char → Bool} {cs : List Char}
    (h : ∀ c, cs.getLast? = some c → p c = false) : dropEnd p cs = cs := by
  have hhead : cs.reverse.dropWhile p = cs.reverse :=
    dropWhile_eq_self fun c hc => h c (by rwa [List.getLast?_eq_head?_reverse])
  rw [dropEnd, hhead, List.reverse_reverse]

theorem splitLast?_eq_none_iff {p : Char → Bool} {cs : List Char} :
    splitLast? p cs = none ↔ ∀ c ∈ cs, p c = false := by
  induction cs with
  | nil => simp [splitLast?]
  | cons c cs ih =>
    rw [List.forall_mem_cons, ← ih, splitLast?]
    cases splitLast? p cs with
    | some r => simp
    | none => simp

/-- What a text is split into: the character that it is split at is the last of its kind. -/
theorem eq_of_splitLast? {p : Char → Bool} {cs before after : List Char}
    (h : splitLast? p cs = some (before, after)) :
    ∃ c, p c = true ∧ cs = before ++ c :: after ∧ ∀ d ∈ after, p d = false := by
  induction cs generalizing before with
  | nil => cases h
  | cons c cs ih =>
    unfold splitLast? at h
    split at h
    · next hcs =>
      cases h
      obtain ⟨d, hd, rfl, hafter⟩ := ih hcs
      exact ⟨d, hd, rfl, hafter⟩
    · next hcs =>
      split at h
      · next hc =>
        cases h
        exact ⟨c, hc, rfl, splitLast?_eq_none_iff.mp hcs⟩
      · cases h

/-- What is split off before a character is the head of the text. -/
theorem prefix_of_splitLast? {p : Char → Bool} {cs before after : List Char}
    (h : splitLast? p cs = some (before, after)) : before <+: cs := by
  obtain ⟨c, -, rfl, -⟩ := eq_of_splitLast? h
  exact List.prefix_append before (c :: after)

/-- A text is split at the last character of a kind. -/
theorem splitLast?_append_cons {p : Char → Bool} {c : Char} (hc : p c = true) {after : List Char}
    (h : ∀ d ∈ after, p d = false) (before : List Char) :
    splitLast? p (before ++ c :: after) = some (before, after) := by
  induction before with
  | nil =>
    rw [List.nil_append, splitLast?, splitLast?_eq_none_iff.mpr h, if_pos hc]
  | cons b before ih => rw [List.cons_append, splitLast?, ih]

theorem not_beq_of_not_mem {s : Char} {cs : List Char} (h : s ∉ cs) :
    ∀ c ∈ cs, (c == s) = false := by
  intro c hc
  exact beq_false_of_ne fun heq => h (heq ▸ hc)

/-- A text is split at the last one of a character. -/
theorem splitLast?_append_char {s : Char} {after : List Char} (h : s ∉ after)
    (before : List Char) : splitLast? (· == s) (before ++ s :: after) = some (before, after) := by
  exact splitLast?_append_cons (p := (· == s)) (beq_self_eq_true s) (not_beq_of_not_mem h) before

end BuildMacros.Text
