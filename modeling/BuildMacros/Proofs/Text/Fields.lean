import BuildMacros.Text.Basic

/-! # Fields of a text

    `fields` divides a text at its separators and `join` puts pieces together
    again. Pieces without separators survive the round trip. The words of a text are
    those of its fields that are not empty.
-/

namespace BuildMacros.Text

section

variable {sep : Char → Bool}

theorem fields_ne_nil (cs : List Char) : fields sep cs ≠ [] := by
  cases cs with
  | nil => simp [fields]
  | cons c cs =>
    rw [fields]
    split
    · simp
    · split <;> simp

theorem fields_cons_of_sep {c : Char} (h : sep c = true) (cs : List Char) :
    fields sep (c :: cs) = [] :: fields sep cs := by
  rw [fields, if_pos h]

theorem fields_cons_of_not_sep {c : Char} (h : sep c = false) {cs f : List Char}
    {fs : List (List Char)} (hcs : fields sep cs = f :: fs) :
    fields sep (c :: cs) = (c :: f) :: fs := by
  rw [fields, if_neg (by simp [h]), hcs]

theorem fields_of_no_sep {cs : List Char} (h : ∀ c ∈ cs, sep c = false) : fields sep cs = [cs] := by
  induction cs with
  | nil => rfl
  | cons c cs ih =>
    have hcs := ih fun x hx => h x (List.mem_cons_of_mem _ hx)
    exact fields_cons_of_not_sep (h c List.mem_cons_self) hcs

/-- Fields have no separators in them. -/
theorem not_sep_of_mem_fields {cs f : List Char} (h : f ∈ fields sep cs) :
    ∀ c ∈ f, sep c = false := by
  induction cs generalizing f with
  | nil =>
    rw [fields, List.mem_singleton] at h
    rw [h]
    intro c hc
    cases hc
  | cons c cs ih =>
    cases hc : sep c with
    | true =>
      rw [fields_cons_of_sep hc] at h
      rcases List.mem_cons.mp h with rfl | h
      · intro x hx
        cases hx
      · exact ih h
    | false =>
      obtain ⟨g, gs, hcs⟩ := List.exists_cons_of_ne_nil (@fields_ne_nil sep cs)
      rw [hcs] at ih
      rw [fields_cons_of_not_sep hc hcs] at h
      rcases List.mem_cons.mp h with rfl | h
      · intro x hx
        rcases List.mem_cons.mp hx with rfl | hx
        · exact hc
        · exact ih List.mem_cons_self x hx
      · exact ih (List.mem_cons_of_mem _ h)

/-- A separator ends the field before it. -/
theorem fields_append_sep {p rest : List Char} {c : Char} (hc : sep c = true)
    (h : ∀ x ∈ p, sep x = false) : fields sep (p ++ c :: rest) = p :: fields sep rest := by
  induction p with
  | nil => exact fields_cons_of_sep hc rest
  | cons x p ih =>
    have hp := ih fun y hy => h y (List.mem_cons_of_mem _ hy)
    rw [List.cons_append]
    exact fields_cons_of_not_sep (h x List.mem_cons_self) hp

/-- Fields are counted on both sides of a separator. -/
theorem fields_append_cons {c : Char} (hc : sep c = true) (xs ys : List Char) :
    fields sep (xs ++ c :: ys) = fields sep xs ++ fields sep ys := by
  induction xs with
  | nil => exact fields_cons_of_sep hc ys
  | cons x xs ih =>
    rw [List.cons_append]
    cases hx : sep x with
    | true => rw [fields_cons_of_sep hx, fields_cons_of_sep hx, ih, List.cons_append]
    | false =>
      obtain ⟨f, fs, hxs⟩ := List.exists_cons_of_ne_nil (@fields_ne_nil sep xs)
      rw [hxs, List.cons_append] at ih
      rw [fields_cons_of_not_sep hx ih, fields_cons_of_not_sep hx hxs, List.cons_append]

theorem words_cons_of_sep {c : Char} (h : sep c = true) (cs : List Char) :
    words sep (c :: cs) = words sep cs := by
  rw [words, fields_cons_of_sep h]
  rfl

theorem words_of_sep {cs : List Char} (h : ∀ c ∈ cs, sep c = true) : words sep cs = [] := by
  induction cs with
  | nil => rfl
  | cons c cs ih =>
    rw [words_cons_of_sep (h c List.mem_cons_self)]
    exact ih fun x hx => h x (List.mem_cons_of_mem c hx)

/-- A word ends with the text, or where a blank follows. -/
theorem words_append {w rest : List Char} (hne : w ≠ []) (hw : ∀ c ∈ w, sep c = false)
    (hrest : ∀ c, rest.head? = some c → sep c = true) :
    words sep (w ++ rest) = w :: words sep rest := by
  cases rest with
  | nil => simp [words, fields_of_no_sep hw, fields, hne]
  | cons c rest =>
    have hc : sep c = true := hrest c rfl
    rw [words_cons_of_sep hc]
    simp [words, fields_append_sep hc hw, hne]

end

/-- Pieces without the separator come back from their joined text. -/
theorem fields_join {s : Char} {ps : List (List Char)} (hne : ps ≠ []) (h : ∀ p ∈ ps, s ∉ p) :
    fields (· == s) (join [s] ps) = ps := by
  induction ps with
  | nil => exact absurd rfl hne
  | cons p ps ih =>
    have hp : ∀ x ∈ p, (x == s) = false := by
      intro x hx
      simp only [beq_eq_false_iff_ne]
      rintro rfl
      exact h p List.mem_cons_self hx
    -- the last piece has no separator behind it
    cases ps with
    | nil => exact fields_of_no_sep hp
    | cons q qs =>
      have hrest := ih (by simp) fun r hr => h r (List.mem_cons_of_mem _ hr)
      show fields (· == s) (p ++ [s] ++ join [s] (q :: qs)) = p :: q :: qs
      rw [List.append_assoc, List.singleton_append, fields_append_sep (by simp) hp, hrest]

theorem mem_join {s : List Char} {ps : List (List Char)} {c : Char} (h : c ∈ join s ps) :
    c ∈ s ∨ ∃ p ∈ ps, c ∈ p := by
  induction ps with
  | nil => simp [join] at h
  | cons p ps ih =>
    cases ps with
    | nil => exact .inr ⟨p, List.mem_cons_self, h⟩
    | cons q qs =>
      have h : c ∈ p ++ s ++ join s (q :: qs) := h
      rw [List.mem_append, List.mem_append] at h
      rcases h with (h | h) | h
      · exact .inr ⟨p, List.mem_cons_self, h⟩
      · exact .inl h
      · rcases ih h with h | ⟨r, hr, hc⟩
        · exact .inl h
        · exact .inr ⟨r, List.mem_cons_of_mem _ hr, hc⟩

/-- Pieces are joined in two parts. -/
theorem join_append {s : List Char} {ps qs : List (List Char)} (hps : ps ≠ []) (hqs : qs ≠ []) :
    join s (ps ++ qs) = join s ps ++ (s ++ join s qs) := by
  obtain ⟨q, qs, rfl⟩ := List.exists_cons_of_ne_nil hqs
  induction ps with
  | nil => exact absurd rfl hps
  | cons p ps ih =>
    cases ps with
    | nil => simp [join]
    | cons p' ps =>
      have hrest := ih (List.cons_ne_nil p' ps)
      show p ++ s ++ join s (p' :: ps ++ q :: qs) = p ++ s ++ join s (p' :: ps) ++ _
      rw [hrest, List.append_assoc (p ++ s)]

theorem join_ne_nil {s p : List Char} (hp : p ≠ []) (ps : List (List Char)) :
    join s (p :: ps) ≠ [] := by
  cases ps with
  | nil => exact hp
  | cons q qs =>
    show p ++ s ++ join s (q :: qs) ≠ []
    simp [hp]

end BuildMacros.Text
