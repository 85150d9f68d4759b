import BuildMacros.NameFilter
import BuildMacros.Proofs.Pattern.Matching

/-! # Reading literal texts

    A text that is escaped for a pattern is read as that text, character by character:
    behind an escaped character there is never a repetition operator, because escaped
    texts begin with no character that means something but the backslash
    (`Unrepeated`).

    Escaped texts between bars are read as alternatives (`exists_alternatives`). What
    matters of the pattern that is read are the places that its matches end at; how its
    alternatives are nested is not said.
-/

namespace BuildMacros.Pattern

/-! ## Section 1: One character -/

/-- No repetition operator stands at the head of the text. -/
def Unrepeated (cs : List Char) : Prop := ∀ c ∈ cs.head?, c ∉ ['*', '+', '?', '{']

theorem unrepeated_cons {c : Char} {cs : List Char} (h : c ∉ ['*', '+', '?', '{']) :
    Unrepeated (c :: cs) := by
  rintro _ ⟨⟩
  exact h

theorem repetitions_of_unrepeated {cs : List Char} (h : Unrepeated cs) (fuel : Nat) (p : Pattern) :
    repetitions Flags.initial (fuel + 1) p cs = some (p, cs) := by
  have hskip : Flags.initial.skip cs = cs := rfl
  rw [repetitions, hskip]
  dsimp only
  split
  · exact absurd (by simp) (h '*' rfl)
  · exact absurd (by simp) (h '+' rfl)
  · exact absurd (by simp) (h '?' rfl)
  · exact absurd (by simp) (h '{' rfl)
  · rfl

/-- A character stands for itself when it is escaped. -/
theorem atom_escapedChar (c : Char) (rest : List Char) :
    atom Flags.initial (escapedChar c ++ rest) = some (one (.single c), rest) := by
  unfold escapedChar
  by_cases h : metaChars.contains c = true
  · have hmeta : metaChars.all isQuotable = true := by decide
    have hquotable := List.all_eq_true.mp hmeta c (List.contains_iff_mem.mp h)
    rw [if_pos h]
    show atom Flags.initial ('\\' :: c :: rest) = some (one (.single c), rest)
    simp [atom, escape, hquotable]
    rfl
  · have hne : ∀ d ∈ metaChars, c ≠ d := by
      rintro d hd rfl
      exact h (List.contains_iff_mem.mpr hd)
    rw [if_neg h]
    show atom Flags.initial (c :: rest) = some (one (.single c), rest)
    simp [atom, hne '.' (by decide), hne '^' (by decide), hne '$' (by decide), hne '[' (by decide),
      hne '\\' (by decide), hne '*' (by decide), hne '+' (by decide), hne '?' (by decide),
      hne '{' (by decide)]
    rfl

/-- Of the characters that mean something, an escaped one begins with the backslash only. -/
theorem exists_escapedChar (c : Char) (rest : List Char) :
    ∃ d ds, escapedChar c ++ rest = d :: ds ∧ (d ∈ metaChars → d = '\\') := by
  unfold escapedChar
  split
  · exact ⟨'\\', c :: rest, rfl, fun _ => rfl⟩
  · next h => exact ⟨c, rest, rfl, fun hc => absurd (List.contains_iff_mem.mpr hc) h⟩

theorem unrepeated_escaped (w : List Char) {rest : List Char} (h : Unrepeated rest) :
    Unrepeated (escaped w ++ rest) := by
  cases w with
  | nil => exact h
  | cons c w =>
    rw [escaped, List.flatMap_cons, List.append_assoc]
    obtain ⟨d, ds, hcs, hd⟩ := exists_escapedChar c (w.flatMap escapedChar ++ rest)
    have hmeta : ∀ e ∈ ['*', '+', '?', '{'], e ∈ metaChars ∧ e ≠ '\\' := by simp [metaChars]
    rw [hcs]
    exact unrepeated_cons fun hrepeat => (hmeta d hrepeat).2 (hd (hmeta d hrepeat).1)

theorem length_le_escaped (w : List Char) : w.length ≤ (escaped w).length := by
  induction w with
  | nil => exact Nat.le_refl _
  | cons c w ih =>
    have hpos : 1 ≤ (escapedChar c).length := by
      unfold escapedChar
      split <;> simp
    have hlength : (escaped (c :: w)).length = (escapedChar c).length + (escaped w).length := by
      rw [escaped, List.flatMap_cons, List.length_append, ← escaped]
    rw [hlength, List.length_cons]
    omega

/-- Different texts are written differently. -/
theorem eq_of_escaped_eq {v w : List Char} (h : escaped v = escaped w) : v = w := by
  induction v generalizing w with
  | nil =>
    cases w with
    | nil => rfl
    | cons d w =>
      obtain ⟨e, es, hes, -⟩ := exists_escapedChar d (w.flatMap escapedChar)
      rw [escaped, escaped, List.flatMap_cons, hes] at h
      cases h
  | cons c v ih =>
    cases w with
    | nil =>
      obtain ⟨e, es, hes, -⟩ := exists_escapedChar c (v.flatMap escapedChar)
      rw [escaped, escaped, List.flatMap_cons, hes] at h
      cases h
    | cons d w =>
      -- reading the first character tells what it was and what follows it
      have hc := atom_escapedChar c (escaped v)
      have hd := atom_escapedChar d (escaped w)
      have hcs : escapedChar c ++ escaped v = escapedChar d ++ escaped w := h
      rw [hcs, hd, Option.some.injEq, Prod.mk.injEq, Pattern.one.injEq] at hc
      obtain ⟨hclass, hrest⟩ := hc
      rw [ih hrest.symm]
      injection hclass with hchar
      rw [hchar]

theorem escaped_inj {v w : List Char} : escaped v = escaped w ↔ v = w :=
  ⟨eq_of_escaped_eq, congrArg escaped⟩

/-! ## Section 2: Sequences and alternatives -/

section

variable (nested : GroupReader) (fuel : Nat) (alts : Option Pattern) (acc : Reading)

/-- The alternatives read before, and a last one. -/
def withLast : Option Pattern → Pattern → Pattern
  | some a, p => alt a p
  | none, p => p

theorem mem_ends_withLast {alts : Option Pattern} {p : Pattern} {a q : Place} :
    q ∈ ends (withLast alts p) a ↔ (∃ b ∈ alts, q ∈ ends b a) ∨ q ∈ ends p a := by
  cases alts with
  | none => simp [withLast]
  | some b => simp [withLast, mem_ends_alt]

theorem alternatives_atom {cs rest : List Char} {p : Pattern} (hne : cs ≠ [])
    (hhead : ∀ c ∈ cs.head?, c ∉ [')', '|', '(']) (hatom : atom Flags.initial cs = some (p, rest))
    (hrest : Unrepeated rest) :
    alternatives nested (fuel + 1) Flags.initial alts acc cs =
      alternatives nested fuel Flags.initial alts (acc.then p) rest := by
  have hskip : Flags.initial.skip cs = cs := rfl
  rw [alternatives.eq_def]
  dsimp only
  rw [hskip]
  split
  · exact absurd rfl hne
  · exact absurd (by simp) (hhead ')' rfl)
  · exact absurd (by simp) (hhead '|' rfl)
  · exact absurd (by simp) (hhead '(' rfl)
  · rw [hatom]
    dsimp only
    rw [repetitions_of_unrepeated hrest]

theorem alternatives_bar (rest : List Char) :
    alternatives nested (fuel + 1) Flags.initial alts acc ('|' :: rest) =
      alternatives nested fuel Flags.initial (some (withLast alts acc.pattern))
        { acc with pattern := .empty } rest := by
  cases alts <;> rfl

theorem alternatives_close (rest : List Char) :
    alternatives nested (fuel + 1) Flags.initial alts acc (')' :: rest) =
      some ({ acc with pattern := withLast alts acc.pattern }, ')' :: rest) := by
  cases alts <;> rfl

/-- A reading continued by the characters of a text. -/
def Reading.spell (r : Reading) (w : List Char) : Reading :=
  w.foldl (fun r c => r.then (one (.single c))) r

theorem names_spell (r : Reading) (w : List Char) : (r.spell w).names = r.names := by
  induction w generalizing r with
  | nil => rfl
  | cons c w ih => exact ih (r.then (one (.single c)))

/-- What was read before, and then the text. -/
theorem mem_ends_spell {r : Reading} {w : List Char} {p q : Place} :
    q ∈ ends (r.spell w).pattern p ↔ ∃ m ∈ ends r.pattern p, q ∈ ends (literal w) m := by
  induction w generalizing r with
  | nil => simp [Reading.spell, literal, ends]
  | cons c w ih =>
    have hstep : r.spell (c :: w) = (r.then (one (.single c))).spell w := rfl
    rw [hstep, ih, literal]
    simp only [Reading.then, mem_ends_seq]
    constructor
    · rintro ⟨m, ⟨k, hk, hm⟩, hq⟩
      exact ⟨k, hk, m, hm, hq⟩
    · rintro ⟨k, hk, m, hm, hq⟩
      exact ⟨m, ⟨k, hk, hm⟩, hq⟩

theorem mem_ends_spell_empty {names : List (List Char)} {w : List Char} {p q : Place} :
    q ∈ ends (Reading.spell ⟨.empty, names⟩ w).pattern p ↔ q ∈ ends (literal w) p := by
  simp only [mem_ends_spell, mem_ends_empty, exists_eq_left]

/-- An escaped text is read character by character. -/
theorem alternatives_escaped {w rest : List Char} (hrest : Unrepeated rest) :
    alternatives nested (fuel + w.length) Flags.initial alts acc (escaped w ++ rest) =
      alternatives nested fuel Flags.initial alts (acc.spell w) rest := by
  induction w generalizing acc with
  | nil => rfl
  | cons c w ih =>
    have hatom := atom_escapedChar c (escaped w ++ rest)
    have hcs : escaped (c :: w) ++ rest = escapedChar c ++ (escaped w ++ rest) := by
      rw [escaped, List.flatMap_cons, List.append_assoc, ← escaped]
    obtain ⟨d, ds, hcons, hd⟩ := exists_escapedChar c (escaped w ++ rest)
    have hhead : ∀ e ∈ (escapedChar c ++ (escaped w ++ rest)).head?, e ∉ [')', '|', '('] := by
      have hmeta : ∀ e ∈ [')', '|', '('], e ∈ metaChars ∧ e ≠ '\\' := by simp [metaChars]
      rw [hcons]
      rintro _ ⟨⟩ hgroup
      exact (hmeta d hgroup).2 (hd (hmeta d hgroup).1)
    rw [hcs, List.length_cons, ← Nat.add_assoc,
      alternatives_atom nested _ alts acc (by simp [hcons]) hhead hatom
        (unrepeated_escaped w hrest)]
    exact ih (acc.then (one (.single c)))

/-- Escaped texts between bars are read as alternatives, up to the closing parenthesis. -/
theorem exists_alternatives {es : List (List Char)} (hne : es ≠ [])
    (hes : ∀ e ∈ es, ∃ w, escaped w = e) (names : List (List Char)) (rest : List Char)
    (hfuel : (Text.join ['|'] es).length < fuel) :
    ∃ p, alternatives nested fuel Flags.initial alts ⟨.empty, names⟩
        (Text.join ['|'] es ++ ')' :: rest) = some (⟨p, names⟩, ')' :: rest) ∧
      ∀ a q, q ∈ ends p a ↔
        (∃ b ∈ alts, q ∈ ends b a) ∨ ∃ w, escaped w ∈ es ∧ q ∈ ends (literal w) a := by
  have hclose : Unrepeated (')' :: rest) := unrepeated_cons (by decide)
  have hbar : ∀ cs, Unrepeated ('|' :: cs) := fun cs => unrepeated_cons (by decide)
  induction es generalizing alts fuel with
  | nil => exact absurd rfl hne
  | cons e es ih =>
    obtain ⟨w, rfl⟩ := hes e List.mem_cons_self
    have hlength := length_le_escaped w
    cases es with
    | nil =>
      obtain ⟨k, rfl⟩ : ∃ k, fuel = k + 1 + w.length := ⟨fuel - 1 - w.length, by
        simp only [Text.join] at hfuel
        omega⟩
      refine ⟨withLast alts (Reading.spell ⟨.empty, names⟩ w).pattern, ?_, fun a q => ?_⟩
      · rw [Text.join, alternatives_escaped nested (k + 1) alts _ hclose, alternatives_close,
          names_spell]
      · simp only [mem_ends_withLast, mem_ends_spell_empty, List.mem_singleton, escaped_inj,
          exists_eq_left]
    | cons e' es =>
      have hjoin : Text.join ['|'] (escaped w :: e' :: es) ++ ')' :: rest =
          escaped w ++ '|' :: (Text.join ['|'] (e' :: es) ++ ')' :: rest) := by
        simp [Text.join]
      have hsize : (Text.join ['|'] (escaped w :: e' :: es)).length =
          (escaped w).length + 1 + (Text.join ['|'] (e' :: es)).length := by
        simp only [Text.join, List.length_append, List.length_cons, List.length_nil]
      obtain ⟨k, rfl⟩ : ∃ k, fuel = k + 1 + w.length := ⟨fuel - 1 - w.length, by omega⟩
      have hes' : ∀ e ∈ e' :: es, ∃ v, escaped v = e :=
        fun e he => hes e (List.mem_cons_of_mem _ he)
      obtain ⟨p, hread, hends⟩ := ih k
        (some (withLast alts (Reading.spell ⟨.empty, names⟩ w).pattern))
        (List.cons_ne_nil _ _) hes' (by omega)
      refine ⟨p, ?_, fun a q => ?_⟩
      · rw [hjoin, alternatives_escaped nested (k + 1) alts _ (hbar _), alternatives_bar,
          names_spell, hread]
      · rw [hends]
        simp only [Option.mem_some_iff, exists_eq_left', mem_ends_withLast, mem_ends_spell_empty,
          List.mem_cons, escaped_inj, or_and_right, exists_or, exists_eq_left, or_assoc]

/-- A group is read as what stands in it. -/
theorem alternatives_group {cs rest : List Char} {inner : Reading}
    (hinner : nested Flags.initial cs = some (inner, ')' :: rest)) (hrest : Unrepeated rest) :
    alternatives nested (fuel + 1) Flags.initial alts acc ('(' :: '?' :: ':' :: cs) =
      alternatives nested fuel Flags.initial alts
        ({ acc with names := acc.names ++ inner.names }.then inner.pattern) rest := by
  have hskip : Flags.initial.skip ('(' :: '?' :: ':' :: cs) = '(' :: '?' :: ':' :: cs := rfl
  have hopening : opening Flags.initial ('?' :: ':' :: cs) =
      some (.group Flags.initial none cs) := by
    simp [opening, Flags.skip, Flags.initial, flagsPart]
  rw [alternatives.eq_def]
  dsimp only
  rw [hskip]
  simp only [hopening, hinner, repetitions_of_unrepeated hrest, Option.toList_none,
    List.append_nil]

theorem alternatives_nil :
    alternatives nested (fuel + 1) Flags.initial alts acc [] =
      some ({ acc with pattern := withLast alts acc.pattern }, []) := by
  cases alts <;> rfl

end

/-! ## Section 3: Whole texts -/

/-- A text between both anchors, in a group, is read as that text on the whole. -/
theorem read_anchored {body : List Char} {p : Pattern}
    (h : group (body.length + 6) Flags.initial (body ++ [')', '$']) =
      some (⟨p, []⟩, [')', '$'])) :
    read (['^', '(', '?', ':'] ++ body ++ [')', '$']) = some (whole p) := by
  have hanchor : ∀ c cs, c ∉ [')', '|', '('] → ∀ d ∈ (c :: cs).head?, d ∉ [')', '|', '('] := by
    rintro c cs hc _ ⟨⟩
    exact hc
  have hgroup : Unrepeated ('(' :: '?' :: ':' :: (body ++ [')', '$'])) :=
    unrepeated_cons (by decide)
  have hdollar : Unrepeated ['$'] := unrepeated_cons (by decide)
  have hend : Unrepeated [] := by rintro _ ⟨⟩
  have htext : ['^', '(', '?', ':'] ++ body ++ [')', '$'] =
      '^' :: '(' :: '?' :: ':' :: (body ++ [')', '$']) := rfl
  have hlength : ('^' :: '(' :: '?' :: ':' :: (body ++ [')', '$'])).length = body.length + 6 := by
    simp
  -- one step for each anchor, one for the group and one for the end
  have hread : group (body.length + 6 + 1) Flags.initial
      ('^' :: '(' :: '?' :: ':' :: (body ++ [')', '$'])) = some (⟨whole p, []⟩, []) := by
    rw [group, hlength,
      alternatives_atom _ _ none .empty (List.cons_ne_nil _ _) (hanchor '^' _ (by decide)) rfl
        hgroup,
      alternatives_group _ _ none _ h hdollar,
      alternatives_atom _ _ none _ (List.cons_ne_nil _ _) (hanchor '$' _ (by decide)) rfl hend,
      alternatives_nil]
    rfl
  rw [htext, read, hlength, hread]
  rfl

end BuildMacros.Pattern
