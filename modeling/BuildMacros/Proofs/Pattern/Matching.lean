import BuildMacros.Pattern.Basic

/-! # Where matches end

    `ends` lists the places that a match can end at. Membership in it is read off the
    pattern, one lemma for each way to build a pattern: fixed texts, sequences and
    alternatives, and the condition that the whole text matches.
-/

namespace BuildMacros

namespace Pattern

/-! ## Section 1: Places that a match can end at -/

theorem mem_merge {seen ps : List Place} {q : Place} :
    q ∈ merge seen ps ↔ q ∈ seen ∨ q ∈ ps := by
  induction ps generalizing seen with
  | nil => simp [merge]
  | cons p ps ih =>
    unfold merge
    split
    · next hp =>
      have hp : p ∈ seen := by simpa using hp
      rw [ih, List.mem_cons]
      constructor
      · rintro (h | h)
        · exact .inl h
        · exact .inr (.inr h)
      · rintro (h | rfl | h)
        · exact .inl h
        · exact .inl hp
        · exact .inr h
    · rw [ih, List.mem_append, List.mem_singleton, List.mem_cons, or_assoc]

theorem mem_ends_seq {a b : Pattern} {p q : Place} :
    q ∈ ends (seq a b) p ↔ ∃ r ∈ ends a p, q ∈ ends b r := by
  rw [ends, mem_merge, List.mem_flatMap]
  simp

theorem mem_ends_empty {p q : Place} : q ∈ ends empty p ↔ q = p := List.mem_singleton

theorem mem_ends_alt {a b : Pattern} {p q : Place} :
    q ∈ ends (alt a b) p ↔ q ∈ ends a p ∨ q ∈ ends b p := mem_merge

/-- One character is taken where it stands. -/
theorem mem_ends_single {c : Char} {p q : Place} :
    q ∈ ends (one (.single c)) p ↔ ∃ cs, p.after = c :: cs ∧ q = ⟨some c, cs⟩ := by
  have hhas : ∀ d, (CharClass.single c).has d = true ↔ c = d := fun d => by
    rw [CharClass.single, CharClass.has, Bool.and_eq_true, decide_eq_true_iff, decide_eq_true_iff]
    exact ⟨fun h => Char.le_antisymm h.1 h.2, fun h => h ▸ ⟨Char.le_refl c, Char.le_refl c⟩⟩
  unfold ends
  split
  · next d cs hafter =>
    rw [hafter]
    split
    · next h =>
      cases (hhas d).mp h
      simp
    · next h =>
      have hne : ¬ d = c := fun heq => h ((hhas d).mpr heq.symm)
      simp [hne]
  · next hafter => simp [hafter]

/-- A fixed text. -/
def literal : List Char → Pattern
  | [] => empty
  | c :: cs => seq (one (.single c)) (literal cs)

/-- A fixed text matches exactly where it stands. -/
theorem exists_end_literal {w rest : List Char} {p : Place} :
    (∃ q ∈ ends (literal w) p, q.after = rest) ↔ p.after = w ++ rest := by
  induction w generalizing p with
  | nil => simp [literal, ends]
  | cons c w ih =>
    constructor
    · rintro ⟨q, hq, rfl⟩
      obtain ⟨r, hr, hq⟩ := mem_ends_seq.mp hq
      obtain ⟨cs, hafter, rfl⟩ := mem_ends_single.mp hr
      rw [hafter, List.cons_append, ← ih.mp ⟨q, hq, rfl⟩]
    · intro hafter
      obtain ⟨q, hq, hrest⟩ := (ih (p := ⟨some c, w ++ rest⟩)).mpr rfl
      have hfirst := mem_ends_single.mpr ⟨w ++ rest, hafter, rfl⟩
      exact ⟨q, mem_ends_seq.mpr ⟨_, hfirst, hq⟩, hrest⟩

/-! ## Section 2: Whole texts -/

theorem mem_ends_anchor {a : Anchor} {p q : Place} :
    q ∈ ends (anchor a) p ↔ a.holds p = true ∧ q = p := by
  rw [ends]
  split
  · next h => simp [h]
  · next h => simp [h]

/-- The whole text matches, as the pattern that is read between both anchors. -/
def whole (p : Pattern) : Pattern :=
  seq (seq (seq empty (anchor .textStart)) p) (anchor .textEnd)

/-- A match of a whole text begins where the text does. -/
theorem mem_ends_whole {a : Pattern} {p q : Place} :
    q ∈ ends (whole a) p ↔ p.before = none ∧ q ∈ ends a p ∧ q.after = [] := by
  have hstart : Anchor.textStart.holds p = true ↔ p.before = none := Option.isNone_iff_eq_none
  have hend : Anchor.textEnd.holds q = true ↔ q.after = [] := List.isEmpty_iff
  rw [whole, mem_ends_seq]
  constructor
  · rintro ⟨t, ht, hq⟩
    obtain ⟨r, hr, hinner⟩ := mem_ends_seq.mp ht
    obtain ⟨s, hs, hfirst⟩ := mem_ends_seq.mp hr
    cases mem_ends_empty.mp hs
    obtain ⟨hbefore, rfl⟩ := mem_ends_anchor.mp hfirst
    obtain ⟨hafter, rfl⟩ := mem_ends_anchor.mp hq
    exact ⟨hstart.mp hbefore, hinner, hend.mp hafter⟩
  · rintro ⟨hbefore, hq, hafter⟩
    have hfirst : p ∈ ends (seq empty (anchor .textStart)) p :=
      mem_ends_seq.mpr ⟨p, mem_ends_empty.mpr rfl, mem_ends_anchor.mpr ⟨hstart.mpr hbefore, rfl⟩⟩
    exact ⟨q, mem_ends_seq.mpr ⟨p, hfirst, hq⟩, mem_ends_anchor.mpr ⟨hend.mpr hafter, rfl⟩⟩

/-- A match is found when one begins at the start or a match is found later. -/
theorem matchesFrom_iff {a : Pattern} {before : Option Char} {cs : List Char} :
    matchesFrom a before cs = true ↔
      (∃ q, q ∈ ends a ⟨before, cs⟩) ∨
        ∃ c rest, cs = c :: rest ∧ matchesFrom a (some c) rest = true := by
  have hends : ∀ p, (!(ends a p).isEmpty) = true ↔ ∃ q, q ∈ ends a p := fun p => by
    rw [Bool.not_eq_true', List.isEmpty_eq_false_iff_exists_mem]
  cases cs with
  | nil => simp [matchesFrom, hends]
  | cons c cs =>
    rw [matchesFrom, Bool.or_eq_true, hends]
    refine or_congr Iff.rfl ⟨fun h => ⟨c, cs, rfl, h⟩, ?_⟩
    rintro ⟨_, _, ⟨⟩, h⟩
    exact h

/-- Behind a character, nothing is a match of the whole text any more. -/
theorem matchesFrom_whole_of_some (a : Pattern) (c : Char) (cs : List Char) :
    matchesFrom (whole a) (some c) cs = false := by
  induction cs generalizing c with
  | nil =>
    rw [Bool.eq_false_iff]
    intro h
    rcases matchesFrom_iff.mp h with ⟨q, hq⟩ | ⟨d, rest, hcs, -⟩
    · cases (mem_ends_whole.mp hq).1
    · cases hcs
  | cons d cs ih =>
    rw [Bool.eq_false_iff]
    intro h
    rcases matchesFrom_iff.mp h with ⟨q, hq⟩ | ⟨d', rest, hcs, hrest⟩
    · cases (mem_ends_whole.mp hq).1
    · cases hcs
      rw [ih] at hrest
      cases hrest

theorem isMatch_whole {a : Pattern} {text : String} :
    (whole a).isMatch text = true ↔ ∃ q ∈ ends a ⟨none, text.toList⟩, q.after = [] := by
  rw [isMatch, matchesFrom_iff]
  constructor
  · rintro (⟨q, hq⟩ | ⟨c, rest, -, hrest⟩)
    · exact ⟨q, (mem_ends_whole.mp hq).2⟩
    · rw [matchesFrom_whole_of_some] at hrest
      cases hrest
  · rintro ⟨q, hq, hafter⟩
    exact .inl ⟨q, mem_ends_whole.mpr ⟨rfl, hq, hafter⟩⟩

end Pattern

end BuildMacros
