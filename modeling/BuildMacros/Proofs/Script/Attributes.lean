import BuildMacros.Proofs.Script.Elements
import Mathlib.Data.Nat.Find

/-! # Attributes and the language of a script

    The language of a block is looked for in the attributes of its tag as in any text: the
    first place where the word `lang` stands at a word edge, with a sign of equality behind it,
    names it. Here the attributes are written out one by one, and `Attribute.ReadsLang` says
    which of them have such a place: one whose name ends in the word, so `lang` itself but
    `data-lang` as well, and one with the word in its quoted value.

    The search passes over an attribute that has no such place (`findLang_attribute`). Where
    the name of an attribute ends in the word it finds the value of that attribute
    (`findLang_named`), and where only the quotes mention it, what stands behind the first
    mention (`findLang_attribute_mentioned`).
-/

namespace BuildMacros.Script

open BuildMacros.Text

/-! ## Section 1: Attributes as they are written -/

/-- What stands behind the name of an attribute. -/
structure Value where
  /-- The blanks in front of the sign of equality. -/
  left : List Char
  /-- The blanks behind it. -/
  right : List Char
  /-- The quote around the content. -/
  quote : Option Char
  content : List Char

namespace Value

def quoted (v : Value) : List Char := v.quote.toList ++ (v.content ++ v.quote.toList)

def text (v : Value) : List Char := v.left ++ '=' :: (v.right ++ v.quoted)

/-- The value ends where its quotes or, without quotes, a blank end it. -/
structure IsWellFormed (v : Value) : Prop where
  left : ∀ c ∈ v.left, isAsciiBlank c = true
  right : ∀ c ∈ v.right, isAsciiBlank c = true
  quoted : ∀ q, v.quote = some q → (q = '"' ∨ q = '\'') ∧ q ∉ v.content
  /-- Without quotes there is something, and no blank and none of these characters in it. -/
  bare : v.quote = none →
    v.content ≠ [] ∧ ∀ c ∈ v.content, isBlank c = false ∧ c ∉ "\"'=<>`".toList

end Value

structure Attribute where
  /-- The blanks in front of it. -/
  gap : List Char
  name : List Char
  value : Option Value

namespace Attribute

def valueText (a : Attribute) : List Char := a.value.elim [] Value.text

def text (a : Attribute) : List Char := a.gap ++ (a.name ++ a.valueText)

/-- The attribute stands apart from what is in front of it, and its name is one. Blanks that are
    none of ASCII stand in quotes only. -/
structure IsWellFormed (a : Attribute) : Prop where
  gap_ne_nil : a.gap ≠ []
  gap : ∀ c ∈ a.gap, isAsciiBlank c = true
  name_ne_nil : a.name ≠ []
  name : ∀ c ∈ a.name, isBlank c = false ∧ c ∉ "\"'<>/=".toList
  value : ∀ v, a.value = some v → v.IsWellFormed

end Attribute

/-- The blanks of ASCII, one by one. -/
theorem mem_of_isAsciiBlank {c : Char} (h : isAsciiBlank c = true) :
    c ∈ [' ', '\t', '\n', '\r', Char.ofNat 12] := by
  simp only [isAsciiBlank, Bool.or_eq_true, beq_iff_eq] at h
  rcases h with (((rfl | rfl) | rfl) | rfl) | h
  · decide
  · decide
  · decide
  · decide
  · rw [← h, Char.ofNat_toNat]
    simp

theorem isBlank_of_isAsciiBlank {c : Char} (h : isAsciiBlank c = true) : isBlank c = true := by
  have hall : ∀ d ∈ [' ', '\t', '\n', '\r', Char.ofNat 12], isBlank d = true :=
    List.all_iff_forall_prop.mp (by decide)
  exact hall c (mem_of_isAsciiBlank h)

theorem isWord_of_isAsciiBlank {c : Char} (h : isAsciiBlank c = true) : isWord c = false := by
  have hall : ∀ d ∈ [' ', '\t', '\n', '\r', Char.ofNat 12], isWord d = false :=
    List.all_iff_forall_prop.mp (by decide)
  exact hall c (mem_of_isAsciiBlank h)

/-! ## Section 2: The word `lang` -/

/-- The last character of a text, or the one in front of it. -/
def endOf (before : Option Char) (cs : List Char) : Option Char := cs.getLast?.or before

@[simp] theorem endOf_nil (before : Option Char) : endOf before [] = before := rfl

@[simp] theorem endOf_cons (before : Option Char) (c : Char) (cs : List Char) :
    endOf before (c :: cs) = endOf (some c) cs := by
  rw [endOf, endOf, List.getLast?_cons]
  cases cs.getLast? <;> rfl

@[simp] theorem endOf_append (before : Option Char) (xs ys : List Char) :
    endOf before (xs ++ ys) = endOf (endOf before xs) ys := by
  simp [endOf, List.getLast?_append, Option.or_assoc]

/-- A text has a word edge at its end or not, whichever character that is no word character stands
    in front of it. -/
theorem any_isWord_endOf {before : Option Char} (h : before.any isWord = false) (cs : List Char) :
    (endOf before cs).any isWord = (endOf none cs).any isWord := by
  rw [endOf, endOf]
  cases cs.getLast? with
  | none => exact h
  | some c => rfl

/-- The language that is named at the beginning of a text. -/
def langHere (before : Option Char) (cs : List Char) : Option (List Char) :=
  if before.any isWord then none else (stripFolded? "lang".toList cs).bind attributeValue

theorem findLang_cons (before : Option Char) (c : Char) (cs : List Char) :
    findLang before (c :: cs) = (langHere before (c :: cs)).or (findLang (some c) cs) := by
  rw [findLang]
  split
  · next value hvalue =>
    have hhere : langHere before (c :: cs) = some value := hvalue
    rw [hhere, Option.some_or]
  · next hnone =>
    have hhere : langHere before (c :: cs) = none := hnone
    rw [hhere, Option.none_or]

/-- Where nothing is found in a text, nothing is found in what is left of it. -/
theorem findLang_eq_none_of_append {before : Option Char} {xs ys : List Char}
    (h : findLang before (xs ++ ys) = none) : findLang (endOf before xs) ys = none := by
  induction xs generalizing before with
  | nil => exact h
  | cons c xs ih =>
    rw [List.cons_append, findLang_cons, Option.or_eq_none_iff] at h
    rw [endOf_cons]
    exact ih h.2

theorem langHere_of_inAnyCase {before : Option Char} {word : List Char}
    (hedge : before.any isWord = false) (hword : InAnyCase "lang".toList word)
    (tail : List Char) : langHere before (word ++ tail) = attributeValue tail := by
  rw [langHere, if_neg (by simp [hedge]), stripFolded?_append hword]
  rfl

/-- No letter of the word. -/
def IsBreak (c : Char) : Prop := ∀ p ∈ "lang".toList, foldsTo p c = false

instance (c : Char) : Decidable (IsBreak c) :=
  decidable_of_iff ("lang".toList.all fun p => decide (foldsTo p c = false))
    List.all_iff_forall_prop

theorem toLower_of_isBlank {c : Char} (h : isBlank c = true) : c.toLower = c := by
  unfold Char.toLower
  split
  · next hupper =>
    -- no blank stands among the capital letters
    have hfrom : 65 ≤ c.toNat := UInt32.le_iff_toNat_le.mp hupper.1
    have hto : c.toNat ≤ 90 := UInt32.le_iff_toNat_le.mp hupper.2
    simp only [isBlank, Bool.or_eq_true, Bool.and_eq_true, decide_eq_true_eq, beq_iff_eq] at h
    omega
  · rfl

theorem isBreak_of_isBlank {c : Char} (h : isBlank c = true) : IsBreak c := by
  have hword : ∀ p ∈ "lang".toList, p ≠ 's' ∧ p ≠ 'k' ∧ isBlank p = false :=
    List.all_iff_forall_prop.mp (by decide)
  intro p hp
  obtain ⟨hs, hk, hblank⟩ := hword p hp
  have hne : c ≠ p := by
    rintro rfl
    rw [h] at hblank
    cases hblank
  simp [foldsTo, toLower_of_isBlank h, hs, hk, hne]

/-- A text in front of which the word is not read on. -/
def Stops (tail : List Char) : Prop := ∀ c, tail.head? = some c → IsBreak c

/-- The word is read within the text in front of a break. -/
theorem exists_word_of_stripFolded? {chunk tail left : List Char} (htail : Stops tail)
    (h : stripFolded? "lang".toList (chunk ++ tail) = some left) :
    ∃ word back, InAnyCase "lang".toList word ∧ chunk = word ++ back ∧ left = back ++ tail := by
  obtain ⟨word, hword, heq⟩ := stripFolded?_eq_some_iff.mp h
  rcases List.append_eq_append_iff.mp heq with ⟨reach, hreach, htail'⟩ | ⟨back, hback, hleft⟩
  · cases reach with
    | nil => exact ⟨word, [], hword, by rw [hreach]; simp, htail'.symm⟩
    | cons r reach =>
      obtain ⟨p, hp, hfold⟩ := exists_foldsTo_of_mem hword (by rw [hreach]; simp : r ∈ word)
      rw [htail r (by rw [htail']; rfl) p hp] at hfold
      cases hfold
  · exact ⟨word, back, hword, hback, hleft⟩

/-! ## Section 3: Values -/

theorem attributeValue_blanks {blanks : List Char} (h : ∀ c ∈ blanks, isBlank c = true)
    (cs : List Char) : attributeValue (blanks ++ cs) = attributeValue cs := by
  rw [attributeValue, attributeValue, List.dropWhile_append_of_pos h]

theorem attributeValue_cons_of_ne {c : Char} (hblank : isBlank c = false) (hne : c ≠ '=')
    (cs : List Char) : attributeValue (c :: cs) = none := by
  rw [attributeValue, List.dropWhile_cons_of_neg (by simp [hblank])]
  split
  · next heq => exact absurd (List.cons.inj heq).1 hne
  · rfl

theorem exists_sign_of_attributeValue {cs : List Char} (h : attributeValue cs ≠ none) :
    ∃ blanks rest, cs = blanks ++ '=' :: rest ∧ ∀ c ∈ blanks, isBlank c = true := by
  unfold attributeValue at h
  split at h
  · next rest hrest =>
    refine ⟨cs.takeWhile isBlank, rest, ?_, fun c hc => List.all_eq_true.mp List.all_takeWhile c hc⟩
    rw [← hrest, List.takeWhile_append_dropWhile]
  · exact absurd rfl h

/-- What is read behind the sign of equality. -/
theorem attributeValue_sign {blanks : List Char} (h : ∀ c ∈ blanks, isBlank c = true) {c : Char}
    (hc : isBlank c = false) (cs : List Char) :
    attributeValue ('=' :: (blanks ++ c :: cs)) =
      if (c == '"' || c == '\'') && cs.contains c then some (cs.takeWhile (· != c))
      else if ((c :: cs).takeWhile fun d => d != '>' && !isBlank d).isEmpty then none
      else some ((c :: cs).takeWhile fun d => d != '>' && !isBlank d) := by
  have hdrop : (blanks ++ c :: cs).dropWhile isBlank = c :: cs := by
    rw [List.dropWhile_append_of_pos h, List.dropWhile_cons_of_neg (by simp [hc])]
  rw [attributeValue, List.dropWhile_cons_of_neg (by decide)]
  simp only [hdrop]

/-- Some value is read wherever something but the end of the tag stands behind the sign. -/
theorem attributeValue_sign_ne_none {blanks : List Char} (h : ∀ c ∈ blanks, isBlank c = true)
    {c : Char} (hc : isBlank c = false) (hend : c ≠ '>') (cs : List Char) :
    attributeValue ('=' :: (blanks ++ c :: cs)) ≠ none := by
  rw [attributeValue_sign h hc, List.takeWhile_cons_of_pos (by simp [hc, hend])]
  split
  · exact Option.some_ne_none _
  · exact Option.some_ne_none _

/-- The value of an attribute is read back. -/
theorem attributeValue_text {v : Value} (hv : v.IsWellFormed) {rest : List Char}
    (hrest : ∀ c, rest.head? = some c → isBlank c = true) :
    attributeValue (v.text ++ rest) = some v.content := by
  have hleft : ∀ c ∈ v.left, isBlank c = true := fun c hc => isBlank_of_isAsciiBlank (hv.left c hc)
  have hright : ∀ c ∈ v.right, isBlank c = true := fun c hc =>
    isBlank_of_isAsciiBlank (hv.right c hc)
  rw [Value.text, List.append_assoc, attributeValue_blanks hleft]
  cases hquote : v.quote with
  -- the value is read up to the next quote of the same kind
  | some q =>
    obtain ⟨hq, hcontent⟩ := hv.quoted q hquote
    have hblank : isBlank q = false := by rcases hq with rfl | rfl <;> rfl
    have hisQuote : (q == '"' || q == '\'') = true := by rcases hq with rfl | rfl <;> rfl
    have htext : '=' :: (v.right ++ v.quoted) ++ rest =
        '=' :: (v.right ++ q :: (v.content ++ q :: rest)) := by
      simp [Value.quoted, hquote]
    have htake : (v.content ++ q :: rest).takeWhile (· != q) = v.content := by
      rw [List.takeWhile_append_of_pos, List.takeWhile_cons_of_neg (by simp), List.append_nil]
      intro c hc
      exact bne_iff_ne.mpr fun heq => hcontent (heq ▸ hc)
    rw [htext, attributeValue_sign hright hblank, if_pos (by simp [hisQuote]), htake]
  -- the value is read up to the next blank
  | none =>
    obtain ⟨hne, hcontent⟩ := hv.bare hquote
    obtain ⟨c, cs, hcs⟩ := List.exists_cons_of_ne_nil hne
    have htext : '=' :: (v.right ++ v.quoted) ++ rest = '=' :: (v.right ++ c :: (cs ++ rest)) := by
      simp [Value.quoted, hquote, hcs]
    obtain ⟨hblank, hmark⟩ := hcontent c (by simp [hcs])
    have hisQuote : (c == '"' || c == '\'') = false := by
      rw [Bool.or_eq_false_iff, beq_eq_false_iff_ne, beq_eq_false_iff_ne]
      exact ⟨fun heq => hmark (by simp [heq]), fun heq => hmark (by simp [heq])⟩
    have htake : (c :: (cs ++ rest)).takeWhile (fun d => d != '>' && !isBlank d) = v.content := by
      rw [← List.cons_append, ← hcs, List.takeWhile_append_of_pos]
      · cases rest with
        | nil => simp
        | cons d rest => simp [hrest d rfl]
      · intro d hd
        obtain ⟨hblank, hmark⟩ := hcontent d hd
        have hend : d ≠ '>' := fun heq => hmark (by simp [heq])
        simp [hblank, hend]
    rw [htext, attributeValue_sign hright hblank, hisQuote, htake]
    simp [hne]

/-! ## Section 4: What the search passes over -/

/-- Text without a blank and without a sign of equality. -/
def IsPlain (cs : List Char) : Prop := ∀ c ∈ cs, isBlank c = false ∧ c ≠ '='

/-- The text ends in the word, which begins at a word edge. -/
def EndsInLang (before : Option Char) (cs : List Char) : Prop :=
  ∃ front word, cs = front ++ word ∧ InAnyCase "lang".toList word ∧
    (endOf before front).any isWord = false

/-- In the text a sign of equality stands behind the word, which begins at a word edge. -/
def MentionsLang (before : Option Char) (cs : List Char) : Prop :=
  ∃ front word blanks rest, cs = front ++ (word ++ (blanks ++ '=' :: rest)) ∧
    InAnyCase "lang".toList word ∧ (∀ c ∈ blanks, isBlank c = true) ∧
    (endOf before front).any isWord = false

/-- Such a place in the text, by what stands in front of the word and behind it. -/
def MentionsAt (before : Option Char) (cs front tail : List Char) : Prop :=
  ∃ word blanks rest, cs = front ++ (word ++ tail) ∧ tail = blanks ++ '=' :: rest ∧
    InAnyCase "lang".toList word ∧ (∀ c ∈ blanks, isBlank c = true) ∧
    (endOf before front).any isWord = false

/-- The first such place in a text. -/
def MentionsFirst (before : Option Char) (cs front tail : List Char) : Prop :=
  MentionsAt before cs front tail ∧
    ∀ front' tail', MentionsAt before cs front' tail' → front.length ≤ front'.length

theorem mentionsLang_iff_exists {before : Option Char} {cs : List Char} :
    MentionsLang before cs ↔ ∃ front tail, MentionsAt before cs front tail := by
  constructor
  · rintro ⟨front, word, blanks, rest, hcs, hword, hblanks, hedge⟩
    exact ⟨front, _, word, blanks, rest, hcs, rfl, hword, hblanks, hedge⟩
  · rintro ⟨front, _, word, blanks, rest, hcs, rfl, hword, hblanks, hedge⟩
    exact ⟨front, word, blanks, rest, hcs, hword, hblanks, hedge⟩

/-- Of all places one is the first. -/
theorem MentionsLang.exists_first {before : Option Char} {cs : List Char}
    (h : MentionsLang before cs) : ∃ front tail, MentionsFirst before cs front tail := by
  classical
  have hsome : ∃ n front tail, MentionsAt before cs front tail ∧ front.length = n := by
    obtain ⟨front, tail, hat⟩ := mentionsLang_iff_exists.mp h
    exact ⟨front.length, front, tail, hat, rfl⟩
  obtain ⟨front, tail, hat, hlength⟩ := Nat.find_spec hsome
  refine ⟨front, tail, hat, fun front' tail' hat' => ?_⟩
  rw [hlength]
  exact Nat.find_min' hsome ⟨front', tail', hat', rfl⟩

theorem endsInLang_iff {before : Option Char} (h : before.any isWord = false) {cs : List Char} :
    EndsInLang before cs ↔ EndsInLang none cs := by
  simp only [EndsInLang, any_isWord_endOf h]

theorem mentionsLang_iff {before : Option Char} (h : before.any isWord = false) {cs : List Char} :
    MentionsLang before cs ↔ MentionsLang none cs := by
  simp only [MentionsLang, any_isWord_endOf h]

theorem mentionsAt_iff {before : Option Char} (h : before.any isWord = false)
    {cs front tail : List Char} :
    MentionsAt before cs front tail ↔ MentionsAt none cs front tail := by
  simp only [MentionsAt, any_isWord_endOf h]

theorem mentionsFirst_iff {before : Option Char} (h : before.any isWord = false)
    {cs front tail : List Char} :
    MentionsFirst before cs front tail ↔ MentionsFirst none cs front tail := by
  simp only [MentionsFirst, mentionsAt_iff h]

theorem MentionsAt.cons {before : Option Char} {c : Char} {cs front tail : List Char}
    (h : MentionsAt (some c) cs front tail) : MentionsAt before (c :: cs) (c :: front) tail := by
  obtain ⟨word, blanks, rest, rfl, htail, hword, hblanks, hedge⟩ := h
  exact ⟨word, blanks, rest, rfl, htail, hword, hblanks, by rwa [endOf_cons]⟩

theorem EndsInLang.cons {before : Option Char} {c : Char} {cs : List Char}
    (h : EndsInLang (some c) cs) : EndsInLang before (c :: cs) := by
  obtain ⟨front, word, rfl, hword, hedge⟩ := h
  exact ⟨c :: front, word, rfl, hword, by rwa [endOf_cons]⟩

theorem MentionsLang.cons {before : Option Char} {c : Char} {cs : List Char}
    (h : MentionsLang (some c) cs) : MentionsLang before (c :: cs) := by
  obtain ⟨front, word, blanks, rest, rfl, hword, hblanks, hedge⟩ := h
  exact ⟨c :: front, word, blanks, rest, rfl, hword, hblanks, by rwa [endOf_cons]⟩

/-- A language that is named: the word at an edge, and a value behind it. -/
theorem exists_word_of_langHere {before : Option Char} {chunk tail x : List Char}
    (htail : Stops tail) (h : langHere before (chunk ++ tail) = some x) :
    before.any isWord = false ∧ ∃ word back, InAnyCase "lang".toList word ∧ chunk = word ++ back ∧
      attributeValue (back ++ tail) = some x := by
  rw [langHere] at h
  split at h
  · cases h
  · next hedge =>
    obtain ⟨left, hleft, hvalue⟩ := Option.bind_eq_some_iff.mp h
    obtain ⟨word, back, hword, hchunk, rfl⟩ := exists_word_of_stripFolded? htail hleft
    exact ⟨Bool.eq_false_iff.mpr hedge, word, back, hword, hchunk, hvalue⟩

/-- In plain text only a word at its end names a language. -/
theorem langHere_plain {before : Option Char} {chunk tail x : List Char} (hchunk : IsPlain chunk)
    (htail : Stops tail) (h : langHere before (chunk ++ tail) = some x) :
    before.any isWord = false ∧ InAnyCase "lang".toList chunk ∧ attributeValue tail = some x := by
  obtain ⟨hedge, word, back, hword, hback, hvalue⟩ := exists_word_of_langHere htail h
  cases back with
  | nil =>
    rw [List.append_nil] at hback
    exact ⟨hedge, hback ▸ hword, hvalue⟩
  | cons c back =>
    obtain ⟨hblank, hne⟩ := hchunk c (by rw [hback]; simp)
    rw [List.cons_append, attributeValue_cons_of_ne hblank hne] at hvalue
    cases hvalue

theorem findLang_cons_of_none {before : Option Char} {c : Char} {cs : List Char}
    (h : langHere before (c :: cs) = none) : findLang before (c :: cs) = findLang (some c) cs := by
  rw [findLang_cons, h, Option.none_or]

/-- Breaks are passed over. -/
theorem findLang_breaks {before : Option Char} {chunk : List Char} (h : ∀ c ∈ chunk, IsBreak c)
    (tail : List Char) :
    findLang before (chunk ++ tail) = findLang (endOf before chunk) tail := by
  induction chunk generalizing before with
  | nil => rfl
  | cons c chunk ih =>
    have hnone : langHere before (c :: (chunk ++ tail)) = none := by
      have hstrip : stripFolded? "lang".toList (c :: (chunk ++ tail)) = none := by
        rw [show "lang".toList = 'l' :: "ang".toList by decide, stripFolded?,
          h c List.mem_cons_self 'l' (by decide)]
        rfl
      rw [langHere, hstrip]
      split <;> rfl
    rw [List.cons_append, findLang_cons_of_none hnone, endOf_cons]
    exact ih fun d hd => h d (List.mem_cons_of_mem c hd)

/-- Plain text is passed over when it does not end in the word or no value follows. -/
theorem findLang_plain {before : Option Char} {chunk tail : List Char} (hchunk : IsPlain chunk)
    (htail : Stops tail) (h : attributeValue tail = none ∨ ¬ EndsInLang before chunk) :
    findLang before (chunk ++ tail) = findLang (endOf before chunk) tail := by
  induction chunk generalizing before with
  | nil => rfl
  | cons c chunk ih =>
    have hnone : langHere before (c :: chunk ++ tail) = none := by
      rw [Option.eq_none_iff_forall_ne_some]
      intro x hx
      obtain ⟨hedge, hword, hvalue⟩ := langHere_plain hchunk htail hx
      rcases h with h | h
      · rw [h] at hvalue
        cases hvalue
      · exact h ⟨[], c :: chunk, rfl, hword, hedge⟩
    rw [List.cons_append] at hnone ⊢
    rw [findLang_cons_of_none hnone, endOf_cons]
    exact ih (fun d hd => hchunk d (List.mem_cons_of_mem c hd))
      (h.imp_right fun h hends => h hends.cons)

/-- Plain text that ends in the word names what follows it. -/
theorem findLang_plain_of_ends {before : Option Char} {chunk tail x : List Char}
    (hchunk : IsPlain chunk) (htail : Stops tail) (hends : EndsInLang before chunk)
    (hvalue : attributeValue tail = some x) : findLang before (chunk ++ tail) = some x := by
  obtain ⟨front, word, rfl, hword, hedge⟩ := hends
  -- the search reaches the word with the character in front of it, which `endOf` keeps
  induction front generalizing before with
  | nil =>
    rw [List.nil_append] at hchunk ⊢
    rw [endOf_nil] at hedge
    have hhere := langHere_of_inAnyCase hedge hword tail
    cases hword with
    | cons _ _ =>
      rw [List.cons_append] at hhere ⊢
      rw [findLang_cons, hhere, hvalue, Option.some_or]
  | cons c front ih =>
    rw [List.cons_append, List.cons_append, findLang_cons]
    cases hhere : langHere before (c :: (front ++ word ++ tail)) with
    | some y =>
      -- the word cannot begin earlier and end at the same place, but it would name the same value
      have hwhole : langHere before (c :: front ++ word ++ tail) = some y := hhere
      obtain ⟨-, -, hy⟩ := langHere_plain hchunk htail hwhole
      rw [hvalue] at hy
      exact hy.symm
    | none =>
      rw [endOf_cons] at hedge
      exact ih (fun d hd => hchunk d (List.mem_cons_of_mem c hd)) hedge

/-- A language that is named at the beginning of what quotes hold is named in the quotes. -/
theorem mentionsAt_of_langHere {before : Option Char} {content rest x : List Char} {q : Char}
    (hq : q = '"' ∨ q = '\'') (h : langHere before (content ++ q :: rest) = some x) :
    ∃ tail, MentionsAt before content [] tail := by
  have hstops : Stops (q :: rest) := by
    rintro c ⟨⟩
    rcases hq with rfl | rfl <;> decide
  obtain ⟨hedge, word, back, hword, hback, hvalue⟩ := exists_word_of_langHere hstops h
  obtain ⟨blanks, sign, heq, hblanks⟩ := exists_sign_of_attributeValue (by rw [hvalue]; simp)
  -- the sign stands in front of the quote that ends the value, which is none itself
  rcases List.append_eq_append_iff.mp heq with ⟨reach, hreach, hsign⟩ | ⟨more, hmore, hsign⟩
  · cases reach with
    | nil =>
      obtain rfl : q = '=' := (List.cons.inj hsign).1
      rcases hq with hq | hq <;> cases hq
    | cons r reach =>
      obtain rfl : q = r := (List.cons.inj hsign).1
      have hblank := hblanks q (by rw [hreach]; simp)
      rcases hq with rfl | rfl <;> cases hblank
  · cases more with
    | nil =>
      obtain rfl : '=' = q := (List.cons.inj hsign).1
      rcases hq with hq | hq <;> cases hq
    | cons r more =>
      obtain rfl : '=' = r := (List.cons.inj hsign).1
      exact ⟨back, word, blanks, more, hback, hmore, hword, hblanks, hedge⟩

/-- The content of quotes is passed over when it does not mention the word. -/
theorem findLang_quoted {before : Option Char} {content rest : List Char} {q : Char}
    (hq : q = '"' ∨ q = '\'') (h : ¬ MentionsLang before content) :
    findLang before (content ++ q :: rest) = findLang (endOf before content) (q :: rest) := by
  induction content generalizing before with
  | nil => rfl
  | cons c content ih =>
    have hnone : langHere before (c :: content ++ q :: rest) = none := by
      rw [Option.eq_none_iff_forall_ne_some]
      intro x hx
      obtain ⟨tail, hat⟩ := mentionsAt_of_langHere hq hx
      exact h (mentionsLang_iff_exists.mpr ⟨[], tail, hat⟩)
    rw [List.cons_append] at hnone ⊢
    rw [findLang_cons_of_none hnone, endOf_cons]
    exact ih fun hmentions => h hmentions.cons

/-- **Quotes that mention the word**: what stands behind their first mention is read as its value,
    as if no quotes were around it. -/
theorem findLang_mention {before : Option Char} {content front tail rest x : List Char} {q : Char}
    (hq : q = '"' ∨ q = '\'') (h : MentionsFirst before content front tail)
    (hvalue : attributeValue (tail ++ q :: rest) = some x) :
    findLang before (content ++ q :: rest) = some x := by
  obtain ⟨⟨word, blanks, more, rfl, htail, hword, hblanks, hedge⟩, hfirst⟩ := h
  -- the search reaches the first mention with the character in front of it, which `endOf` keeps
  induction front generalizing before with
  | nil =>
    rw [endOf_nil] at hedge
    have hhere := langHere_of_inAnyCase hedge hword (tail ++ q :: rest)
    rw [hvalue] at hhere
    rw [List.nil_append, List.append_assoc]
    cases hword with
    | cons _ _ =>
      rw [List.cons_append] at hhere ⊢
      rw [findLang_cons, hhere, Option.some_or]
  | cons c front ih =>
    have hnone : langHere before (c :: front ++ (word ++ tail) ++ q :: rest) = none := by
      rw [Option.eq_none_iff_forall_ne_some]
      intro y hy
      obtain ⟨tail', hat⟩ := mentionsAt_of_langHere hq hy
      exact absurd (hfirst [] tail' hat) (by simp)
    rw [List.cons_append, List.cons_append] at hnone ⊢
    rw [findLang_cons_of_none hnone]
    rw [endOf_cons] at hedge
    refine ih (fun front' tail' hat => ?_) hedge
    exact Nat.le_of_succ_le_succ (hfirst (c :: front') tail' hat.cons)

/-! ## Section 5: Attributes -/

/-- Text behind an attribute: a blank comes first, and no value of that attribute. -/
structure Resumes (rest : List Char) : Prop where
  blank : ∀ c, rest.head? = some c → isBlank c = true
  noValue : attributeValue rest = none

theorem Resumes.stops {rest : List Char} (h : Resumes rest) : Stops rest :=
  fun c hc => isBreak_of_isBlank (h.blank c hc)

theorem isBreak_of_isAsciiBlank {c : Char} (h : isAsciiBlank c = true) : IsBreak c :=
  isBreak_of_isBlank (isBlank_of_isAsciiBlank h)

theorem Value.IsWellFormed.isBreak {v : Value} (hv : v.IsWellFormed) :
    ∀ c ∈ v.left ++ '=' :: v.right, IsBreak c := by
  intro c hc
  rcases List.mem_append.mp hc with hc | hc
  · exact isBreak_of_isAsciiBlank (hv.left c hc)
  · rcases List.mem_cons.mp hc with rfl | hc
    · decide
    · exact isBreak_of_isAsciiBlank (hv.right c hc)

theorem Value.quoted_eq_cons {v : Value} {q : Char} (h : v.quote = some q) :
    v.quoted = q :: (v.content ++ [q]) := by
  simp [Value.quoted, h]

theorem Attribute.valueText_eq {a : Attribute} {v : Value} (h : a.value = some v) :
    a.valueText = v.text := by
  rw [Attribute.valueText, h, Option.elim_some]

theorem Value.text_append (v : Value) (rest : List Char) :
    v.text ++ rest = v.left ++ '=' :: v.right ++ (v.quoted ++ rest) := by
  simp [Value.text]

theorem Value.IsWellFormed.stops {v : Value} (hv : v.IsWellFormed) (rest : List Char) :
    Stops (v.text ++ rest) := by
  intro c hc
  rw [v.text_append, List.append_assoc] at hc
  cases hleft : v.left with
  | nil =>
    rw [hleft] at hc
    obtain rfl : '=' = c := Option.some.inj hc
    decide
  | cons d left =>
    rw [hleft] at hc
    obtain rfl : d = c := Option.some.inj hc
    exact isBreak_of_isAsciiBlank (hv.left d (by simp [hleft]))

/-- The content of quotes mentions the word. -/
def Value.Mentions (v : Value) : Prop := v.quote ≠ none ∧ MentionsLang none v.content

/-- The search for the language has an answer in the attribute. -/
def Attribute.ReadsLang (a : Attribute) : Prop :=
  ∃ v, a.value = some v ∧ (EndsInLang none a.name ∨ v.Mentions)

theorem isBreak_of_quote {q : Char} (h : q = '"' ∨ q = '\'') : IsBreak q := by
  rcases h with rfl | rfl <;> decide

theorem any_isWord_quote {q : Char} (h : q = '"' ∨ q = '\'') : (some q).any isWord = false := by
  rcases h with rfl | rfl <;> decide

theorem findLang_break {before : Option Char} {c : Char} (h : IsBreak c) (tail : List Char) :
    findLang before (c :: tail) = findLang (some c) tail :=
  findLang_breaks (show ∀ d ∈ [c], IsBreak d by simpa using h) tail

theorem findLang_value {before : Option Char} {v : Value} {rest : List Char}
    (hv : v.IsWellFormed) (hrest : Resumes rest) (h : ¬ v.Mentions) :
    findLang before (v.text ++ rest) = findLang (endOf before v.text) rest := by
  have hend : endOf before v.text = endOf (endOf before (v.left ++ '=' :: v.right)) v.quoted := by
    rw [← endOf_append]
    simp [Value.text]
  rw [hend, v.text_append, findLang_breaks hv.isBreak]
  generalize endOf before (v.left ++ '=' :: v.right) = before
  cases hquote : v.quote with
  | none =>
    obtain ⟨-, hcontent⟩ := hv.bare hquote
    have hplain : IsPlain v.content := fun c hc =>
      ⟨(hcontent c hc).1, fun heq => (hcontent c hc).2 (by simp [heq])⟩
    have htext : v.quoted = v.content := by simp [Value.quoted, hquote]
    rw [htext, findLang_plain hplain hrest.stops (.inl hrest.noValue)]
  | some q =>
    obtain ⟨hq, -⟩ := hv.quoted q hquote
    have hmentions : ¬ MentionsLang (some q) v.content := by
      rw [mentionsLang_iff (any_isWord_quote hq)]
      exact fun hmentions => h ⟨by simp [hquote], hmentions⟩
    rw [Value.quoted_eq_cons hquote, endOf_cons, endOf_append, List.cons_append, findLang_break (isBreak_of_quote hq),
      List.append_assoc, List.singleton_append, findLang_quoted hq hmentions,
      findLang_break (isBreak_of_quote hq)]
    rfl

namespace Attribute.IsWellFormed

variable {a : Attribute}

theorem isBreak_gap (ha : a.IsWellFormed) : ∀ c ∈ a.gap, IsBreak c :=
  fun c hc => isBreak_of_isAsciiBlank (ha.gap c hc)

theorem isPlain_name (ha : a.IsWellFormed) : IsPlain a.name := fun c hc =>
  ⟨(ha.name c hc).1, fun heq => (ha.name c hc).2 (by simp [heq])⟩

/-- The name begins at a word edge. -/
theorem any_isWord_gap (ha : a.IsWellFormed) (before : Option Char) :
    (endOf before a.gap).any isWord = false := by
  rw [endOf, List.getLast?_eq_some_getLast ha.gap_ne_nil, Option.some_or, Option.any_some]
  exact isWord_of_isAsciiBlank (ha.gap _ (List.getLast_mem ha.gap_ne_nil))

end Attribute.IsWellFormed

/-- **An attribute that the search passes over.** -/
theorem findLang_attribute {before : Option Char} {a : Attribute} {rest : List Char}
    (ha : a.IsWellFormed) (hrest : Resumes rest) (h : ¬ a.ReadsLang) :
    findLang before (a.text ++ rest) = findLang (endOf before a.text) rest := by
  rw [Attribute.text, List.append_assoc, List.append_assoc, findLang_breaks ha.isBreak_gap,
    endOf_append, endOf_append]
  cases hvalue : a.value with
  | none =>
    have htext : a.valueText = [] := by rw [Attribute.valueText, hvalue]; rfl
    rw [htext, List.nil_append, findLang_plain ha.isPlain_name hrest.stops (.inl hrest.noValue),
      endOf_nil]
  | some v =>
    have hv := ha.value v hvalue
    have hends : ¬ EndsInLang (endOf before a.gap) a.name := by
      rw [endsInLang_iff (ha.any_isWord_gap before)]
      exact fun hends => h ⟨v, hvalue, .inl hends⟩
    rw [Attribute.valueText_eq hvalue,
      findLang_plain ha.isPlain_name (hv.stops rest) (.inr hends),
      findLang_value hv hrest fun hmentions => h ⟨v, hvalue, .inr hmentions⟩]

/-- **An attribute whose name ends in the word** gives its value. -/
theorem findLang_named {before : Option Char} {a : Attribute} {v : Value} {rest : List Char}
    (ha : a.IsWellFormed) (hrest : Resumes rest) (hvalue : a.value = some v)
    (h : EndsInLang none a.name) : findLang before (a.text ++ rest) = some v.content := by
  have hv := ha.value v hvalue
  rw [Attribute.text, Attribute.valueText_eq hvalue, List.append_assoc, List.append_assoc,
    findLang_breaks ha.isBreak_gap]
  exact findLang_plain_of_ends ha.isPlain_name (hv.stops rest)
    ((endsInLang_iff (ha.any_isWord_gap before)).mpr h) (attributeValue_text hv hrest.blank)

theorem exists_nonblank {q : Char} (hq : isBlank q = false) (cs rest : List Char) :
    ∃ blanks d more, cs ++ q :: rest = blanks ++ d :: more ∧ (∀ c ∈ blanks, isBlank c = true) ∧
      isBlank d = false ∧ (d ∈ cs ∨ d = q) := by
  induction cs with
  | nil => exact ⟨[], q, rest, rfl, by simp, hq, .inr rfl⟩
  | cons c cs ih =>
    cases hc : isBlank c with
    | false => exact ⟨[], c, cs ++ q :: rest, rfl, by simp, hc, .inl List.mem_cons_self⟩
    | true =>
      obtain ⟨blanks, d, more, heq, hblanks, hd, hmem⟩ := ih
      refine ⟨c :: blanks, d, more, by rw [List.cons_append, heq, List.cons_append], ?_, hd,
        hmem.imp_left (List.mem_cons_of_mem c)⟩
      intro e he
      rcases List.mem_cons.mp he with rfl | he
      · exact hc
      · exact hblanks e he

/-- A value is read behind a mention: the end of the tag is none, and the closing quote comes
    first. -/
theorem MentionsAt.attributeValue_ne_none {before : Option Char}
    {content front tail : List Char} {q : Char} (h : MentionsAt before content front tail)
    (hq : q = '"' ∨ q = '\'') (hbracket : '>' ∉ content) (rest : List Char) :
    attributeValue (tail ++ q :: rest) ≠ none := by
  obtain ⟨word, blanks, more, rfl, rfl, -, hblanks, -⟩ := h
  -- behind the sign stands something else than a blank, the closing quote at the latest
  obtain ⟨between, d, left, heq, hbetween, hd, hmem⟩ :=
    exists_nonblank (by rcases hq with rfl | rfl <;> rfl : isBlank q = false) more rest
  have hend : d ≠ '>' := by
    rintro rfl
    rcases hmem with hmem | rfl
    · exact hbracket (by simp [hmem])
    · rcases hq with hq | hq <;> cases hq
  rw [List.append_assoc, List.cons_append, heq, attributeValue_blanks hblanks]
  exact attributeValue_sign_ne_none hbetween hd hend left

/-- **A value that mentions the word** in its quotes. -/
theorem findLang_mentioned {before : Option Char} {v : Value} {q : Char}
    {front tail rest : List Char} (hv : v.IsWellFormed) (hbracket : '>' ∉ v.content)
    (hquote : v.quote = some q) (h : MentionsFirst none v.content front tail) :
    findLang before (v.text ++ rest) = attributeValue (tail ++ q :: rest) := by
  obtain ⟨hq, -⟩ := hv.quoted q hquote
  obtain ⟨x, hx⟩ := Option.ne_none_iff_exists'.mp (h.1.attributeValue_ne_none hq
    hbracket rest)
  rw [v.text_append, findLang_breaks hv.isBreak, Value.quoted_eq_cons hquote, List.cons_append,
    findLang_break (isBreak_of_quote hq), List.append_assoc, List.singleton_append, hx]
  exact findLang_mention hq ((mentionsFirst_iff (any_isWord_quote hq)).mpr h) hx

/-- **An attribute with the word in its quotes only.** -/
theorem findLang_attribute_mentioned {before : Option Char} {a : Attribute} {v : Value} {q : Char}
    {front tail rest : List Char} (ha : a.IsWellFormed) (hvalue : a.value = some v)
    (hbracket : '>' ∉ v.content) (hends : ¬ EndsInLang none a.name) (hquote : v.quote = some q)
    (h : MentionsFirst none v.content front tail) :
    findLang before (a.text ++ rest) = attributeValue (tail ++ q :: rest) := by
  have hv := ha.value v hvalue
  rw [Attribute.text, Attribute.valueText_eq hvalue, List.append_assoc, List.append_assoc,
    findLang_breaks ha.isBreak_gap, findLang_plain ha.isPlain_name (hv.stops rest)
      (.inr (mt (endsInLang_iff (ha.any_isWord_gap before)).mp hends))]
  exact findLang_mentioned hv hbracket hquote h

theorem Attribute.ReadsLang.exists_first {a : Attribute} {v : Value} (h : a.ReadsLang)
    (hvalue : a.value = some v) (hends : ¬ EndsInLang none a.name) :
    ∃ q front tail, v.quote = some q ∧ MentionsFirst none v.content front tail := by
  obtain ⟨v', hvalue', hreads⟩ := h
  obtain rfl : v = v' := Option.some.inj (hvalue.symm.trans hvalue')
  obtain ⟨hquoted, hmentions⟩ := hreads.resolve_left hends
  obtain ⟨q, hquote⟩ := Option.ne_none_iff_exists'.mp hquoted
  obtain ⟨front, tail, hfirst⟩ := hmentions.exists_first
  exact ⟨q, front, tail, hquote, hfirst⟩

theorem findLang_ne_none {before : Option Char} {a : Attribute} {rest : List Char}
    (ha : a.IsWellFormed) (hrest : Resumes rest)
    (hbracket : ∀ v, a.value = some v → '>' ∉ v.content) (h : a.ReadsLang) :
    findLang before (a.text ++ rest) ≠ none := by
  obtain ⟨v, hvalue, -⟩ := id h
  by_cases hends : EndsInLang none a.name
  · rw [findLang_named ha hrest hvalue hends]
    exact Option.some_ne_none _
  · obtain ⟨q, front, tail, hquote, hfirst⟩ := h.exists_first hvalue hends
    rw [findLang_attribute_mentioned ha hvalue (hbracket v hvalue) hends hquote hfirst]
    exact hfirst.1.attributeValue_ne_none ((ha.value v hvalue).quoted q hquote).1
      (hbracket v hvalue) rest

/-! ## Section 6: All attributes of a tag -/

/-- Attributes as they are written, one behind the other. -/
def written (as : List Attribute) : List Char := as.flatMap Attribute.text

section

variable {as : List Attribute} {ending : List Char}

theorem attributeValue_of_blanks (h : ∀ c ∈ ending, isBlank c = true) :
    attributeValue ending = none := by
  rw [← List.append_nil ending, attributeValue_blanks h]
  rfl

theorem resumes_written (has : ∀ a ∈ as, a.IsWellFormed)
    (hending : ∀ c ∈ ending, isAsciiBlank c = true) : Resumes (written as ++ ending) := by
  cases as with
  | nil =>
    have hblank : ∀ c ∈ ending, isBlank c = true := fun c hc =>
      isBlank_of_isAsciiBlank (hending c hc)
    exact ⟨fun c hc => hblank c (List.mem_of_mem_head? hc), attributeValue_of_blanks hblank⟩
  | cons a as =>
    have ha := has a List.mem_cons_self
    obtain ⟨g, gap, hgap⟩ := List.exists_cons_of_ne_nil ha.gap_ne_nil
    obtain ⟨n, name, hname⟩ := List.exists_cons_of_ne_nil ha.name_ne_nil
    have htext : written (a :: as) ++ ending =
        a.gap ++ n :: (name ++ (a.valueText ++ (written as ++ ending))) := by
      simp [written, Attribute.text, hname]
    rw [htext]
    constructor
    · intro c hc
      rw [hgap] at hc
      obtain rfl : g = c := Option.some.inj hc
      exact isBlank_of_isAsciiBlank (ha.gap g (by simp [hgap]))
    · obtain ⟨hblank, hsign⟩ := ha.isPlain_name n (by simp [hname])
      rw [attributeValue_blanks fun c hc => isBlank_of_isAsciiBlank (ha.gap c hc),
        attributeValue_cons_of_ne hblank hsign]

theorem written_append (as bs : List Attribute) : written (as ++ bs) = written as ++ written bs :=
  List.flatMap_append

theorem written_cons (a : Attribute) (as : List Attribute) :
    written (a :: as) = a.text ++ written as := List.flatMap_cons

/-- The search passes over attributes that have no answer. -/
theorem findLang_written {before : Option Char} (has : ∀ a ∈ as, a.IsWellFormed)
    (h : ∀ a ∈ as, ¬ a.ReadsLang) {bs : List Attribute} (hbs : ∀ b ∈ bs, b.IsWellFormed)
    (hending : ∀ c ∈ ending, isAsciiBlank c = true) :
    findLang before (written as ++ (written bs ++ ending)) =
      findLang (endOf before (written as)) (written bs ++ ending) := by
  induction as generalizing before with
  | nil => rfl
  | cons a as ih =>
    have hall : ∀ b ∈ as ++ bs, b.IsWellFormed := by
      intro b hb
      rcases List.mem_append.mp hb with hb | hb
      · exact has b (List.mem_cons_of_mem a hb)
      · exact hbs b hb
    have hrest := resumes_written hall hending
    rw [written_append, List.append_assoc] at hrest
    rw [written_cons, List.append_assoc,
      findLang_attribute (has a List.mem_cons_self) hrest (h a List.mem_cons_self), endOf_append]
    exact ih (fun b hb => has b (List.mem_cons_of_mem a hb))
      fun b hb => h b (List.mem_cons_of_mem a hb)

/-- **When no language is named.** -/
theorem langOf_eq_none_iff (has : ∀ a ∈ as, a.IsWellFormed)
    (hbracket : ∀ a ∈ as, ∀ v, a.value = some v → '>' ∉ v.content)
    (hending : ∀ c ∈ ending, isAsciiBlank c = true) :
    langOf (written as ++ ending) = none ↔ ∀ a ∈ as, ¬ a.ReadsLang := by
  rw [langOf, Option.map_eq_none_iff]
  constructor
  -- an attribute with an answer has it in the middle of the others, too
  · intro hnone a ha hreads
    obtain ⟨first, more, rfl⟩ := List.append_of_mem ha
    have hmore : ∀ b ∈ more, b.IsWellFormed := fun b hb => has b (by simp [hb])
    rw [written_append, written_cons, List.append_assoc, List.append_assoc] at hnone
    exact findLang_ne_none (has a ha) (resumes_written hmore hending) (hbracket a ha) hreads
      (findLang_eq_none_of_append hnone)
  · intro h
    have hskip : findLang none (written as ++ (written [] ++ ending)) =
        findLang (endOf none (written as)) (written [] ++ ending) :=
      findLang_written has h (by simp) hending
    rw [show written [] ++ ending = ending from rfl] at hskip
    rw [hskip, ← List.append_nil ending,
      findLang_breaks fun c hc => isBreak_of_isAsciiBlank (hending c hc)]
    rfl

/-- The language is looked for from the first attribute with an answer on. -/
theorem langOf_eq_from {first more : List Attribute} {a : Attribute}
    (has : ∀ b ∈ first ++ a :: more, b.IsWellFormed)
    (hending : ∀ c ∈ ending, isAsciiBlank c = true) (hfirst : ∀ b ∈ first, ¬ b.ReadsLang) :
    langOf (written (first ++ a :: more) ++ ending) =
      (findLang (endOf none (written first)) (a.text ++ (written more ++ ending))).map
        fun value => String.ofList (value.map Char.toLower) := by
  rw [langOf, written_append, List.append_assoc,
    findLang_written (fun b hb => has b (by simp [hb])) hfirst
      (fun b hb => has b (List.mem_append_right _ hb)) hending, written_cons, List.append_assoc]

/-- **The first attribute with an answer** gives its value when its name ends in the word. -/
theorem langOf_eq_some {first more : List Attribute} {a : Attribute} {v : Value}
    (has : ∀ b ∈ first ++ a :: more, b.IsWellFormed)
    (hending : ∀ c ∈ ending, isAsciiBlank c = true) (hfirst : ∀ b ∈ first, ¬ b.ReadsLang)
    (hvalue : a.value = some v) (h : EndsInLang none a.name) :
    langOf (written (first ++ a :: more) ++ ending) =
      some (String.ofList (v.content.map Char.toLower)) := by
  have hmore : ∀ b ∈ more, b.IsWellFormed := fun b hb => has b (by simp [hb])
  rw [langOf_eq_from has hending hfirst,
    findLang_named (has a (by simp)) (resumes_written hmore hending) hvalue h, Option.map_some]

/-- **The first attribute with an answer** that has the word in its quotes only. What stands behind
    it is read as a value, within the quotes or beyond them. -/
theorem langOf_eq_mentioned {first more : List Attribute} {a : Attribute} {v : Value} {q : Char}
    {front tail : List Char} (has : ∀ b ∈ first ++ a :: more, b.IsWellFormed)
    (hending : ∀ c ∈ ending, isAsciiBlank c = true) (hfirst : ∀ b ∈ first, ¬ b.ReadsLang)
    (hvalue : a.value = some v) (hbracket : '>' ∉ v.content) (hends : ¬ EndsInLang none a.name)
    (hquote : v.quote = some q) (h : MentionsFirst none v.content front tail) :
    langOf (written (first ++ a :: more) ++ ending) =
      (attributeValue (tail ++ q :: (written more ++ ending))).map
        fun value => String.ofList (value.map Char.toLower) := by
  rw [langOf_eq_from has hending hfirst,
    findLang_attribute_mentioned (has a (by simp)) hvalue hbracket hends hquote h]

end

end BuildMacros.Script
