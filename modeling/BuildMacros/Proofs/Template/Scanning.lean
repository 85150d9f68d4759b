import BuildMacros.Proofs.Text.Bytes
import BuildMacros.Template.Elements

/-! # The scanner as a loop over bytes

    A template is scanned by a loop that looks at the byte at an offset, reads on by one, and
    cuts names out of the text where it stops. A text may be cut at boundaries only.

    `Scans` is that loop, with everything it does to the text: which bytes it looks at, where it
    searches and where it cuts. It has no bound on the number of its steps, and it is stuck where
    it would cut a character in two. Every round goes forward (`Round.lt`), and there is one
    thing to do in each state, so the loop has one result (`Scans.unique`).
-/

namespace BuildMacros.Template

open BuildMacros.Text

/-! ## Section 1: The loop -/

/-- A character that may stand in the name of an attribute, unless it ends an empty tag. -/
def isAttributeChar (c : Char) : Bool := !(isAsciiBlank c || c == '=' || c == '>')

/-- A character that may stand in a value without quotes. -/
def isValueChar (c : Char) : Bool := !isAsciiBlank c && c != '>'

/-- A character that a quoted value begins with. -/
def isQuote (c : Char) : Bool := c == '"' || c == '\''

/-- A tag ends as an empty one at the offset. -/
def slashes (t : List Char) (i : Nat) : Bool :=
  byteAt? t i == some '/' && byteAt? t (i + 1) == some '>'

/-- The offset lies in the name of an attribute. -/
def inName (t : List Char) (i : Nat) : Bool := passes t isAttributeChar i && !slashes t i

/-- What is read behind the name of an attribute: perhaps a value. -/
inductive Value (t : List Char) (i : Nat) : Nat → Prop where
  | absent (h : byteAt? t i ≠ some '=') : Value t i i
  | quoted {j : Nat} {quote : Char} (h : byteAt? t i = some '=')
      (hquote : byteAt? t (i + 1) = some quote) (hisQuote : isQuote quote = true)
      (hend : Finds t [quote] (i + 2) j) : Value t i j
  | bare {j : Nat} (h : byteAt? t i = some '=') (hquote : passes t isQuote (i + 1) = false)
      (hend : Runs (passes t isValueChar) (i + 1) j) : Value t i j

/-- What is read behind the name of a tag, up to its end or the end of the text: the names of the
    attributes, and whether the tag is empty. -/
inductive Attributes (t : List Char) : Nat → List String → Bool → Nat → Prop where
  | ended {i : Nat} (h : byteAt? t i = none) : Attributes t i [] false i
  | closed {i : Nat} (h : byteAt? t i = some '>') : Attributes t i [] false (i + 1)
  | slashed {i : Nat} (h : slashes t i = true) : Attributes t i [] true (i + 2)
  | blank {i j : Nat} {names : List String} {isEmpty : Bool}
      (h : passes t isAsciiBlank i = true) (rest : Attributes t (i + 1) names isEmpty j) :
      Attributes t i names isEmpty j
  | named {i j k l : Nat} {b : Char} {names : List String} {isEmpty : Bool}
      (h : byteAt? t i = some b) (hblank : isAsciiBlank b = false) (hclosed : b ≠ '>')
      (hslash : slashes t i = false)
      (hname : Runs (inName t) i j) (hcut : IsRange t i j) (hvalue : Value t j k)
      (rest : Attributes t k names isEmpty l) :
      Attributes t i (String.ofList (slice t i j) :: names) isEmpty l

/-- One round of the loop: from an offset to the next one, with the tag that is met, if any. -/
inductive Round (t : List Char) (i : Nat) : Option Tag → Nat → Prop where
  | other {b : Char} (h : byteAt? t i = some b) (hb : b ≠ '<') : Round t i none (i + 1)
  | comment {j : Nat} (h : byteAt? t i = some '<') (hcomment : StandsAt "<!--".toList i t)
      (hend : Finds t "-->".toList i j) : Round t i none j
  | closing {j k : Nat} (h : byteAt? t i = some '<') (hcut : isBoundary t i = true)
      (hcomment : ¬StandsAt "<!--".toList i t) (hslash : byteAt? t (i + 1) = some '/')
      (hname : Runs (passes t isNameChar) (i + 2) j) (hrange : IsRange t (i + 2) j)
      (hend : Finds t ['>'] j k) :
      Round t i (some (.closing (String.ofList (slice t (i + 2) j)) (i + 2))) k
  | bare (h : byteAt? t i = some '<') (hcut : isBoundary t i = true)
      (hcomment : ¬StandsAt "<!--".toList i t) (hslash : byteAt? t (i + 1) ≠ some '/')
      (hletter : passes t Char.isAlpha (i + 1) = false) : Round t i none (i + 1)
  | opening {j k : Nat} {names : List String} {isEmpty : Bool} (h : byteAt? t i = some '<')
      (hcut : isBoundary t i = true) (hcomment : ¬StandsAt "<!--".toList i t)
      (hletter : passes t Char.isAlpha (i + 1) = true)
      (hname : Runs (passes t isNameChar) (i + 1) j) (hrange : IsRange t (i + 1) j)
      (hend : Attributes t j names isEmpty k) :
      Round t i (some (.opening (String.ofList (slice t (i + 1) j)) (i + 1) names isEmpty)) k

/-- The loop, from an offset to the end of the text, with the tags that it meets. -/
inductive Scans (t : List Char) : Nat → List Tag → Prop where
  | ended {i : Nat} (h : byteAt? t i = none) : Scans t i []
  | round {i j : Nat} {tag : Option Tag} {ts : List Tag} (h : Round t i tag j)
      (rest : Scans t j ts) : Scans t i (tag.toList ++ ts)

section

variable {t : List Char} {i : Nat}

/-! ## Section 2: Progress -/

theorem Value.le {j : Nat} (h : Value t i j) : i ≤ j := by
  cases h with
  | absent => exact Nat.le_refl _
  | quoted _ _ _ hend => exact Nat.le_trans (Nat.le_add_right _ _) hend.le
  | bare _ _ hend => exact Nat.le_of_succ_le hend.le

theorem Attributes.le {names : List String} {isEmpty : Bool} {j : Nat}
    (h : Attributes t i names isEmpty j) : i ≤ j := by
  induction h with
  | ended => exact Nat.le_refl _
  | closed => exact Nat.le_succ _
  | slashed => exact Nat.le_add_right _ _
  | blank _ _ ih => exact Nat.le_of_succ_le ih
  | named _ _ _ _ hname _ hvalue _ ih =>
    exact Nat.le_trans hname.le (Nat.le_trans hvalue.le ih)

/-- **Every round goes forward.** -/
theorem Round.lt {tag : Option Tag} {j : Nat} (h : Round t i tag j) : i < j := by
  cases h with
  | other => exact Nat.lt_succ_self _
  | comment h hcomment hend =>
    cases hend with
    | found _ hle =>
      have hword : byteLength "-->".toList = 3 := by decide
      omega
    | missing => exact lt_of_byteAt? h
  | closing _ _ _ _ hname _ hend =>
    have hle := hname.le
    have hle' := hend.le
    omega
  | bare => exact Nat.lt_succ_self _
  | opening _ _ _ _ hname _ hend =>
    have hle := hname.le
    have hle' := hend.le
    omega

/-! ## Section 3: One result -/

theorem Value.unique {j j' : Nat} (h : Value t i j) (h' : Value t i j') : j = j' := by
  cases h with
  | absent h =>
    cases h' with
    | absent => rfl
    | quoted h' => exact absurd h' h
    | bare h' => exact absurd h' h
  | quoted h hquote hisQuote hend =>
    cases h' with
    | absent h' => exact absurd h h'
    | quoted _ hquote' _ hend' =>
      cases hquote.symm.trans hquote'
      exact hend.unique hend'
    | bare _ hquote' => simp [passes, hquote, hisQuote] at hquote'
  | bare h hquote hend =>
    cases h' with
    | absent h' => exact absurd h h'
    | quoted _ hquote' hisQuote' => simp [passes, hquote', hisQuote'] at hquote
    | bare _ _ hend' => exact hend.unique hend'

theorem Attributes.unique {names names' : List String} {isEmpty isEmpty' : Bool} {j j' : Nat}
    (h : Attributes t i names isEmpty j) (h' : Attributes t i names' isEmpty' j') :
    names = names' ∧ isEmpty = isEmpty' ∧ j = j' := by
  induction h generalizing names' with
  | ended h =>
    cases h' with
    | ended => exact ⟨rfl, rfl, rfl⟩
    | closed h' => simp [h] at h'
    | slashed h' => simp [slashes, h] at h'
    | blank h' => simp [passes, h] at h'
    | named h' => simp [h] at h'
  | closed h =>
    cases h' with
    | ended h' => simp [h] at h'
    | closed => exact ⟨rfl, rfl, rfl⟩
    | slashed h' => simp [slashes, h] at h'
    | blank h' => simp [passes, h, isAsciiBlank] at h'
    | named h' _ hclosed => exact absurd (Option.some.inj (h'.symm.trans h)) hclosed
  | slashed h =>
    cases h' with
    | ended h' => simp [slashes, h'] at h
    | closed h' => simp [slashes, h'] at h
    | slashed => exact ⟨rfl, rfl, rfl⟩
    | blank h' =>
      simp only [slashes, Bool.and_eq_true, beq_iff_eq] at h
      simp [passes, h.1, isAsciiBlank] at h'
    | named _ _ _ hslash => simp [h] at hslash
  | blank h _ ih =>
    cases h' with
    | ended h' => simp [passes, h'] at h
    | closed h' => simp [passes, h', isAsciiBlank] at h
    | slashed h' =>
      simp only [slashes, Bool.and_eq_true, beq_iff_eq] at h'
      simp [passes, h'.1, isAsciiBlank] at h
    | blank _ rest' => exact ih rest'
    | named h' hblank => simp [passes, h', hblank] at h
  | named h hblank hclosed hslash hname hcut hvalue _ ih =>
    cases h' with
    | ended h' => simp [h] at h'
    | closed h' => exact absurd (Option.some.inj (h.symm.trans h')) hclosed
    | slashed h' => simp [hslash] at h'
    | blank h' => simp [passes, h, hblank] at h'
    | named _ _ _ _ hname' _ hvalue' rest' =>
      obtain rfl := hname.unique hname'
      obtain rfl := hvalue.unique hvalue'
      obtain ⟨rfl, rfl, rfl⟩ := ih rest'
      exact ⟨rfl, rfl, rfl⟩

theorem Round.unique {tag tag' : Option Tag} {j j' : Nat} (h : Round t i tag j)
    (h' : Round t i tag' j') : tag = tag' ∧ j = j' := by
  have hletter : byteAt? t (i + 1) = some '/' → passes t Char.isAlpha (i + 1) = false := by
    intro hslash
    rw [passes, hslash]
    rfl
  cases h with
  | other h hb =>
    cases h' with
    | other => exact ⟨rfl, rfl⟩
    | comment h' | closing h' | bare h' | opening h' =>
      exact absurd (Option.some.inj (h.symm.trans h')) hb
  | comment h hcomment hend =>
    cases h' with
    | other h' hb => exact absurd (Option.some.inj (h'.symm.trans h)) hb
    | comment _ _ hend' => exact ⟨rfl, hend.unique hend'⟩
    | closing _ _ hcomment' | bare _ _ hcomment' | opening _ _ hcomment' =>
      exact absurd hcomment hcomment'
  | closing h hcut hcomment hslash hname hrange hend =>
    cases h' with
    | other h' hb => exact absurd (Option.some.inj (h'.symm.trans h)) hb
    | comment _ hcomment' => exact absurd hcomment' hcomment
    | closing _ _ _ _ hname' _ hend' =>
      obtain rfl := hname.unique hname'
      exact ⟨rfl, hend.unique hend'⟩
    | bare _ _ _ hslash' => exact absurd hslash hslash'
    | opening _ _ _ hletter' => simp [hletter hslash] at hletter'
  | bare h hcut hcomment hslash hnone =>
    cases h' with
    | other h' hb => exact absurd (Option.some.inj (h'.symm.trans h)) hb
    | comment _ hcomment' => exact absurd hcomment' hcomment
    | closing _ _ _ hslash' => exact absurd hslash' hslash
    | bare => exact ⟨rfl, rfl⟩
    | opening _ _ _ hletter' => simp [hnone] at hletter'
  | opening h hcut hcomment hsome hname hrange hend =>
    cases h' with
    | other h' hb => exact absurd (Option.some.inj (h'.symm.trans h)) hb
    | comment _ hcomment' => exact absurd hcomment' hcomment
    | closing _ _ _ hslash' => simp [hletter hslash'] at hsome
    | bare _ _ _ _ hnone' => simp [hsome] at hnone'
    | opening _ _ _ _ hname' _ hend' =>
      obtain rfl := hname.unique hname'
      obtain ⟨rfl, rfl, rfl⟩ := hend.unique hend'
      exact ⟨rfl, rfl⟩

/-- No round is made at the end of the text. -/
theorem Round.ne_none {tag : Option Tag} {j : Nat} (h : Round t i tag j) : byteAt? t i ≠ none := by
  cases h with
  | other h | comment h | closing h | bare h | opening h => simp [h]

theorem Scans.unique {ts ts' : List Tag} (h : Scans t i ts) (h' : Scans t i ts') : ts = ts' := by
  induction h generalizing ts' with
  | ended h =>
    cases h' with
    | ended => rfl
    | round h' => exact absurd h h'.ne_none
  | round h _ ih =>
    cases h' with
    | ended h' => exact absurd h' h.ne_none
    | round h' rest' =>
      obtain ⟨rfl, rfl⟩ := h.unique h'
      rw [ih rest']

end

end BuildMacros.Template
