import BuildMacros.Proofs.Script.Blocks
import Mathlib.Data.Bool.AllAny
import Mathlib.Data.List.Forall2

/-! # The script elements of a file

    `Element` is a script element as it is written: the word that opens it, its attributes,
    its content and its closing tag. The opening tag ends at the first angle bracket, quoted
    or not, and the content at the first closing tag, in any letter case. `ElementsFrom` reads
    a text from the left: where no whole element begins a character is passed over, and a
    whole element is taken as it is.

    The blocks of a file are the elements of this reading (`exists_elementsFrom`). So they do not
    overlap, each of them is a slice of the file at its offset, and none reaches over a
    closing tag.
-/

namespace BuildMacros.Text

/-! ## Section 1: Words in any letter case -/

/-- The text is the word, written in any letter case. As in text patterns, the case of a letter
    is that of Unicode: the long s is an `s` and the sign of the kelvin is a `k`. -/
def InAnyCase (word cs : List Char) : Prop := List.Forall₂ (fun p c => foldsTo p c = true) word cs

theorem stripFolded?_eq_some_iff {word cs rest : List Char} :
    stripFolded? word cs = some rest ↔ ∃ front, InAnyCase word front ∧ cs = front ++ rest := by
  induction word generalizing cs with
  | nil =>
    constructor
    · rintro ⟨⟩
      exact ⟨[], .nil, rfl⟩
    · rintro ⟨front, hfront, rfl⟩
      cases hfront
      rfl
  | cons p ps ih =>
    constructor
    · intro h
      cases cs with
      | nil => cases h
      | cons c cs =>
        rw [stripFolded?] at h
        obtain ⟨hfold, hrest⟩ := Option.ite_none_right_eq_some.mp h
        obtain ⟨front, hfront, rfl⟩ := ih.mp hrest
        exact ⟨c :: front, .cons hfold hfront, rfl⟩
    · rintro ⟨front, hfront, rfl⟩
      cases hfront with
      | cons hfold hfront =>
        rw [List.cons_append, stripFolded?, if_pos hfold]
        exact ih.mpr ⟨_, hfront, rfl⟩

theorem stripFolded?_append {word front : List Char} (h : InAnyCase word front)
    (rest : List Char) : stripFolded? word (front ++ rest) = some rest :=
  stripFolded?_eq_some_iff.mpr ⟨front, h, rfl⟩

theorem inAnyCase_iff {word cs : List Char} :
    InAnyCase word cs ↔ stripFolded? word cs = some [] := by
  rw [stripFolded?_eq_some_iff]
  simp

theorem exists_foldsTo_of_mem {word cs : List Char} (h : InAnyCase word cs) {c : Char}
    (hc : c ∈ cs) : ∃ p ∈ word, foldsTo p c = true := by
  induction h with
  | nil => cases hc
  | cons hfirst _ ih =>
    rcases List.mem_cons.mp hc with rfl | hc
    · exact ⟨_, List.mem_cons_self, hfirst⟩
    · obtain ⟨p, hp, hfold⟩ := ih hc
      exact ⟨p, List.mem_cons_of_mem _ hp, hfold⟩

instance (word cs : List Char) : Decidable (InAnyCase word cs) :=
  decidable_of_iff _ inAnyCase_iff.symm

/-- What stands in a text is a slice of it. -/
theorem StandsAt.slice_eq {part whole : List Char} {pos : Nat} (h : StandsAt part pos whole) :
    slice whole pos (pos + byteLength part) = part := by
  obtain ⟨before, after, rfl, rfl⟩ := h
  exact slice_append_append before part after

end BuildMacros.Text

namespace BuildMacros.Script

open BuildMacros.Text

/-! ## Section 2: Tags -/

/-- The text contains no closing tag, in any letter case. -/
def Unclosed (cs : List Char) : Prop := ∀ tag, InAnyCase closeTag tag → ¬ tag <:+: cs

/-- What begins a tag: an angle bracket, and no other one behind it. -/
def IsTagStart (word : List Char) : Prop :=
  ∃ name, word = '<' :: name ∧ ∀ p ∈ name, foldsTo p '<' = false

theorem isTagStart_openTag : IsTagStart openTag :=
  ⟨_, openTag_eq, List.all_iff_forall_prop.mp (by decide)⟩

theorem isTagStart_closeTag : IsTagStart closeTag :=
  ⟨_, closeTag_eq, List.all_iff_forall_prop.mp (by decide)⟩

theorem IsTagStart.exists_cons {word tag : List Char} (hword : IsTagStart word)
    (h : InAnyCase word tag) : ∃ more, tag = '<' :: more ∧ '<' ∉ more := by
  obtain ⟨name, rfl, hname⟩ := hword
  cases h with
  | @cons _ c _ more hc hmore =>
    refine ⟨more, by rw [eq_of_foldsTo hc], fun hmem => ?_⟩
    obtain ⟨p, hp, hfold⟩ := exists_foldsTo_of_mem hmore hmem
    rw [hname p hp] at hfold
    cases hfold

/-- A tag that begins in a text does not reach over an angle bracket behind the text. -/
theorem IsTagStart.prefix_of_append {word tag xs ys left : List Char} (hword : IsTagStart word)
    (h : InAnyCase word tag) (hne : xs ≠ []) (heq : xs ++ '<' :: ys = tag ++ left) :
    tag <+: xs := by
  obtain ⟨more, rfl, hmore⟩ := hword.exists_cons h
  rcases List.append_eq_append_iff.mp heq with ⟨reach, htag, hreach⟩ | ⟨back, hback, -⟩
  · cases reach with
    | nil => exact ⟨[], by rw [htag, List.append_nil, List.append_nil]⟩
    | cons r reach =>
      -- what the tag takes beyond the text begins with the angle bracket
      obtain ⟨c, xs, rfl⟩ := List.exists_cons_of_ne_nil hne
      obtain rfl : '<' = r := (List.cons.inj hreach).1
      exact absurd (by rw [(List.cons.inj htag).2]; simp) hmore
  · exact ⟨back, hback.symm⟩

/-- No closing tag begins in a text without one and reaches into the closing tag behind it. -/
theorem stripFolded?_closeTag_append {content closing : List Char} (hne : content ≠ [])
    (hcontent : Unclosed content) (hclosing : InAnyCase closeTag closing) (rest : List Char) :
    stripFolded? closeTag (content ++ (closing ++ rest)) = none := by
  rw [Option.eq_none_iff_forall_ne_some]
  intro left h
  obtain ⟨tag, htag, heq⟩ := stripFolded?_eq_some_iff.mp h
  obtain ⟨more, rfl, -⟩ := isTagStart_closeTag.exists_cons hclosing
  exact hcontent tag htag (isTagStart_closeTag.prefix_of_append htag hne heq).isInfix

theorem unclosed_nil : Unclosed [] := by
  intro tag htag h
  obtain ⟨more, rfl, -⟩ := isTagStart_closeTag.exists_cons htag
  cases List.infix_nil.mp h

theorem unclosed_cons_iff {c : Char} {cs : List Char} :
    Unclosed (c :: cs) ↔ stripFolded? closeTag (c :: cs) = none ∧ Unclosed cs := by
  constructor
  · intro h
    refine ⟨Option.eq_none_iff_forall_ne_some.mpr fun rest hrest => ?_, fun tag htag hcs => ?_⟩
    · obtain ⟨tag, htag, heq⟩ := stripFolded?_eq_some_iff.mp hrest
      exact h tag htag (heq ▸ (List.prefix_append tag rest).isInfix)
    · exact h tag htag (List.infix_cons hcs)
  · rintro ⟨hnone, hcs⟩ tag htag h
    rcases List.infix_cons_iff.mp h with ⟨rest, heq⟩ | h
    · rw [← heq, stripFolded?_append htag] at hnone
      cases hnone
    · exact hcs tag htag h

theorem upToClose_eq_none_iff {cs : List Char} : upToClose cs = none ↔ Unclosed cs := by
  induction cs with
  | nil => exact iff_of_true rfl unclosed_nil
  | cons c cs ih =>
    rw [unclosed_cons_iff, ← ih]
    cases hclose : stripFolded? closeTag (c :: cs) with
    | some rest => simp [upToClose_of_closeTag hclose]
    | none => simp [upToClose_cons hclose]

/-- A text is read up to its first closing tag. -/
theorem upToClose_closing {content closing : List Char} (hcontent : Unclosed content)
    (hclosing : InAnyCase closeTag closing) (rest : List Char) :
    upToClose (content ++ (closing ++ rest)) = some (content, rest) := by
  -- at no character of the content does a closing tag begin, also none that ends behind it
  induction content with
  | nil => exact upToClose_of_closeTag (stripFolded?_append hclosing rest)
  | cons c content ih =>
    have hnone := stripFolded?_closeTag_append (List.cons_ne_nil c content) hcontent hclosing rest
    rw [List.cons_append] at hnone ⊢
    rw [upToClose_cons hnone, ih (unclosed_cons_iff.mp hcontent).2]
    rfl

theorem exists_closing_of_upToClose {cs content rest : List Char}
    (h : upToClose cs = some (content, rest)) :
    Unclosed content ∧
      ∃ closing, InAnyCase closeTag closing ∧ cs = content ++ (closing ++ rest) := by
  obtain ⟨-, -, -, hnone, -⟩ := exists_append_of_upToClose h
  refine ⟨upToClose_eq_none_iff.mp hnone, ?_⟩
  clear hnone
  induction cs generalizing content with
  | nil => cases h
  | cons c cs ih =>
    cases hclose : stripFolded? closeTag (c :: cs) with
    | some left =>
      rw [upToClose_of_closeTag hclose] at h
      cases h
      exact stripFolded?_eq_some_iff.mp hclose
    | none =>
      rw [upToClose_cons hclose] at h
      obtain ⟨r, hr, hcr⟩ := Option.map_eq_some_iff.mp h
      cases hcr
      obtain ⟨closing, hclosing, hcs⟩ := ih hr
      exact ⟨closing, hclosing, by rw [hcs, List.cons_append]⟩

/-! ## Section 3: Elements -/

/-- A script element as it is written. -/
structure Element where
  /-- The beginning of its opening tag, up to the attributes. -/
  word : List Char
  /-- What stands between the word and the angle bracket that ends the tag. -/
  attributes : List Char
  content : List Char
  /-- Its closing tag. -/
  closing : List Char

namespace Element

def opening (e : Element) : List Char := e.word ++ (e.attributes ++ ['>'])

def text (e : Element) : List Char := e.opening ++ (e.content ++ e.closing)

/-- The element is whole: its tag ends at the first angle bracket and its content at the first
    closing tag. -/
structure IsWhole (e : Element) : Prop where
  word : InAnyCase openTag e.word
  /-- The tag is `script` and not another name that begins with it. -/
  edge : ∀ c, e.attributes.head? = some c → isWord c = false
  attributes : '>' ∉ e.attributes
  content : Unclosed e.content
  closing : InAnyCase closeTag e.closing

end Element

/-- What is read behind an opening tag. -/
theorem blockAt_opening {word attributes : List Char} (hword : InAnyCase openTag word)
    (hedge : ∀ c, attributes.head? = some c → isWord c = false) (hattributes : '>' ∉ attributes)
    (body : List Char) :
    blockAt (word ++ (attributes ++ '>' :: body)) =
      (upToClose body).map fun r => ⟨attributes, body, r.1, r.2⟩ := by
  have hpass : ∀ c ∈ attributes, (c != '>') = true := by
    intro c hc
    exact bne_iff_ne.mpr fun heq => hattributes (heq ▸ hc)
  have hhead : ¬ (attributes ++ '>' :: body).head?.any isWord = true := by
    cases attributes with
    | nil => exact Bool.false_ne_true
    | cons c cs =>
      rw [List.cons_append, List.head?_cons, Option.any_some, hedge c rfl]
      exact Bool.false_ne_true
  rw [blockAt_of_openTag (stripFolded?_append hword _), if_neg hhead,
    List.dropWhile_append_of_pos hpass, List.takeWhile_append_of_pos hpass]
  simp

theorem Element.IsWhole.blockAt_text {e : Element} (h : e.IsWhole) (rest : List Char) :
    blockAt (e.text ++ rest) =
      some ⟨e.attributes, e.content ++ (e.closing ++ rest), e.content, rest⟩ := by
  have htext : e.text ++ rest =
      e.word ++ (e.attributes ++ '>' :: (e.content ++ (e.closing ++ rest))) := by
    simp [Element.text, Element.opening]
  rw [htext, blockAt_opening h.word h.edge h.attributes, upToClose_closing h.content h.closing]
  rfl

/-- A block is read where a whole element begins. -/
theorem exists_element_of_blockAt {cs : List Char} {x : Extent} (h : blockAt cs = some x) :
    ∃ e : Element, e.IsWhole ∧ cs = e.text ++ x.rest ∧
      x = ⟨e.attributes, e.content ++ (e.closing ++ x.rest), e.content, x.rest⟩ := by
  unfold blockAt at h
  split at h
  · next rest hopen =>
    obtain ⟨word, hword, rfl⟩ := stripFolded?_eq_some_iff.mp hopen
    split at h
    · cases h
    · next hedge =>
      split at h
      · next g body hbody =>
        obtain ⟨⟨content, after⟩, hclose, rfl⟩ := Option.map_eq_some_iff.mp h
        obtain ⟨hcontent, closing, hclosing, rfl⟩ := exists_closing_of_upToClose hclose
        have hrest := List.takeWhile_append_dropWhile (p := (· != '>')) (l := rest)
        have hpass : ∀ c ∈ rest.takeWhile (· != '>'), (c != '>') = true := fun c hc =>
          List.all_eq_true.mp List.all_takeWhile c hc
        obtain rfl : g = '>' := by
          have hhead := List.head?_dropWhile_not (· != '>') rest
          rw [hbody] at hhead
          simpa using hhead
        rw [hbody] at hrest
        generalize rest.takeWhile (· != '>') = attributes at hrest hpass ⊢
        refine ⟨⟨word, attributes, content, closing⟩, ⟨hword, ?_, ?_, hcontent, hclosing⟩, ?_, rfl⟩
        · intro c hc
          rw [← hrest, List.head?_append, show attributes.head? = some c from hc] at hedge
          simpa using hedge
        · intro hmem
          exact absurd (hpass '>' hmem) (by decide)
        · rw [← hrest]
          simp [Element.text, Element.opening]
      · cases h
  · cases h

/-- A whole element begins the text. -/
def Begins (cs : List Char) : Prop := ∃ e : Element, e.IsWhole ∧ e.text <+: cs

theorem blockAt_eq_none_iff {cs : List Char} : blockAt cs = none ↔ ¬ Begins cs := by
  constructor
  · rintro h ⟨e, he, rest, rfl⟩
    rw [he.blockAt_text] at h
    cases h
  · intro h
    rw [Option.eq_none_iff_forall_ne_some]
    intro x hx
    obtain ⟨e, he, hcs, -⟩ := exists_element_of_blockAt hx
    exact h ⟨e, he, hcs ▸ List.prefix_append e.text x.rest⟩

/-! ## Section 4: All elements of a text -/

/-- An element and the byte offset at which it starts. -/
structure Placed where
  start : Nat
  element : Element

namespace Placed

/-- The byte offset at which the element ends. -/
def stop (p : Placed) : Nat := p.start + byteLength p.element.text

/-- The block that is looked at: the content of the element. -/
def block (p : Placed) : Block :=
  ⟨String.ofList p.element.content, p.start + byteLength p.element.opening,
    langOf p.element.attributes⟩

end Placed

/-- These are the elements of the text, read from the left; the text starts at the offset. -/
inductive ElementsFrom : Nat → List Char → List Placed → Prop where
  | nil (pos : Nat) : ElementsFrom pos [] []
  | skip {pos : Nat} {c : Char} {cs : List Char} {ps : List Placed} (h : ¬ Begins (c :: cs))
      (hrest : ElementsFrom (pos + c.utf8Size) cs ps) : ElementsFrom pos (c :: cs) ps
  | take {pos : Nat} {e : Element} {rest : List Char} {ps : List Placed} (h : e.IsWhole)
      (hrest : ElementsFrom (pos + byteLength e.text) rest ps) :
      ElementsFrom pos (e.text ++ rest) (⟨pos, e⟩ :: ps)

/-- **The blocks are the elements of the text.** -/
theorem exists_elementsFrom {fuel : Nat} {cs : List Char} (hfuel : cs.length ≤ fuel) (pos : Nat) :
    ∃ ps : List Placed, ElementsFrom pos cs ps ∧ blocksFrom fuel pos cs = ps.map Placed.block := by
  induction fuel generalizing pos cs with
  | zero =>
    obtain rfl := List.length_eq_zero_iff.mp (Nat.le_zero.mp hfuel)
    exact ⟨[], .nil pos, rfl⟩
  | succ fuel ih =>
    cases cs with
    | nil => exact ⟨[], .nil pos, rfl⟩
    | cons c cs =>
      rw [blocksFrom]
      cases hblock : blockAt (c :: cs) with
      | none =>
        obtain ⟨ps, hplaced, hblocks⟩ := ih (Nat.le_of_succ_le_succ hfuel) (pos + c.utf8Size)
        exact ⟨ps, .skip (blockAt_eq_none_iff.mp hblock) hplaced, hblocks⟩
      | some x =>
        obtain ⟨e, he, hcs, hx⟩ := exists_element_of_blockAt hblock
        -- both offsets are measured from the end of the text
        have hbody : byteLength (c :: cs) - byteLength x.body = byteLength e.opening := by
          have hopening : c :: cs = e.opening ++ x.body := by
            rw [hcs, hx]
            simp [Element.text]
          rw [hopening, byteLength_append, Nat.add_sub_cancel_right]
        have hrest : byteLength (c :: cs) - byteLength x.rest = byteLength e.text := by
          rw [hcs, byteLength_append, Nat.add_sub_cancel_right]
        have hlength : x.rest.length ≤ fuel := by
          have hpos : 0 < e.text.length := by
            rw [Element.text, Element.opening]
            simp only [List.length_append, List.length_cons]
            omega
          have htotal := congrArg List.length hcs
          rw [List.length_append] at htotal
          omega
        obtain ⟨ps, hplaced, hblocks⟩ := ih hlength (pos + byteLength e.text)
        refine ⟨⟨pos, e⟩ :: ps, hcs ▸ .take he hplaced, ?_⟩
        simp only [hbody, hrest, hblocks]
        rw [hx]
        rfl

namespace ElementsFrom

variable {pos : Nat} {cs : List Char} {ps : List Placed}

/-- Every element is whole and stands at its offset. -/
theorem standsAt (h : ElementsFrom pos cs ps) {p : Placed} (hp : p ∈ ps) :
    p.element.IsWhole ∧
      ∃ before after, cs = before ++ (p.element.text ++ after) ∧
        p.start = pos + byteLength before := by
  induction h with
  | nil => cases hp
  | @skip pos c cs ps _ _ ih =>
    obtain ⟨hwhole, before, after, rfl, hstart⟩ := ih hp
    refine ⟨hwhole, c :: before, after, rfl, ?_⟩
    rw [hstart, byteLength, Nat.add_assoc]
  | @take pos e rest ps he _ ih =>
    rcases List.mem_cons.mp hp with rfl | hp
    · exact ⟨he, [], rest, rfl, rfl⟩
    · obtain ⟨hwhole, before, after, rfl, hstart⟩ := ih hp
      refine ⟨hwhole, e.text ++ before, after, by rw [List.append_assoc], ?_⟩
      rw [hstart, byteLength_append, Nat.add_assoc]

/-- Each element ends before the next one starts. -/
theorem pairwise (h : ElementsFrom pos cs ps) : ps.Pairwise fun p q => p.stop ≤ q.start := by
  induction h with
  | nil => exact .nil
  | skip _ _ ih => exact ih
  | take _ hrest ih =>
    refine .cons (fun q hq => ?_) ih
    obtain ⟨-, before, -, -, hstart⟩ := hrest.standsAt hq
    rw [hstart]
    exact Nat.le_add_right _ _

/-- There are elements when a whole element begins somewhere. -/
theorem eq_nil_iff (h : ElementsFrom pos cs ps) :
    ps = [] ↔ ∀ rest, rest <:+ cs → ¬ Begins rest := by
  constructor
  · rintro rfl
    generalize hps : ([] : List Placed) = ps at h
    induction h with
    | nil pos =>
      rintro rest hrest ⟨e, -, he⟩
      rw [List.suffix_nil.mp hrest, List.prefix_nil] at he
      exact absurd he (by simp [Element.text, Element.opening])
    | skip hnone _ ih =>
      intro rest hrest
      rcases List.suffix_cons_iff.mp hrest with rfl | hrest
      · exact hnone
      · exact ih hps rest hrest
    | take _ _ _ => cases hps
  · intro hnone
    cases ps with
    | nil => rfl
    | cons p ps =>
      obtain ⟨hwhole, before, after, rfl, -⟩ := h.standsAt List.mem_cons_self
      exact absurd ⟨p.element, hwhole, List.prefix_append p.element.text after⟩
        (hnone _ (List.suffix_append before _))

end ElementsFrom

/-- The content of an element stands in the text, and its closing tag behind it. -/
theorem Placed.content_standsAt {text before after : List Char} {p : Placed}
    (htext : text = before ++ (p.element.text ++ after)) (hstart : p.start = byteLength before) :
    StandsAt p.element.content p.block.offset text ∧
      StandsAt p.element.closing (p.block.offset + byteLength p.element.content) text := by
  have hopening : byteLength (before ++ p.element.opening) = p.block.offset := by
    rw [byteLength_append, ← hstart]
    rfl
  constructor
  · refine ⟨before ++ p.element.opening, p.element.closing ++ after, ?_, hopening⟩
    simp [htext, Element.text]
  · refine ⟨before ++ p.element.opening ++ p.element.content, after, ?_, ?_⟩
    · simp [htext, Element.text]
    · rw [byteLength_append, hopening]

/-- **The script blocks of a file.** They are the contents of its elements, each of which ends
    before the next one starts. Every content is the slice of the file at the block's offset,
    has no closing tag in any letter case inside and one directly behind it. The block that is
    looked at is the first one of a single-file component that has one, and otherwise the whole
    text. -/
theorem blocks_spec (code : String) :
    (∃ ps : List Placed, ElementsFrom 0 code.toList ps ∧ blocks code = ps.map Placed.block ∧
      ps.Pairwise (fun p q => p.stop ≤ q.start)) ∧
    (∀ b ∈ blocks code,
      IsRange code.toList b.offset (b.offset + byteLength b.content.toList) ∧
      slice code.toList b.offset (b.offset + byteLength b.content.toList) = b.content.toList ∧
      Unclosed b.content.toList ∧
      ∃ tag, InAnyCase closeTag tag ∧
        StandsAt tag (b.offset + byteLength b.content.toList) code.toList) ∧
    (blocks code = [] ↔ ∀ rest, rest <:+ code.toList → ¬ Begins rest) ∧
    (∀ id : String, locate code id =
      if isVue id = true then (blocks code).head?.getD ⟨code, 0, none⟩ else ⟨code, 0, none⟩) := by
  obtain ⟨ps, hplaced, hblocks⟩ := exists_elementsFrom (Nat.le_refl code.toList.length) 0
  have hmap : blocks code = ps.map Placed.block := hblocks
  refine ⟨⟨ps, hplaced, hmap, hplaced.pairwise⟩, fun b hb => ?_, ?_, fun id => ?_⟩
  · rw [hmap] at hb
    obtain ⟨p, hp, rfl⟩ := List.mem_map.mp hb
    obtain ⟨hwhole, before, after, htext, hstart⟩ := hplaced.standsAt hp
    rw [Nat.zero_add] at hstart
    obtain ⟨hcontent, hclosing⟩ := Placed.content_standsAt htext hstart
    have hchars : p.block.content.toList = p.element.content := String.toList_ofList
    rw [hchars]
    exact ⟨hcontent.isRange, hcontent.slice_eq, hwhole.content, _, hwhole.closing,
      hclosing⟩
  · rw [hmap, List.map_eq_nil_iff]
    exact hplaced.eq_nil_iff
  · rw [locate_eq]
    by_cases hvue : isVue id = true
    · rw [if_pos hvue, if_pos hvue]
    · rw [if_neg hvue, if_neg hvue, Option.getD_none]

end BuildMacros.Script
