import BuildMacros.Proofs.Script.Attributes

/-! # The opening tag of the first script

    `FirstScript` is a file taken apart at its first script tag: what stands in front of it, the
    tag with its attributes, its content, the closing tag and what follows. The block that is
    looked at in a single-file component begins behind that tag unless a quoted value holds an
    angle bracket, for the tag is taken to end at the first one (`locate_first`).

    Its language is read from the first attribute with an answer (`Attribute.ReadsLang`). That is
    the attribute `lang` when no other one stands in front of it whose name ends in the word
    behind a word edge, such as `data-lang`, or whose quotes mention it with a sign of equality.
    Nor is it always the first script tag that is read: an element such as `script-view` in front
    of it is taken for one (`tags_misread`).
-/

namespace BuildMacros.Script

open BuildMacros.Text

/-! ## Section 1: Opening tags -/

/-- An opening tag. -/
structure OpeningTag where
  word : List Char
  attributes : List Attribute
  /-- The blanks in front of its angle bracket. -/
  ending : List Char

namespace OpeningTag

def inner (t : OpeningTag) : List Char := written t.attributes ++ t.ending

def text (t : OpeningTag) : List Char := t.word ++ (t.inner ++ ['>'])

structure IsWellFormed (t : OpeningTag) : Prop where
  word : InAnyCase openTag t.word
  attributes : ∀ a ∈ t.attributes, a.IsWellFormed
  ending : ∀ c ∈ t.ending, isAsciiBlank c = true

/-- The value of an attribute holds an angle bracket. -/
def HoldsBracket (t : OpeningTag) : Prop :=
  ∃ a ∈ t.attributes, ∃ v, a.value = some v ∧ '>' ∈ v.content

end OpeningTag

theorem not_mem_of_isAsciiBlank {cs : List Char} (h : ∀ c ∈ cs, isAsciiBlank c = true) : '>' ∉ cs :=
  fun hmem => absurd (h '>' hmem) (by decide)

theorem Value.IsWellFormed.mem_text_iff {v : Value} (hv : v.IsWellFormed) :
    '>' ∈ v.text ↔ '>' ∈ v.content := by
  have hquote : '>' ∉ v.quote.toList := by
    cases hquote : v.quote with
    | none => simp
    | some q =>
      obtain ⟨hq, -⟩ := hv.quoted q hquote
      rcases hq with rfl | rfl <;> decide
  simp [Value.text, Value.quoted, not_mem_of_isAsciiBlank hv.left, not_mem_of_isAsciiBlank hv.right,
    hquote]

theorem Attribute.IsWellFormed.mem_text_iff {a : Attribute} (ha : a.IsWellFormed) :
    '>' ∈ a.text ↔ ∃ v, a.value = some v ∧ '>' ∈ v.content := by
  have hname : '>' ∉ a.name := fun hmem => (ha.name '>' hmem).2 (by simp)
  rw [Attribute.text, List.mem_append, List.mem_append, Attribute.valueText]
  cases hvalue : a.value with
  | none => simp [not_mem_of_isAsciiBlank ha.gap, hname]
  | some v => simp [not_mem_of_isAsciiBlank ha.gap, hname, (ha.value v hvalue).mem_text_iff]

/-- The first angle bracket ends the tag unless a value holds one. -/
theorem OpeningTag.IsWellFormed.mem_inner_iff {t : OpeningTag} (ht : t.IsWellFormed) :
    '>' ∈ t.inner ↔ t.HoldsBracket := by
  simp only [OpeningTag.inner, OpeningTag.HoldsBracket, List.mem_append, written, List.mem_flatMap,
    not_mem_of_isAsciiBlank ht.ending, or_false]
  exact exists_congr fun a => and_congr_right fun ha => (ht.attributes a ha).mem_text_iff

/-- The word of the tag stands at a word edge. -/
theorem OpeningTag.IsWellFormed.edge {t : OpeningTag} (ht : t.IsWellFormed) {c : Char}
    (hc : t.inner.head? = some c) : isWord c = false := by
  rw [OpeningTag.inner] at hc
  cases hattributes : t.attributes with
  | nil =>
    rw [hattributes] at hc
    exact isWord_of_isAsciiBlank (ht.ending c (List.mem_of_mem_head? hc))
  | cons a as =>
    have ha := ht.attributes a (by simp [hattributes])
    obtain ⟨g, gap, hgap⟩ := List.exists_cons_of_ne_nil ha.gap_ne_nil
    rw [hattributes, written_cons, Attribute.text, hgap] at hc
    obtain rfl : g = c := Option.some.inj hc
    exact isWord_of_isAsciiBlank (ha.gap g (by simp [hgap]))

/-! ## Section 2: What stands in front -/

/-- No script tag begins in the text: what looks like one is the beginning of a longer word. -/
def Unopened (cs : List Char) : Prop :=
  ∀ front word back, cs = front ++ (word ++ back) → InAnyCase openTag word →
    ∃ c, back.head? = some c ∧ isWord c = true

theorem Unopened.tail {c : Char} {cs : List Char} (h : Unopened (c :: cs)) : Unopened cs :=
  fun front word back hcs hword => h (c :: front) word back (by rw [hcs, List.cons_append]) hword

theorem Unopened.not_begins {c : Char} {cs : List Char} (h : Unopened (c :: cs))
    (more : List Char) :
    ¬ Begins (c :: cs ++ '<' :: more) := by
  rintro ⟨e, he, rest, hrest⟩
  have hsplit : c :: cs ++ '<' :: more =
      e.word ++ (e.attributes ++ '>' :: (e.content ++ (e.closing ++ rest))) := by
    rw [← hrest]
    simp [Element.text, Element.opening]
  obtain ⟨back, hback⟩ :=
    isTagStart_openTag.prefix_of_append he.word (List.cons_ne_nil c cs) hsplit
  obtain ⟨d, hd, hword⟩ := h [] e.word back hback.symm he.word
  obtain ⟨back, rfl⟩ : ∃ more, back = d :: more := List.head?_eq_some_iff.mp hd
  rw [← hback, List.append_assoc, List.append_cancel_left_eq, List.cons_append] at hsplit
  -- the character behind the word would be the first one of the attributes, or end the tag
  cases hattributes : e.attributes with
  | nil =>
    rw [hattributes] at hsplit
    obtain rfl : d = '>' := (List.cons.inj hsplit).1
    cases hword
  | cons g attributes =>
    rw [hattributes] at hsplit
    obtain rfl : d = g := (List.cons.inj hsplit).1
    rw [he.edge d (by rw [hattributes]; rfl)] at hword
    cases hword

theorem firstBlockFrom_unopened {cs : List Char} (h : Unopened cs) (pos : Nat)
    (more : List Char) :
    firstBlockFrom pos (cs ++ '<' :: more) =
      firstBlockFrom (pos + byteLength cs) ('<' :: more) := by
  induction cs generalizing pos with
  | nil => rfl
  | cons c cs ih =>
    have hnone : blockAt (c :: (cs ++ '<' :: more)) = none :=
      blockAt_eq_none_iff.mpr (h.not_begins more)
    rw [List.cons_append, firstBlockFrom, hnone]
    show firstBlockFrom (pos + c.utf8Size) (cs ++ '<' :: more) = _
    rw [ih h.tail, byteLength, Nat.add_assoc]

/-- The block that is read where the first script tag stands is the one that is looked at. -/
theorem locate_of_blockAt {code id : String} {before more : List Char} {x : Extent}
    (hvue : isVue id = true) (hcode : code.toList = before ++ '<' :: more)
    (hbefore : Unopened before) (hx : blockAt ('<' :: more) = some x) :
    locate code id = ⟨String.ofList x.content,
      byteLength before + (byteLength ('<' :: more) - byteLength x.body), langOf x.attributes⟩ := by
  have hfirst : firstBlock? code = some ⟨String.ofList x.content,
      byteLength before + (byteLength ('<' :: more) - byteLength x.body), langOf x.attributes⟩ := by
    rw [firstBlock?, hcode, firstBlockFrom_unopened hbefore, firstBlockFrom, hx, Nat.zero_add]
  rw [locate, if_pos hvue, hfirst]

/-! ## Section 3: The first script of a file -/

/-- A file taken apart at its first script tag. -/
structure FirstScript (code : String) where
  before : List Char
  tag : OpeningTag
  content : List Char
  closing : List Char
  after : List Char
  code_eq : code.toList = before ++ (tag.text ++ (content ++ (closing ++ after)))
  unopened : Unopened before
  tag_isWellFormed : tag.IsWellFormed
  unclosed : Unclosed content
  closes : InAnyCase closeTag closing

namespace FirstScript

variable {code : String} (s : FirstScript code)

/-- The byte offset right behind the angle bracket that ends the opening tag. -/
def start : Nat := byteLength (s.before ++ s.tag.text)

theorem exists_cons_text (rest : List Char) : ∃ more, s.tag.text ++ rest = '<' :: more := by
  obtain ⟨name, hname, -⟩ := isTagStart_openTag.exists_cons s.tag_isWellFormed.word
  exact ⟨name ++ (s.tag.inner ++ ['>'] ++ rest), by rw [OpeningTag.text, hname]; simp⟩

/-- Where no value holds an angle bracket the block is what stands between the tags. -/
theorem locate_eq {id : String} (hvue : isVue id = true) (h : ¬ s.tag.HoldsBracket) :
    locate code id = ⟨String.ofList s.content, s.start, langOf s.tag.inner⟩ := by
  -- the tag, the content and the closing tag are a whole element
  have hwhole : (Element.mk s.tag.word s.tag.inner s.content s.closing).IsWhole :=
    ⟨s.tag_isWellFormed.word, fun c hc => s.tag_isWellFormed.edge hc,
      fun hmem => h (s.tag_isWellFormed.mem_inner_iff.mp hmem), s.unclosed, s.closes⟩
  have hblock := hwhole.blockAt_text s.after
  rw [Element.text, Element.opening] at hblock
  obtain ⟨more, hmore⟩ := s.exists_cons_text (s.content ++ (s.closing ++ s.after))
  have htext : s.tag.word ++ (s.tag.inner ++ ['>']) ++ (s.content ++ s.closing) ++ s.after =
      '<' :: more := by
    rw [← hmore, OpeningTag.text]
    simp
  rw [htext] at hblock
  rw [locate_of_blockAt hvue (by rw [s.code_eq, hmore]) s.unopened hblock, ← hmore,
    byteLength_append, Nat.add_sub_cancel_right, start, byteLength_append]

/-- Where a value holds an angle bracket the block begins inside the tag. -/
theorem locate_offset_lt {id : String} (hvue : isVue id = true) (h : s.tag.HoldsBracket) :
    (locate code id).offset < s.start := by
  -- the tag is taken to end at the first bracket of its attributes
  obtain ⟨front, back, hinner, hfront⟩ :=
    List.eq_append_cons_of_mem (s.tag_isWellFormed.mem_inner_iff.mpr h)
  have hedge : ∀ c, front.head? = some c → isWord c = false := by
    intro c hc
    exact s.tag_isWellFormed.edge (by rw [hinner, List.head?_append, hc, Option.some_or])
  -- the content is read up to some closing tag, for there is one
  obtain ⟨r, hr⟩ :
      ∃ r, upToClose (back ++ '>' :: (s.content ++ (s.closing ++ s.after))) = some r := by
    rw [← Option.ne_none_iff_exists', ne_eq, upToClose_eq_none_iff]
    intro hunclosed
    exact hunclosed s.closing s.closes ⟨back ++ '>' :: s.content, s.after, by simp⟩
  have hblock := blockAt_opening s.tag_isWellFormed.word hedge hfront
    (back ++ '>' :: (s.content ++ (s.closing ++ s.after)))
  obtain ⟨more, hmore⟩ := s.exists_cons_text (s.content ++ (s.closing ++ s.after))
  have htext : s.tag.word ++
      (front ++ '>' :: (back ++ '>' :: (s.content ++ (s.closing ++ s.after)))) = '<' :: more := by
    rw [← hmore, OpeningTag.text, hinner]
    simp
  rw [hr, Option.map_some, htext] at hblock
  rw [locate_of_blockAt hvue (by rw [s.code_eq, hmore]) s.unopened hblock, start, ← hmore,
    OpeningTag.text, hinner]
  simp only [byteLength_append, byteLength]
  have hbracket : '>'.utf8Size = 1 := by decide
  omega

end FirstScript

/-- **The block behind the first script tag.** It begins right behind the tag exactly when no
    value of an attribute holds an angle bracket. Then it is the text between the tags; no language
    is named when no attribute has an answer, and otherwise the first attribute with an answer gives
    it, in small letters: its value when its name ends in `lang`, as that of the attribute `lang`
    does, and otherwise what stands in the tag behind the first mention of `lang` in its quotes,
    read as a value. -/
theorem locate_first {code id : String} (s : FirstScript code) (hvue : isVue id = true) :
    ((locate code id).offset = s.start ↔ ¬ s.tag.HoldsBracket) ∧
    (¬ s.tag.HoldsBracket →
      (locate code id).content.toList = s.content ∧
      ((locate code id).lang = none ↔ ∀ a ∈ s.tag.attributes, ¬ a.ReadsLang) ∧
      ∀ first a more v, s.tag.attributes = first ++ a :: more → (∀ b ∈ first, ¬ b.ReadsLang) →
        a.value = some v →
        (EndsInLang none a.name →
          (locate code id).lang = some (String.ofList (v.content.map Char.toLower))) ∧
        (a.ReadsLang → ¬ EndsInLang none a.name →
          ∃ q front tail value, v.quote = some q ∧ MentionsFirst none v.content front tail ∧
            attributeValue (tail ++ q :: (written more ++ s.tag.ending)) = some value ∧
            (locate code id).lang = some (String.ofList (value.map Char.toLower)))) := by
  have htag := s.tag_isWellFormed
  constructor
  · constructor
    · intro hstart hholds
      exact absurd hstart (Nat.ne_of_lt (s.locate_offset_lt hvue hholds))
    · intro h
      rw [s.locate_eq hvue h]
  · intro h
    rw [s.locate_eq hvue h]
    refine ⟨String.toList_ofList, ?_, ?_⟩
    · exact langOf_eq_none_iff htag.attributes (fun a ha v hv hmem => h ⟨a, ha, v, hv, hmem⟩)
        htag.ending
    · intro first a more v hattributes hfirst hvalue
      have hall : ∀ b ∈ first ++ a :: more, b.IsWellFormed := hattributes ▸ htag.attributes
      have hlang : langOf s.tag.inner = langOf (written (first ++ a :: more) ++ s.tag.ending) := by
        rw [OpeningTag.inner, hattributes]
      constructor
      · intro hends
        exact hlang.trans (langOf_eq_some hall htag.ending hfirst hvalue hends)
      · intro hreads hends
        have ha : a ∈ s.tag.attributes := by simp [hattributes]
        have hbracket : '>' ∉ v.content := fun hmem => h ⟨a, ha, v, hvalue, hmem⟩
        obtain ⟨q, front, tail, hquote, hmention⟩ := hreads.exists_first hvalue hends
        have hq := (((htag.attributes a ha).value v hvalue).quoted q hquote).1
        obtain ⟨value, hread⟩ := Option.ne_none_iff_exists'.mp
          (hmention.1.attributeValue_ne_none hq hbracket (written more ++ s.tag.ending))
        refine ⟨q, front, tail, value, hquote, hmention, hread, hlang.trans ?_⟩
        rw [langOf_eq_mentioned hall htag.ending hfirst hvalue hbracket hends hquote hmention,
          hread, Option.map_some]

/-- An attribute in double quotes. -/
def quotedAttribute (name value : String) : Attribute :=
  ⟨[' '], name.toList, some ⟨[], [], some '"', value.toList⟩⟩

theorem isWellFormed_quotedAttribute {name value : String} (hne : name.toList ≠ [])
    (hname : ∀ c ∈ name.toList, isBlank c = false ∧ c ∉ "\"'<>/=".toList)
    (hvalue : '"' ∉ value.toList) : (quotedAttribute name value).IsWellFormed := by
  refine ⟨List.cons_ne_nil _ _, fun c hc => ?_, hne, hname, ?_⟩
  · obtain rfl := List.mem_singleton.mp hc
    rfl
  · rintro v ⟨⟩
    refine ⟨by simp, by simp, ?_, ?_⟩
    · rintro q ⟨⟩
      exact ⟨.inl rfl, hvalue⟩
    · rintro ⟨⟩

/-- A file that is a script and nothing else. -/
def scriptOf (as : List Attribute) : String :=
  String.ofList ((OpeningTag.mk openTag as []).text ++ ("let a".toList ++ closeTag))

def FirstScript.ofAttributes (as : List Attribute) (has : ∀ a ∈ as, a.IsWellFormed) :
    FirstScript (scriptOf as) where
  before := []
  tag := ⟨openTag, as, []⟩
  content := "let a".toList
  closing := closeTag
  after := []
  code_eq := by simp [scriptOf]
  unopened := by
    intro front word back hnil hword
    obtain ⟨more, rfl, -⟩ := isTagStart_openTag.exists_cons hword
    simp at hnil
  tag_isWellFormed := ⟨(by decide : InAnyCase openTag openTag), has, by simp⟩
  unclosed := upToClose_eq_none_iff.mp (by decide)
  closes := by decide +kernel

theorem locate_first_sample :
    (locate (scriptOf [quotedAttribute "lang" "TS"]) "/app/a.vue").content = "let a" ∧
      (locate (scriptOf [quotedAttribute "lang" "TS"]) "/app/a.vue").lang = some "ts" := by
  have has : ∀ a ∈ [quotedAttribute "lang" "TS"], a.IsWellFormed := by
    simpa using isWellFormed_quotedAttribute (by decide) (List.all_iff_forall_prop.mp (by decide))
      (by decide)
  let s := FirstScript.ofAttributes _ has
  have hbracket : ¬ s.tag.HoldsBracket := by
    rw [← s.tag_isWellFormed.mem_inner_iff]
    show '>' ∉ (OpeningTag.mk openTag [quotedAttribute "lang" "TS"] []).inner
    decide
  have hends : EndsInLang none "lang".toList := ⟨[], "lang".toList, rfl, by decide, rfl⟩
  have hvue : isVue "/app/a.vue" = true := by decide
  obtain ⟨hcontent, -, hlang⟩ := (locate_first s hvue).2 hbracket
  exact ⟨String.toList_inj.mp hcontent, (hlang [] _ [] _ rfl (by simp) rfl).1 hends⟩

/-- An element whose name begins like that of a script. -/
def scriptView : String := "<script-view></script-view>"

/-- Tags that are misread: the first one is taken to end inside of its quotes. The next two are
    given the language that `data-lang` or the quotes of another attribute name, and the last one is
    hidden by an element in front of it that is taken for a script. -/
theorem tags_misread :
    (∃ s : FirstScript (scriptOf [quotedAttribute "generic" "T extends Array<string>"]),
      (locate (scriptOf [quotedAttribute "generic" "T extends Array<string>"])
        "/app/a.vue").offset < s.start) ∧
    (∃ s : FirstScript (scriptOf [quotedAttribute "data-lang" "js", quotedAttribute "lang" "ts"]),
      quotedAttribute "lang" "ts" ∈ s.tag.attributes ∧
      (locate (scriptOf [quotedAttribute "data-lang" "js", quotedAttribute "lang" "ts"])
        "/app/a.vue").lang = some "js") ∧
    (∃ s : FirstScript (scriptOf [quotedAttribute "title" " lang='js'",
        quotedAttribute "lang" "ts"]),
      quotedAttribute "lang" "ts" ∈ s.tag.attributes ∧
      (locate (scriptOf [quotedAttribute "title" " lang='js'", quotedAttribute "lang" "ts"])
        "/app/a.vue").lang = some "js") ∧
    (∃ s : FirstScript (scriptOf [quotedAttribute "lang" "ts"]),
      (locate (scriptView ++ scriptOf [quotedAttribute "lang" "ts"]) "/app/a.vue").offset <
        byteLength scriptView.toList + s.start ∧
      (locate (scriptView ++ scriptOf [quotedAttribute "lang" "ts"]) "/app/a.vue").lang =
        none) := by
  have hgeneric : ∀ a ∈ [quotedAttribute "generic" "T extends Array<string>"], a.IsWellFormed := by
    simpa using isWellFormed_quotedAttribute (by decide) (List.all_iff_forall_prop.mp (by decide))
      (by decide)
  have hlang : (quotedAttribute "lang" "ts").IsWellFormed :=
    isWellFormed_quotedAttribute (by decide) (List.all_iff_forall_prop.mp (by decide)) (by decide)
  have hdata : ∀ a ∈ [quotedAttribute "data-lang" "js", quotedAttribute "lang" "ts"],
      a.IsWellFormed := by
    intro a ha
    rcases List.mem_pair.mp ha with rfl | rfl
    · exact isWellFormed_quotedAttribute (by decide) (List.all_iff_forall_prop.mp (by decide))
        (by decide)
    · exact hlang
  have htitle : ∀ a ∈ [quotedAttribute "title" " lang='js'", quotedAttribute "lang" "ts"],
      a.IsWellFormed := by
    intro a ha
    rcases List.mem_pair.mp ha with rfl | rfl
    · exact isWellFormed_quotedAttribute (by decide) (List.all_iff_forall_prop.mp (by decide))
        (by decide)
    · exact hlang
  have hview : ∀ a ∈ [quotedAttribute "lang" "ts"], a.IsWellFormed :=
    List.forall_mem_singleton.mpr hlang
  refine ⟨⟨FirstScript.ofAttributes _ hgeneric, ?_⟩, ⟨FirstScript.ofAttributes _ hdata, ?_, ?_⟩,
    ⟨FirstScript.ofAttributes _ htitle, ?_, ?_⟩, ⟨FirstScript.ofAttributes _ hview, ?_, ?_⟩⟩
  · show _ < byteLength ([] ++ (OpeningTag.mk openTag _ []).text)
    decide
  · exact List.mem_cons_of_mem _ List.mem_cons_self
  · decide
  · exact List.mem_cons_of_mem _ List.mem_cons_self
  · decide
  · show _ < _ + byteLength ([] ++ (OpeningTag.mk openTag _ []).text)
    decide
  · decide

end BuildMacros.Script
