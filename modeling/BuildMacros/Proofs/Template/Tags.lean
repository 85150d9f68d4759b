import BuildMacros.Proofs.Text.Placement
import BuildMacros.Template.Elements

/-! # Where the names of tags stand

    The scanner reads a template once, from the left. So the name of each tag stands
    in the template at the offset it reports, and behind the names of all tags before
    it. Pairing hands every opening tag to one element and every closing tag to at
    most one, whose name it repeats. Hence the places of all names of all elements
    are apart from one another.
-/

namespace BuildMacros.Template

open BuildMacros.Text

/-! ## Section 1: Readers leave suffixes -/

theorem afterWord_suffix (word cs : List Char) : afterWord word cs <:+ cs := by
  induction cs with
  | nil => exact List.suffix_rfl
  | cons c cs ih =>
    rw [afterWord]
    split
    · next h => exact suffix_of_strip? h
    · exact ih.trans (List.suffix_cons c cs)

theorem attributeName_suffix (cs : List Char) : (attributeName cs).2 <:+ cs := by
  induction cs with
  | nil => exact List.suffix_rfl
  | cons c cs ih =>
    rw [attributeName]
    split
    · exact List.suffix_rfl
    · exact ih.trans (List.suffix_cons c cs)

theorem afterValue_suffix (cs : List Char) : afterValue cs <:+ cs := by
  cases cs with
  | nil => exact List.suffix_rfl
  | cons c cs =>
    rw [afterValue]
    split
    · exact (afterWord_suffix [c] cs).trans (List.suffix_cons c cs)
    · exact List.dropWhile_suffix _

theorem attributes_suffix (fuel : Nat) (cs : List Char) : (attributes fuel cs).2.2 <:+ cs := by
  induction fuel generalizing cs with
  | zero => exact List.suffix_rfl
  | succ fuel ih =>
    unfold attributes
    split
    · exact List.suffix_rfl
    · exact List.suffix_cons _ _
    · exact (List.suffix_cons _ _).trans (List.suffix_cons _ _)
    · next c rest _ _ =>
      split
      · exact (ih rest).trans (List.suffix_cons c rest)
      -- a name, perhaps a value, and the attributes behind it
      · have hname := attributeName_suffix (c :: rest)
        refine (ih _).trans ?_
        split
        · next value heq =>
          rw [heq] at hname
          exact (afterValue_suffix value).trans ((List.suffix_cons _ _).trans hname)
        · exact hname

/-! ## Section 2: Tags -/

/-- Name of a tag, and where it stands. -/
def Tag.place : Tag → String × Nat
  | .opening name start _ _ => (name, start)
  | .closing name start => (name, start)

/-- What stands in front of the name of a tag. -/
def Tag.mark : Tag → List Char
  | .opening _ _ _ _ => ['<']
  | .closing _ _ => ['<', '/']

theorem Tag.mark_pos (t : Tag) : 0 < byteLength t.mark := by
  cases t with
  | opening => exact Nat.one_pos
  | closing => exact Nat.two_pos

/-- What the scanner has read when it reports a tag: the name stands behind its mark, and what is
    read next comes after the name. Only closing tags may be without a name. -/
structure Tag.Read (t : Tag) (pos : Nat) (cs rest : List Char) : Prop where
  stands : ∃ n, t.place.2 = n + byteLength t.mark + pos ∧
    StandsAt (t.mark ++ t.place.1.toList) n cs ∧
    n + byteLength (t.mark ++ t.place.1.toList) ≤ byteLength cs - byteLength rest
  named : ∀ name start attrs isEmpty, t = .opening name start attrs isEmpty → name.toList ≠ []

/-- A name behind some lead, when reading goes on somewhere behind the name. -/
theorem standsAt_takeWhile (p : Char → Bool) (lead : List Char) {body rest : List Char}
    (hrest : rest <:+ body.dropWhile p) :
    StandsAt (lead ++ body.takeWhile p) 0 (lead ++ body) ∧
      0 + byteLength (lead ++ body.takeWhile p) ≤ byteLength (lead ++ body) - byteLength rest := by
  have hbody : body.takeWhile p ++ body.dropWhile p = body := List.takeWhile_append_dropWhile
  have hlen := byteLength_le_of_suffix hrest
  have hsum := byteLength_append (body.takeWhile p) (body.dropWhile p)
  rw [hbody] at hsum
  refine ⟨⟨[], body.dropWhile p, by rw [List.append_assoc, hbody, List.nil_append], rfl⟩, ?_⟩
  rw [byteLength_append, byteLength_append]
  omega

/-- What the scanner does at an angle bracket. -/
theorem tagAt_eq {pos : Nat} {cs rest : List Char} {tag : Option Tag}
    (h : tagAt pos cs = some (tag, rest)) :
    rest <:+ cs ∧ ∀ t, tag = some t → t.Read pos cs rest := by
  unfold tagAt at h
  split at h
  · cases h
    exact ⟨afterWord_suffix _ _, by rintro t ⟨⟩⟩
  · split at h
    · next body _ =>
      cases h
      have hrest := afterWord_suffix ['>'] (body.dropWhile isNameChar)
      have hread := standsAt_takeWhile isNameChar ['<', '/'] hrest
      refine ⟨(hrest.trans (List.dropWhile_suffix _)).trans ⟨['<', '/'], rfl⟩, ?_⟩
      rintro t ⟨⟩
      refine ⟨⟨0, Nat.add_comm pos 2, ?_⟩, by rintro _ _ _ _ ⟨⟩⟩
      rwa [Tag.place, Tag.mark, String.toList_ofList]
    · next c body _ _ =>
      split at h
      · next halpha =>
        have hrest := attributes_suffix (((c :: body).dropWhile isNameChar).length + 1)
          ((c :: body).dropWhile isNameChar)
        dsimp only at h
        generalize attributes (((c :: body).dropWhile isNameChar).length + 1)
          ((c :: body).dropWhile isNameChar) = found at h hrest
        cases h
        have hread := standsAt_takeWhile isNameChar ['<'] hrest
        refine ⟨(hrest.trans (List.dropWhile_suffix _)).trans (List.suffix_cons '<' _), ?_⟩
        rintro t ⟨⟩
        refine ⟨⟨0, Nat.add_comm pos 1, ?_⟩, ?_⟩
        · rwa [Tag.place, Tag.mark, String.toList_ofList]
        -- the letter behind the bracket begins the name
        · rintro name start attrs isEmpty ⟨⟩
          have hname : isNameChar c = true := by
            simp only [isNameChar, Char.isAlphanum, halpha, Bool.true_or]
          simp [hname]
      · cases h
    · cases h

/-- The name of one tag ends before the mark of the other starts. -/
def Tag.Before (t u : Tag) : Prop :=
  t.place.2 + byteLength t.place.1.toList + byteLength u.mark ≤ u.place.2

/-- What is read of a suffix is read of the text. -/
theorem Tag.Read.of_suffix {t : Tag} {pos : Nat} {cs rest : List Char} (hrest : rest <:+ cs)
    (h : t.Read (pos + (byteLength cs - byteLength rest)) rest []) : t.Read pos cs [] := by
  obtain ⟨⟨n, hplace, hstands, hread⟩, hnamed⟩ := h
  have hlen := byteLength_le_of_suffix hrest
  refine ⟨⟨n + (byteLength cs - byteLength rest), by omega,
    hstands.trans (StandsAt.of_suffix hrest), ?_⟩, hnamed⟩
  simp only [byteLength] at hread ⊢
  omega

/-- **Tags in order**: the name of each tag stands where the tag says, and its mark behind the names
    of the tags before it. -/
theorem tagsFrom_places (fuel pos : Nat) (cs : List Char) :
    (∀ t ∈ tagsFrom fuel pos cs, t.Read pos cs []) ∧
      (tagsFrom fuel pos cs).Pairwise Tag.Before := by
  induction fuel generalizing pos cs with
  | zero => simp [tagsFrom]
  | succ fuel ih =>
    cases cs with
    | nil => simp [tagsFrom]
    | cons c cs =>
      rw [tagsFrom]
      split
      · next tag rest htag =>
        obtain ⟨hrest, hhead⟩ := tagAt_eq htag
        obtain ⟨hread, hbefore⟩ := ih (pos + (byteLength (c :: cs) - byteLength rest)) rest
        cases tag with
        | none => exact ⟨fun t ht => (hread t ht).of_suffix hrest, hbefore⟩
        | some t =>
          have ht := hhead t rfl
          obtain ⟨⟨n, hplace, hstands, hend⟩, hnamed⟩ := ht
          refine ⟨?_, List.pairwise_cons.mpr ⟨fun u hu => ?_, hbefore⟩⟩
          · rintro u (_ | ⟨_, hu⟩)
            · refine ⟨⟨n, hplace, hstands, Nat.le_trans hend ?_⟩, hnamed⟩
              exact Nat.sub_le_sub_left (Nat.zero_le _) _
            · exact (hread u hu).of_suffix hrest
          -- the later tag is read from what is left behind the earlier one
          · obtain ⟨⟨n', hplace', -, -⟩, -⟩ := hread u hu
            rw [byteLength_append] at hend
            unfold Tag.Before
            omega
      · obtain ⟨hread, hbefore⟩ := ih (pos + c.utf8Size) cs
        refine ⟨fun t ht => Tag.Read.of_suffix (List.suffix_cons c cs) ?_, hbefore⟩
        simpa only [byteLength, Nat.add_sub_cancel] using hread t ht

/-! ## Section 3: Elements -/

/-- The places at which the name of an element stands. -/
def Element.places (e : Element) : List (String × Nat) :=
  (e.name, e.start) :: e.closing.toList.map fun start => (e.name, start)

/-- At every place of an element stands its own name. -/
theorem Element.fst_of_mem_places {e : Element} {x : String × Nat} (hx : x ∈ e.places) :
    x.1 = e.name := by
  rcases List.mem_cons.mp hx with rfl | hx
  · rfl
  · obtain ⟨start, -, rfl⟩ := List.mem_map.mp hx
    rfl

/-- What holds while tags are paired: elements have names, each of their places is one of a tag
    that was added, no place is used twice, and open elements lack their closing tag. -/
structure Paired (added : List Tag) (p : Pairing) : Prop where
  named : ∀ e ∈ p.elements, e.name.toList ≠ []
  places : ∀ x ∈ p.elements.flatMap Element.places, x ∈ added.map Tag.place
  nodup : (p.elements.flatMap Element.places).Nodup
  unclosed : ∀ i ∈ p.stack, ∃ e, p.elements[i]? = some e ∧ e.closing = none
  stacked : p.stack.Nodup

theorem Paired.nil : Paired [] ⟨[], []⟩ := by
  constructor <;> simp

/-- Closing an element adds one place. -/
theorem perm_flatMap_modify {es : List Element} {i : Nat} {e : Element} (he : es[i]? = some e)
    (hopen : e.closing = none) (start : Nat) :
    ((es.modify i fun e => { e with closing := some start }).flatMap Element.places).Perm
      ((e.name, start) :: es.flatMap Element.places) := by
  induction es generalizing i with
  | nil => simp at he
  | cons a es ih =>
    cases i with
    | zero =>
      cases he
      simp only [List.modify_zero_cons, List.flatMap_cons, Element.places, hopen,
        Option.toList_some, Option.toList_none, List.map_cons, List.map_nil, List.cons_append,
        List.nil_append]
      exact List.Perm.swap _ _ _
    | succ i =>
      rw [List.modify_succ_cons, List.flatMap_cons, List.flatMap_cons]
      exact ((ih he).append_left _).trans List.perm_middle

/-- An opening tag makes an element. -/
theorem Paired.opening {added : List Tag} {p : Pairing} (h : Paired added p) {name : String}
    {start : Nat} {attrs : List String} {isEmpty : Bool} (hname : name.toList ≠ [])
    (hfresh : (name, start) ∉ added.map Tag.place) :
    Paired (added ++ [.opening name start attrs isEmpty])
      (p.add (.opening name start attrs isEmpty)) := by
  have hlt : ∀ i ∈ p.stack, i < p.elements.length := by
    intro i hi
    obtain ⟨e, he, -⟩ := h.unclosed i hi
    exact (List.getElem?_eq_some_iff.mp he).1
  have hplaces : List.flatMap Element.places (p.elements ++ [⟨name, start, attrs, none⟩]) =
      p.elements.flatMap Element.places ++ [(name, start)] := by
    rw [List.flatMap_append]
    rfl
  refine ⟨?_, ?_, ?_, ?_, ?_⟩
  · intro e he
    rcases List.mem_append.mp he with he | he
    · exact h.named e he
    · rw [List.mem_singleton.mp he]
      exact hname
  · intro x hx
    rw [Pairing.add, hplaces, List.mem_append] at hx
    rw [List.map_append, List.mem_append]
    exact hx.imp (h.places x) id
  · rw [Pairing.add, hplaces, List.nodup_append]
    refine ⟨h.nodup, by simp, fun x hx y hy => ?_⟩
    rw [List.mem_singleton.mp hy]
    rintro rfl
    exact hfresh (h.places _ hx)
  · intro i hi
    have hold : ∀ j ∈ p.stack, ∃ e : Element,
        (p.elements ++ [⟨name, start, attrs, none⟩])[j]? = some e ∧ e.closing = none := by
      intro j hj
      rw [List.getElem?_append_left (hlt j hj)]
      exact h.unclosed j hj
    cases isEmpty with
    | true => exact hold i hi
    | false =>
      rcases List.mem_cons.mp hi with rfl | hi
      · refine ⟨⟨name, start, attrs, none⟩, ?_, rfl⟩
        exact List.getElem?_concat_length
      · exact hold i hi
  · cases isEmpty with
    | true => exact h.stacked
    | false =>
      refine List.nodup_cons.mpr ⟨fun hmem => ?_, h.stacked⟩
      exact Nat.lt_irrefl _ (hlt _ hmem)

/-- A closing tag closes at most one element, of its own name. -/
theorem Paired.closing {added : List Tag} {p : Pairing} (h : Paired added p) {name : String}
    {start : Nat} (hfresh : (name, start) ∉ added.map Tag.place) :
    Paired (added ++ [.closing name start]) (p.add (.closing name start)) := by
  have hadded : ∀ x ∈ added.map Tag.place,
      x ∈ (added ++ [Tag.closing name start]).map Tag.place := by
    intro x hx
    rw [List.map_append, List.mem_append]
    exact .inl hx
  have hhead := List.head?_dropWhile_not (fun i => !p.named name i) p.stack
  have hsuffix := List.dropWhile_suffix (l := p.stack) fun i => !p.named name i
  rw [Pairing.add, Pairing.close]
  split
  · exact ⟨h.named, fun x hx => hadded x (h.places x hx), h.nodup, h.unclosed, h.stacked⟩
  · next i stack hstack =>
    rw [hstack] at hhead hsuffix
    have hnodup : (i :: stack).Nodup := h.stacked.sublist hsuffix.sublist
    obtain ⟨e, he, hopen⟩ := h.unclosed i (hsuffix.subset (List.mem_cons_self))
    -- the element has the name that the tag asks for
    have hname : e.name = name := by
      simpa [Pairing.named, he] using hhead
    have hperm := perm_flatMap_modify he hopen start
    rw [hname] at hperm
    refine ⟨?_, ?_, ?_, ?_, (List.nodup_cons.mp hnodup).2⟩
    · intro e' he'
      obtain ⟨j, hj⟩ := List.mem_iff_getElem?.mp he'
      rw [List.getElem?_modify] at hj
      obtain ⟨old, hold, hnew⟩ := Option.map_eq_some_iff.mp hj
      have := h.named old (List.mem_of_getElem? hold)
      split at hnew
      · rw [← hnew]
        exact this
      · rw [← hnew]
        exact this
    · intro x hx
      rcases List.mem_cons.mp (hperm.mem_iff.mp hx) with rfl | hx
      · simp [Tag.place]
      · exact hadded x (h.places x hx)
    · rw [hperm.nodup_iff, List.nodup_cons]
      exact ⟨fun hmem => hfresh (h.places _ hmem), h.nodup⟩
    · intro j hj
      have hne : i ≠ j := by
        rintro rfl
        exact (List.nodup_cons.mp hnodup).1 hj
      obtain ⟨e', he', hopen'⟩ := h.unclosed j (hsuffix.subset (List.mem_cons_of_mem _ hj))
      exact ⟨e', (List.getElem?_modify_ne _ _ hne).trans he', hopen'⟩

/-- Tags in order keep the pairing. -/
theorem Paired.foldl {added ts : List Tag} {p : Pairing} (h : Paired added p)
    (hnamed : ∀ t ∈ ts, ∀ name start attrs isEmpty, t = .opening name start attrs isEmpty →
      name.toList ≠ [])
    (hbefore : (added ++ ts).Pairwise Tag.Before) :
    Paired (added ++ ts) (ts.foldl Pairing.add p) := by
  induction ts generalizing added p with
  | nil => simpa using h
  | cons t ts ih =>
    rw [List.append_cons] at hbefore ⊢
    have hfresh : t.place ∉ added.map Tag.place := by
      intro hmem
      obtain ⟨u, hu, heq⟩ := List.mem_map.mp hmem
      have hlt := (List.pairwise_append.mp (List.pairwise_append.mp hbefore).1).2.2 u hu t
        (List.mem_singleton.mpr rfl)
      have hmark := t.mark_pos
      rw [Tag.Before, heq] at hlt
      omega
    refine ih ?_ (fun u hu => hnamed u (List.mem_cons_of_mem _ hu)) hbefore
    cases t with
    | opening name start attrs isEmpty =>
      exact h.opening (hnamed _ List.mem_cons_self _ _ _ _ rfl) hfresh
    | closing name start => exact h.closing hfresh

/-- All tags of a template, paired. -/
theorem paired_tags (cs : List Char) : Paired (tags cs) ((tags cs).foldl Pairing.add ⟨[], []⟩) := by
  obtain ⟨hread, hbefore⟩ := tagsFrom_places cs.length 0 cs
  exact Paired.nil.foldl (fun t ht => (hread t ht).named) hbefore

/-- The range of one place ends before the range of the other starts. -/
def Clear (x y : String × Nat) : Prop :=
  x.2 + byteLength x.1.toList ≤ y.2 ∨ y.2 + byteLength y.1.toList ≤ x.2

/-- **Names of elements**: each stands in the template, none is empty, and no two of them, in
    opening and closing tags, meet. -/
theorem elements_places (cs : List Char) :
    (∀ e ∈ elements cs, e.name.toList ≠ []) ∧
      (∀ x ∈ (elements cs).flatMap Element.places, StandsAt x.1.toList x.2 cs) ∧
      ((elements cs).flatMap Element.places).Pairwise Clear := by
  obtain ⟨hread, hbefore⟩ := tagsFrom_places cs.length 0 cs
  have h := paired_tags cs
  refine ⟨h.named, fun x hx => ?_, h.nodup.imp_of_mem fun {x y} hx hy hne => ?_⟩
  · obtain ⟨t, ht, rfl⟩ := List.mem_map.mp (h.places x hx)
    obtain ⟨n, hplace, ⟨before, after, hcs, hn⟩, -⟩ := (hread t ht).stands
    refine ⟨before ++ t.mark, after, ?_, ?_⟩
    · rw [hcs, List.append_assoc, List.append_assoc]
    · rw [hplace, byteLength_append, hn, Nat.add_zero]
  · obtain ⟨t, ht, rfl⟩ := List.mem_map.mp (h.places x hx)
    obtain ⟨u, hu, rfl⟩ := List.mem_map.mp (h.places y hy)
    have hapart : (tags cs).Pairwise fun t u => t.place ≠ u.place → Clear t.place u.place :=
      hbefore.imp fun hle _ => Or.inl (Nat.le_of_add_right_le hle)
    have hflip := hapart.imp fun {t u} htu (hne : u.place ≠ t.place) => (htu hne.symm).symm
    exact hapart.forall_of_forall_of_flip (fun t _ hne => absurd rfl hne) hflip ht hu hne

end BuildMacros.Template
