import BuildMacros.Proofs.Script.Spans
import BuildMacros.Proofs.Template.ScannedTags

/-! # Elements are nested

    Tags are paired with a stack of the elements that are open. A closing tag closes the
    nearest one of its name, and those that were opened in it are forgotten and stay without a
    closing tag. So whatever the text is like, the elements that are closed are nested: two of
    them are apart, or one lies in the other.

    `Stacked` is what holds after any number of tags. An element that is open was opened behind
    all closed ones in front of it, so when it is closed it has those opened before it in front
    of it and those opened after it inside of it.
-/

namespace BuildMacros.Template

open BuildMacros.Text BuildMacros.Script

/-! ## Section 1: Intervals -/

/-- From the name in the opening tag of an element to the one in its closing tag, ends included. -/
def Element.interval? (e : Element) : Option Span :=
  e.closing.map fun stop => ⟨e.start, stop + byteLength e.name.toList⟩

/-- Two spans are apart, or one contains the other. -/
def Nested (x y : Span) : Prop := x.Apart y ∨ x.contains y = true ∨ y.contains x = true

/-! ## Section 2: The stack -/

/-- What holds of the elements while tags are paired, up to an offset behind all names: they were
    opened in their order by opening tags, and closed behind that by closing tags; the innermost
    open one is the last one, the elements in front of an open one were closed before it was opened
    if at all, and closed elements are nested. -/
structure Stacked (added : List Tag) (p : Pairing) (bound : Nat) : Prop extends Paired added p where
  opened : ∀ e ∈ p.elements, e.start + byteLength e.name.toList ≤ bound ∧
    ∃ attrs isEmpty, .opening e.name e.start attrs isEmpty ∈ added
  closed : ∀ e ∈ p.elements, ∀ stop, e.closing = some stop →
    e.start + byteLength e.name.toList + 2 ≤ stop ∧ stop + byteLength e.name.toList ≤ bound ∧
      .closing e.name stop ∈ added
  descending : p.stack.Pairwise (· > ·)
  ascending : ∀ (i j : Nat) (a b : Element), i < j → p.elements[i]? = some a →
    p.elements[j]? = some b → a.start < b.start
  before : ∀ j ∈ p.stack, ∀ (i : Nat) (a b : Element), i < j → p.elements[i]? = some a →
    p.elements[j]? = some b → ∀ x, a.interval? = some x → x.stop ≤ b.start
  nested : ∀ (i j : Nat) (a b : Element), i < j → p.elements[i]? = some a →
    p.elements[j]? = some b → ∀ x y, a.interval? = some x → b.interval? = some y → Nested x y

theorem Stacked.nil : Stacked [] ⟨[], []⟩ 0 := by
  refine ⟨Paired.nil, ?_, ?_, ?_, ?_, ?_, ?_⟩ <;> simp

/-- An element of a row with one more is one of the row, or the last one. -/
theorem eq_or_last {es : List Element} {last e : Element} {i : Nat}
    (h : (es ++ [last])[i]? = some e) : es[i]? = some e ∨ i = es.length ∧ e = last := by
  rw [List.getElem?_append] at h
  split at h
  · exact .inl h
  · obtain ⟨hlt, heq⟩ := List.getElem?_eq_some_iff.mp h
    rw [List.length_singleton] at hlt
    exact .inr ⟨by omega, by rw [← heq, List.getElem_singleton]⟩

/-- When an element is closed, another one stays as it is. -/
theorem eq_or_closed {es : List Element} {e a : Element} {i j start : Nat} (he : es[i]? = some e)
    (h : (es.modify i fun e => { e with closing := some start })[j]? = some a) :
    j = i ∧ a = { e with closing := some start } ∨ j ≠ i ∧ es[j]? = some a := by
  by_cases hj : i = j
  · subst hj
    rw [List.getElem?_modify_eq, he] at h
    exact .inl ⟨rfl, (Option.some.inj h).symm⟩
  · rw [List.getElem?_modify_ne _ _ hj] at h
    exact .inr ⟨fun heq => hj heq.symm, h⟩

section

variable {added : List Tag} {p : Pairing} {bound : Nat} {name : String} {start : Nat}

/-- The interval of a closed element ends where the name in its closing tag ends. -/
theorem Stacked.stop_le (h : Stacked added p bound) {e : Element} (he : e ∈ p.elements) {x : Span}
    (hx : e.interval? = some x) : x.stop ≤ bound := by
  obtain ⟨stop, hstop, rfl⟩ := Option.map_eq_some_iff.mp hx
  exact (h.closed e he stop hstop).2.1

/-- **An opening tag** begins an element behind all others. -/
theorem Stacked.opening (h : Stacked added p bound) {attrs : List String} {isEmpty : Bool}
    (hname : name.toList ≠ []) (hfresh : (name, start) ∉ added.map Tag.place)
    (hbound : bound + 1 ≤ start) :
    Stacked (added ++ [.opening name start attrs isEmpty])
      (p.add (.opening name start attrs isEmpty)) (start + byteLength name.toList) := by
  have hopen : ∀ {x : Span}, (⟨name, start, attrs, none⟩ : Element).interval? ≠ some x := by
    intro x hx
    cases hx
  refine ⟨h.toPaired.opening hname hfresh, ?_, ?_, ?_, ?_, ?_, ?_⟩
  · intro e he
    rcases List.mem_append.mp he with he | he
    · obtain ⟨hle, attrs, isEmpty, hmem⟩ := h.opened e he
      exact ⟨by omega, attrs, isEmpty, List.mem_append_left _ hmem⟩
    · rw [List.mem_singleton.mp he]
      exact ⟨Nat.le_refl _, attrs, isEmpty, List.mem_append_right _ List.mem_cons_self⟩
  · intro e he stop hstop
    rcases List.mem_append.mp he with he | he
    · obtain ⟨hlater, hle, hmem⟩ := h.closed e he stop hstop
      exact ⟨hlater, by omega, List.mem_append_left _ hmem⟩
    · rw [List.mem_singleton.mp he] at hstop
      cases hstop
  · cases isEmpty with
    | true => exact h.descending
    | false =>
      refine List.pairwise_cons.mpr ⟨?_, h.descending⟩
      intro i hi
      obtain ⟨e, he, -⟩ := h.unclosed i hi
      exact (List.getElem?_eq_some_iff.mp he).1
  · intro i j a b hij ha hb
    rcases eq_or_last ha with hi | ⟨hi, -⟩
    · rcases eq_or_last hb with hj | ⟨-, rfl⟩
      · exact h.ascending i j a b hij hi hj
      · have hle := (h.opened a (List.mem_of_getElem? hi)).1
        show a.start < start
        omega
    · -- nothing stands behind the new element
      rcases eq_or_last hb with hj | ⟨hj, -⟩
      · have hlt := (List.getElem?_eq_some_iff.mp hj).1
        omega
      · omega
  · intro j hj i a b hij ha hb x hx
    rcases eq_or_last ha with hold | ⟨-, rfl⟩
    · rcases eq_or_last hb with hopened | ⟨-, rfl⟩
      · have hlt := (List.getElem?_eq_some_iff.mp hopened).1
        have hstack : j ∈ p.stack := by
          cases isEmpty with
          | true => exact hj
          | false =>
            rcases List.mem_cons.mp hj with hlast | hj
            · omega
            · exact hj
        exact h.before j hstack i a b hij hold hopened x hx
      · have hle := h.stop_le (List.mem_of_getElem? hold) hx
        show x.stop ≤ start
        omega
    · exact absurd hx hopen
  · intro i j a b hij ha hb x y hx hy
    rcases eq_or_last ha with hi | ⟨-, rfl⟩
    · rcases eq_or_last hb with hj | ⟨-, rfl⟩
      · exact h.nested i j a b hij hi hj x y hx hy
      · exact absurd hy hopen
    · exact absurd hx hopen

/-- More tags and a greater offset change nothing about the elements that there are. -/
theorem Stacked.mono (h : Stacked added p bound) {t : Tag} {bound' : Nat} (hle : bound ≤ bound')
    (hpaired : Paired (added ++ [t]) p) : Stacked (added ++ [t]) p bound' := by
  refine ⟨hpaired, ?_, ?_, h.descending, h.ascending, h.before, h.nested⟩
  · intro e he
    obtain ⟨hstart, attrs, isEmpty, hmem⟩ := h.opened e he
    exact ⟨Nat.le_trans hstart hle, attrs, isEmpty, List.mem_append_left _ hmem⟩
  · intro e he stop hstop
    obtain ⟨hlater, hstop, hmem⟩ := h.closed e he stop hstop
    exact ⟨hlater, Nat.le_trans hstop hle, List.mem_append_left _ hmem⟩

/-- **A closing tag** ends the nearest open element of its name: what is closed already lies in
    front of that element or inside of it. -/
theorem Stacked.closing (h : Stacked added p bound) (hfresh : (name, start) ∉ added.map Tag.place)
    (hbound : bound + 2 ≤ start) :
    Stacked (added ++ [.closing name start]) (p.add (.closing name start))
      (start + byteLength name.toList) := by
  have hpaired := h.toPaired.closing hfresh
  have hhead := List.head?_dropWhile_not (fun i => !p.named name i) p.stack
  have hsuffix := List.dropWhile_suffix (l := p.stack) fun i => !p.named name i
  rw [Pairing.add, Pairing.close] at hpaired ⊢
  split at hpaired
  · next hstack => exact h.mono (by omega) hpaired
  · next i stack hstack =>
    rw [hstack] at hhead hsuffix
    have hdescending : (i :: stack).Pairwise (· > ·) := h.descending.sublist hsuffix.sublist
    have hi : i ∈ p.stack := hsuffix.subset List.mem_cons_self
    obtain ⟨e, he, hopen⟩ := h.unclosed i hi
    have hname : e.name = name := by
      simpa [Pairing.named, he] using hhead
    have hmem := List.mem_of_getElem? he
    have hinterval : ({ e with closing := some start } : Element).interval? =
        some ⟨e.start, start + byteLength e.name.toList⟩ := rfl
    have hstart := (h.opened e hmem).1
    refine ⟨hpaired, ?_, ?_, (List.pairwise_cons.mp hdescending).2, ?_, ?_, ?_⟩
    · intro a ha
      obtain ⟨j, hj⟩ := List.mem_iff_getElem?.mp ha
      rcases eq_or_closed he hj with ⟨-, rfl⟩ | ⟨-, hold⟩
      · obtain ⟨hle, attrs, isEmpty, hadded⟩ := h.opened e hmem
        refine ⟨?_, attrs, isEmpty, List.mem_append_left _ hadded⟩
        show e.start + byteLength e.name.toList ≤ _
        omega
      · obtain ⟨hle, attrs, isEmpty, hadded⟩ := h.opened a (List.mem_of_getElem? hold)
        exact ⟨by omega, attrs, isEmpty, List.mem_append_left _ hadded⟩
    · intro a ha stop hstop
      obtain ⟨j, hj⟩ := List.mem_iff_getElem?.mp ha
      rcases eq_or_closed he hj with ⟨-, rfl⟩ | ⟨-, hold⟩
      · obtain rfl := Option.some.inj hstop
        refine ⟨?_, ?_, List.mem_append_right _ ?_⟩
        · show e.start + byteLength e.name.toList + 2 ≤ start
          omega
        · show start + byteLength e.name.toList ≤ _
          exact Nat.le_of_eq (by rw [hname])
        · show Tag.closing e.name start ∈ _
          rw [hname]
          exact List.mem_cons_self
      · obtain ⟨hlater, hle, hadded⟩ := h.closed a (List.mem_of_getElem? hold) stop hstop
        exact ⟨hlater, by omega, List.mem_append_left _ hadded⟩
    · intro j k a b hjk ha hb
      -- closing an element does not move it
      have hstarts : ∀ {l : Nat} {c : Element},
          (p.elements.modify i fun e => { e with closing := some start })[l]? = some c →
            ∃ c', p.elements[l]? = some c' ∧ c'.start = c.start := by
        intro l c hc
        rcases eq_or_closed he hc with ⟨rfl, rfl⟩ | ⟨-, hold⟩
        · exact ⟨e, he, rfl⟩
        · exact ⟨c, hold, rfl⟩
      obtain ⟨a', ha', haStart⟩ := hstarts ha
      obtain ⟨b', hb', hbStart⟩ := hstarts hb
      rw [← haStart, ← hbStart]
      exact h.ascending j k a' b' hjk ha' hb'
    · intro k hk j a b hjk ha hb x hx
      have hki : k < i := (List.pairwise_cons.mp hdescending).1 k hk
      rcases eq_or_closed he ha with ⟨rfl, -⟩ | ⟨-, ha⟩
      · omega
      · rcases eq_or_closed he hb with ⟨rfl, -⟩ | ⟨-, hb⟩
        · omega
        · exact h.before k (hsuffix.subset (List.mem_cons_of_mem _ hk)) j a b hjk ha hb x hx
    · intro j k a b hjk ha hb x y hx hy
      rcases eq_or_closed he ha with ⟨rfl, rfl⟩ | ⟨-, haold⟩
      · -- what was opened later and is closed lies inside
        rcases eq_or_closed he hb with ⟨rfl, -⟩ | ⟨-, hbold⟩
        · exact absurd hjk (Nat.lt_irrefl _)
        · obtain rfl := Option.some.inj (hinterval.symm.trans hx)
          have hstop := h.stop_le (List.mem_of_getElem? hbold) hy
          have hlt := h.ascending j k e b hjk he hbold
          obtain ⟨stop, -, rfl⟩ := Option.map_eq_some_iff.mp hy
          refine .inr (.inl (Span.contains_iff.mpr ⟨Nat.le_of_lt hlt, ?_⟩))
          show _ ≤ start + byteLength e.name.toList
          omega
      · rcases eq_or_closed he hb with ⟨rfl, rfl⟩ | ⟨-, hbold⟩
        · -- what was opened earlier and is closed lies in front
          obtain rfl := Option.some.inj (hinterval.symm.trans hy)
          exact .inl (.inl (h.before k hi j a e hjk haold he x hx))
        · exact h.nested j k a b hjk haold hbold x y hx hy

/-- **Any number of tags**, each with its mark behind the names of those before it. -/
theorem Stacked.foldl {ts : List Tag} (h : Stacked added p bound)
    (hnamed : ∀ t ∈ ts, ∀ name start attrs isEmpty, t = .opening name start attrs isEmpty →
      name.toList ≠ [])
    (hfresh : (added ++ ts).Pairwise Tag.Before)
    (hbound : ∀ t ∈ ts, bound + byteLength t.mark ≤ t.place.2) :
    ∃ bound', Stacked (added ++ ts) (ts.foldl Pairing.add p) bound' := by
  induction ts generalizing added p bound with
  | nil => exact ⟨bound, by rwa [List.append_nil]⟩
  | cons t ts ih =>
    rw [List.append_cons] at hfresh ⊢
    obtain ⟨hpast, -, hamong⟩ := List.pairwise_append.mp hfresh
    have hnew : t.place ∉ added.map Tag.place := by
      intro hmem
      obtain ⟨u, hu, heq⟩ := List.mem_map.mp hmem
      have hle := (List.pairwise_append.mp hpast).2.2 u hu t List.mem_cons_self
      have hmark := t.mark_pos
      rw [Tag.Before, heq] at hle
      omega
    have hstep : Stacked (added ++ [t]) (p.add t) (t.place.2 + byteLength t.place.1.toList) := by
      have hle := hbound t List.mem_cons_self
      cases t with
      | opening name start attrs isEmpty =>
        exact h.opening (hnamed _ List.mem_cons_self _ _ _ _ rfl) hnew hle
      | closing name start => exact h.closing hnew hle
    refine ih hstep (fun u hu => hnamed u (List.mem_cons_of_mem _ hu)) hfresh ?_
    intro u hu
    exact hamong t (List.mem_append_right _ List.mem_cons_self) u hu

end

/-- All tags of a template, paired. -/
theorem stacked_tags (cs : List Char) :
    ∃ bound, Stacked (tags cs) ((tags cs).foldl Pairing.add ⟨[], []⟩) bound := by
  obtain ⟨hread, hbefore⟩ := tagsFrom_places cs.length 0 cs
  refine Stacked.nil.foldl (fun t ht => (hread t ht).named) hbefore ?_
  intro t ht
  obtain ⟨n, hplace, -⟩ := (hread t ht).stands
  omega

/-! ## Section 3: Elements -/

/-- Where the mark and the name of a tag stand. -/
theorem exists_mark {cs : List Char} {t : Tag} (ht : t ∈ tags cs) :
    ∃ i, t.place.2 = i + byteLength t.mark ∧ StandsAt (t.mark ++ t.place.1.toList) i cs := by
  obtain ⟨n, hplace, hstands, -⟩ := ((tagsFrom_places cs.length 0 cs).1 t ht).stands
  exact ⟨n, hplace, hstands⟩

/-- **Elements of any template.** The loop over the bytes of a text comes to its end without cutting
    a character in two, it has one result, and the elements are the tags of that result, paired. The
    name of an element is not empty and stands right behind a bracket; where a closing tag is noted,
    the same name stands right behind a bracket with a slash, which stands behind the first name.
    No closing tag is noted for two elements, the places of all names are apart, and the elements
    with closing tags are nested. -/
theorem elements_nested (cs : List Char) :
    (∃ ts, (∀ us, Scans cs 0 us ↔ us = ts) ∧
      elements cs = (ts.foldl Pairing.add ⟨[], []⟩).elements) ∧
    (∀ e ∈ elements cs, e.name.toList ≠ [] ∧
      (∃ i, e.start = i + 1 ∧ StandsAt ('<' :: e.name.toList) i cs) ∧
      ∀ stop, e.closing = some stop → ∃ i, stop = i + 2 ∧
        e.start + byteLength e.name.toList ≤ i ∧ StandsAt ('<' :: '/' :: e.name.toList) i cs) ∧
    ((elements cs).filterMap Element.closing).Nodup ∧
    ((elements cs).flatMap Element.places).Pairwise Clear ∧
    ((elements cs).filterMap Element.interval?).Pairwise Nested := by
  obtain ⟨bound, h⟩ := stacked_tags cs
  obtain ⟨hnamed, -, hclear⟩ := elements_places cs
  refine ⟨⟨tags cs, scans_iff cs, rfl⟩, ?_, ?_, hclear, ?_⟩
  · intro e he
    refine ⟨hnamed e he, ?_, ?_⟩
    · obtain ⟨-, attrs, isEmpty, hopening⟩ := h.opened e he
      exact exists_mark hopening
    · intro stop hstop
      obtain ⟨hlater, -, hclosing⟩ := h.closed e he stop hstop
      obtain ⟨i, hplace, hstands⟩ := exists_mark hclosing
      obtain rfl : stop = i + 2 := hplace
      exact ⟨i, rfl, by omega, hstands⟩
  · -- two names at one place would not be apart
    rw [List.nodup_iff_pairwise_ne, List.pairwise_filterMap]
    refine (List.pairwise_flatMap.mp hclear).2.imp_of_mem ?_
    intro a b ha hb hab stop hstop stop' hstop' heq
    have hplace := hab (a.name, stop) (by simp [Element.places, hstop]) (b.name, stop')
      (by simp [Element.places, hstop'])
    have hpos := byteLength_pos_of_ne_nil (hnamed a ha)
    have hpos' := byteLength_pos_of_ne_nil (hnamed b hb)
    unfold Clear at hplace
    dsimp only at hplace
    omega
  · rw [List.pairwise_filterMap, List.pairwise_iff_getElem]
    intro i j hi hj hij x hx y hy
    exact h.nested i j _ _ hij (List.getElem?_eq_getElem hi) (List.getElem?_eq_getElem hj) x y hx hy

end BuildMacros.Template
