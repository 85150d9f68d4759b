import BuildMacros.Proofs.Script.Elements
import BuildMacros.Proofs.Splice.Insertions

/-! # Blocks of a text with insertions

    Short texts are inserted into a script, each in front of a closing parenthesis.
    None of them has an angle bracket in it, and none begins with a letter of a tag,
    so no tag begins, ends or goes on in what is inserted. `Woven` says that a text is
    another one with such insertions.

    Searches for tags find the same in both texts. So the block that is looked at in a
    file is the same block when its content has insertions (`exists_locate`).
-/

namespace BuildMacros.Script

open BuildMacros.Text

/-! ## Section 1: Woven texts -/

/-- What may be inserted: a text without angle brackets that begins with no letter of a tag. -/
structure Inert (chunk : List Char) : Prop where
  head : ∃ c cs, chunk = c :: cs ∧ ∀ p ∈ openTag ++ closeTag, foldsTo p c = false
  brackets : ∀ c ∈ chunk, foldsTo '<' c = false ∧ c ≠ '>'

/-- The second text is the first one with insertions in front of closing parentheses. -/
inductive Woven : List Char → List Char → Prop where
  | done : Woven [] []
  | keep {cs ds : List Char} (c : Char) (h : Woven cs ds) : Woven (c :: cs) (c :: ds)
  | insert {chunk cs ds : List Char} (hchunk : Inert chunk) (h : Woven (')' :: cs) ds) :
      Woven (')' :: cs) (chunk ++ ds)

namespace Woven

variable {cs ds : List Char}

theorem refl (cs : List Char) : Woven cs cs := by
  induction cs with
  | nil => exact .done
  | cons c cs ih => exact .keep c ih

theorem append_left (xs : List Char) (h : Woven cs ds) : Woven (xs ++ cs) (xs ++ ds) := by
  induction xs with
  | nil => exact h
  | cons x xs ih => exact .keep x ih

theorem append_right (h : Woven cs ds) (xs : List Char) : Woven (cs ++ xs) (ds ++ xs) := by
  induction h with
  | done => exact refl xs
  | keep c h ih => exact .keep c ih
  | insert hchunk h ih =>
    rw [List.append_assoc]
    exact .insert hchunk ih

/-- Insertions that are laid in a text weave it. -/
theorem splice {text : List Char} {cursor : Nat} {es : List Edit}
    (h : Laid text cursor es)
    (hes : ∀ e ∈ es, e.isInsert = true ∧ Inert e.text.toList ∧
      (dropBytes e.start text).head? = some ')') :
    Woven (dropBytes cursor text) (Splicer.splice text cursor es) := by
  induction es generalizing cursor with
  | nil => exact refl _
  | cons e es ih =>
    obtain ⟨hinsert, hinert, hparen⟩ := hes e List.mem_cons_self
    have hstop : e.stop = e.start := by
      rw [Edit.isInsert, beq_iff_eq] at hinsert
      exact hinsert.symm
    have hrest := ih h.2.2 fun e he => hes e (List.mem_cons_of_mem _ he)
    rw [Splicer.splice, Splicer.Laid.max_eq h, List.append_assoc]
    rw [hstop] at hrest ⊢
    -- up to the insertion the texts are the same
    have hcut : dropBytes cursor text = slice text cursor e.start ++ dropBytes e.start text := by
      obtain ⟨xs, ys, zs, rfl, rfl, hstart⟩ := h.1.exists_append
      have hdrop := dropBytes_append (xs ++ ys) zs
      rw [byteLength_append, List.append_assoc] at hdrop
      rw [dropBytes_append, hstart, slice_append_append, hdrop]
    rw [hcut]
    refine append_left _ ?_
    cases hdrop : dropBytes e.start text with
    | nil =>
      rw [hdrop] at hparen
      cases hparen
    | cons c cs =>
      rw [hdrop] at hparen hrest
      cases hparen
      exact .insert hinert hrest

/-! ## Section 2: Tags -/

/-- The beginning of a tag stands in both texts, and what follows it is woven. -/
theorem stripFolded? {lead rest : List Char} (h : Woven cs ds)
    (hlead : ∀ p ∈ lead, p ∈ openTag ++ closeTag) (hd : Text.stripFolded? lead ds = some rest) :
    ∃ rest', Text.stripFolded? lead cs = some rest' ∧ Woven rest' rest := by
  induction h generalizing lead with
  | done =>
    cases lead with
    | nil =>
      cases hd
      exact ⟨[], rfl, .done⟩
    | cons p ps => cases hd
  | @keep cs ds c h ih =>
    cases lead with
    | nil =>
      cases hd
      exact ⟨_, rfl, .keep c h⟩
    | cons p ps =>
      rw [Text.stripFolded?] at hd ⊢
      split at hd
      · next hfold =>
        rw [if_pos hfold]
        exact ih (fun q hq => hlead q (List.mem_cons_of_mem p hq)) hd
      · cases hd
  | @insert chunk cs ds hchunk h ih =>
    cases lead with
    | nil =>
      cases hd
      exact ⟨_, rfl, .insert hchunk h⟩
    | cons p ps =>
      obtain ⟨c, more, rfl, hhead⟩ := hchunk.head
      have hfold := hhead p (hlead p List.mem_cons_self)
      rw [List.cons_append, Text.stripFolded?, hfold] at hd
      cases hd

theorem closeTag? {rest : List Char} (h : Woven cs ds)
    (hd : Text.stripFolded? closeTag ds = some rest) :
    ∃ rest', Text.stripFolded? closeTag cs = some rest' ∧ Woven rest' rest :=
  h.stripFolded? (fun _ hp => List.mem_append_right _ hp) hd

end Woven

/-- No tag begins with a character that does not begin it. -/
theorem stripFolded?_eq_none {lead ps : List Char} {p c : Char} (hlead : lead = p :: ps)
    (hc : foldsTo p c = false) (cs : List Char) : stripFolded? lead (c :: cs) = none := by
  rw [hlead, stripFolded?, hc]
  rfl

/-- No closing tag begins in what is inserted. -/
theorem upToClose_append {chunk : List Char} (h : ∀ c ∈ chunk, foldsTo '<' c = false)
    (cs : List Char) :
    upToClose (chunk ++ cs) = (upToClose cs).map fun r => (chunk ++ r.1, r.2) := by
  induction chunk with
  | nil => simp
  | cons c chunk ih =>
    have hnone := stripFolded?_eq_none closeTag_eq (h c List.mem_cons_self) (chunk ++ cs)
    rw [List.cons_append, upToClose_cons hnone, ih fun d hd => h d (List.mem_cons_of_mem c hd)]
    cases upToClose cs <;> rfl

/-- The content of a block ends where it did. -/
theorem Woven.upToClose_eq {cs ds after rest : List Char} (h : Woven cs ds)
    (hc : upToClose (cs ++ after) = some (cs, rest)) :
    upToClose (ds ++ after) = some (ds, rest) := by
  induction h with
  | done => exact hc
  | @keep cs ds c h ih =>
    rw [List.cons_append] at hc ⊢
    cases htag : Text.stripFolded? closeTag (c :: (cs ++ after)) with
    | some more =>
      rw [upToClose_of_closeTag htag] at hc
      simp at hc
    | none =>
      rw [upToClose_cons htag] at hc
      obtain ⟨r, hr, hcr⟩ := Option.map_eq_some_iff.mp hc
      have hr' : upToClose (cs ++ after) = some (cs, rest) := by
        rw [hr, ← (List.cons.inj (Prod.mk.inj hcr).1).2, ← (Prod.mk.inj hcr).2]
      -- a tag that ended the woven content here would end the content here
      have hnone : Text.stripFolded? closeTag (c :: (ds ++ after)) = none := by
        refine Option.eq_none_iff_forall_ne_some.mpr fun r hr => ?_
        obtain ⟨r', hr', -⟩ := (Woven.keep c (h.append_right after)).closeTag? hr
        rw [htag] at hr'
        cases hr'
      rw [upToClose_cons hnone, ih hr']
      rfl
  | @insert chunk cs ds hchunk h ih =>
    rw [List.append_assoc, upToClose_append fun c hc => (hchunk.brackets c hc).1, ih hc]
    rfl

/-- Where no block ends, none ends in the woven text. -/
theorem Woven.isSome_upToClose {cs ds : List Char} (h : Woven cs ds)
    (hd : (upToClose ds).isSome = true) : (upToClose cs).isSome = true := by
  induction h with
  | done => exact hd
  | @keep cs ds c h ih =>
    cases htag : Text.stripFolded? closeTag (c :: cs) with
    | some rest =>
      rw [upToClose_of_closeTag htag]
      rfl
    | none =>
      rw [upToClose_cons htag, Option.isSome_map]
      cases htag' : Text.stripFolded? closeTag (c :: ds) with
      | some rest =>
        obtain ⟨rest', hrest', -⟩ := (Woven.keep c h).closeTag? htag'
        rw [htag] at hrest'
        cases hrest'
      | none =>
        rw [upToClose_cons htag', Option.isSome_map] at hd
        exact ih hd
  | @insert chunk cs ds hchunk h ih =>
    rw [upToClose_append fun c hc => (hchunk.brackets c hc).1, Option.isSome_map] at hd
    exact ih hd

theorem Woven.head?_any_isWord {cs ds : List Char} (h : Woven cs ds)
    (hd : ds.head?.any isWord = false) : cs.head?.any isWord = false := by
  cases h with
  | done => rfl
  | keep c h => exact hd
  | insert hchunk h =>
    show (some ')').any isWord = false
    decide

/-- The end of an opening tag. -/
theorem Woven.dropWhile {cs ds rest : List Char} {g : Char} (h : Woven cs ds)
    (hd : ds.dropWhile (· != '>') = g :: rest) :
    ∃ g' rest', cs.dropWhile (· != '>') = g' :: rest' ∧ Woven rest' rest := by
  induction h with
  | done => cases hd
  | @keep cs ds c h ih =>
    by_cases hc : c = '>'
    · subst hc
      cases hd
      exact ⟨'>', cs, rfl, h⟩
    · rw [List.dropWhile_cons_of_pos (by simpa using hc)] at hd ⊢
      exact ih hd
  | @insert chunk cs ds hchunk h ih =>
    rw [List.dropWhile_append_of_pos fun c hc => by simpa using (hchunk.brackets c hc).2] at hd
    exact ih hd

/-- Where no block begins, none begins in the woven text. -/
theorem Woven.blockAt_eq_none {cs ds : List Char} (h : Woven cs ds) (hc : blockAt cs = none) :
    blockAt ds = none := by
  cases hopen : Text.stripFolded? openTag ds with
  | none => rw [blockAt, hopen]
  | some rest =>
    obtain ⟨rest', hopen', hrest⟩ :=
      h.stripFolded? (fun _ hp => List.mem_append_left _ hp) hopen
    rw [blockAt_of_openTag hopen'] at hc
    rw [blockAt_of_openTag hopen]
    by_cases hword : rest.head?.any isWord = true
    · exact if_pos hword
    · rw [Bool.not_eq_true] at hword
      rw [if_neg (by simp [hrest.head?_any_isWord hword])] at hc
      rw [if_neg (by simp [hword])]
      cases hbody : rest.dropWhile (· != '>') with
      | nil => rfl
      | cons g body =>
        obtain ⟨g', body', hbody', hwoven⟩ := hrest.dropWhile hbody
        rw [hbody'] at hc
        refine Option.map_eq_none_iff.mpr (Option.not_isSome_iff_eq_none.mp fun hsome => ?_)
        have hnone := Option.map_eq_none_iff.mp hc
        have hsome' := hwoven.isSome_upToClose hsome
        rw [hnone] at hsome'
        cases hsome'

/-- No block begins with a character that opens no tag. -/
theorem blockAt_cons_eq_none {c : Char} (h : foldsTo '<' c = false) (cs : List Char) :
    blockAt (c :: cs) = none := by
  rw [blockAt, stripFolded?_eq_none openTag_eq h cs]

theorem firstBlockFrom_append {chunk : List Char} (h : ∀ c ∈ chunk, foldsTo '<' c = false)
    (pos : Nat) (cs : List Char) :
    firstBlockFrom pos (chunk ++ cs) = firstBlockFrom (pos + byteLength chunk) cs := by
  induction chunk generalizing pos with
  | nil => rfl
  | cons c chunk ih =>
    rw [List.cons_append, firstBlockFrom, blockAt_cons_eq_none (h c List.mem_cons_self)]
    show firstBlockFrom (pos + c.utf8Size) (chunk ++ cs) = _
    rw [ih fun d hd => h d (List.mem_cons_of_mem c hd), byteLength, Nat.add_assoc]

/-- A text without a block has none when it is woven. -/
theorem Woven.firstBlockFrom_eq_none {cs ds : List Char} (h : Woven cs ds) {pos pos' : Nat}
    (hc : firstBlockFrom pos cs = none) : firstBlockFrom pos' ds = none := by
  induction h generalizing pos pos' with
  | done => rfl
  | @keep cs ds c h ih =>
    rw [firstBlockFrom] at hc ⊢
    cases hblock : blockAt (c :: cs) with
    | some e =>
      rw [hblock] at hc
      cases hc
    | none =>
      rw [hblock] at hc
      rw [(Woven.keep c h).blockAt_eq_none hblock]
      exact ih hc
  | @insert chunk cs ds hchunk h ih =>
    rw [firstBlockFrom_append fun c hc => (hchunk.brackets c hc).1]
    exact ih hc

/-! ## Section 4: The block that is looked at -/

/-- A block is its opening tag and a body. The tag begins a block with every other body that has a
    closing tag in it. -/
theorem exists_opening {cs : List Char} {e : Extent} (h : blockAt cs = some e) :
    ∃ opening, opening ≠ [] ∧ cs = opening ++ e.body ∧
      upToClose e.body = some (e.content, e.rest) ∧
      ∀ body, blockAt (opening ++ body) =
        (upToClose body).map fun r => ⟨e.attributes, body, r.1, r.2⟩ := by
  obtain ⟨x, hx, hcs, he⟩ := exists_element_of_blockAt h
  rw [he]
  refine ⟨x.opening, by simp [Element.opening], ?_, upToClose_closing hx.content hx.closing e.rest,
    fun body => ?_⟩
  · rw [hcs]
    simp [Element.text]
  -- the tag ends at the first angle bracket, whatever the body is
  · rw [← blockAt_opening hx.word hx.edge hx.attributes body]
    simp [Element.opening]

/-- The first block of a text is the first block still when its content is woven. -/
theorem firstBlockFrom_woven {pos : Nat} {cs : List Char} {b : Block}
    (h : firstBlockFrom pos cs = some b) :
    ∃ before after, cs = before ++ (b.content.toList ++ after) ∧
      b.offset = pos + byteLength before ∧
      ∀ ds, Woven b.content.toList ds →
        firstBlockFrom pos (before ++ (ds ++ after)) =
          some ⟨String.ofList ds, b.offset, b.lang⟩ := by
  induction cs generalizing pos with
  | nil => cases h
  | cons c cs ih =>
    rw [firstBlockFrom] at h
    cases hblock : blockAt (c :: cs) with
    | some e =>
      rw [hblock] at h
      obtain rfl := Option.some.inj h
      obtain ⟨opening, hne, hcs, hclose, hopening⟩ := exists_opening hblock
      obtain ⟨after, hbody, -⟩ := exists_append_of_upToClose hclose
      refine ⟨opening, after, by simp [hcs, hbody], ?_, fun ds hwoven => ?_⟩
      · rw [hcs, byteLength_append, Nat.add_sub_cancel_right]
      -- the same tag begins a block with the woven content
      · rw [String.toList_ofList] at hwoven
        have hds : blockAt (opening ++ (ds ++ after)) =
            some ⟨e.attributes, ds ++ after, ds, e.rest⟩ := by
          rw [hopening, hwoven.upToClose_eq (hbody ▸ hclose)]
          rfl
        have hstart : byteLength (opening ++ (ds ++ after)) - byteLength (ds ++ after) =
            byteLength (c :: cs) - byteLength e.body := by
          rw [hcs, byteLength_append, byteLength_append opening, Nat.add_sub_cancel_right,
            Nat.add_sub_cancel_right]
        obtain ⟨o, os, rfl⟩ := List.exists_cons_of_ne_nil hne
        rw [List.cons_append] at hds hstart ⊢
        rw [firstBlockFrom, hds, ← hstart]
    | none =>
      rw [hblock] at h
      obtain ⟨before, after, rfl, hoffset, hrest⟩ := ih h
      refine ⟨c :: before, after, rfl, ?_, fun ds hwoven => ?_⟩
      · rw [hoffset, byteLength, Nat.add_assoc]
      -- no block begins here, and none does in the woven text
      · have hkeep := Woven.keep c ((hwoven.append_right after).append_left before)
        rw [List.cons_append, firstBlockFrom, hkeep.blockAt_eq_none hblock]
        exact hrest ds hwoven

/-- **The same block is looked at** when the content of the one that is looked at is woven. -/
theorem exists_locate (code id : String) :
    ∃ before after, code.toList = before ++ ((locate code id).content.toList ++ after) ∧
      byteLength before = (locate code id).offset ∧
      ∀ ds, Woven (locate code id).content.toList ds →
        locate (String.ofList (before ++ (ds ++ after))) id =
          { locate code id with content := String.ofList ds } := by
  by_cases hvue : isVue id = true
  · cases hfirst : firstBlock? code with
    | some b =>
      have hlocate : locate code id = b := by
        rw [locate, if_pos hvue, hfirst]
      rw [hlocate]
      obtain ⟨before, after, hcode, hoffset, hrest⟩ := firstBlockFrom_woven hfirst
      refine ⟨before, after, hcode, by rw [hoffset, Nat.zero_add], fun ds hwoven => ?_⟩
      rw [locate, if_pos hvue, firstBlock?, String.toList_ofList, hrest ds hwoven]
    | none =>
      have hlocate : locate code id = ⟨code, 0, none⟩ := by
        rw [locate, if_pos hvue, hfirst]
      rw [hlocate]
      refine ⟨[], [], by simp, rfl, fun ds hwoven => ?_⟩
      rw [locate, if_pos hvue, firstBlock?, List.nil_append, List.append_nil,
        String.toList_ofList, hwoven.firstBlockFrom_eq_none hfirst]
  · have hwhole : ∀ text : String, locate text id = ⟨text, 0, none⟩ := by
      intro text
      rw [locate, if_neg hvue]
    rw [hwhole]
    refine ⟨[], [], by simp, rfl, fun ds _ => ?_⟩
    rw [hwhole, List.nil_append, List.append_nil]

end BuildMacros.Script
