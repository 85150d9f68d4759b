import BuildMacros.Proofs.Text.Placement
import BuildMacros.Script.Module

/-! # Where script blocks stand

    A block is found by reading a file from the left, and its offset is computed from
    the lengths of what is left to read. The content of every block stands in the
    file at the block's offset, so what is a range of the parsed text is, moved by
    that offset, a range of the file. The block ends before a tag or at the end of the
    file, and read by itself it has no blocks inside.
-/

namespace BuildMacros.Script

open BuildMacros.Text

/-! ## Section 1: One block -/

theorem openTag_eq : openTag = '<' :: "script".toList := by decide

theorem closeTag_eq : closeTag = '<' :: "/script>".toList := by decide

/-- A closing tag begins with an angle bracket. -/
theorem eq_of_stripFolded?_closeTag {c : Char} {cs rest : List Char}
    (h : stripFolded? closeTag (c :: cs) = some rest) : c = '<' := by
  rw [closeTag_eq, stripFolded?] at h
  split at h
  · next hfold => exact eq_of_foldsTo hfold
  · cases h

/-- The search for a closing tag looks at one place after the other. -/
theorem upToClose_eq (c : Char) (cs : List Char) :
    upToClose (c :: cs) =
      match stripFolded? closeTag (c :: cs) with
      | some rest => some ([], rest)
      | none => (upToClose cs).map fun r => (c :: r.1, r.2) := rfl

theorem upToClose_of_closeTag {cs rest : List Char} (h : stripFolded? closeTag cs = some rest) :
    upToClose cs = some ([], rest) := by
  cases cs with
  | nil => cases h
  | cons c cs => rw [upToClose_eq, h]

theorem upToClose_cons {c : Char} {cs : List Char} (h : stripFolded? closeTag (c :: cs) = none) :
    upToClose (c :: cs) = (upToClose cs).map fun r => (c :: r.1, r.2) := by
  rw [upToClose_eq, h]

/-- The content ends where the first closing tag begins, and what follows the tag is left of the
    text. -/
theorem exists_append_of_upToClose {cs content rest : List Char}
    (h : upToClose cs = some (content, rest)) :
    ∃ after, cs = content ++ after ∧ after.head? = some '<' ∧ upToClose content = none ∧
      rest <:+ cs := by
  induction cs generalizing content with
  | nil => cases h
  | cons c cs ih =>
    rw [upToClose_eq] at h
    cases hclose : stripFolded? closeTag (c :: cs) with
    | some left =>
      rw [hclose] at h
      cases h
      refine ⟨c :: cs, rfl, congrArg some (eq_of_stripFolded?_closeTag hclose), rfl, ?_⟩
      exact suffix_of_stripFolded? hclose
    | none =>
      rw [hclose] at h
      obtain ⟨r, hr, hcr⟩ := Option.map_eq_some_iff.mp h
      cases hcr
      obtain ⟨after, hcs, hhead, hnone, hrest⟩ := ih hr
      refine ⟨after, by rw [hcs, List.cons_append], hhead, ?_, hrest.trans (List.suffix_cons c cs)⟩
      -- a closing tag of the content would be one of the text
      have hcontent : stripFolded? closeTag (c :: r.1) = none := by
        cases hstrip : stripFolded? closeTag (c :: r.1) with
        | none => rfl
        | some left =>
          obtain ⟨front, hfront, hsame⟩ := exists_append_of_stripFolded? hstrip
          have htext : stripFolded? closeTag (c :: cs) = some (left ++ after) := by
            rw [hcs, ← List.cons_append, hfront, List.append_assoc]
            exact hsame _
          rw [hclose] at htext
          cases htext
      rw [upToClose_cons hcontent, hnone]
      rfl

/-- Without a closing tag there is none in what is left of the text. -/
theorem upToClose_eq_none_of_suffix {cs rest : List Char} (h : upToClose cs = none)
    (hrest : rest <:+ cs) : upToClose rest = none := by
  induction cs with
  | nil =>
    rw [List.suffix_nil.mp hrest]
    rfl
  | cons c cs ih =>
    rcases List.suffix_cons_iff.mp hrest with rfl | hrest
    · exact h
    · refine ih ?_ hrest
      rw [upToClose_eq] at h
      split at h
      · cases h
      · exact Option.map_eq_none_iff.mp h

/-- The block behind the beginning of an opening tag. -/
theorem blockAt_of_openTag {cs rest : List Char} (h : stripFolded? openTag cs = some rest) :
    blockAt cs =
      if rest.head?.any isWord then none
      else match rest.dropWhile (· != '>') with
        | _ :: body => (upToClose body).map fun r => ⟨rest.takeWhile (· != '>'), body, r.1, r.2⟩
        | [] => none := by
  unfold blockAt
  split
  · next found hfound =>
    rw [hfound] at h
    obtain rfl := Option.some.inj h
    rfl
  · next hnone =>
    rw [hnone] at h
    cases h

/-- A block at the head of a text: its body is left of the text, and has a closing tag. -/
theorem blockAt_eq {cs : List Char} {e : Extent} (h : blockAt cs = some e) :
    e.body <:+ cs ∧ upToClose e.body = some (e.content, e.rest) := by
  simp only [blockAt] at h
  split at h
  · next rest hopen =>
    split at h
    · cases h
    · split at h
      · next c body hbody =>
        obtain ⟨⟨content, after⟩, hclose, rfl⟩ := Option.map_eq_some_iff.mp h
        refine ⟨(List.suffix_cons c body).trans ?_, hclose⟩
        rw [← hbody]
        exact (List.dropWhile_suffix _).trans (suffix_of_stripFolded? hopen)
      · cases h
  · cases h

/-! ## Section 2: All blocks -/

/-- The content of every block stands behind the offset from which blocks are looked for, and a
    closing tag follows it. -/
theorem exists_append_of_mem_blocksFrom {fuel pos : Nat} {cs : List Char} {b : Block}
    (hb : b ∈ blocksFrom fuel pos cs) :
    ∃ before after, cs = before ++ (b.content.toList ++ after) ∧
      b.offset = byteLength before + pos ∧ after.head? = some '<' ∧
      upToClose b.content.toList = none := by
  induction fuel generalizing pos cs with
  | zero => simp [blocksFrom] at hb
  | succ fuel ih =>
    cases cs with
    | nil => simp [blocksFrom] at hb
    | cons c cs =>
      simp only [blocksFrom] at hb
      split at hb
      · next e he =>
        obtain ⟨⟨opening, hbody⟩, hclose⟩ := blockAt_eq he
        obtain ⟨after, hcontent, hhead, hnone, hrest⟩ := exists_append_of_upToClose hclose
        rcases List.mem_cons.mp hb with rfl | hb
        · refine ⟨opening, after, ?_, ?_, hhead, ?_⟩
          · rw [String.toList_ofList, ← hcontent, hbody]
          · rw [← hbody, byteLength_append, Nat.add_sub_cancel_right, Nat.add_comm]
          · rwa [String.toList_ofList]
        -- later blocks stand in what follows the closing tag
        · obtain ⟨front, hfront⟩ := hrest.trans ⟨opening, hbody⟩
          obtain ⟨before, after, hcs, hoffset, hblock⟩ := ih hb
          refine ⟨front ++ before, after, ?_, ?_, hblock⟩
          · rw [← hfront, hcs, List.append_assoc]
          · rw [hoffset, ← hfront, byteLength_append, byteLength_append, Nat.add_sub_cancel_right]
            omega
      · obtain ⟨before, after, hcs, hoffset, hblock⟩ := ih hb
        refine ⟨c :: before, after, by rw [hcs, List.cons_append], ?_, hblock⟩
        rw [hoffset, byteLength]
        omega

/-- A text without a closing tag has no blocks. -/
theorem blocksFrom_eq_nil {cs : List Char} (h : upToClose cs = none) (fuel pos : Nat) :
    blocksFrom fuel pos cs = [] := by
  induction fuel generalizing pos cs with
  | zero => rfl
  | succ fuel ih =>
    cases cs with
    | nil => rfl
    | cons c cs =>
      have hnone : blockAt (c :: cs) = none := by
        cases hblock : blockAt (c :: cs) with
        | none => rfl
        | some e =>
          obtain ⟨hbody, hclose⟩ := blockAt_eq hblock
          rw [upToClose_eq_none_of_suffix h hbody] at hclose
          cases hclose
      rw [blocksFrom, hnone]
      exact ih (upToClose_eq_none_of_suffix h (List.suffix_cons c cs)) _

/-- The first block is the first one of all. -/
theorem head?_blocksFrom_eq {fuel : Nat} {cs : List Char} (hfuel : cs.length ≤ fuel) (pos : Nat) :
    (blocksFrom fuel pos cs).head? = firstBlockFrom pos cs := by
  induction cs generalizing fuel pos with
  | nil => cases fuel <;> rfl
  | cons c cs ih =>
    obtain ⟨fuel, rfl⟩ := Nat.exists_eq_add_one_of_ne_zero (Nat.ne_zero_of_lt hfuel)
    rw [blocksFrom, firstBlockFrom]
    cases blockAt (c :: cs) with
    | some e => rfl
    | none => exact ih (Nat.le_of_succ_le_succ hfuel) _

/-- **The search for one block finds the first of all blocks.** -/
theorem firstBlock?_eq (code : String) : firstBlock? code = (blocks code).head? :=
  (head?_blocksFrom_eq (Nat.le_refl _) 0).symm

/-- What is parsed of a file, by all of its blocks. -/
theorem locate_eq (code id : String) :
    locate code id =
      (if isVue id = true then (blocks code).head? else none).getD ⟨code, 0, none⟩ := by
  rw [← firstBlock?_eq, locate]
  split
  · next b hb => rw [hb, Option.getD_some]
  · next hnone => rw [hnone, Option.getD_none]

/-- **The parsed text in its file**: it stands at the block's offset, a tag or nothing follows it,
    and there are no blocks in it. -/
theorem exists_surroundings (code id : String) :
    ∃ before after, code.toList = before ++ ((locate code id).content.toList ++ after) ∧
      byteLength before = (locate code id).offset ∧ (∀ c, after.head? = some c → c = '<') ∧
      locate (locate code id).content id = ⟨(locate code id).content, 0, none⟩ := by
  rw [locate_eq]
  cases hfirst : if isVue id = true then (blocks code).head? else none with
  | some b =>
    rw [Option.getD_some]
    have hmem : b ∈ blocks code := by
      split at hfirst
      · exact List.mem_of_mem_head? hfirst
      · cases hfirst
    obtain ⟨before, after, hcode, hoffset, hhead, hnone⟩ := exists_append_of_mem_blocksFrom hmem
    refine ⟨before, after, hcode, hoffset.symm, fun c hc => ?_, ?_⟩
    · rw [hhead] at hc
      exact (Option.some.inj hc).symm
    · rw [locate_eq, blocks, blocksFrom_eq_nil hnone, List.head?_nil, ite_self, Option.getD_none]
  | none =>
    rw [Option.getD_none]
    refine ⟨[], [], by simp, rfl, fun c hc => ?_, ?_⟩
    · cases hc
    · rw [locate_eq, hfirst, Option.getD_none]

/-- **The parsed text is a part of the file**, at the block's offset. -/
theorem standsAt_locate (code id : String) :
    StandsAt (locate code id).content.toList (locate code id).offset code.toList := by
  obtain ⟨before, after, hcode, hoffset, -⟩ := exists_surroundings code id
  exact ⟨before, after, hcode, hoffset⟩

/-- A parsed module has the block that is looked at, and the scopes of its tree. -/
theorem Module.parse_eq_ok {code id : String} {m : Module} (h : Module.parse code id = .ok m) :
    m.block = locate code id ∧ m.scopes = .collect m.program := by
  unfold Module.parse Module.ofBlock at h
  generalize locate code id = b at h ⊢
  split at h
  · cases h
    exact ⟨rfl, rfl⟩
  · cases h

/-- The block of a parsed module stands in the file. -/
theorem Module.standsAt_block {code id : String} {m : Module} (h : Module.parse code id = .ok m) :
    StandsAt m.block.content.toList m.block.offset code.toList := by
  rw [(Module.parse_eq_ok h).1]
  exact standsAt_locate code id

/-- Ranges of the parsed text are ranges of the file. -/
theorem Module.isRange_inFile {code id : String} {m : Module} (hm : Module.parse code id = .ok m)
    {start stop : Nat} (h : IsRange m.block.content.toList start stop) :
    IsRange code.toList (m.inFile start) (m.inFile stop) :=
  (Module.standsAt_block hm).isRange_add h

/-- The file has the characters of the parsed text. -/
theorem Module.slice_inFile {code id : String} {m : Module} (hm : Module.parse code id = .ok m)
    {start stop : Nat} (h : IsRange m.block.content.toList start stop) :
    slice code.toList (m.inFile start) (m.inFile stop) =
      slice m.block.content.toList start stop :=
  (Module.standsAt_block hm).slice_add h

/-! ## Section 3: Texts that are written out

    The characters of a written text are at hand (`String.toList_ofList`). A parse that starts
    from them is evaluated without decoding the text first.
-/

/-- The characters of a text that is written out in parts. -/
theorem toList_append_ofList {s : String} {cs : List Char} (h : s.toList = cs) (ds : List Char) :
    (s ++ String.ofList ds).toList = cs ++ ds := by
  rw [String.toList_append, h, String.toList_ofList]

/-- A parse by the characters of the block. -/
theorem Module.toOption_parse {code id : String} {b : Block} {cs : List Char}
    (hlocate : locate code id = b) (hcontent : b.content.toList = cs) :
    (Module.parse code id).toOption =
      (Program.parse? (dialect id b.lang) cs).map fun p => ⟨b, p, .collect p⟩ := by
  unfold Module.parse Module.ofBlock
  rw [hlocate, hcontent]
  cases Program.parse? (dialect id b.lang) cs <;> rfl

/-- Of a file that is no component, all is parsed. -/
theorem Module.toOption_parse_script {code id : String} {cs : List Char} (hcode : code.toList = cs)
    (h : isVue id = false) :
    (Module.parse code id).toOption =
      (Program.parse? (dialect id none) cs).map fun p => ⟨⟨code, 0, none⟩, p, .collect p⟩ := by
  have hlocate : locate code id = ⟨code, 0, none⟩ := by
    rw [locate, h]
    rfl
  exact toOption_parse hlocate hcode

/-- Of a component, the first block is parsed. -/
theorem Module.toOption_parse_component {code id : String} {content : List Char} {offset : Nat}
    {lang : Option String}
    (hfirst : firstBlock? code = some ⟨String.ofList content, offset, lang⟩)
    (h : isVue id = true) :
    (Module.parse code id).toOption =
      (Program.parse? (dialect id lang) content).map fun p =>
        ⟨⟨String.ofList content, offset, lang⟩, p, .collect p⟩ := by
  have hlocate : locate code id = ⟨String.ofList content, offset, lang⟩ := by
    rw [locate, if_pos h, hfirst]
  exact toOption_parse hlocate String.toList_ofList

end BuildMacros.Script
