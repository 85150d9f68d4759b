import BuildMacros.Import.Table
import BuildMacros.Proofs.Text.Infixes

/-! # Imported names stand in the text

    Imports are read off the text, and what is read stands in it: the scan goes on
    with what a statement left, so with a suffix of the text, and the names of a clause
    are cut out of the clause. So whatever a table of imports binds a local name to,
    other than a default export, is written in the module.
-/

namespace BuildMacros.Import

open BuildMacros.Text

/-! ## Section 1: What statements leave -/

theorem suffix_of_specifierPart {cs specifier rest : List Char}
    (h : specifierPart cs = some (specifier, rest)) : rest <:+ cs := by
  unfold specifierPart at h
  split at h
  · next q cs =>
    split at h
    · dsimp only at h
      split at h
      · next q' rest' hdrop =>
        split at h
        · cases h
          have hquote : q' :: rest <:+ cs := hdrop ▸ List.dropWhile_suffix _
          exact ((List.suffix_cons q' rest).trans hquote).trans (List.suffix_cons q cs)
        · cases h
      · cases h
    · cases h
  · cases h

theorem suffix_of_fromPart {cs specifier rest : List Char}
    (h : fromPart cs = some (specifier, rest)) : rest <:+ cs := by
  unfold fromPart at h
  split at h
  · next hstrip =>
    exact ((suffix_of_specifierPart h).trans (List.dropWhile_suffix _)).trans
      ((suffix_of_strip? hstrip).trans (List.dropWhile_suffix _))
  · cases h

/-- A clause is the head of the text it is read from. -/
theorem prefix_of_clausePart {cs clause specifier rest : List Char}
    (h : clausePart cs = some (clause, specifier, rest)) : clause <+: cs ∧ rest <:+ cs := by
  induction cs generalizing clause with
  | nil => cases h
  | cons c cs ih =>
    unfold clausePart at h
    split at h
    · split at h
      · next hfrom =>
        cases h
        exact ⟨List.cons_prefix_cons.mpr ⟨rfl, List.nil_prefix⟩,
          (suffix_of_fromPart hfrom).trans (List.suffix_cons c cs)⟩
      · split at h
        · next hclause =>
          cases h
          obtain ⟨hhead, hsuffix⟩ := ih hclause
          exact ⟨List.cons_prefix_cons.mpr ⟨rfl, hhead⟩, hsuffix.trans (List.suffix_cons c cs)⟩
        · cases h
    · cases h

/-- What is read at a place of a text: the clause stands in the text, unless it is the blank of a
    statement without one, and the rest is what the text ends with. -/
def ReadIn (cs : List Char) (found : Option (List Char) × List Char × List Char) : Prop :=
  (∀ clause, found.1 = some clause → clause <:+: cs ∨ clause = [' ']) ∧ found.2.2 <:+ cs

theorem ReadIn.of_suffix {cs ds : List Char} {found : Option (List Char) × List Char × List Char}
    (h : ReadIn cs found) (hcs : cs <:+ ds) : ReadIn ds found :=
  ⟨fun clause hclause => (h.1 clause hclause).imp_left fun hstands => hstands.trans hcs.isInfix,
    h.2.trans hcs⟩

theorem readIn_of_afterKeyword {cs : List Char}
    {found : Option (List Char) × List Char × List Char} (h : afterKeyword cs = some found) :
    ReadIn cs found := by
  have hbody : cs.dropWhile isBlank <:+ cs := List.dropWhile_suffix _
  unfold afterKeyword at h
  dsimp only at h
  split at h
  · next hclause =>
    cases h
    obtain ⟨hhead, hsuffix⟩ := prefix_of_clausePart hclause
    refine ReadIn.of_suffix ⟨?_, hsuffix⟩ hbody
    rintro _ ⟨⟩
    exact .inl hhead.isInfix
  · split at h
    · next hspecifier =>
      cases h
      refine ReadIn.of_suffix ⟨?_, suffix_of_specifierPart hspecifier⟩ hbody
      rintro _ ⟨⟩
    · split at h
      · split at h
        · next hfrom =>
          cases h
          refine ReadIn.of_suffix ⟨?_, suffix_of_fromPart hfrom⟩ hbody
          rintro _ ⟨⟩
          exact .inr rfl
        · cases h
      · cases h

theorem readIn_of_statementPart {cs : List Char} {indent : Nat}
    {found : Option (List Char) × List Char × List Char}
    (h : statementPart cs = some (indent, found)) : ReadIn cs found := by
  unfold statementPart at h
  dsimp only at h
  split at h
  · next hstrip =>
    split at h
    · next hafter =>
      cases h
      exact (readIn_of_afterKeyword hafter).of_suffix
        ((suffix_of_strip? hstrip).trans (List.dropWhile_suffix _))
    · cases h
  · cases h

theorem readIn_of_matchAt {lineStart : Bool} {cs : List Char} {indent : Nat}
    {found : Option (List Char) × List Char × List Char}
    (h : matchAt lineStart cs = some (indent, found)) : ReadIn cs found := by
  unfold matchAt at h
  split at h
  · next hfound =>
    cases h
    split at hfound
    · exact readIn_of_statementPart hfound
    · cases hfound
  · split at h
    · split at h
      · split at h
        · next hstatement =>
          cases h
          exact (readIn_of_statementPart hstatement).of_suffix (List.suffix_cons _ _)
        · cases h
      · cases h
    · cases h

/-! ## Section 2: The names of a clause -/

theorem infix_of_namedItem {item : List Char} {n : Named} (h : namedItem item = some (some n)) :
    n.imported.toList <:+: item := by
  have hword : ∀ w ws, words isBlank item = w :: ws → w <:+: item := fun w ws hwords =>
    infix_of_mem_words (hwords ▸ List.mem_cons_self)
  unfold namedItem at h
  split at h
  · cases h
  · next name hwords =>
    split at h
    · cases h
      rw [String.toList_ofList]
      exact hword name [] hwords
    · cases h
  · next w ws _ hwords =>
    split at h
    · cases h
    · split at h
      · split at h
        · cases h
          rw [String.toList_ofList]
          exact hword w _ hwords
        · cases h
      · cases h

theorem infix_of_namedItems {items : List (List Char)} {ns : List Named}
    (h : namedItems items = some ns) : ∀ n ∈ ns, ∃ item ∈ items, n.imported.toList <:+: item := by
  induction items generalizing ns with
  | nil =>
    cases h
    intro n hn
    cases hn
  | cons item items ih =>
    unfold namedItems at h
    intro n hn
    split at h
    · next first more hitem hmore =>
      cases h
      rcases List.mem_cons.mp hn with rfl | hn
      · exact ⟨item, List.mem_cons_self, infix_of_namedItem hitem⟩
      · obtain ⟨other, hother, hstands⟩ := ih hmore n hn
        exact ⟨other, List.mem_cons_of_mem _ hother, hstands⟩
    · next hmore =>
      cases h
      obtain ⟨other, hother, hstands⟩ := ih hmore n hn
      exact ⟨other, List.mem_cons_of_mem _ hother, hstands⟩
    · cases h

theorem infix_of_bindingsPart {cs : List Char} {whole : Option String} {ns : List Named}
    (h : bindingsPart cs = some (whole, ns)) : ∀ n ∈ ns, n.imported.toList <:+: cs := by
  unfold bindingsPart at h
  split at h
  · cases h
    intro n hn
    cases hn
  · split at h
    · split at h
      · cases h
        intro n hn
        cases hn
      · cases h
    · cases h
  · next rest =>
    split at h
    · next inner hsplit =>
      obtain ⟨ns', hitems, hpair⟩ := Option.map_eq_some_iff.mp h
      cases hpair
      intro n hn
      obtain ⟨item, hitem, hstands⟩ := infix_of_namedItems hitems n hn
      have hinner : inner <:+: rest := (prefix_of_splitLast? hsplit).isInfix
      exact ((hstands.trans (infix_of_mem_fields hitem)).trans hinner).trans
        (List.suffix_cons _ rest).isInfix
    · cases h
  · cases h

theorem suffix_typeMark (cs : List Char) : (typeMark cs).2 <:+ cs := by
  unfold typeMark
  split
  · next hstrip =>
    split
    · exact (List.dropWhile_suffix _).trans (suffix_of_strip? hstrip)
    · exact List.suffix_rfl
  · exact List.suffix_rfl

/-- The imported names of a clause are written in it. -/
theorem infix_of_parseClause {clause : List Char} {c : Clause} (h : parseClause clause = some c) :
    ∀ n ∈ c.named, n.imported.toList <:+: clause := by
  have hrest : (typeMark (trim isBlank clause)).2 <:+: clause :=
    (suffix_typeMark _).isInfix.trans (infix_trim isBlank clause)
  unfold parseClause at h
  dsimp only at h
  split at h
  · obtain ⟨b, hb, hc⟩ := Option.map_eq_some_iff.mp h
    cases hc
    intro n hn
    exact (infix_of_bindingsPart hb n hn).trans hrest
  · split at h
    · obtain ⟨b, hb, hc⟩ := Option.map_eq_some_iff.mp h
      cases hc
      intro n hn
      have hothers := (infix_trim isBlank _).trans
        ((List.drop_suffix 1 _).trans
          (List.dropWhile_suffix (l := (typeMark (trim isBlank clause)).2) (· != ','))).isInfix
      exact ((infix_of_bindingsPart hb n hn).trans hothers).trans hrest
    · cases h

/-! ## Section 3: Records and tables -/

/-- A blank is no clause. -/
theorem parseClause_blank : parseClause [' '] = none := by decide

/-- The names that a record imports are written in the text. -/
theorem infix_of_mem_scan {fuel pos : Nat} {lineStart : Bool} {cs : List Char} {rec : Record}
    (h : rec ∈ scan fuel pos lineStart cs) : ∀ n ∈ rec.clause.named, n.imported.toList <:+: cs := by
  induction fuel generalizing pos lineStart cs with
  | zero => cases h
  | succ fuel ih =>
    cases cs with
    | nil => cases h
    | cons c cs =>
      unfold scan at h
      split at h
      · next indent clause specifier rest hmatch =>
        obtain ⟨hclause, hsuffix⟩ := readIn_of_matchAt hmatch
        intro n hn
        rcases List.mem_append.mp h with h | h
        · unfold record? at h
          cases clause with
          | some text =>
            obtain ⟨parsed, hparsed, rfl⟩ := Option.map_eq_some_iff.mp (Option.mem_toList.mp h)
            rcases hclause text rfl with hstands | rfl
            · exact (infix_of_parseClause hparsed n hn).trans hstands
            · rw [parseClause_blank] at hparsed
              cases hparsed
          | none =>
            rw [Option.toList_some, List.mem_singleton] at h
            rw [h] at hn
            cases hn
        · exact (ih h n hn).trans hsuffix.isInfix
      · intro n hn
        exact (ih h n hn).trans (List.suffix_cons c cs).isInfix

namespace Table

/-- Every binding but those of default exports comes from a name in braces. -/
def Sourced (t : Table) (records : List Record) : Prop :=
  ∀ name d, t.direct.get? name = some d →
    d.exported = "default" ∨ ∃ rec ∈ records, ∃ n ∈ rec.clause.named, n.imported = d.exported

theorem Sourced.bind {t : Table} {records : List Record} (h : t.Sourced records)
    {exported : String}
    (hexported : exported = "default" ∨
      ∃ rec ∈ records, ∃ n ∈ rec.clause.named, n.imported = exported) (name source : String) :
    (t.bind name exported source).Sourced records := by
  intro name' d hd
  by_cases hname : name' = name
  · subst hname
    rw [Table.bind, Assoc.get?_insert_self] at hd
    cases hd
    exact hexported
  · rw [Table.bind, Assoc.get?_insert_of_ne _ _ hname] at hd
    exact h name' d hd

/-- Noting whole modules binds no names. -/
theorem Sourced.hold {t : Table} {records : List Record} (h : t.Sourced records)
    (source name : String) : (t.hold source name).Sourced records := h

/-- One more record. -/
theorem Sourced.add {t : Table} {records : List Record} (h : t.Sourced records) (r : Resolver)
    {rec : Record} (hrec : rec ∈ records) : (t.add r rec).Sourced records := by
  have hnamed : ∀ (ns : List Named) (t : Table), t.Sourced records →
      (∀ n ∈ ns, n ∈ rec.clause.named) →
        (ns.foldl (fun t n => t.bind n.localName n.imported (r.resolve rec.specifier)) t).Sourced
          records := by
    intro ns
    induction ns with
    | nil => exact fun t ht _ => ht
    | cons n ns ih =>
      intro t ht hns
      have hn : ∃ rec ∈ records, ∃ m ∈ rec.clause.named, m.imported = n.imported :=
        ⟨rec, hrec, n, hns n List.mem_cons_self, rfl⟩
      exact ih _ (ht.bind (.inr hn) _ _) fun m hm => hns m (List.mem_cons_of_mem _ hm)
  unfold Table.add
  split
  · exact h
  · have hbraces := hnamed rec.clause.named t h fun _ hn => hn
    dsimp only
    split <;> split
    · exact ((hbraces.bind (.inl rfl) _ _).hold _ _).hold _ _
    · exact hbraces.hold _ _
    · exact (hbraces.bind (.inl rfl) _ _).hold _ _
    · exact hbraces

theorem sourced_ofRecords (r : Resolver) (records : List Record) :
    (ofRecords r records).Sourced records := by
  have hfold : ∀ (more : List Record) (t : Table), t.Sourced records →
      (∀ rec ∈ more, rec ∈ records) → (more.foldl (add r) t).Sourced records := by
    intro more
    induction more with
    | nil => exact fun t ht _ => ht
    | cons rec more ih =>
      intro t ht hmore
      exact ih _ (ht.add r (hmore rec List.mem_cons_self)) fun rec' hrec' =>
        hmore rec' (List.mem_cons_of_mem _ hrec')
  refine hfold records empty (fun name d hd => ?_) fun _ hrec => hrec
  cases hd

/-- **Imported names stand in the text**: what a local name is bound to is a default export, or
    its name is written in the module. -/
theorem written_of_direct {r : Resolver} {code name : String} {d : Direct}
    (h : (ofRecords r (findImports code)).direct.get? name = some d) :
    d.exported = "default" ∨ contains d.exported.toList code.toList = true := by
  rcases sourced_ofRecords r (findImports code) name d h with hdefault | ⟨rec, hrec, n, hn, heq⟩
  · exact .inl hdefault
  · right
    rw [contains_iff, ← heq]
    exact infix_of_mem_scan hrec n hn

end Table

end BuildMacros.Import
