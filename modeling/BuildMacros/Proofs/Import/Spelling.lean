import BuildMacros.Import.Scan
import BuildMacros.Proofs.Text.Infixes
import BuildMacros.Script.Node
import Mathlib.Data.Bool.AllAny

/-! # Imports that are spelled plainly

    The scan for imports does not know the syntax of modules. It agrees with a parser
    about statements that are spelled plainly: blanks alone between their parts, names
    of letters and digits, and a specifier without a quote in it. What such a spelling
    looks like is said here apart from the scan, as relations between a text and what
    it spells (`Reads`, `Spells`), and the scan is shown to read it.

    The one search of the scan is for the end of a clause. It takes the shortest run of
    characters that `from` and a specifier follow, although `from` may be a name in the
    clause. No other place will do, because a clause has no quote in it: what stands
    before the first quote ends with the keyword and blanks in one way only
    (`eq_of_from_eq`).
-/

namespace BuildMacros.Import

open BuildMacros.Text BuildMacros.Script

/-! ## Section 1: Blanks and quotes -/

/-- Blanks and nothing else. -/
def IsGap (cs : List Char) : Prop := ∀ c ∈ cs, isBlank c = true

theorem isGap_nil : IsGap [] := List.forall_mem_nil _

theorem isGap_blank : IsGap [' '] := List.forall_mem_singleton.mpr rfl

/-- A text that begins and ends with characters other than blanks. -/
def IsTrimmed (cs : List Char) : Prop :=
  (∀ c, cs.head? = some c → isBlank c = false) ∧ ∀ c, cs.getLast? = some c → isBlank c = false

theorem eq_of_isQuote {c : Char} (h : isQuote c = true) : c = '"' ∨ c = '\'' := by
  simpa [isQuote] using h

theorem isBlank_of_isQuote {c : Char} (h : isQuote c = true) : isBlank c = false := by
  rcases eq_of_isQuote h with rfl | rfl <;> decide

theorem isClauseChar_of_isQuote {c : Char} (h : isQuote c = true) : isClauseChar c = false := by
  rcases eq_of_isQuote h with rfl | rfl <;> decide

/-- No blank is a quote. -/
theorem IsGap.no_quote {cs : List Char} (h : IsGap cs) : ∀ c ∈ cs, isQuote c = false := by
  intro c hc
  cases hq : isQuote c with
  | false => rfl
  | true =>
    have hblank := h c hc
    rw [isBlank_of_isQuote hq] at hblank
    cases hblank

theorem dropWhile_gap {gap : List Char} (h : IsGap gap) (cs : List Char) :
    (gap ++ cs).dropWhile isBlank = cs.dropWhile isBlank :=
  List.dropWhile_append_of_pos h

theorem IsTrimmed.trim_eq {cs : List Char} (h : IsTrimmed cs) : trim isBlank cs = cs := by
  rw [trim, dropWhile_eq_self h.1, dropEnd_eq_self h.2]

/-! ## Section 2: Specifiers -/

/-- A specifier between quotes. -/
inductive Quoted : List Char → List Char → Prop where
  | mk {q q' : Char} {specifier : List Char} (hq : isQuote q = true) (hq' : isQuote q' = true)
      (hne : specifier ≠ []) (hline : ∀ c ∈ specifier, isQuote c = false ∧ c ≠ '\n') :
      Quoted (q :: (specifier ++ [q'])) specifier

theorem Quoted.specifierPart_eq {text specifier : List Char} (h : Quoted text specifier)
    (rest : List Char) : specifierPart (text ++ rest) = some (specifier, rest) := by
  obtain ⟨hq, hq', hne, hline⟩ := h
  next q q' =>
  have hbody : ∀ c ∈ specifier, (!isQuote c && c != '\n') = true := by
    intro c hc
    obtain ⟨hquote, hnewline⟩ := hline c hc
    simp [hquote, hnewline]
  have htext : q :: (specifier ++ [q']) ++ rest = q :: (specifier ++ q' :: rest) := by simp
  rw [htext, specifierPart, if_pos hq]
  simp only [List.takeWhile_append_of_pos hbody, List.dropWhile_append_of_pos hbody]
  rw [List.takeWhile_cons_of_neg (by simp [hq']), List.dropWhile_cons_of_neg (by simp [hq']),
    List.append_nil]
  simp [hq', hne]

theorem specifierPart_of_not_quote {c : Char} (h : isQuote c = false) (cs : List Char) :
    specifierPart (c :: cs) = none := by
  simp [specifierPart, h]

/-! ## Section 3: The end of a clause -/

/-- The keyword in front of a specifier. -/
def fromWord : List Char := "from".toList

theorem no_quote_fromWord : ∀ c ∈ fromWord, isQuote c = false :=
  List.all_iff_forall_prop.mp (by decide)

/-- `from` and a specifier are read when what stands before the specifier is the keyword with
    blanks around it. -/
theorem fromPart_eq {gap gap' cs : List Char} (hgap : IsGap gap) (hgap' : IsGap gap')
    (hcs : ∀ c, cs.head? = some c → isBlank c = false) :
    fromPart (gap ++ (fromWord ++ (gap' ++ cs))) = specifierPart cs := by
  have hword : (fromWord ++ (gap' ++ cs)).dropWhile isBlank = fromWord ++ (gap' ++ cs) := rfl
  have hstrip : strip? "from".toList (fromWord ++ (gap' ++ cs)) = some (gap' ++ cs) :=
    strip?_append _ _
  rw [fromPart, dropWhile_gap hgap, hword, hstrip]
  simp only [dropWhile_gap hgap', dropWhile_eq_self hcs]

theorem isGap_takeWhile (cs : List Char) : IsGap (cs.takeWhile isBlank) :=
  List.all_eq_true.mp List.all_takeWhile

/-- Where blanks end before a quote, the text goes on with another character. -/
theorem dropWhile_append_quote {q : Char} (hq : isQuote q = true) (xs cs : List Char) :
    (xs ++ q :: cs).dropWhile isBlank = xs.dropWhile isBlank ++ q :: cs := by
  induction xs with
  | nil => simp [isBlank_of_isQuote hq]
  | cons x xs ih =>
    by_cases hx : isBlank x = true
    · simpa [hx] using ih
    · simp [hx]

/-- The keyword has no quote in it, so it ends before a quote. -/
theorem exists_append_of_fromWord {before rest cs : List Char} {q : Char} (hq : isQuote q = true)
    (h : before ++ q :: cs = fromWord ++ rest) :
    ∃ after, before = fromWord ++ after ∧ rest = after ++ q :: cs := by
  rcases List.append_eq_append_iff.mp h with ⟨tail, hword, htail⟩ | ⟨after, hword, hrest⟩
  · cases tail with
    | nil => exact ⟨[], by simpa using hword.symm, by simpa using htail.symm⟩
    | cons t tail =>
      rw [List.cons_append] at htail
      cases htail
      have hmem : q ∈ fromWord := by
        rw [hword]
        simp
      rw [no_quote_fromWord q hmem] at hq
      cases hq
  · exact ⟨after, hword, hrest⟩

/-- Only then: what stands before the first quote is the keyword with blanks around it. -/
theorem exists_gaps_of_fromPart {before cs : List Char} {q : Char}
    (hbefore : ∀ c ∈ before, isQuote c = false) (hq : isQuote q = true)
    {found : List Char × List Char} (h : fromPart (before ++ q :: cs) = some found) :
    ∃ gap gap', before = gap ++ (fromWord ++ gap') ∧ IsGap gap ∧ IsGap gap' := by
  unfold fromPart at h
  split at h
  · next rest hstrip =>
    have htext := eq_append_of_strip? hstrip
    rw [dropWhile_append_quote hq] at htext
    obtain ⟨after, hword, hrest⟩ := exists_append_of_fromWord hq htext
    rw [hrest, dropWhile_append_quote hq] at h
    refine ⟨before.takeWhile isBlank, after, ?_, isGap_takeWhile _, ?_⟩
    · rw [← hword, List.takeWhile_append_dropWhile]
    · cases hafter : after.dropWhile isBlank with
      | nil =>
        have hall := isGap_takeWhile after
        have hsplit : after.takeWhile isBlank ++ after.dropWhile isBlank = after :=
          List.takeWhile_append_dropWhile
        rw [hafter, List.append_nil] at hsplit
        rwa [hsplit] at hall
      | cons c tail =>
        -- a character of the text would stand where the specifier begins
        have hc : c ∈ before := by
          have hc : c ∈ after := (List.dropWhile_suffix isBlank).subset (by rw [hafter]; simp)
          have hin : c ∈ before.dropWhile isBlank := by
            rw [hword]
            exact List.mem_append_right _ hc
          exact (List.dropWhile_suffix isBlank).subset hin
        rw [hafter, List.cons_append, specifierPart_of_not_quote (hbefore c hc)] at h
        cases h
  · cases h

/-- The keyword stands in one place only. -/
theorem eq_of_from_eq {before before' gap gap' : List Char} (hgap : IsGap gap)
    (hgap' : IsGap gap') (h : before ++ (fromWord ++ gap) = before' ++ (fromWord ++ gap')) :
    before = before' := by
  have hend : ∀ xs : List Char, dropEnd isBlank (xs ++ fromWord) = xs ++ fromWord := by
    intro xs
    refine dropEnd_eq_self fun c hc => ?_
    have hlast : c = 'm' := by simpa [fromWord] using hc.symm
    rw [hlast]
    decide
  have htrim := congrArg (dropEnd isBlank) h
  rw [← List.append_assoc, ← List.append_assoc, dropEnd_append hgap,
    dropEnd_append hgap', hend, hend] at htrim
  exact List.append_cancel_right htrim

/-- While the clause has characters left, the keyword does not follow. -/
theorem fromPart_eq_none {clause gap gap' text specifier : List Char}
    (hclause : ∀ c ∈ clause, isClauseChar c = true) (hne : clause ≠ [])
    (hlast : ∀ c, clause.getLast? = some c → isBlank c = false) (hgap : IsGap gap)
    (hgap' : IsGap gap') (hquoted : Quoted text specifier) (rest : List Char) :
    fromPart (clause ++ (gap ++ (fromWord ++ (gap' ++ (text ++ rest))))) = none := by
  refine Option.eq_none_iff_forall_ne_some.mpr fun found hfound => ?_
  obtain ⟨hq, -, -, -⟩ := hquoted
  next q q' =>
  have hbefore : ∀ c ∈ clause ++ (gap ++ (fromWord ++ gap')), isQuote c = false := by
    intro c hc
    simp only [List.mem_append] at hc
    rcases hc with hc | hc | hc | hc
    · cases hquote : isQuote c with
      | false => rfl
      | true =>
        have hchar := hclause c hc
        rw [isClauseChar_of_isQuote hquote] at hchar
        cases hchar
    · exact hgap.no_quote c hc
    · exact no_quote_fromWord c hc
    · exact hgap'.no_quote c hc
  have hquote : fromPart ((clause ++ (gap ++ (fromWord ++ gap'))) ++
      q :: (specifier ++ q' :: rest)) = some found := by
    simpa using hfound
  obtain ⟨early, early', heq, hearly, hearly'⟩ := exists_gaps_of_fromPart hbefore hq hquote
  rw [← List.append_assoc clause] at heq
  have hblank : clause ++ gap = early := eq_of_from_eq hgap' hearly' heq
  -- the clause would be blank, although it ends with another character
  have hdark := hlast _ (List.getLast?_eq_some_getLast hne)
  have hgapped : isBlank (clause.getLast hne) = true := by
    refine hearly _ ?_
    rw [← hblank]
    exact List.mem_append_left _ (List.getLast_mem hne)
  rw [hdark] at hgapped
  cases hgapped

/-- **The end of a clause**: a clause that begins and ends with characters other than blanks is
    found as it is. -/
theorem clausePart_eq {clause gap gap' text specifier : List Char}
    (hclause : ∀ c ∈ clause, isClauseChar c = true) (hne : clause ≠ [])
    (hlast : ∀ c, clause.getLast? = some c → isBlank c = false) (hgap : IsGap gap)
    (hgap' : IsGap gap') (hquoted : Quoted text specifier) (rest : List Char) :
    clausePart (clause ++ (gap ++ (fromWord ++ (gap' ++ (text ++ rest))))) =
      some (clause, specifier, rest) := by
  have hhead : ∀ c, (text ++ rest).head? = some c → isBlank c = false := by
    obtain ⟨hq, -, -, -⟩ := hquoted
    rintro c ⟨⟩
    exact isBlank_of_isQuote hq
  induction clause with
  | nil => exact absurd rfl hne
  | cons c clause ih =>
    rw [List.cons_append, clausePart, if_pos (hclause c List.mem_cons_self)]
    cases clause with
    | nil => rw [List.nil_append, fromPart_eq hgap hgap' hhead, hquoted.specifierPart_eq]
    | cons d clause =>
      have hmore : ∀ x ∈ d :: clause, isClauseChar x = true :=
        fun x hx => hclause x (List.mem_cons_of_mem c hx)
      have hne' : d :: clause ≠ [] := List.cons_ne_nil d clause
      have hlast' : ∀ x, (d :: clause).getLast? = some x → isBlank x = false := by
        intro x hx
        exact hlast x (by rwa [List.getLast?_cons_cons])
      rw [fromPart_eq_none hmore hne' hlast' hgap hgap' hquoted, ih hmore hne' hlast']

/-! ## Section 4: Statements -/

/-- What follows the keyword of a statement: a specifier, or a clause and a specifier. -/
inductive Reads : List Char → Option (List Char) → List Char → Prop where
  | bare {gap text specifier : List Char} (hgap : IsGap gap) (hquoted : Quoted text specifier) :
      Reads (gap ++ text) none specifier
  | clause {gap gap' gap'' clause text specifier : List Char} (hgap : IsGap gap)
      (hgap' : IsGap gap') (hgap'' : IsGap gap'') (hclause : ∀ c ∈ clause, isClauseChar c = true)
      (hne : clause ≠ []) (htrim : IsTrimmed clause) (hquoted : Quoted text specifier) :
      Reads (gap ++ (clause ++ (gap' ++ (fromWord ++ (gap'' ++ text))))) (some clause) specifier

theorem Reads.afterKeyword_eq {text specifier : List Char} {clause : Option (List Char)}
    (h : Reads text clause specifier) (rest : List Char) :
    afterKeyword (text ++ rest) = some (clause, specifier, rest) := by
  cases h with
  | @bare gap text specifier hgap hquoted =>
    have hread := hquoted.specifierPart_eq rest
    obtain ⟨hq, -, -, -⟩ := hquoted
    next q q' =>
    have hbody : (gap ++ q :: (specifier ++ [q']) ++ rest).dropWhile isBlank =
        q :: (specifier ++ [q']) ++ rest := by
      rw [List.append_assoc, dropWhile_gap hgap, List.cons_append,
        List.dropWhile_cons_of_neg (by simp [isBlank_of_isQuote hq])]
    have hclause : clausePart (q :: (specifier ++ [q']) ++ rest) = none := by
      simp [clausePart, isClauseChar_of_isQuote hq]
    simp only [afterKeyword, hbody, hclause, hread]
  | @clause gap gap' gap'' clause text specifier hgap hgap' hgap'' hclause hne htrim hquoted =>
    have hbody : (gap ++ (clause ++ (gap' ++ (fromWord ++ (gap'' ++ text)))) ++ rest).dropWhile
        isBlank = clause ++ (gap' ++ (fromWord ++ (gap'' ++ (text ++ rest)))) := by
      cases clause with
      | nil => exact absurd rfl hne
      | cons c clause =>
        simp only [List.append_assoc]
        rw [dropWhile_gap hgap, List.cons_append,
          List.dropWhile_cons_of_neg (by simp [htrim.1 c rfl])]
    simp only [afterKeyword, hbody, clausePart_eq hclause hne htrim.2 hgap' hgap'' hquoted]

theorem Reads.isTrimmed {text clause specifier : List Char}
    (h : Reads text (some clause) specifier) : IsTrimmed clause := by
  cases h with
  | clause _ _ _ _ _ htrim _ => exact htrim

/-- The blanks that a statement may be indented by. -/
def IsIndent (cs : List Char) : Prop := ∀ c ∈ cs, (c == ' ' || c == '\t') = true

/-- The keyword of a statement. -/
def importWord : List Char := "import".toList

@[simp] theorem length_importWord : importWord.length = 6 := by decide

theorem Reads.statementPart_eq {indent text specifier : List Char} {clause : Option (List Char)}
    (hindent : IsIndent indent) (h : Reads text clause specifier) (rest : List Char) :
    statementPart (indent ++ (importWord ++ (text ++ rest))) =
      some (byteLength indent, clause, specifier, rest) := by
  have hword : (importWord ++ (text ++ rest)).dropWhile (fun c => c == ' ' || c == '\t') =
      importWord ++ (text ++ rest) := rfl
  have hnone : (importWord ++ (text ++ rest)).takeWhile (fun c => c == ' ' || c == '\t') = [] :=
    rfl
  have hstrip : strip? "import".toList (importWord ++ (text ++ rest)) = some (text ++ rest) :=
    strip?_append _ _
  unfold statementPart
  simp only [List.dropWhile_append_of_pos hindent, List.takeWhile_append_of_pos hindent, hword,
    hnone, List.append_nil, hstrip, h.afterKeyword_eq]

/-- A statement at the start of a line. -/
theorem Reads.matchAt_line {indent text specifier : List Char} {clause : Option (List Char)}
    (hindent : IsIndent indent) (h : Reads text clause specifier) (rest : List Char) :
    matchAt true (indent ++ (importWord ++ (text ++ rest))) =
      some (byteLength indent, clause, specifier, rest) := by
  simp only [matchAt, if_true, h.statementPart_eq hindent]

/-- A statement behind the character that ends another one. -/
theorem Reads.matchAt_after {c : Char} {indent text specifier : List Char}
    {clause : Option (List Char)} (hc : (c == ';' || c == '}') = true) (hindent : IsIndent indent)
    (h : Reads text clause specifier) (lineStart : Bool) (rest : List Char) :
    matchAt lineStart (c :: (indent ++ (importWord ++ (text ++ rest)))) =
      some (byteLength indent + 1, clause, specifier, rest) := by
  -- no statement begins with that character
  have hnone : statementPart (c :: (indent ++ (importWord ++ (text ++ rest)))) = none := by
    have hc' : c = ';' ∨ c = '}' := by simpa using hc
    rcases hc' with rfl | rfl <;> rfl
  simp only [matchAt, hnone, ite_self, hc, if_true, h.statementPart_eq hindent]

/-! ## Section 5: Clauses -/

/-- A name without a blank in it. -/
structure IsName (name : List Char) : Prop where
  identifier : isIdentifier name = true
  dark : ∀ c ∈ name, isBlank c = false

/-- An item between braces, and what it binds. An item that is marked `type` binds no value. -/
inductive SpellsItem : List Char → List ImportSpecifier → Prop where
  | blank {text : List Char} (hwords : words isBlank text = []) : SpellsItem text []
  | plain {text name : List Char} {id : Ident} (hwords : words isBlank text = [name])
      (hname : isIdentifier name = true) (hid : id.name = String.ofList name) :
      SpellsItem text [.named id.name id false]
  | renamed {text imported name : List Char} {id : Ident}
      (hwords : words isBlank text = [imported, "as".toList, name])
      (hword : imported ≠ "type".toList) (hname : isIdentifier name = true)
      (hid : id.name = String.ofList name) :
      SpellsItem text [.named (String.ofList imported) id false]
  | marked {text word : List Char} {more : List (List Char)} {imported : String} {id : Ident}
      (hwords : words isBlank text = "type".toList :: word :: more) :
      SpellsItem text [.named imported id true]

/-- A binding of the whole module, or items between braces. -/
inductive SpellsBindings : List Char → List ImportSpecifier → Prop where
  | whole {text name : List Char} {id : Ident} (hwords : words isBlank text = ["as".toList, name])
      (hname : isIdentifier name = true) (hid : id.name = String.ofList name) :
      SpellsBindings ('*' :: text) [.whole id]
  | items {pieces : List (List Char × List ImportSpecifier)} (hne : pieces ≠ [])
      (hpieces : ∀ p ∈ pieces, ',' ∉ p.1 ∧ SpellsItem p.1 p.2) :
      SpellsBindings ('{' :: (join [','] (pieces.map Prod.fst) ++ ['}'])) (pieces.flatMap Prod.snd)

/-- A clause: a default import, other bindings, or both. -/
inductive SpellsClause : List Char → List ImportSpecifier → Prop where
  | default {name : List Char} {id : Ident} (hname : IsName name)
      (hid : id.name = String.ofList name) : SpellsClause name [.default id]
  | bindings {text : List Char} {specifiers : List ImportSpecifier}
      (h : SpellsBindings text specifiers) : SpellsClause text specifiers
  | both {name gap gap' text : List Char} {id : Ident} {specifiers : List ImportSpecifier}
      (hname : IsName name) (hid : id.name = String.ofList name) (hgap : IsGap gap)
      (hgap' : IsGap gap') (h : SpellsBindings text specifiers) :
      SpellsClause (name ++ (gap ++ ',' :: (gap' ++ text))) (.default id :: specifiers)

/-- The named import that a specifier is, unless it is marked `type`. -/
def named? : ImportSpecifier → Option Named
  | .named imported id false => some ⟨imported, id.name⟩
  | _ => none

/-- The local name that a specifier binds the default export to. -/
def default? : ImportSpecifier → Option String
  | .default id => some id.name
  | _ => none

/-- The local name that a specifier binds the whole module to. -/
def whole? : ImportSpecifier → Option String
  | .whole id => some id.name
  | _ => none

/-- The clause that binds what specifiers bind, in their order. -/
def Clause.ofSpecifiers (typeOnly : Bool) (specifiers : List ImportSpecifier) : Clause :=
  ⟨(specifiers.filterMap default?).head?, (specifiers.filterMap whole?).head?,
    specifiers.filterMap named?, typeOnly⟩

theorem Clause.ofSpecifiers_cons_default (typeOnly : Bool) (id : Ident)
    (specifiers : List ImportSpecifier) :
    Clause.ofSpecifiers typeOnly (.default id :: specifiers) =
      { Clause.ofSpecifiers typeOnly specifiers with default := some id.name } := rfl

/-- A clause that binds what the value specifiers of a statement bind. -/
structure Clause.Tells (c : Clause) (specifiers : List ImportSpecifier) : Prop where
  value : c.typeOnly = false
  default : ∀ name, c.default = some name ↔ ∃ id, .default id ∈ specifiers ∧ id.name = name
  whole : ∀ name, c.namespaceName = some name ↔ ∃ id, .whole id ∈ specifiers ∧ id.name = name
  named : ∀ n, n ∈ c.named ↔ ∃ id, .named n.imported id false ∈ specifiers ∧ id.name = n.localName

/-- Names have none of the characters that clauses are divided by. -/
theorem not_mem_of_isIdentifier {name : List Char} (h : isIdentifier name = true) {c : Char}
    (hc : isAlphanumeric c = false ∧ isAlphabetic c = false ∧ c ≠ '_' ∧ c ≠ '$') : c ∉ name := by
  obtain ⟨hnumeric, halpha, hline, hdollar⟩ := hc
  cases name with
  | nil => simp
  | cons d name =>
    simp only [isIdentifier, Bool.and_eq_true, Bool.or_eq_true, beq_iff_eq, List.all_eq_true] at h
    obtain ⟨hd, hname⟩ := h
    intro hmem
    rcases List.mem_cons.mp hmem with rfl | hmem
    · simp [halpha, hline, hdollar] at hd
    · have hc := hname c hmem
      simp [hnumeric, hline, hdollar] at hc

theorem IsName.ne_nil {name : List Char} (h : IsName name) : name ≠ [] := by
  rintro rfl
  have hempty := h.identifier
  cases hempty

theorem IsName.isTrimmed {name : List Char} (h : IsName name) : IsTrimmed name :=
  ⟨fun c hc => h.dark c (List.mem_of_mem_head? hc), fun c hc => h.dark c (List.mem_of_getLast? hc)⟩

/-- What the scan makes of an item. -/
theorem SpellsItem.namedItem_eq {text : List Char} {specifiers : List ImportSpecifier}
    (h : SpellsItem text specifiers) :
    ∃ found, namedItem text = some found ∧ specifiers.filterMap named? = found.toList := by
  cases h with
  | blank hwords => exact ⟨none, by simp [namedItem, hwords], rfl⟩
  | @plain name id hwords hname hid =>
    exact ⟨some ⟨id.name, id.name⟩, by simp [namedItem, hwords, hname, hid], rfl⟩
  | @renamed imported name id hwords hword hname hid =>
    have hmark : imported ≠ ['t', 'y', 'p', 'e'] := hword
    exact ⟨some ⟨String.ofList imported, id.name⟩, by simp [namedItem, hwords, hmark, hname, hid],
      rfl⟩
  | marked hwords => exact ⟨none, by simp [namedItem, hwords], rfl⟩

/-- What the scan makes of all items. -/
theorem namedItems_eq {pieces : List (List Char × List ImportSpecifier)}
    (h : ∀ p ∈ pieces, SpellsItem p.1 p.2) :
    namedItems (pieces.map Prod.fst) = some ((pieces.flatMap Prod.snd).filterMap named?) := by
  induction pieces with
  | nil => rfl
  | cons p pieces ih =>
    obtain ⟨found, hfound, hone⟩ := (h p List.mem_cons_self).namedItem_eq
    have hmore := ih fun q hq => h q (List.mem_cons_of_mem p hq)
    rw [List.flatMap_cons, List.filterMap_append, hone]
    cases found <;> simp [namedItems, hfound, hmore]

theorem SpellsItem.no_default {text : List Char} {specifiers : List ImportSpecifier}
    (h : SpellsItem text specifiers) : ∀ x ∈ specifiers, default? x = none ∧ whole? x = none := by
  cases h <;> simp [default?, whole?]

/-- Between braces there are named imports only. -/
theorem no_default_of_items {pieces : List (List Char × List ImportSpecifier)}
    (h : ∀ p ∈ pieces, ',' ∉ p.1 ∧ SpellsItem p.1 p.2) :
    (pieces.flatMap Prod.snd).filterMap default? = [] ∧
      (pieces.flatMap Prod.snd).filterMap whole? = [] := by
  have hnone : ∀ x ∈ pieces.flatMap Prod.snd, default? x = none ∧ whole? x = none := by
    intro x hx
    obtain ⟨p, hp, hx⟩ := List.mem_flatMap.mp hx
    exact (h p hp).2.no_default x hx
  constructor
  · exact List.filterMap_eq_nil_iff.mpr fun x hx => (hnone x hx).1
  · exact List.filterMap_eq_nil_iff.mpr fun x hx => (hnone x hx).2

theorem SpellsBindings.no_default {text : List Char} {specifiers : List ImportSpecifier}
    (h : SpellsBindings text specifiers) : specifiers.filterMap default? = [] := by
  cases h with
  | whole => rfl
  | items _ hpieces => exact (no_default_of_items hpieces).1

/-- Bindings hold the whole module once at most. -/
theorem SpellsBindings.length_whole_le {text : List Char} {specifiers : List ImportSpecifier}
    (h : SpellsBindings text specifiers) : (specifiers.filterMap whole?).length ≤ 1 := by
  cases h with
  | whole => exact Nat.le_refl 1
  | items _ hpieces =>
    rw [(no_default_of_items hpieces).2]
    exact Nat.zero_le 1

/-- What the scan makes of the bindings behind a default import. -/
theorem SpellsBindings.bindingsPart_eq {text : List Char} {specifiers : List ImportSpecifier}
    (h : SpellsBindings text specifiers) :
    bindingsPart text =
      some ((specifiers.filterMap whole?).head?, specifiers.filterMap named?) := by
  cases h with
  | whole hwords hname hid => simp [bindingsPart, hwords, hname, hid, whole?, named?]
  | @items pieces hne hpieces =>
    have hfields : fields (· == ',') (join [','] (pieces.map Prod.fst)) = pieces.map Prod.fst := by
      refine fields_join (by simpa using hne) fun piece hpiece => ?_
      obtain ⟨p, hp, rfl⟩ := List.mem_map.mp hpiece
      exact (hpieces p hp).1
    have hlast : splitLast? (· == '}') (join [','] (pieces.map Prod.fst) ++ ['}']) =
        some (join [','] (pieces.map Prod.fst), []) :=
      splitLast?_append_char List.not_mem_nil _
    have hitems := namedItems_eq fun p hp => (hpieces p hp).2
    simp only [bindingsPart, hlast, hfields, hitems, (no_default_of_items hpieces).2,
      Option.map_some, List.head?_nil]

/-- The word `type` is no mark where no blank follows it, or a comma does. -/
theorem typeMark_eq_false {cs : List Char}
    (h : ∀ rest, cs = "type".toList ++ rest →
      rest.head?.any isBlank = false ∨ startsWith [','] (rest.dropWhile isBlank) = true) :
    typeMark cs = (false, cs) := by
  unfold typeMark
  split
  · next rest hstrip =>
    have hrest := h rest (eq_append_of_strip? hstrip)
    have hmark :
        (rest.head?.any isBlank && !startsWith [','] (rest.dropWhile isBlank)) = false := by
      rcases hrest with hrest | hrest <;> simp [hrest]
    rw [if_neg (by simp [hmark])]
  · rfl

/-- A clause that imports values has no mark: `type` is followed by the rest of a name, by the end,
    or by a comma. -/
theorem SpellsClause.typeMark_eq {clause : List Char} {specifiers : List ImportSpecifier}
    (h : SpellsClause clause specifiers) : typeMark clause = (false, clause) := by
  have hinside : ∀ {name tail : List Char}, IsName name → name = "type".toList ++ tail →
      tail ≠ [] → ∀ rest, (tail ++ rest).head?.any isBlank = false := by
    intro name tail hname hword htail rest
    cases tail with
    | nil => exact absurd rfl htail
    | cons c tail =>
      have hc : isBlank c = false := hname.dark c (by rw [hword]; simp)
      simpa using hc
  refine typeMark_eq_false fun rest hrest => ?_
  cases h with
  | default hname hid =>
    left
    cases rest with
    | nil => rfl
    | cons c rest => simpa using hinside hname hrest (by simp) []
  | bindings h => cases h <;> simp at hrest
  | @both name gap gap' text id specifiers hname hid hgap hgap' h =>
    -- the comma behind the name, or blanks and the comma
    have hend : (gap ++ ',' :: (gap' ++ text)).head?.any isBlank = false ∨
        startsWith [','] ((gap ++ ',' :: (gap' ++ text)).dropWhile isBlank) = true := by
      right
      rw [dropWhile_gap hgap, List.dropWhile_cons_of_neg (by decide)]
      rfl
    have hhead : ∀ c, (gap ++ ',' :: (gap' ++ text)).head? = some c →
        isBlank c = true ∨ c = ',' := by
      intro c hc
      cases gap with
      | nil => exact .inr (by simpa using hc.symm)
      | cons d gap =>
        cases hc
        exact .inl (hgap c List.mem_cons_self)
    rcases List.append_eq_append_iff.mp hrest with ⟨tail, hword, htail⟩ | ⟨tail, hword, htail⟩
    · cases tail with
      | nil =>
        rw [List.nil_append] at htail
        rw [← htail]
        exact hend
      | cons c tail =>
        -- the word would go on with a blank or a comma
        have hc : c ∈ "type".toList := by
          rw [hword]
          simp
        have hdark : ∀ c ∈ "type".toList, isBlank c = false ∧ c ≠ ',' :=
          List.all_iff_forall_prop.mp (by decide)
        rcases hhead c (by rw [htail]; rfl) with hblank | hcomma
        · rw [(hdark c hc).1] at hblank
          cases hblank
        · exact absurd hcomma (hdark c hc).2
    · cases tail with
      | nil =>
        rw [htail]
        exact hend
      | cons c tail =>
        left
        rw [htail]
        exact hinside hname hword (by simp) _

/-- No clause begins with a comma. -/
theorem SpellsClause.head?_ne_comma {clause : List Char} {specifiers : List ImportSpecifier}
    (h : SpellsClause clause specifiers) : clause.head? ≠ some ',' := by
  have hname : ∀ {name : List Char}, IsName name → ∀ cs, (name ++ cs).head? ≠ some ',' := by
    intro name hname cs hcomma
    have hmem := not_mem_of_isIdentifier hname.identifier (c := ',') (by decide)
    cases name with
    | nil => exact hname.ne_nil rfl
    | cons d name =>
      cases hcomma
      exact hmem List.mem_cons_self
  cases h with
  | default hdefault _ => simpa using hname hdefault []
  | bindings h => cases h <;> simp
  | both hdefault _ _ _ _ => exact hname hdefault _

/-- The text of bindings begins with its own character. -/
theorem SpellsBindings.startsWith_eq {text : List Char} {specifiers : List ImportSpecifier}
    (h : SpellsBindings text specifiers) :
    (startsWith ['{'] text || startsWith ['*'] text) = true := by
  cases h <;> simp [startsWith, strip?]

theorem IsName.startsWith_eq {name : List Char} (h : IsName name) (cs : List Char) :
    (startsWith ['{'] (name ++ cs) || startsWith ['*'] (name ++ cs)) = false := by
  have hbrace := not_mem_of_isIdentifier h.identifier (c := '{') (by decide)
  have hstar := not_mem_of_isIdentifier h.identifier (c := '*') (by decide)
  cases name with
  | nil => exact absurd rfl h.ne_nil
  | cons c name =>
    have hc : ('{' == c) = false ∧ ('*' == c) = false := by
      constructor
      · exact beq_false_of_ne fun heq => hbrace (heq ▸ List.mem_cons_self)
      · exact beq_false_of_ne fun heq => hstar (heq ▸ List.mem_cons_self)
    simp [startsWith, strip?, hc]

/-- A name is what stands before the first comma. -/
theorem IsName.takeWhile_eq {name : List Char} (h : IsName name) :
    ∀ c ∈ name, (c != ',') = true := by
  intro c hc
  have hcomma := not_mem_of_isIdentifier h.identifier (c := ',') (by decide)
  exact bne_iff_ne.mpr fun heq => hcomma (heq ▸ hc)

/-- A name with blanks behind it ends before a comma. -/
theorem IsName.no_comma {name gap : List Char} (h : IsName name) (hgap : IsGap gap) :
    ∀ c ∈ name ++ gap, (c != ',') = true := by
  intro c hc
  rcases List.mem_append.mp hc with hc | hc
  · exact h.takeWhile_eq c hc
  · refine bne_iff_ne.mpr ?_
    rintro rfl
    have hblank := hgap _ hc
    revert hblank
    decide

theorem IsName.trim_append_gap {name gap : List Char} (h : IsName name) (hgap : IsGap gap) :
    trim isBlank (name ++ gap) = name := by
  have hhead : (name ++ gap).dropWhile isBlank = name ++ gap := by
    refine dropWhile_eq_self fun c hc => h.isTrimmed.1 c ?_
    cases name with
    | nil => exact absurd rfl h.ne_nil
    | cons d name => exact hc
  rw [trim, hhead, dropEnd_append hgap, dropEnd_eq_self h.isTrimmed.2]

/-- Bindings at the end of a clause, with blanks before them. -/
theorem SpellsBindings.trim_gap_append {gap text : List Char}
    {specifiers : List ImportSpecifier} (h : SpellsBindings text specifiers) (hgap : IsGap gap)
    (before : List Char) (htrim : IsTrimmed (before ++ text)) :
    trim isBlank (gap ++ text) = text := by
  have hhead : text.dropWhile isBlank = text := by
    cases h <;> rw [List.dropWhile_cons_of_neg (by decide)]
  have hlast : ∀ c, text.getLast? = some c → isBlank c = false := by
    intro c hc
    refine htrim.2 c ?_
    rw [List.getLast?_append, hc]
    rfl
  rw [trim, dropWhile_gap hgap, hhead, dropEnd_eq_self hlast]

/-- **Clauses are read as they are spelled**, with the mark that they begin with. -/
theorem SpellsClause.parseClause_of_typeMark {body : List Char} {specifiers : List ImportSpecifier}
    (h : SpellsClause body specifiers) (htrim : IsTrimmed body) {clause : List Char}
    {typeOnly : Bool} (hmark : typeMark (trim isBlank clause) = (typeOnly, body)) :
    parseClause clause = some (.ofSpecifiers typeOnly specifiers) := by
  unfold parseClause
  rw [hmark]
  cases h with
  | default hname hid =>
    have hstart := hname.startsWith_eq []
    rw [List.append_nil] at hstart
    have htake : (body ++ []).takeWhile (· != ',') = body ++ [] :=
      List.takeWhile_append_of_pos hname.takeWhile_eq
    have hdrop : (body ++ []).dropWhile (· != ',') = [] :=
      List.dropWhile_append_of_pos hname.takeWhile_eq
    rw [List.append_nil] at htake hdrop
    have hempty : trim isBlank [] = [] := rfl
    simp [hstart, htake, hdrop, htrim.trim_eq, hname.identifier, hempty, bindingsPart, hid,
      Clause.ofSpecifiers, default?, whole?, named?]
  | bindings h =>
    simp [h.startsWith_eq, h.bindingsPart_eq, h.no_default, Clause.ofSpecifiers]
  | @both name gap gap' text id specifiers hname hid hgap hgap' h =>
    have hstart := hname.startsWith_eq (gap ++ ',' :: (gap' ++ text))
    have hcomma := hname.no_comma hgap
    have htext :
        name ++ (gap ++ ',' :: (gap' ++ text)) = (name ++ gap) ++ ',' :: (gap' ++ text) := by
      rw [List.append_assoc]
    have htake : (name ++ (gap ++ ',' :: (gap' ++ text))).takeWhile (· != ',') = name ++ gap := by
      rw [htext, List.takeWhile_append_of_pos hcomma, List.takeWhile_cons_of_neg (by simp),
        List.append_nil]
    have hdrop : (name ++ (gap ++ ',' :: (gap' ++ text))).dropWhile (· != ',') =
        ',' :: (gap' ++ text) := by
      rw [htext, List.dropWhile_append_of_pos hcomma, List.dropWhile_cons_of_neg (by simp)]
    have htrimName := hname.trim_append_gap hgap
    have htrimText : trim isBlank (gap' ++ text) = text := by
      refine h.trim_gap_append hgap' (name ++ (gap ++ ',' :: gap')) ?_
      simpa using htrim
    rw [Clause.ofSpecifiers_cons_default]
    simp [hstart, htake, hdrop, htrimName, hname.identifier, htrimText, h.bindingsPart_eq, hid,
      Clause.ofSpecifiers]

theorem head?_eq_some_iff {α : Type} {xs : List α} (h : xs.length ≤ 1) {a : α} :
    xs.head? = some a ↔ a ∈ xs := by
  match xs with
  | [] => simp
  | [x] => simp [eq_comm]
  | _ :: _ :: _ => simp at h

/-- A clause of specifiers tells them, when each module has one default export and is held
    once. -/
theorem Clause.tells_ofSpecifiers {specifiers : List ImportSpecifier}
    (hdefault : (specifiers.filterMap default?).length ≤ 1)
    (hwhole : (specifiers.filterMap whole?).length ≤ 1) :
    (Clause.ofSpecifiers false specifiers).Tells specifiers := by
  refine ⟨rfl, fun name => ?_, fun name => ?_, fun n => ?_⟩
  · show (specifiers.filterMap default?).head? = some name ↔ _
    rw [head?_eq_some_iff hdefault, List.mem_filterMap]
    constructor
    · rintro ⟨x, hx, hname⟩
      cases x with
      | default id => exact ⟨id, hx, by simpa [default?] using hname⟩
      | _ => cases hname
    · rintro ⟨id, hid, rfl⟩
      exact ⟨.default id, hid, rfl⟩
  · show (specifiers.filterMap whole?).head? = some name ↔ _
    rw [head?_eq_some_iff hwhole, List.mem_filterMap]
    constructor
    · rintro ⟨x, hx, hname⟩
      cases x with
      | whole id => exact ⟨id, hx, by simpa [whole?] using hname⟩
      | _ => cases hname
    · rintro ⟨id, hid, rfl⟩
      exact ⟨.whole id, hid, rfl⟩
  · show n ∈ specifiers.filterMap named? ↔ _
    rw [List.mem_filterMap]
    constructor
    · rintro ⟨x, hx, hname⟩
      match x with
      | .named imported id false =>
        cases hname
        exact ⟨id, hx, rfl⟩
    · rintro ⟨id, hid, hname⟩
      exact ⟨.named n.imported id false, hid, by simp [named?, hname]⟩

/-- What the scan reads in a clause that imports values tells what it binds. -/
theorem SpellsClause.parseClause_eq {clause : List Char} {specifiers : List ImportSpecifier}
    (h : SpellsClause clause specifiers) (htrim : IsTrimmed clause) :
    ∃ c, parseClause clause = some c ∧ c.Tells specifiers := by
  have hmark : typeMark (trim isBlank clause) = (false, clause) := by
    rw [htrim.trim_eq, h.typeMark_eq]
  refine ⟨_, h.parseClause_of_typeMark htrim hmark, ?_⟩
  cases h with
  | default => exact Clause.tells_ofSpecifiers (Nat.le_refl 1) (Nat.zero_le 1)
  | bindings h =>
    apply Clause.tells_ofSpecifiers
    · rw [h.no_default]
      exact Nat.zero_le 1
    · exact h.length_whole_le
  | both _ _ _ _ h =>
    apply Clause.tells_ofSpecifiers
    · show (_ :: List.filterMap default? _).length ≤ 1
      rw [h.no_default]
      exact Nat.le_refl 1
    · exact h.length_whole_le

/-- A clause that begins with the mark of a statement about types. -/
def IsTypeClause (clause : List Char) : Prop :=
  ∃ c rest, clause = "type".toList ++ c :: rest ∧ isBlank c = true ∧
    (rest.dropWhile isBlank).head? ≠ some ','

/-- The word `type` is a mark where a blank follows it, and then no comma. -/
theorem typeMark_eq_true {d : Char} {rest : List Char} (hd : isBlank d = true)
    (hcomma : (rest.dropWhile isBlank).head? ≠ some ',') :
    typeMark ("type".toList ++ d :: rest) = (true, rest.dropWhile isBlank) := by
  have hstrip : strip? "type".toList ("type".toList ++ d :: rest) = some (d :: rest) :=
    strip?_append _ _
  have hdrop : (d :: rest).dropWhile isBlank = rest.dropWhile isBlank :=
    List.dropWhile_cons_of_pos hd
  have hnot : startsWith [','] (rest.dropWhile isBlank) = false := by
    cases hrest : rest.dropWhile isBlank with
    | nil => rfl
    | cons e rest' =>
      rw [hrest] at hcomma
      have hne : (',' == e) = false := by
        refine beq_false_of_ne ?_
        rintro rfl
        exact hcomma rfl
      simp [startsWith, strip?, hne]
  have hblank : (d :: rest).head?.any isBlank = true := by simpa using hd
  simp only [typeMark, hstrip, hdrop, hblank, hnot, Bool.not_false, Bool.and_self, if_true]

theorem typeOnly_of_parseClause {clause : List Char} (h : IsTypeClause clause)
    (htrim : IsTrimmed clause) {c : Clause} (hc : parseClause clause = some c) :
    c.typeOnly = true := by
  have hmark : (typeMark (trim isBlank clause)).1 = true := by
    obtain ⟨d, rest, rfl, hd, hcomma⟩ := h
    rw [htrim.trim_eq, typeMark_eq_true hd hcomma]
  unfold parseClause at hc
  dsimp only at hc
  split at hc
  · obtain ⟨b, -, rfl⟩ := Option.map_eq_some_iff.mp hc
    exact hmark
  · split at hc
    · obtain ⟨b, -, rfl⟩ := Option.map_eq_some_iff.mp hc
      exact hmark
    · cases hc

/-! ## Section 6: The scan -/

/-- What the scan does where a statement is read. -/
theorem scan_of_matchAt {lineStart : Bool} {cs specifier rest : List Char} {indent : Nat}
    {clause : Option (List Char)}
    (h : matchAt lineStart cs = some (indent, clause, specifier, rest)) (fuel pos : Nat) :
    scan (fuel + 1) pos lineStart cs =
      (record? (pos + indent) (pos + (byteLength cs - byteLength rest)) clause specifier).toList ++
        scan fuel (pos + (byteLength cs - byteLength rest)) false rest := by
  cases cs with
  | nil => cases lineStart <;> cases h
  | cons c cs => rw [scan, h]

end BuildMacros.Import
