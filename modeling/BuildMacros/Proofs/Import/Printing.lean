import BuildMacros.Proofs.Import.Spelling
import BuildMacros.Proofs.Text.Bytes

/-! # Imports that are printed

    A record of an import can be printed on a line of its own, with single blanks between
    the parts of the statement. The scan of such lines gives the records back, in their
    order, with the offsets of their lines (`findImports_printed`).

    Printed statements are spelled plainly, so most of this is what `Spelling` says of the
    scan. Names may be words that statements are made of: `from` and `as` are read as names
    where names stand, and `typeX` is no mark. Only the name `type` itself is left out,
    because an item `type as x` is taken for a type.
-/

namespace BuildMacros.Import

open BuildMacros.Text BuildMacros.Script

/-! ## Section 1: Printing -/

/-- An item between braces, with one name when the local name is the imported one. -/
def Named.text (n : Named) : List Char :=
  if n.imported = n.localName then n.localName.toList
  else n.imported.toList ++ ' ' :: ("as".toList ++ ' ' :: n.localName.toList)

/-- Items between braces. -/
def bracesText (ns : List Named) : List Char :=
  '{' :: ' ' :: (join [',', ' '] (ns.map Named.text) ++ [' ', '}'])

/-- The bindings of a clause other than the default import. -/
def Clause.others (c : Clause) : List (List Char) :=
  c.namespaceName.toList.map (fun name => '*' :: ' ' :: ("as".toList ++ ' ' :: name.toList)) ++
    if c.named = [] then [] else [bracesText c.named]

/-- The bindings of a clause. -/
def Clause.bindings (c : Clause) : List Char :=
  join [',', ' '] (c.default.toList.map String.toList ++ c.others)

def Clause.text (c : Clause) : List Char :=
  if c.typeOnly then "type".toList ++ ' ' :: c.bindings else c.bindings

def Clause.BindsNothing (c : Clause) : Prop :=
  c.default = none ∧ c.namespaceName = none ∧ c.named = []

instance (c : Clause) : Decidable c.BindsNothing :=
  inferInstanceAs (Decidable (c.default = none ∧ c.namespaceName = none ∧ c.named = []))

/-- A specifier in quotes. -/
def quoted (specifier : List Char) : List Char := '"' :: (specifier ++ ['"'])

/-- What follows the keyword of a statement. -/
def Record.tail (r : Record) : List Char :=
  if r.clause.BindsNothing then [' '] ++ quoted r.specifier.toList
  else
    [' '] ++ (r.clause.text ++ ([' '] ++ (fromWord ++ ([' '] ++ quoted r.specifier.toList))))

/-- A statement, wherever its record says that it stands. -/
def Record.text (r : Record) : List Char := importWord ++ r.tail

/-- Statements on lines of their own. -/
def printed (rs : List Record) : List Char := rs.flatMap fun r => r.text ++ ['\n']

/-- Records with the offsets that their lines have behind an offset. -/
def placed (pos : Nat) : List Record → List Record
  | [] => []
  | r :: rs =>
    ⟨r.specifier, r.clause, pos, pos + byteLength r.text⟩ :: placed (pos + byteLength r.text + 1) rs

/-! ## Section 2: Records that can be printed -/

def isNameChar (c : Char) : Bool := c.isAlphanum || c == '_' || c == '$'

/-- An identifier of ASCII characters. -/
def isAsciiIdentifier : List Char → Bool
  | [] => false
  | c :: cs => (c.isAlpha || c == '_' || c == '$') && cs.all isNameChar

/-- An ASCII identifier other than the mark of types. -/
def IsPlainName (name : String) : Prop := isAsciiIdentifier name.toList = true ∧ name ≠ "type"

instance (name : String) : Decidable (IsPlainName name) :=
  inferInstanceAs (Decidable (isAsciiIdentifier name.toList = true ∧ name ≠ "type"))

/-- An item of plain names. -/
def Named.IsPlain (n : Named) : Prop := IsPlainName n.imported ∧ IsPlainName n.localName

instance (n : Named) : Decidable n.IsPlain :=
  inferInstanceAs (Decidable (IsPlainName n.imported ∧ IsPlainName n.localName))

/-- A clause that can be printed: plain names, and items only where the whole module is not
    bound. A clause that is marked `type` binds something. -/
structure Clause.Printable (c : Clause) : Prop where
  default : ∀ name ∈ c.default, IsPlainName name
  whole : ∀ name ∈ c.namespaceName, IsPlainName name
  named : ∀ n ∈ c.named, n.IsPlain
  single : c.namespaceName = none ∨ c.named = []
  marked : c.typeOnly = true → ¬c.BindsNothing

instance (c : Clause) : Decidable c.Printable :=
  decidable_of_iff
    ((∀ name ∈ c.default, IsPlainName name) ∧ (∀ name ∈ c.namespaceName, IsPlainName name) ∧
      (∀ n ∈ c.named, n.IsPlain) ∧
      (c.namespaceName = none ∨ c.named = []) ∧ (c.typeOnly = true → ¬c.BindsNothing))
    ⟨fun ⟨h₁, h₂, h₃, h₄, h₅⟩ => ⟨h₁, h₂, h₃, h₄, h₅⟩,
      fun ⟨h₁, h₂, h₃, h₄, h₅⟩ => ⟨h₁, h₂, h₃, h₄, h₅⟩⟩

/-- A record that can be printed: its specifier is one between quotes on one line. -/
structure Record.Printable (r : Record) : Prop where
  clause : r.clause.Printable
  nonempty : r.specifier.toList ≠ []
  line : ∀ c ∈ r.specifier.toList, isQuote c = false ∧ c ≠ '\n'

instance (r : Record) : Decidable r.Printable :=
  decidable_of_iff
    (r.clause.Printable ∧ r.specifier.toList ≠ [] ∧
      r.specifier.toList.all (fun c => isQuote c = false ∧ c ≠ '\n') = true)
    ⟨fun ⟨h₁, h₂, h₃⟩ => ⟨h₁, h₂, List.all_iff_forall_prop.mp h₃⟩,
      fun ⟨h₁, h₂, h₃⟩ => ⟨h₁, h₂, List.all_iff_forall_prop.mpr h₃⟩⟩

/-! ## Section 3: Names -/

theorem lt_of_isNameChar {c : Char} (h : isNameChar c = true) : c.toNat < 128 := by
  simp only [isNameChar, Bool.or_eq_true, beq_iff_eq] at h
  rcases h with (h | rfl) | rfl
  · exact lt_of_isAlphanum h
  · decide
  · decide

/-- What the scan makes of the characters of names. -/
theorem isNameChar_spec {c : Char} (h : isNameChar c = true) :
    isBlank c = false ∧ isClauseChar c = true ∧ c ≠ ',' ∧
      (isAlphanumeric c || c == '_' || c == '$') = true := by
  have hascii : ∀ n < 128, isNameChar (Char.ofNat n) = true →
      isBlank (Char.ofNat n) = false ∧ isClauseChar (Char.ofNat n) = true ∧ Char.ofNat n ≠ ',' ∧
        (isAlphanumeric (Char.ofNat n) || Char.ofNat n == '_' || Char.ofNat n == '$') = true := by
    decide
  have hc := hascii c.toNat (lt_of_isNameChar h)
  rw [Char.ofNat_toNat] at hc
  exact hc h

theorem isAlphabetic_of_isAlpha {c : Char} (h : c.isAlpha = true) : isAlphabetic c = true := by
  have hlt : c.toNat < 128 := lt_of_isAlphanum (by simp [Char.isAlphanum, h])
  rw [isAlphabetic, if_pos hlt]
  exact h

/-- ASCII identifiers are identifiers, and their first characters are characters of names. -/
theorem isIdentifier_of_ascii {cs : List Char} (h : isAsciiIdentifier cs = true) :
    isIdentifier cs = true ∧ ∀ c ∈ cs, isNameChar c = true := by
  cases cs with
  | nil => cases h
  | cons c cs =>
    rw [isAsciiIdentifier, Bool.and_eq_true, List.all_eq_true] at h
    obtain ⟨hfirst, hmore⟩ := h
    have hstart : (isAlphabetic c || c == '_' || c == '$') = true ∧ isNameChar c = true := by
      simp only [Bool.or_eq_true] at hfirst
      rcases hfirst with (halpha | hline) | hdollar
      · simp [isAlphabetic_of_isAlpha halpha, isNameChar, Char.isAlphanum, halpha]
      · simp [isNameChar, hline]
      · simp [isNameChar, hdollar]
    constructor
    · rw [isIdentifier, Bool.and_eq_true, List.all_eq_true]
      exact ⟨hstart.1, fun d hd => (isNameChar_spec (hmore d hd)).2.2.2⟩
    · exact List.forall_mem_cons.mpr ⟨hstart.2, hmore⟩

theorem isName_of_ascii {cs : List Char} (h : isAsciiIdentifier cs = true) : IsName cs := by
  obtain ⟨hidentifier, hchars⟩ := isIdentifier_of_ascii h
  exact ⟨hidentifier, fun c hc => (isNameChar_spec (hchars c hc)).1⟩

/-! ## Section 4: Items -/

section

variable {n : Named} {ns : List Named}

/-- An identifier without a place in a text. The scan does not look at places. -/
def unplaced (name : String) : Ident := ⟨name, ⟨0, 0⟩⟩

/-- The specifier that an item is read as. -/
def Named.specifier (n : Named) : ImportSpecifier := .named n.imported (unplaced n.localName) false

/-- Blanks behind a name are no word. -/
theorem words_gap {name gap : List Char} (hname : IsName name) (hgap : IsGap gap) :
    words isBlank (name ++ gap) = [name] := by
  have hend : ∀ c, gap.head? = some c → isBlank c = true :=
    fun c hc => hgap c (List.mem_of_mem_head? hc)
  rw [words_append hname.ne_nil hname.dark hend, words_of_sep hgap]

/-- The words of a new name. -/
theorem words_as {name gap : List Char} (hname : IsName name) (hgap : IsGap gap) :
    words isBlank (' ' :: ("as".toList ++ ' ' :: (name ++ gap))) = ["as".toList, name] := by
  have has : ∀ c ∈ "as".toList, isBlank c = false := List.all_iff_forall_prop.mp (by decide)
  rw [words_cons_of_sep rfl, words_append (by decide) has (by simp; rfl), words_cons_of_sep rfl,
    words_gap hname hgap]

/-- The characters of an item are those of its names, and blanks. -/
theorem Named.IsPlain.chars (h : n.IsPlain) : ∀ c ∈ n.text, isNameChar c = true ∨ c = ' ' := by
  intro c hc
  unfold Named.text at hc
  split at hc
  · exact .inl ((isIdentifier_of_ascii h.2.1).2 c hc)
  · simp only [List.mem_append, List.mem_cons] at hc
    rcases hc with hc | rfl | hc | rfl | hc
    · exact .inl ((isIdentifier_of_ascii h.1.1).2 c hc)
    · exact .inr rfl
    · have has : ∀ c ∈ "as".toList, isNameChar c = true := List.all_iff_forall_prop.mp (by decide)
      exact .inl (has c hc)
    · exact .inr rfl
    · exact .inl ((isIdentifier_of_ascii h.2.1).2 c hc)

theorem Named.IsPlain.no_comma (h : n.IsPlain) {gap : List Char} (hgap : IsGap gap) :
    ',' ∉ ' ' :: (n.text ++ gap) := by
  intro hcomma
  rw [List.mem_cons, List.mem_append] at hcomma
  rcases hcomma with hcomma | hcomma | hcomma
  · cases hcomma
  · rcases h.chars ',' hcomma with hchar | hblank
    · exact (isNameChar_spec hchar).2.2.1 rfl
    · cases hblank
  · have hblank := hgap ',' hcomma
    revert hblank
    decide

/-- An item is spelled as it is printed. -/
theorem Named.IsPlain.spells (h : n.IsPlain) {gap : List Char} (hgap : IsGap gap) :
    SpellsItem (' ' :: (n.text ++ gap)) [n.specifier] := by
  obtain ⟨himported, hlocal⟩ := h
  have hname := isName_of_ascii hlocal.1
  by_cases hsame : n.imported = n.localName
  · have hwords : words isBlank (' ' :: (n.text ++ gap)) = [n.localName.toList] := by
      rw [Named.text, if_pos hsame, words_cons_of_sep rfl, words_gap hname hgap]
    rw [Named.specifier, hsame]
    exact @SpellsItem.plain _ _ (unplaced n.localName) hwords hname.identifier
      String.ofList_toList.symm
  · have hfirst := isName_of_ascii himported.1
    have hwords : words isBlank (' ' :: (n.text ++ gap)) =
        [n.imported.toList, "as".toList, n.localName.toList] := by
      rw [Named.text, if_neg hsame, words_cons_of_sep rfl, List.append_assoc,
        words_append hfirst.ne_nil hfirst.dark (by simp; rfl)]
      simpa using words_as hname hgap
    -- the first word of the item is no mark
    have hword : n.imported.toList ≠ "type".toList := by
      intro heq
      exact himported.2 (String.toList_injective heq)
    have hspells := @SpellsItem.renamed _ _ _ (unplaced n.localName) hwords hword hname.identifier
      String.ofList_toList.symm
    rwa [String.ofList_toList] at hspells

/-- Items with the blanks around them: one before each of them and one behind the last. -/
def spaced : List Named → List (List Char × List ImportSpecifier)
  | [] => []
  | [n] => [(' ' :: (n.text ++ [' ']), [n.specifier])]
  | n :: n' :: ns => (' ' :: (n.text ++ []), [n.specifier]) :: spaced (n' :: ns)

theorem spaced_ne_nil (hne : ns ≠ []) : spaced ns ≠ [] := by
  match ns with
  | [] => exact absurd rfl hne
  | [_] => exact List.cons_ne_nil _ _
  | _ :: _ :: _ => exact List.cons_ne_nil _ _

/-- The comma of the one spelling is that of the other, with its blank in the item behind it. -/
theorem join_spaced (hne : ns ≠ []) :
    join [','] ((spaced ns).map Prod.fst) =
      ' ' :: (join [',', ' '] (ns.map Named.text) ++ [' ']) := by
  induction ns with
  | nil => exact absurd rfl hne
  | cons n ns ih =>
    cases ns with
    | nil => rfl
    | cons n' ns =>
      have hmore := ih (List.cons_ne_nil n' ns)
      -- the first item in front of the others, whatever they are
      have hcomma : join [','] ([' ' :: (n.text ++ [])] ++ (spaced (n' :: ns)).map Prod.fst) =
          ' ' :: n.text ++ ([','] ++ join [','] ((spaced (n' :: ns)).map Prod.fst)) := by
        rw [join_append (List.cons_ne_nil _ _)
          (by simpa using spaced_ne_nil (List.cons_ne_nil _ _)), List.append_nil]
        rfl
      show join [','] ([' ' :: (n.text ++ [])] ++ (spaced (n' :: ns)).map Prod.fst) =
        ' ' :: (n.text ++ [',', ' '] ++ join [',', ' '] ((n' :: ns).map Named.text) ++ [' '])
      rw [hcomma, hmore]
      simp

theorem flatMap_spaced (ns : List Named) :
    (spaced ns).flatMap Prod.snd = ns.map Named.specifier := by
  induction ns with
  | nil => rfl
  | cons n ns ih =>
    cases ns with
    | nil => rfl
    | cons n' ns =>
      rw [List.map_cons, ← ih]
      rfl

theorem spellsItem_of_mem_spaced (h : ∀ n ∈ ns, n.IsPlain) :
    ∀ p ∈ spaced ns, ',' ∉ p.1 ∧ SpellsItem p.1 p.2 := by
  induction ns with
  | nil => simp [spaced]
  | cons n ns ih =>
    obtain ⟨hn, hns⟩ := List.forall_mem_cons.mp h
    cases ns with
    | nil => exact List.forall_mem_singleton.mpr ⟨hn.no_comma isGap_blank, hn.spells isGap_blank⟩
    | cons n' ns =>
      exact List.forall_mem_cons.mpr ⟨⟨hn.no_comma isGap_nil, hn.spells isGap_nil⟩, ih hns⟩

/-- Items are spelled between braces as they are printed. -/
theorem spells_bracesText (hne : ns ≠ []) (h : ∀ n ∈ ns, n.IsPlain) :
    SpellsBindings (bracesText ns) (ns.map Named.specifier) := by
  have htext : bracesText ns = '{' :: (join [','] ((spaced ns).map Prod.fst) ++ ['}']) := by
    rw [join_spaced hne]
    simp [bracesText]
  rw [htext, ← flatMap_spaced]
  exact .items (spaced_ne_nil hne) (spellsItem_of_mem_spaced h)

end

/-! ## Section 5: Clauses -/

section

variable {c : Clause}

/-- A text that can stand as the clause of a statement. -/
structure IsClauseText (cs : List Char) : Prop where
  trimmed : IsTrimmed cs
  chars : ∀ c ∈ cs, isClauseChar c = true
  ne_nil : cs ≠ []

/-- What stands between two such texts may be blank. -/
theorem IsClauseText.append {xs mid ys : List Char} (hx : IsClauseText xs)
    (hmid : ∀ c ∈ mid, isClauseChar c = true) (hy : IsClauseText ys) :
    IsClauseText (xs ++ (mid ++ ys)) := by
  refine ⟨⟨fun c hc => ?_, fun c hc => ?_⟩, fun c hc => ?_, by simp [hx.ne_nil]⟩
  · rw [List.head?_append, List.head?_eq_some_head hx.ne_nil, Option.some_or] at hc
    exact hx.trimmed.1 c (by rw [List.head?_eq_some_head hx.ne_nil, hc])
  · rw [← List.append_assoc, List.getLast?_append, List.getLast?_eq_some_getLast hy.ne_nil,
      Option.some_or] at hc
    exact hy.trimmed.2 c (by rw [List.getLast?_eq_some_getLast hy.ne_nil, hc])
  · simp only [List.mem_append] at hc
    rcases hc with hc | hc | hc
    · exact hx.chars c hc
    · exact hmid c hc
    · exact hy.chars c hc

theorem IsClauseText.singleton {d : Char} (hd : isBlank d = false) (hchar : isClauseChar d = true) :
    IsClauseText [d] := by
  refine ⟨⟨?_, ?_⟩, List.forall_mem_singleton.mpr hchar, List.cons_ne_nil d []⟩
  · rintro c ⟨⟩
    exact hd
  · rintro c ⟨⟩
    exact hd

theorem isClauseText_of_ascii {cs : List Char} (h : isAsciiIdentifier cs = true) :
    IsClauseText cs :=
  ⟨(isName_of_ascii h).isTrimmed,
    fun c hc => (isNameChar_spec ((isIdentifier_of_ascii h).2 c hc)).2.1,
    (isName_of_ascii h).ne_nil⟩

theorem isClauseChar_of_mem_comma : ∀ c ∈ [',', ' '], isClauseChar c = true :=
  List.all_iff_forall_prop.mp (by decide)

theorem isClauseText_bracesText {ns : List Named} (h : ∀ n ∈ ns, n.IsPlain) :
    IsClauseText (bracesText ns) := by
  have hmid : ∀ c ∈ ' ' :: (join [',', ' '] (ns.map Named.text) ++ [' ']),
      isClauseChar c = true := by
    intro c hc
    rw [List.mem_cons, List.mem_append, List.mem_singleton] at hc
    rcases hc with rfl | hc | rfl
    · rfl
    · rcases mem_join hc with hc | ⟨text, htext, hc⟩
      · exact isClauseChar_of_mem_comma c hc
      · obtain ⟨n, hn, rfl⟩ := List.mem_map.mp htext
        rcases (h n hn).chars c hc with hchar | rfl
        · exact (isNameChar_spec hchar).2.1
        · rfl
    · rfl
  have hbraces := (IsClauseText.singleton (d := '{') rfl rfl).append hmid
    (IsClauseText.singleton (d := '}') rfl rfl)
  simpa [bracesText] using hbraces

/-- The specifiers of the bindings other than the default import. -/
def Clause.otherSpecifiers (c : Clause) : List ImportSpecifier :=
  c.namespaceName.toList.map (fun name => .whole (unplaced name)) ++ c.named.map Named.specifier

/-- The specifiers that a clause is read from when it is printed. -/
def Clause.specifiers (c : Clause) : List ImportSpecifier :=
  c.default.toList.map (fun name => .default (unplaced name)) ++ c.otherSpecifiers

/-- Specifiers keep all that a clause says. -/
theorem Clause.ofSpecifiers_specifiers (c : Clause) :
    .ofSpecifiers c.typeOnly c.specifiers = c := by
  obtain ⟨default, namespaceName, named, typeOnly⟩ := c
  have hnamed : (named.map Named.specifier).filterMap named? = named := by
    rw [List.filterMap_map]
    exact List.filterMap_some
  have hdefault : (named.map Named.specifier).filterMap default? = [] :=
    List.filterMap_eq_nil_iff.mpr (List.forall_mem_map.mpr fun _ _ => rfl)
  have hwhole : (named.map Named.specifier).filterMap whole? = [] :=
    List.filterMap_eq_nil_iff.mpr (List.forall_mem_map.mpr fun _ _ => rfl)
  simp only [Clause.ofSpecifiers, Clause.specifiers, Clause.otherSpecifiers, List.filterMap_append,
    hnamed, hdefault, hwhole]
  cases default <;> cases namespaceName <;> rfl

/-- There is at most one part behind a default import. -/
theorem Clause.Printable.others_cases (h : c.Printable) :
    (c.namespaceName = none ∧ c.named = []) ∨ ∃ text, c.others = [text] ∧ IsClauseText text ∧
      SpellsBindings text c.otherSpecifiers := by
  cases hspace : c.namespaceName with
  | some name =>
    right
    have hascii := (h.whole name hspace).1
    have hname := isName_of_ascii hascii
    have hitems : c.named = [] := by
      rcases h.single with hnone | hitems
      · rw [hspace] at hnone
        cases hnone
      · exact hitems
    refine ⟨'*' :: ' ' :: ("as".toList ++ ' ' :: name.toList), ?_, ?_, ?_⟩
    · simp [Clause.others, hspace, hitems]
    · have hmid : ∀ c ∈ ' ' :: ("as".toList ++ [' ']), isClauseChar c = true :=
        List.all_iff_forall_prop.mp (by decide)
      have hword := isClauseText_of_ascii hascii
      have hstar := (IsClauseText.singleton (d := '*') rfl rfl).append hmid hword
      simpa using hstar
    · have hspecifiers : c.otherSpecifiers = [.whole (unplaced name)] := by
        simp [Clause.otherSpecifiers, hspace, hitems]
      have hwords := words_as hname isGap_nil
      rw [List.append_nil] at hwords
      rw [hspecifiers]
      exact .whole hwords hname.identifier String.ofList_toList.symm
  | none =>
    by_cases hitems : c.named = []
    · exact .inl ⟨rfl, hitems⟩
    · right
      refine ⟨bracesText c.named, ?_, isClauseText_bracesText h.named, ?_⟩
      · simp [Clause.others, hspace, hitems]
      · have hspecifiers : c.otherSpecifiers = c.named.map Named.specifier := by
          simp [Clause.otherSpecifiers, hspace]
        rw [hspecifiers]
        exact spells_bracesText hitems h.named

/-- Bindings are spelled as they are printed. -/
theorem Clause.Printable.spells (h : c.Printable) (hbinds : ¬c.BindsNothing) :
    IsClauseText c.bindings ∧ SpellsClause c.bindings c.specifiers := by
  cases hdefault : c.default with
  | none =>
    rcases h.others_cases with ⟨hspace, hitems⟩ | ⟨text, htext, hclause, hspells⟩
    · exact absurd ⟨hdefault, hspace, hitems⟩ hbinds
    · have hbindings : c.bindings = text := by simp [Clause.bindings, hdefault, htext, join]
      have hspecifiers : c.specifiers = c.otherSpecifiers := by simp [Clause.specifiers, hdefault]
      rw [hbindings, hspecifiers]
      exact ⟨hclause, .bindings hspells⟩
  | some name =>
    have hascii := (h.default name hdefault).1
    have hname := isName_of_ascii hascii
    rcases h.others_cases with ⟨hspace, hitems⟩ | ⟨text, htext, hclause, hspells⟩
    · have hbindings : c.bindings = name.toList := by
        simp [Clause.bindings, Clause.others, hdefault, hspace, hitems, join]
      have hspecifiers : c.specifiers = [.default (unplaced name)] := by
        simp [Clause.specifiers, Clause.otherSpecifiers, hdefault, hspace, hitems]
      rw [hbindings, hspecifiers]
      exact ⟨isClauseText_of_ascii hascii, .default hname String.ofList_toList.symm⟩
    · have hbindings : c.bindings = name.toList ++ ([',', ' '] ++ text) := by
        simp [Clause.bindings, hdefault, htext, join]
      have hspecifiers : c.specifiers = .default (unplaced name) :: c.otherSpecifiers := by
        simp [Clause.specifiers, hdefault]
      rw [hbindings, hspecifiers]
      constructor
      · exact (isClauseText_of_ascii hascii).append isClauseChar_of_mem_comma hclause
      · exact .both hname String.ofList_toList.symm isGap_nil isGap_blank hspells

/-- **A clause is read as it is printed**, with its mark. -/
theorem Clause.Printable.parseClause_text (h : c.Printable) (hbinds : ¬c.BindsNothing) :
    IsClauseText c.text ∧ parseClause c.text = some c := by
  obtain ⟨hclause, hspells⟩ := h.spells hbinds
  cases htype : c.typeOnly with
  | false =>
    have htext : c.text = c.bindings := by simp [Clause.text, htype]
    have hmark : typeMark (trim isBlank c.bindings) = (c.typeOnly, c.bindings) := by
      rw [hclause.trimmed.trim_eq, hspells.typeMark_eq, htype]
    have hread := hspells.parseClause_of_typeMark hclause.trimmed hmark
    rw [Clause.ofSpecifiers_specifiers] at hread
    rw [htext]
    exact ⟨hclause, hread⟩
  | true =>
    have htext : c.text = "type".toList ++ ([' '] ++ c.bindings) := by simp [Clause.text, htype]
    have hword : IsClauseText "type".toList := isClauseText_of_ascii rfl
    have hmarked : IsClauseText c.text := by
      rw [htext]
      exact hword.append (List.forall_mem_singleton.mpr rfl) hclause
    have hdrop : c.bindings.dropWhile isBlank = c.bindings :=
      dropWhile_eq_self hclause.trimmed.1
    have hcomma : (c.bindings.dropWhile isBlank).head? ≠ some ',' := by
      rw [hdrop]
      exact hspells.head?_ne_comma
    have hmark : typeMark (trim isBlank c.text) = (c.typeOnly, c.bindings) := by
      rw [hmarked.trimmed.trim_eq, htext, List.singleton_append, typeMark_eq_true rfl hcomma, hdrop,
        htype]
    have hread := hspells.parseClause_of_typeMark hclause.trimmed hmark
    rw [Clause.ofSpecifiers_specifiers] at hread
    exact ⟨hmarked, hread⟩

/-- A clause that binds nothing has no mark. -/
theorem Clause.Printable.eq_empty (h : c.Printable) (hnothing : c.BindsNothing) : c = .empty := by
  have hmark : c.typeOnly = false := by
    rw [← Bool.not_eq_true]
    exact fun htype => h.marked htype hnothing
  obtain ⟨hdefault, hspace, hitems⟩ := hnothing
  obtain ⟨default, namespaceName, named, typeOnly⟩ := c
  simp_all [Clause.empty]

end

/-! ## Section 6: Statements -/

section

variable {r : Record} {rs : List Record}

theorem Record.Printable.quoted (h : r.Printable) :
    Quoted (quoted r.specifier.toList) r.specifier.toList :=
  .mk rfl rfl h.nonempty h.line

/-- **A statement is read as it is printed**: what follows its keyword makes its record. -/
theorem Record.Printable.reads (h : r.Printable) :
    ∃ clause, Reads r.tail clause r.specifier.toList ∧ ∀ start stop,
      record? start stop clause r.specifier.toList =
        some ⟨r.specifier, r.clause, start, stop⟩ := by
  by_cases hnothing : r.clause.BindsNothing
  · refine ⟨none, ?_, fun start stop => ?_⟩
    · rw [Record.tail, if_pos hnothing]
      exact .bare isGap_blank h.quoted
    · rw [record?, h.clause.eq_empty hnothing, String.ofList_toList]
  · obtain ⟨hclause, hread⟩ := h.clause.parseClause_text hnothing
    refine ⟨some r.clause.text, ?_, fun start stop => ?_⟩
    · rw [Record.tail, if_neg hnothing]
      exact .clause isGap_blank isGap_blank isGap_blank hclause.chars hclause.ne_nil hclause.trimmed
        h.quoted
    · rw [record?, hread, Option.map_some, String.ofList_toList]

theorem printed_cons (r : Record) (rs : List Record) :
    printed (r :: rs) = r.text ++ '\n' :: printed rs := by
  simp [printed]

/-- The scan of one line makes one record, and goes on with the line behind it. -/
theorem scan_text (h : r.Printable) (fuel pos : Nat) (more : List Char) :
    scan (fuel + 2) pos true (r.text ++ '\n' :: more) =
      ⟨r.specifier, r.clause, pos, pos + byteLength r.text⟩ ::
        scan fuel (pos + byteLength r.text + 1) true more := by
  obtain ⟨clause, hreads, hrecord⟩ := h.reads
  have hindent : IsIndent [] := fun c hc => absurd hc List.not_mem_nil
  have hmatch : matchAt true (r.text ++ '\n' :: more) =
      some (0, clause, r.specifier.toList, '\n' :: more) := by
    have hline := hreads.matchAt_line hindent ('\n' :: more)
    rw [List.nil_append, ← List.append_assoc] at hline
    exact hline
  have hstop : byteLength (r.text ++ '\n' :: more) - byteLength ('\n' :: more) =
      byteLength r.text := by
    rw [byteLength_append, Nat.add_sub_cancel]
  -- no statement begins with the end of a line
  have hbreak : matchAt false ('\n' :: more) = none := rfl
  rw [scan_of_matchAt hmatch, hstop, hrecord, Option.toList_some, List.singleton_append, scan,
    hbreak]
  rfl

/-- The scan of all lines. -/
theorem scan_printed (h : ∀ r ∈ rs, r.Printable) {fuel : Nat} (hfuel : (printed rs).length ≤ fuel)
    (pos : Nat) : scan fuel pos true (printed rs) = placed pos rs := by
  induction rs generalizing fuel pos with
  | nil => cases fuel <;> rfl
  | cons r rs ih =>
    rw [printed_cons] at hfuel ⊢
    -- a line is longer than its end
    have hlength : 1 ≤ r.text.length := by
      rw [Record.text, List.length_append, length_importWord]
      omega
    rw [List.length_append, List.length_cons] at hfuel
    obtain ⟨fuel, rfl⟩ : ∃ fuel', fuel = fuel' + 2 := ⟨fuel - 2, by omega⟩
    have hmore : ∀ pos, scan fuel pos true (printed rs) = placed pos rs :=
      ih (fun r' hr' => h r' (List.mem_cons_of_mem r hr')) (by omega)
    rw [scan_text (h r List.mem_cons_self), placed, hmore]

/-- Placed records stand where they say. -/
theorem standsAt_of_mem_placed {before : List Char} {r : Record}
    (hr : r ∈ placed (byteLength before) rs) :
    StandsAt r.text r.start (before ++ printed rs) ∧ r.stop = r.start + byteLength r.text := by
  induction rs generalizing before with
  | nil => cases hr
  | cons r' rs ih =>
    rcases List.mem_cons.mp hr with rfl | hr
    · constructor
      · exact ⟨before, '\n' :: printed rs, by rw [printed_cons]; rfl, rfl⟩
      · rfl
    · have hbefore : byteLength (before ++ (r'.text ++ ['\n'])) =
          byteLength before + byteLength r'.text + 1 := by
        rw [byteLength_append, byteLength_append, Nat.add_assoc]
        rfl
      rw [← hbefore] at hr
      have hrest := ih hr
      rw [printed_cons]
      simpa using hrest

/-- A statement begins with its keyword and ends with a quote. -/
theorem Record.exists_text_eq (r : Record) :
    ∃ middle, r.text = importWord ++ (middle ++ ['"']) := by
  by_cases hnothing : r.clause.BindsNothing
  · refine ⟨[' '] ++ '"' :: r.specifier.toList, ?_⟩
    simp [Record.text, Record.tail, hnothing, quoted]
  · refine ⟨[' '] ++ (r.clause.text ++ ([' '] ++ (fromWord ++
      ([' '] ++ '"' :: r.specifier.toList)))), ?_⟩
    simp [Record.text, Record.tail, hnothing, quoted]

/-- **Printed imports are found as they were**: the scan gives their records back, in their order.
    Each of them stands in the text from its keyword to behind its closing quote. -/
theorem findImports_printed (h : ∀ r ∈ rs, r.Printable) :
    findImports (String.ofList (printed rs)) = placed 0 rs ∧
      ∀ r ∈ findImports (String.ofList (printed rs)),
        StandsAt r.text r.start (printed rs) ∧ r.stop = r.start + byteLength r.text ∧
          ∃ middle, r.text = importWord ++ (middle ++ ['"']) := by
  have hfound : findImports (String.ofList (printed rs)) = placed 0 rs := by
    rw [findImports, String.toList_ofList]
    exact scan_printed h (Nat.le_refl _) 0
  refine ⟨hfound, fun r hr => ?_⟩
  rw [hfound] at hr
  have hr : r ∈ placed (byteLength []) rs := hr
  obtain ⟨hstands, hstop⟩ := standsAt_of_mem_placed hr
  exact ⟨hstands, hstop, r.exists_text_eq⟩

end

/-- Imports whose names are the words of statements. -/
def keywordRecords : List Record :=
  [⟨"./a", ⟨some "from", none, [], true⟩, 0, 0⟩,
    ⟨"#b", ⟨some "typeX", some "as", [], false⟩, 0, 0⟩,
    ⟨"c", ⟨none, none, [⟨"from", "as"⟩, ⟨"as", "as"⟩], false⟩, 0, 0⟩,
    ⟨"d", .empty, 0, 0⟩]

/-- Their names are told from the words around them. -/
theorem findImports_keywords :
    (∀ r ∈ keywordRecords, r.Printable) ∧
      String.ofList (printed keywordRecords) =
        "import type from from \"./a\"\nimport typeX, * as as from \"#b\"\n" ++
          "import { from as as, as } from \"c\"\nimport \"d\"\n" ∧
      (findImports (String.ofList (printed keywordRecords))).map (fun r => (r.start, r.stop)) =
        [(0, 27), (28, 59), (60, 94), (95, 105)] := by
  have hprintable : ∀ r ∈ keywordRecords, r.Printable := by decide
  refine ⟨hprintable, by decide, ?_⟩
  rw [(findImports_printed hprintable).1]
  decide

end BuildMacros.Import
