import BuildMacros.Proofs.Keys.KeyedTrees
import BuildMacros.Proofs.Safety
import BuildMacros.Proofs.Script.Arguments
import BuildMacros.Proofs.Script.Weaving
import Mathlib.Data.Bool.AllAny

/-! # Keys are given once

    A text with keys is read again, and no call of it takes a key any more
    (`inject_inject`). The calls that were given a key have it as their last argument,
    and everything else in the tree is as it was.

    Two things can come in between. One more argument needs a comma before it, unless
    there are no arguments or a trailing comma stands there. The pass looks for that
    comma in the text, at the last character before the closing parenthesis that is no
    ASCII blank, and a comment deceives it: what is written then does not parse
    (`trailing_comma_missed`). And imports are found by a search of the text, comments
    included, where the quotes around a key can end what begins like an import
    (`import_found_late`). `Receptive` leaves out both, and says what the parser is
    relied on for: that it reads the text around the keys as it did. A key itself it
    reads as the last argument (`arguments_key`).
-/

namespace BuildMacros.Keys

open BuildMacros.Text BuildMacros.Script

/-! ## Section 1: The form of keys -/

theorem exists_digitChar_of_mem_sha256 {text : String} {c : Char}
    (h : c ∈ Digest.sha256 text) : ∃ n < 16, c = Nat.digitChar n := by
  obtain ⟨w, -, hc⟩ := List.mem_flatMap.mp h
  obtain ⟨k, -, rfl⟩ := List.mem_map.mp hc
  refine ⟨_, ?_, rfl⟩
  rw [UInt32.toNat_and]
  exact Nat.lt_succ_of_le Nat.and_le_right

theorem length_sha256 (text : String) : (Digest.sha256 text).length = 64 := by
  simp [Digest.sha256, Digest.hexWord]

/-- What is given as a key has the form of one. -/
theorem isKey_generate (path : String) (count : Nat) : isKey (generate path count) = true := by
  have hdigit : ∀ n < 16, isHexDigit (Nat.digitChar n) = true := by decide
  have hall : ∀ c ∈ (Digest.sha256 (path ++ "-" ++ toString count)).take digitCount,
      isHexDigit c = true := by
    intro c hc
    obtain ⟨n, hn, rfl⟩ := exists_digitChar_of_mem_sha256 (List.mem_of_mem_take hc)
    exact hdigit n hn
  have hlength : ((Digest.sha256 (path ++ "-" ++ toString count)).take digitCount).length =
      digitCount := by
    rw [List.length_take, length_sha256]
    rfl
  rw [isKey, generate, String.toList_ofList]
  exact Bool.and_eq_true_iff.mpr ⟨beq_iff_eq.mpr hlength, List.all_eq_true.mpr hall⟩

/-- A key in quotes, with or without a comma before it, is inert. -/
theorem inert_key {separator : String} (hseparator : separator = "" ∨ separator = ", ")
    (path : String) (count : Nat) :
    Inert (separator ++ "'" ++ generate path count ++ "'").toList := by
  have hquote : ∀ p ∈ openTag ++ closeTag, foldsTo p '\'' = false :=
    List.all_iff_forall_prop.mp (by decide)
  have hcomma : ∀ p ∈ openTag ++ closeTag, foldsTo p ',' = false :=
    List.all_iff_forall_prop.mp (by decide)
  have hmarks : ∀ c ∈ [',', ' ', '\'', '$'], foldsTo '<' c = false ∧ c ≠ '>' :=
    List.all_iff_forall_prop.mp (by decide)
  have hdigits : ∀ n < 16, foldsTo '<' (Nat.digitChar n) = false ∧ Nat.digitChar n ≠ '>' := by
    decide
  have hseparators : ∀ c ∈ separator.toList, c ∈ [',', ' ', '\'', '$'] := by
    rcases hseparator with rfl | rfl <;> exact List.all_iff_forall_prop.mp (by decide)
  have htext : (separator ++ "'" ++ generate path count ++ "'").toList =
      separator.toList ++ ('\'' :: '$' ::
        ((Digest.sha256 (path ++ "-" ++ toString count)).take digitCount ++ ['\''])) := by
    simp [generate]
  rw [htext]
  refine ⟨?_, fun c hc => ?_⟩
  · rcases hseparator with rfl | rfl
    · exact ⟨'\'', _, rfl, hquote⟩
    · exact ⟨',', _, rfl, hcomma⟩
  · simp only [List.mem_append, List.mem_cons, List.not_mem_nil, or_false] at hc
    rcases hc with hc | rfl | rfl | hc | rfl
    · exact hmarks c (hseparators c hc)
    · exact hmarks _ (by decide)
    · exact hmarks _ (by decide)
    · obtain ⟨n, hn, rfl⟩ := exists_digitChar_of_mem_sha256 (List.mem_of_mem_take hc)
      exact hdigits n hn
    · exact hmarks _ (by decide)

/-! ## Section 2: Commas -/

/-- The text between the last argument of a call and the closing parenthesis. -/
def behindArguments (text : List Char) (c : StaticCall) : List Char :=
  match c.args.getLast? with
  | some last => slice text last.span.stop (c.span.stop - 1)
  | none => []

/-- A comma stands behind the last argument, blanks and comments aside. -/
def hasTrailingComma (text : List Char) (c : StaticCall) : Bool :=
  let behind := behindArguments text c
  (skipTrivia behind.length false behind).2.head? == some ','

/-- A comma is the last character before the closing parenthesis, ASCII blanks aside. -/
def endsInComma (text : List Char) (c : StaticCall) : Bool :=
  ((slice text c.span.start (c.span.stop - 1)).reverse.dropWhile isAsciiBlank).head? == some ','

/-- What has to stand between the arguments of a call and one more argument. -/
def neededSeparator (text : List Char) (c : StaticCall) : String :=
  if 0 < c.args.length && !hasTrailingComma text c then ", " else ""

theorem neededSeparator_cases (text : List Char) (c : StaticCall) :
    neededSeparator text c = "" ∨ neededSeparator text c = ", " := by
  unfold neededSeparator
  split
  · exact .inr rfl
  · exact .inl rfl

/-- The pass sees the trailing comma of a call, if there is one, and no other. -/
def SeesComma (text : List Char) (c : StaticCall) : Prop :=
  0 < c.args.length → endsInComma text c = hasTrailingComma text c

instance (text : List Char) (c : StaticCall) : Decidable (SeesComma text c) :=
  inferInstanceAs (Decidable (_ → _))

/-- Then the separator is the one that is needed. -/
theorem SeesComma.separator_eq {m : Module} {c : StaticCall}
    (h : SeesComma m.block.content.toList c) :
    separator m c = neededSeparator m.block.content.toList c := by
  by_cases hargs : 0 < c.args.length
  · rw [neededSeparator, ← h hargs]
    rfl
  · simp [separator, neededSeparator, hargs]

/-- **The comma is looked for in the file.** Where a call stands, the file has the characters of
    the parsed text, so it makes no difference which of the two is gone through. -/
theorem separator_eq_inFile {code id : String} {m : Module} (hparse : Module.parse code id = .ok m)
    (hspans : m.Spanned) {s : Site} {c : StaticCall} (hc : c ∈ keyedCalls s m) :
    separator m c =
      let inside := slice code.toList (m.inFile c.span.start) (m.inFile (c.span.stop - 1))
      let comma := (inside.reverse.dropWhile isAsciiBlank).head? == some ','
      if 0 < c.args.length && !comma then ", " else "" := by
  have hplaced := placed_of_mem_keyedCalls (Module.parse_eq_ok hparse).2 hspans hc
  rw [Module.slice_inFile hparse hplaced.isRange_inside]
  rfl

theorem skipTrivia_cons {c : Char} (h : c ≠ '/') (fuel : Nat) (newline : Bool) (cs : List Char) :
    skipTrivia (fuel + 1) newline (c :: cs) =
      if isLineBreak c then skipTrivia fuel true cs
      else if isScriptBlank c then skipTrivia fuel newline cs
      else (newline, c :: cs) := by
  rw [skipTrivia]
  · intro rest hc
    exact absurd hc h
  · intro rest hc
    exact absurd hc h

/-- ASCII blanks are skipped with the others. -/
theorem exists_skipTrivia_blanks {blanks : List Char} (h : ∀ c ∈ blanks, isAsciiBlank c = true)
    (cs : List Char) (fuel : Nat) (newline : Bool) :
    ∃ newline', skipTrivia (fuel + blanks.length) newline (blanks ++ cs) =
      skipTrivia fuel newline' cs := by
  induction blanks generalizing newline with
  | nil => exact ⟨newline, rfl⟩
  | cons c blanks ih =>
    have hblank := h c List.mem_cons_self
    have hslash : c ≠ '/' := by
      rintro rfl
      revert hblank
      decide
    have hskips : isLineBreak c = true ∨ isScriptBlank c = true := by
      simp only [isAsciiBlank, Bool.or_eq_true, beq_iff_eq] at hblank
      rcases hblank with (((rfl | rfl) | rfl) | rfl) | hfeed
      · exact .inr (by decide)
      · exact .inr (by decide)
      · exact .inl (by decide)
      · exact .inl (by decide)
      · exact .inr (by simp [isScriptBlank, hfeed])
    rw [List.length_cons, ← Nat.add_assoc, List.cons_append, skipTrivia_cons hslash]
    by_cases hbreak : isLineBreak c = true
    · rw [if_pos hbreak]
      exact ih (fun d hd => h d (List.mem_cons_of_mem c hd)) true
    · rw [if_neg hbreak, if_pos (hskips.resolve_left hbreak)]
      exact ih (fun d hd => h d (List.mem_cons_of_mem c hd)) newline

/-- **Without comments the comma is seen**: behind the last character of the arguments stand ASCII
    blanks and at most one comma. -/
theorem seesComma_of_blanks {text : List Char} {c : StaticCall} {front blanks more : List Char}
    {last : Char}
    (hinside : slice text c.span.start (c.span.stop - 1) =
      front ++ last :: behindArguments text c)
    (hlast : last ≠ ',' ∧ isAsciiBlank last = false)
    (hbehind : behindArguments text c = blanks ∨ behindArguments text c = blanks ++ ',' :: more)
    (hblanks : ∀ c ∈ blanks, isAsciiBlank c = true) (hmore : ∀ c ∈ more, isAsciiBlank c = true) :
    SeesComma text c := by
  intro _
  have hback : ∀ (xs ys : List Char), (∀ c ∈ ys, isAsciiBlank c = true) →
      (xs ++ ys).reverse.dropWhile isAsciiBlank = xs.reverse.dropWhile isAsciiBlank := by
    intro xs ys hys
    rw [List.reverse_append,
      List.dropWhile_append_of_pos fun c hc => hys c (List.mem_reverse.mp hc)]
  rcases hbehind with hbehind | hbehind
  -- no trailing comma: going back through the blanks ends at the last argument
  · obtain ⟨newline, hskip⟩ := exists_skipTrivia_blanks hblanks [] 0 false
    rw [List.append_nil, Nat.zero_add] at hskip
    have hseen : endsInComma text c = false := by
      rw [endsInComma, hinside, hbehind, List.append_cons, hback _ _ hblanks]
      simp [hlast]
    have hthere : hasTrailingComma text c = false := by
      rw [hasTrailingComma, hbehind, hskip]
      rfl
    rw [hseen, hthere]
  -- a trailing comma: it is met from both sides
  · obtain ⟨newline, hskip⟩ :=
      exists_skipTrivia_blanks hblanks (',' :: more) (more.length + 1) false
    have hseen : endsInComma text c = true := by
      have happend : front ++ last :: (blanks ++ ',' :: more) =
          (front ++ last :: (blanks ++ [','])) ++ more := by
        simp
      have hcomma : isAsciiBlank ',' = false := by decide
      rw [endsInComma, hinside, hbehind, happend, hback _ _ hmore]
      simp [hcomma]
    have hthere : hasTrailingComma text c = true := by
      have hlength : (blanks ++ ',' :: more).length = more.length + 1 + blanks.length := by
        simp
        omega
      rw [hasTrailingComma, hbehind, hlength, hskip, skipTrivia_cons (by decide)]
      rfl
    rw [hseen, hthere]

/-! ## Section 3: One more argument -/

/-- Between quotes a key stands as it is. -/
theorem isVerbatim_generate (path : String) (count : Nat) :
    IsVerbatim (generate path count).toList := by
  have hdigits : ∀ n < 16, Nat.digitChar n ≠ '\'' ∧ Nat.digitChar n ≠ '\\' ∧
      Nat.digitChar n ≠ '\n' ∧ Nat.digitChar n ≠ '\r' := by
    decide
  intro c hc
  rw [generate, String.toList_ofList] at hc
  rcases List.mem_cons.mp hc with rfl | hc
  · decide
  · obtain ⟨n, hn, rfl⟩ := exists_digitChar_of_mem_sha256 (List.mem_of_mem_take hc)
    exact hdigits n hn

open Grammar in
/-- **A key is read as the last argument.** Where the arguments of a call were read and the text
    goes on with what the pass writes and the closing parenthesis, the parser reads the key as one
    more argument and goes on behind the parenthesis. -/
theorem arguments_key {c : Surroundings} {s s' : State} {args : List Node} {needed : Bool}
    {n : Nat} {path : String} {count : Nat} {rest : List Char}
    (hopen : s.token.isPunct "(" = true)
    (h : ReadTo (argument (rules (n + 4))) ")" c s.behind needed args s') (hscanned : s'.Scanned)
    (hlimit : args.length < c.limit)
    (htext : tokenText s'.here =
      ((if needed then ", " else "") ++ "'" ++ generate path count ++ "'").toList ++ ')' :: rest) :
    ∃ span t, (arguments (rules (n + 4))).run c s =
        .ok (args ++ [.string (generate path count) span]) t ∧
      t.Scanned ∧ t.here = rest ∧ t.pending = s'.pending := by
  have hmore : tokenText s'.here = oneMore needed (generate path count).toList rest := by
    rw [htext, oneMore, inQuotes]
    cases needed <;> simp
  have hread := arguments_quoted (isVerbatim_generate path count) hopen h hscanned hlimit hmore
  rwa [String.ofList_toList] at hread

/-! ## Section 4: What is relied on -/

section

variable (registry : KeyedRegistry) (options : TransformOptions) (id : String) (m : Module)

/-- The calls of a module that take a key. -/
def takers : List StaticCall := keyedCalls (siteOf registry options id m) m

/-- The key of the call with a number. -/
def numberedKey (count : Nat) : String :=
  generate (Path.relativeTo options.rootDir (Path.clean id)) count

/-- The keys that calls are given, by where the calls stand. -/
def keyOf? (span : Span) : Option String :=
  ((((takers registry options id m).map StaticCall.span).zipIdx 1).find? (·.1 == span)).map
    fun x => numberedKey options id x.2

/-- One more argument for each call that takes a key, with what has to stand before it, at the end
    of the call's arguments. -/
def appended : List (Nat × String) :=
  ((takers registry options id m).zipIdx 1).map fun x =>
    (x.1.span.stop - 1,
      neededSeparator m.block.content.toList x.1 ++ "'" ++ numberedKey options id x.2 ++ "'")

/-- The parsed text with these arguments. -/
def appendedText : List Char :=
  Splicer.inserted m.block.content.toList (appended registry options id m)

/-- The block with these arguments. -/
def appendedBlock : Block :=
  { m.block with content := String.ofList (appendedText registry options id m) }

/-- What is relied on when a text with keys is read again. -/
structure Receptive (code : String) : Prop where
  parses : Module.parse code id = .ok m
  /-- The spans of the tree are those of its text. -/
  spanned : m.Spanned
  /-- No comment hides a trailing comma or looks like one. -/
  commas : ∀ c ∈ takers registry options id m, SeesComma m.block.content.toList c
  /-- The text with keys is read, with the keys as last arguments. What becomes of a key behind
      arguments that were read is `arguments_key`; relied on is that nothing else is read
      otherwise, in front of a key and behind it. -/
  reads : ∃ p, Program.parse? (dialect id m.block.lang) (appendedText registry options id m) =
      some p ∧ p.bare = m.program.keyed (keyOf? registry options id m)
  /-- The imports that are found in the text with keys bind what they bound. -/
  imports : Import.Table.ofRecords (siteOf registry options id m).resolver
      (Import.findImports (appendedBlock registry options id m).content) =
    (siteOf registry options id m).imports

end

variable {registry : KeyedRegistry} {options : TransformOptions} {code id : String} {m : Module}

theorem exists_keyOf? {c : StaticCall} (hc : c ∈ takers registry options id m) :
    ∃ key, keyOf? registry options id m c.span = some key := by
  obtain ⟨i, hi⟩ := List.getElem?_of_mem (List.mem_map_of_mem (f := StaticCall.span) hc)
  have hmem : (c.span, i + 1) ∈ ((takers registry options id m).map StaticCall.span).zipIdx 1 := by
    rw [List.mem_iff_getElem?]
    exact ⟨i, by rw [List.getElem?_zipIdx, hi, Nat.add_comm]; rfl⟩
  rw [keyOf?, ← Option.isSome_iff_exists, Option.isSome_map, List.find?_isSome]
  exact ⟨_, hmem, beq_self_eq_true c.span⟩

theorem isKey_of_keyOf? {span : Span} {key : String}
    (h : keyOf? registry options id m span = some key) : isKey key = true := by
  obtain ⟨x, -, rfl⟩ := Option.map_eq_some_iff.mp h
  exact isKey_generate _ x.2

/-! ## Section 5: The text with keys -/

/-- The pass makes the insertions that are needed, in the file. -/
theorem Receptive.insertions_eq (h : Receptive registry options id m code) :
    insertions (siteOf registry options id m) (Path.relativeTo options.rootDir (Path.clean id)) m =
      (appended registry options id m).map fun x => (x.1 + m.block.offset, x.2) := by
  rw [insertions, appended, List.map_map]
  refine List.map_congr_left fun x hx => ?_
  have hseparator := (h.commas x.1 (List.fst_mem_of_mem_zipIdx hx)).separator_eq
  show (_, separator m x.1 ++ _ ++ _ ++ _) = _
  rw [hseparator]
  rfl

/-- Where the insertions are made, and what is inserted. -/
theorem Receptive.of_mem_appended (h : Receptive registry options id m code) {x : Nat × String}
    (hx : x ∈ appended registry options id m) :
    IsRange m.block.content.toList x.1 x.1 ∧ Inert x.2.toList ∧
      (dropBytes x.1 m.block.content.toList).head? = some ')' := by
  obtain ⟨⟨c, count⟩, hc, rfl⟩ := List.mem_map.mp hx
  have hplaced := placed_of_mem_keyedCalls (Module.parse_eq_ok h.parses).2 h.spanned
    (List.fst_mem_of_mem_zipIdx hc)
  exact ⟨hplaced.closes.isRange hplaced.range.stop_le,
    inert_key (neededSeparator_cases _ c) _ count, hplaced.closes.2.2⟩

/-- The text with keys is woven. -/
theorem Receptive.woven (h : Receptive registry options id m code) :
    Woven m.block.content.toList (appendedText registry options id m) := by
  have hlaid := Splicer.laid_insertions fun x hx => (h.of_mem_appended hx).1
  have hwoven := Woven.splice hlaid fun e he => by
    obtain ⟨x, hx, rfl⟩ := List.mem_map.mp (List.mem_mergeSort.mp he)
    exact ⟨beq_self_eq_true x.1, (h.of_mem_appended hx).2⟩
  rwa [Splicer.dropBytes_zero] at hwoven

/-- A pass that changes a module has carried out all its insertions. -/
theorem exists_finish_of_inject (hparse : Module.parse code id = .ok m) {out : String}
    {map : Option SourceMap} (hout : inject registry options code id = .ok (.edited out map)) :
    ∃ s, (insertions (siteOf registry options id m)
        (Path.relativeTo options.rootDir (Path.clean id)) m).foldlM
          (fun (s : Splicer) x => s.insert x.1 x.2) (.new code) = .ok s ∧ s.finish = out := by
  unfold inject at hout
  split at hout
  · cases hout
  · obtain ⟨m', hm, hout⟩ := exists_of_bind_eq_ok hout
    rw [hparse] at hm
    cases hm
    obtain ⟨s, hs, hout⟩ := exists_of_bind_eq_ok hout
    exact ⟨s, hs, (Splicer.finish_of_output_eq (Except.ok.inj hout)).2⟩

/-- The text with keys, read again. -/
theorem Receptive.parse_out (h : Receptive registry options id m code) {out : String}
    {map : Option SourceMap} (hout : inject registry options code id = .ok (.edited out map)) :
    ∃ p, Module.parse out id = .ok (parsed (appendedBlock registry options id m) p) ∧
      p.bare = m.program.keyed (keyOf? registry options id m) := by
  obtain ⟨p, hreads, htree⟩ := h.reads
  obtain ⟨s, hs, rfl⟩ := exists_finish_of_inject h.parses hout
  obtain ⟨before, after, hcode, hoffset, hlocate⟩ := exists_locate code id
  rw [← (Module.parse_eq_ok h.parses).1] at hcode hoffset hlocate
  rw [h.insertions_eq, ← hoffset] at hs
  have hfinish : s.finish.toList = before ++ (appendedText registry options id m ++ after) :=
    Splicer.finish_insertions hcode (fun x hx => (h.of_mem_appended hx).1) hs
  -- keys are woven into the block, so no tag is lost or made by them
  have hagain : locate s.finish id = appendedBlock registry options id m := by
    rw [← String.ofList_toList (s := s.finish), hfinish]
    exact hlocate _ h.woven
  have hreads' : Program.parse? (dialect id (appendedBlock registry options id m).lang)
      (appendedBlock registry options id m).content.toList = some p := by
    rw [appendedBlock, String.toList_ofList]
    exact hreads
  exact ⟨p, parse_eq_parsed hagain hreads', htree⟩

/-- The module with keys contributes what the module contributed. -/
theorem Receptive.siteOf_eq (h : Receptive registry options id m code) {p : Program}
    (htree : p.bare = m.program.keyed (keyOf? registry options id m)) :
    siteOf registry options id (parsed (appendedBlock registry options id m) p) =
      siteOf registry options id m := by
  have hpairs : p.body.flatMap Node.exportPairs = m.program.body.flatMap Node.exportPairs := by
    rw [← flatMap_exportPairs_keyed (fun _ => none) p, ← Program.bare, htree,
      flatMap_exportPairs_keyed]
  have himports := h.imports
  unfold siteOf Site.new at himports ⊢
  simp only [parsed] at himports ⊢
  rw [hpairs, himports]

/-- No call of the module with keys takes a key. -/
theorem Receptive.keyedCalls_eq_nil (h : Receptive registry options id m code) {p : Program}
    (htree : p.bare = m.program.keyed (keyOf? registry options id m)) :
    keyedCalls (siteOf registry options id m) (parsed (appendedBlock registry options id m) p) =
      [] := by
  refine Keys.keyedCalls_eq_nil (b := m.block) htree (fun c hc hnone => ?_)
    fun _ _ => isKey_of_keyOf?
  rw [(Module.parse_eq_ok h.parses).1, ← eq_parsed_of_parse h.parses] at hc
  obtain ⟨key, hkey⟩ := exists_keyOf? hc
  rw [hnone] at hkey
  cases hkey

/-- **Keys are given once.** A module that is given keys parses again: it has the tree that it had,
    with a key behind the arguments of each call that took one. The pass leaves it as it is. -/
theorem inject_inject (h : Receptive registry options id m code) {out : String}
    {map : Option SourceMap} (hout : inject registry options code id = .ok (.edited out map)) :
    ∃ m', Module.parse out id = .ok m' ∧
      m'.program.bare = m.program.keyed (keyOf? registry options id m) ∧
      (∀ c ∈ takers registry options id m,
        ∃ key, keyOf? registry options id m c.span = some key ∧ isKey key = true) ∧
      inject registry options out id = .ok .unchanged := by
  obtain ⟨p, hparse, htree⟩ := h.parse_out hout
  refine ⟨_, hparse, htree, fun c hc => ?_, ?_⟩
  · obtain ⟨key, hkey⟩ := exists_keyOf? hc
    exact ⟨key, hkey, isKey_of_keyOf? hkey⟩
  · have hnil : ∀ path, insertions
        (siteOf registry options id (parsed (appendedBlock registry options id m) p)) path
        (parsed (appendedBlock registry options id m) p) = [] := by
      intro path
      rw [insertions, h.siteOf_eq htree, h.keyedCalls_eq_nil htree]
      rfl
    -- if the text with keys names no function, it is not even parsed
    unfold inject
    split
    · rfl
    · simp only [hparse, bind, Except.bind, hnil]
      rfl

/-- A function that takes three arguments and gets a key. -/
def roomyRegistry : KeyedRegistry :=
  ⟨[(("useKey", "#app"), ⟨"useKey", "useKey", some "#app", 3⟩)], [], [], []⟩

/-- A module with a comment behind one argument and a trailing comma behind the other. -/
def plainCode : String :=
  "import { useKey } from '#app'\nuseKey(1 /* one */)\nuseKey(2, )\n"

/-- The tree of that module. -/
def plainProgram : Program :=
  ⟨[.importing [.named "useKey" ⟨"useKey", ⟨9, 15⟩⟩ false] "#app" false ⟨0, 29⟩,
    .expression (.call (.use ⟨"useKey", ⟨30, 36⟩⟩) [] [.literal ⟨37, 38⟩] false ⟨30, 49⟩),
    .expression (.call (.use ⟨"useKey", ⟨50, 56⟩⟩) [] [.literal ⟨57, 58⟩] false ⟨50, 61⟩)]⟩

/-- The tree of the module with keys. -/
def plainKeyed : Program :=
  ⟨[.importing [.named "useKey" ⟨"useKey", ⟨9, 15⟩⟩ false] "#app" false ⟨0, 29⟩,
    .expression (.call (.use ⟨"useKey", ⟨30, 36⟩⟩) []
      [.literal ⟨37, 38⟩, .string "$bde2c1be0a" ⟨50, 63⟩] false ⟨30, 64⟩),
    .expression (.call (.use ⟨"useKey", ⟨65, 71⟩⟩) []
      [.literal ⟨72, 73⟩, .string "$c017cf5b5a" ⟨75, 88⟩] false ⟨65, 89⟩)]⟩

/-- That module, parsed. -/
def plainModule : Module := parsed ⟨plainCode, 0, none⟩ plainProgram

/-- The text of the module with keys. -/
def plainKeyedCode : String :=
  "import { useKey } from '#app'\nuseKey(1 /* one */, '$bde2c1be0a')\n" ++
    "useKey(2, '$c017cf5b5a')\n"

set_option maxRecDepth 20000 in
theorem parse?_plainCode :
    Program.parse? (dialect "/app/a.ts" none) plainCode.toList = some plainProgram := by
  have hchars : plainCode.toList = _ := String.toList_ofList
  rw [hchars]
  rfl

set_option maxRecDepth 20000 in
theorem parse?_plainKeyedCode :
    Program.parse? (dialect "/app/a.ts" none) plainKeyedCode.toList = some plainKeyed := by
  have hchars : plainKeyedCode.toList = _ := toList_append_ofList String.toList_ofList _
  rw [hchars]
  rfl

/-- What a run finds in that module: the arguments and keys that it appends, no comma that is
    mistaken, and after it the imports that there were before. -/
theorem run_plain :
    appended roomyRegistry .default "/app/a.ts" plainModule =
        [(48, ", '$bde2c1be0a'"), (60, "'$c017cf5b5a'")] ∧
      [⟨30, 49⟩, ⟨50, 61⟩].map (keyOf? roomyRegistry .default "/app/a.ts" plainModule) =
        [some "$bde2c1be0a", some "$c017cf5b5a"] ∧
      (∀ c ∈ takers roomyRegistry .default "/app/a.ts" plainModule,
        SeesComma plainModule.block.content.toList c) ∧
      Import.findImports plainKeyedCode = Import.findImports plainCode ∧
      (inject roomyRegistry .default plainCode "/app/a.ts").toOption.map Output.isChanged =
        some true := by
  decide +kernel

theorem appendedText_plain :
    appendedText roomyRegistry .default "/app/a.ts" plainModule = plainKeyedCode.toList := by
  rw [appendedText, run_plain.1, Splicer.inserted_of_pairwise _ (by decide)]
  rfl

theorem keyed_plain :
    plainKeyed.bare =
      plainProgram.keyed (keyOf? roomyRegistry .default "/app/a.ts" plainModule) := by
  obtain ⟨-, hkeys, -⟩ := run_plain
  simp only [List.map_cons, List.map_nil, List.cons.injEq, and_true] at hkeys
  obtain ⟨hfirst, hsecond⟩ := hkeys
  simp only [plainProgram, Program.keyed, keyedAll, Node.keyed, keyArgument, hfirst, hsecond]
  rfl

theorem receptive_plain :
    Receptive roomyRegistry .default "/app/a.ts" plainModule plainCode where
  parses := parse_eq_parsed rfl parse?_plainCode
  spanned := by decide
  commas := run_plain.2.2.1
  reads := ⟨plainKeyed, by rw [appendedText_plain]; exact parse?_plainKeyedCode, keyed_plain⟩
  imports := by
    rw [appendedBlock, appendedText_plain, String.ofList_toList, run_plain.2.2.2.1]
    rfl

/-- The keys are given in the first run, and none in the second. -/
theorem inject_inject_plain : ∃ out map m',
    inject roomyRegistry .default plainCode "/app/a.ts" = .ok (.edited out map) ∧
      Module.parse out "/app/a.ts" = .ok m' ∧ m'.program.bare = plainKeyed.bare ∧
      inject roomyRegistry .default out "/app/a.ts" = .ok .unchanged := by
  obtain ⟨-, -, -, -, hchanged⟩ := run_plain
  cases hout : inject roomyRegistry .default plainCode "/app/a.ts" with
  | error e =>
    rw [hout] at hchanged
    cases hchanged
  | ok output =>
    cases output with
    | unchanged =>
      rw [hout] at hchanged
      cases hchanged
    | edited out map =>
      obtain ⟨m', hparse, htree, -, hagain⟩ := inject_inject receptive_plain hout
      exact ⟨out, map, m', rfl, hparse, htree.trans keyed_plain.symm, hagain⟩

/-- A module with a comment between a trailing comma and the closing parenthesis. -/
def deceivingCode : String := "import { useKey } from '#app'\nuseKey(1, /* c */)\n"

/-- What is made of it. -/
def deceivedCode : String :=
  "import { useKey } from '#app'\nuseKey(1, /* c */, '$bde2c1be0a')\n"

/-- **A trailing comma is missed** behind a comment: a second comma is written, and what is written
    does not parse. -/
theorem trailing_comma_missed :
    (inject roomyRegistry .default deceivingCode "/app/a.ts").toOption =
        some (.edited deceivedCode none) ∧
      (Module.parse deceivedCode "/app/a.ts").toOption.isNone = true := by
  constructor <;> decide +kernel

/-- A module with a text in a comment that begins like an import. The import above it is not found,
    because it does not begin a line. -/
def hidingCode : String :=
  "/**/import {useKey as k, useKey} from '#app'\nk()\n/*\n" ++
    "import {useKey as k} from '#app */ useKey()\n"

/-- That module with a key. -/
def hidingKeyed : String :=
  "/**/import {useKey as k, useKey} from '#app'\nk()\n/*\n" ++
    "import {useKey as k} from '#app */ useKey('$bde2c1be0a')\n"

/-- **An import is found late**: the first run gives a key whose quotes end the import in the
    comment, and the second run gives another key. -/
theorem import_found_late :
    (inject roomyRegistry .default hidingCode "/app/a.ts").toOption =
        some (.edited hidingKeyed none) ∧
      (inject roomyRegistry .default hidingKeyed "/app/a.ts").toOption.map Output.isChanged =
        some true := by
  constructor <;> decide +kernel

end BuildMacros.Keys
