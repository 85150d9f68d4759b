import BuildMacros.Proofs.Specifiers.Climbing

/-! # Extensions of specifiers

    A specifier may be written with the extension of its file or without, and both ways
    should have one comparison key. What happens to a specifier on the way to its key
    happens in front of its last segment: an alias ends at a slash, and joining moves
    along whole segments. The last segment is carried along as it is
    (`Resolver.exists_front`), and only then an extension is dropped from it.

    So the extension makes no difference, with two exceptions. An alias may stand for
    the specifier as a whole; such an alias does not know the specifier with an
    extension. And a last segment such as `foo.client` ends in small letters behind a dot
    itself. Written without its extension it loses a part of its name, and that is the
    only way in which the keys come apart (`Resolver.resolve_extension_iff`).
-/

namespace BuildMacros

open BuildMacros.Text

/-! ## Section 1: The front of a path -/

namespace Path

/-- What may stand in front of the last segment: nothing, or a text up to a slash. -/
def IsFront (front : List Char) : Prop := front = [] ∨ ∃ dir, front = dir ++ ['/']

theorem IsFront.of_suffix {front s : List Char} (hs : s <:+ front) (h : IsFront front) :
    IsFront s := by
  rcases h with rfl | ⟨dir, rfl⟩
  · exact .inl (List.suffix_nil.mp hs)
  · rcases List.suffix_concat_iff.mp hs with rfl | ⟨t, rfl, -⟩
    · exact .inl rfl
    · exact .inr ⟨t, rfl⟩

theorem IsFront.append {xs ys : List Char} (hxs : IsFront xs) (hys : IsFront ys) :
    IsFront (xs ++ ys) := by
  rcases hys with rfl | ⟨dir, rfl⟩
  · rwa [List.append_nil]
  · exact .inr ⟨xs ++ dir, by simp⟩

/-- A text and a slash. -/
theorem isFront_concat (dir : List Char) : IsFront (dir ++ ['/']) := .inr ⟨dir, rfl⟩

/-- A path is its front and its last segment. -/
theorem splitSegment_spec (path : List Char) :
    path = (splitSegment path).1 ++ (splitSegment path).2 ∧ IsFront (splitSegment path).1 ∧
      '/' ∉ (splitSegment path).2 := by
  unfold splitSegment
  split
  · next dir base hsplit =>
    obtain ⟨c, hc, rfl, hbase⟩ := eq_of_splitLast? hsplit
    obtain rfl : c = '/' := beq_iff_eq.mp hc
    refine ⟨by simp, isFront_concat dir, fun hslash => ?_⟩
    exact absurd (hbase '/' hslash) (by decide)
  · next hsplit =>
    refine ⟨rfl, .inl rfl, fun hslash => ?_⟩
    exact absurd (splitLast?_eq_none_iff.mp hsplit '/' hslash) (by decide)

theorem splitSegment_append {front base : List Char} (hfront : IsFront front) (hbase : '/' ∉ base) :
    splitSegment (front ++ base) = (front, base) := by
  rcases hfront with rfl | ⟨dir, rfl⟩
  · rw [List.nil_append, splitSegment, splitLast?_eq_none_iff.mpr (not_beq_of_not_mem hbase)]
  · rw [List.append_assoc, List.singleton_append, splitSegment, splitLast?_append_char hbase]

/-- What begins with a text up to a slash does so by its front. -/
theorem startsWith_append {base : List Char} (hbase : '/' ∉ base) (xs front : List Char) :
    startsWith (xs ++ ['/']) (front ++ base) = startsWith (xs ++ ['/']) front := by
  rw [Bool.eq_iff_iff, startsWith_iff, startsWith_iff]
  constructor
  · intro h
    rcases List.prefix_or_prefix_of_prefix h (List.prefix_append front base) with h' | ⟨t, ht⟩
    · exact h'
    · -- a slash behind the front would be one of the last segment
      rw [← ht, List.prefix_append_right_inj] at h
      rcases List.eq_nil_or_concat t with rfl | ⟨u, c, rfl⟩
      · have hfront : xs ++ ['/'] = front := by rw [← ht, List.append_nil]
        exact ⟨[], by rw [List.append_nil, hfront]⟩
      · rw [List.concat_eq_append] at ht h
        rw [← List.append_assoc] at ht
        obtain rfl : c = '/' := by
          have hlast := congrArg List.getLast? ht
          simpa using hlast
        exact absurd (h.subset (by simp)) hbase
  · intro h
    exact h.trans (List.prefix_append front base)

/-! ## Section 2: Extensions of a segment -/

/-- The segment ends in small letters behind a dot. -/
def HasExtension (base : List Char) : Prop :=
  ∃ stem ext, base = stem ++ '.' :: ext ∧ isExtension ext = true

theorem not_mem_of_isExtension {ext : List Char} (h : isExtension ext = true) {c : Char}
    (hc : c.isLower = false) : c ∉ ext := by
  intro hmem
  rw [isExtension, Bool.and_eq_true] at h
  rw [List.all_eq_true.mp h.2 c hmem] at hc
  cases hc

/-- Dropping an extension leaves the front of a path alone. -/
theorem dropExtension_append {front base : List Char} (hfront : IsFront front)
    (hbase : '/' ∉ base) : dropExtension (front ++ base) = front ++ dropExtension base := by
  have hwhole := splitSegment_append hfront hbase
  have hpart : splitSegment base = ([], base) := splitSegment_append (.inl rfl) hbase
  simp only [dropExtension, hwhole, hpart, List.nil_append]
  cases splitLast? (· == '.') base with
  | none => rfl
  | some r =>
    obtain ⟨stem, ext⟩ := r
    show (if isExtension ext = true then _ else _) =
      front ++ if isExtension ext = true then _ else _
    split <;> rfl

/-- An extension that was put behind a segment is dropped again, and nothing else is. -/
theorem dropExtension_extended {base ext : List Char} (hbase : '/' ∉ base)
    (hext : isExtension ext = true) : dropExtension (base ++ '.' :: ext) = base := by
  have hslash : '/' ∉ base ++ '.' :: ext := by
    have hext' := not_mem_of_isExtension hext (show Char.isLower '/' = false by decide)
    simp [hbase, hext']
  have hdot := not_mem_of_isExtension hext (show Char.isLower '.' = false by decide)
  have hpart := splitSegment_append (.inl rfl) hslash
  rw [List.nil_append] at hpart
  simp only [dropExtension, hpart, splitLast?_append_char hdot, hext, if_true, List.nil_append]

/-- A segment is left as it is exactly if it has no extension. -/
theorem dropExtension_eq_self_iff {base : List Char} (hbase : '/' ∉ base) :
    dropExtension base = base ↔ ¬HasExtension base := by
  constructor
  · rintro h ⟨stem, ext, rfl, hext⟩
    have hstem : '/' ∉ stem := fun hslash => hbase (List.mem_append_left _ hslash)
    rw [dropExtension_extended hstem hext] at h
    have hlength := congrArg List.length h
    simp at hlength
  · intro h
    have hpart : splitSegment base = ([], base) := splitSegment_append (.inl rfl) hbase
    simp only [dropExtension, hpart]
    split
    · next stem ext hsplit =>
      split
      · next hext =>
        obtain ⟨c, hc, rfl, -⟩ := eq_of_splitLast? hsplit
        obtain rfl : c = '.' := beq_iff_eq.mp hc
        exact absurd ⟨stem, ext, rfl, hext⟩ h
      · rfl
    · rfl

/-- A name with an extension is a name. -/
theorem IsName.extended {base ext : List Char} (h : IsName base)
    (hext : isExtension ext = true) : IsName (base ++ '.' :: ext) := by
  obtain ⟨hne, hslash⟩ := h.segment
  have hext' := not_mem_of_isExtension hext (show Char.isLower '/' = false by decide)
  have hlength : 0 < base.length := List.length_pos_iff.mpr hne
  obtain ⟨e, es, rfl⟩ : ∃ e es, ext = e :: es := by
    cases ext with
    | nil => cases hext
    | cons e es => exact ⟨e, es, rfl⟩
  refine ⟨⟨by simp, by simpa [hslash] using hext'⟩, fun heq => ?_, fun heq => ?_⟩
  · have hcount := congrArg List.length heq
    simp at hcount
    omega
  · have hcount := congrArg List.length heq
    simp at hcount
    omega

end Path

/-! ## Section 3: Aliases -/

namespace AliasTable

open BuildMacros.Path

theorem endsWith_slash_append {t : List Char} (hne : t ≠ []) (ht : '/' ∉ t) (xs : List Char) :
    endsWith ['/'] (xs ++ t) = false := by
  obtain ⟨u, c, rfl⟩ := (List.eq_nil_or_concat t).resolve_left hne
  rw [List.concat_eq_append] at ht ⊢
  rw [Bool.eq_false_iff, ne_eq, endsWith_iff]
  rintro ⟨v, hv⟩
  obtain rfl : c = '/' := by
    have hlast := congrArg List.getLast? hv
    simpa using hlast.symm
  exact ht (by simp)

/-- An alias does not end inside a segment. -/
theorem remainder?_eq_none {key rest : List Char} (hkey : endsWith ['/'] key = false)
    (hne : rest ≠ []) (hrest : '/' ∉ rest) : remainder? key (key ++ rest) = none := by
  have hstart : startsWith ['/'] rest = false := by
    rw [Bool.eq_false_iff, ne_eq, startsWith_iff]
    rintro ⟨r, rfl⟩
    exact hrest (by simp)
  simp [remainder?, strip?_append, hne, hstart, hkey]

/-- A segment is expanded by no alias other than itself. -/
theorem remainder?_segment {key base : List Char} (hbase : '/' ∉ base) (hkey : key ≠ base) :
    remainder? key base = none := by
  by_cases hpre : key <+: base
  · obtain ⟨rest, rfl⟩ := hpre
    have hne : rest ≠ [] := by
      rintro rfl
      exact hkey (List.append_nil key).symm
    have hend : endsWith ['/'] key = false := by
      by_cases hnil : key = []
      · rw [hnil]
        rfl
      · exact endsWith_slash_append hnil (fun hslash => hbase (by simp [hslash])) []
    exact remainder?_eq_none hend hne fun hslash => hbase (by simp [hslash])
  · have hnone : strip? key base = none :=
      Option.eq_none_iff_forall_ne_some.mpr fun rest hrest =>
        hpre ⟨rest, (strip?_eq_some_iff.mp hrest).symm⟩
    rw [remainder?, hnone]

/-- An alias that is no more than a part of a path ends in front of the last segment. -/
theorem remainder?_append {key dir base : List Char} (hne : base ≠ []) (hbase : '/' ∉ base)
    (hkey : key ≠ dir ++ ['/'] ++ base) :
    remainder? key (dir ++ ['/'] ++ base) = (remainder? key (dir ++ ['/'])).map (· ++ base) := by
  by_cases hfront : key <+: dir ++ ['/']
  · obtain ⟨rest, hrest⟩ := hfront
    have hsome : strip? key (dir ++ ['/']) = some rest := strip?_eq_some_iff.mpr hrest.symm
    have hmore : strip? key (dir ++ ['/'] ++ base) = some (rest ++ base) :=
      strip?_eq_some_iff.mpr (by rw [← hrest, List.append_assoc])
    -- nothing is left only of an alias that ends with the slash itself
    have hslash : rest = [] → endsWith ['/'] key = true := by
      rintro rfl
      rw [List.append_nil] at hrest
      rw [hrest, endsWith_iff]
      exact List.suffix_append dir ['/']
    have hstart : startsWith ['/'] (rest ++ base) = startsWith ['/'] rest :=
      startsWith_append hbase [] rest
    simp only [remainder?, hsome, hmore, hstart]
    cases rest with
    | nil => simp [hslash rfl]
    | cons c rest =>
      simp only [List.cons_append, List.isEmpty_cons, Bool.false_or]
      split <;> rfl
  · have hnone : ∀ rest, dir ++ ['/'] ≠ key ++ rest := fun rest hrest =>
      hfront ⟨rest, hrest.symm⟩
    have hright : remainder? key (dir ++ ['/']) = none := by
      have hstrip : strip? key (dir ++ ['/']) = none :=
        Option.eq_none_iff_forall_ne_some.mpr fun rest hrest =>
          hnone rest (strip?_eq_some_iff.mp hrest)
      rw [remainder?, hstrip]
    rw [hright, Option.map_none]
    by_cases hpre : key <+: dir ++ ['/'] ++ base
    · obtain ⟨rest, hrest⟩ := hpre
      -- the alias reaches into the last segment
      obtain ⟨t, rfl, rfl⟩ : ∃ t, key = dir ++ ['/'] ++ t ∧ base = t ++ rest := by
        rcases List.append_eq_append_iff.mp hrest.symm with ⟨t, hkeyt, hbaset⟩ | ⟨t, hdir, -⟩
        · exact ⟨t, hkeyt, hbaset⟩
        · exact absurd hdir (hnone t)
      have htne : t ≠ [] := by
        rintro rfl
        exact hfront ⟨[], by simp⟩
      have hrestne : rest ≠ [] := by
        rintro rfl
        exact hkey (by simp)
      rw [← hrest]
      exact remainder?_eq_none (endsWith_slash_append htne (fun h => hbase (by simp [h])) _)
        hrestne fun h => hbase (by simp [h])
    · have hstrip : strip? key (dir ++ ['/'] ++ base) = none :=
        Option.eq_none_iff_forall_ne_some.mpr fun rest hrest =>
          hpre ⟨rest, (strip?_eq_some_iff.mp hrest).symm⟩
      rw [remainder?, hstrip]

/-- What is left of a path is put behind the target, its last segment with the rest. -/
theorem exists_front_expand (target : List Char) {rest : List Char} (hrest : IsFront rest) :
    ∃ front', IsFront front' ∧
      ∀ base, IsSegment base → expand target (rest ++ base) = front' ++ base := by
  refine ⟨dropEnd (· == '/') target ++ ['/'] ++ rest.dropWhile (· == '/'), ?_, ?_⟩
  · exact (isFront_concat _).append (hrest.of_suffix (List.dropWhile_suffix _))
  · rintro base ⟨hne, hslash⟩
    have hbase : base.dropWhile (· == '/') = base :=
      dropWhile_eq_self fun c hc => not_beq_of_not_mem hslash c (List.mem_of_mem_head? hc)
    have hdrop : (rest ++ base).dropWhile (· == '/') = rest.dropWhile (· == '/') ++ base := by
      rw [List.dropWhile_append, hbase]
      split
      · next hnil => rw [List.isEmpty_iff.mp hnil, List.nil_append]
      · rfl
    simp [expand, hdrop, hne]

/-- **Aliases work in front of the last segment**: what they make of a path does not depend on its
    last segment, as long as none of them stands for the whole path. -/
theorem exists_front_expandFirst (es : List (String × String)) {front : List Char}
    (hfront : IsFront front) :
    ∃ front', IsFront front' ∧ ∀ base, IsSegment base →
      (∀ e ∈ es, e.1.toList ≠ front ++ base) →
        expandFirst (front ++ base) es = front' ++ base := by
  induction es with
  | nil => exact ⟨front, hfront, fun base _ _ => rfl⟩
  | cons e es ih =>
    obtain ⟨key, target⟩ := e
    obtain ⟨front', hfront', hrest⟩ := ih
    -- an alias that does not apply leaves the path to the others
    have hpass : (∀ base, IsSegment base → key.toList ≠ front ++ base →
        remainder? key.toList (front ++ base) = none) →
          ∃ front', IsFront front' ∧ ∀ base, IsSegment base →
            (∀ e ∈ (key, target) :: es, e.1.toList ≠ front ++ base) →
              expandFirst (front ++ base) ((key, target) :: es) = front' ++ base := by
      intro hnone
      refine ⟨front', hfront', fun base hbase hes => ?_⟩
      rw [expandFirst, hnone base hbase (hes _ List.mem_cons_self)]
      exact hrest base hbase fun e he => hes e (List.mem_cons_of_mem _ he)
    rcases hfront with rfl | ⟨dir, rfl⟩
    · exact hpass fun base hbase hkey => remainder?_segment hbase.2 hkey
    · cases hkey : remainder? key.toList (dir ++ ['/']) with
      | none =>
        refine hpass fun base hbase hne => ?_
        rw [remainder?_append hbase.1 hbase.2 hne, hkey]
        rfl
      | some rest =>
        have hsuffix : rest <:+ dir ++ ['/'] := by
          unfold remainder? at hkey
          split at hkey
          · next r hstrip =>
            split at hkey
            · cases hkey
              exact ⟨key.toList, (strip?_eq_some_iff.mp hstrip).symm⟩
            · cases hkey
          · cases hkey
        obtain ⟨front'', hfront'', hexpand⟩ :=
          exists_front_expand target.toList ((isFront_concat dir).of_suffix hsuffix)
        refine ⟨front'', hfront'', fun base hbase hes => ?_⟩
        have hne := hes (key, target) List.mem_cons_self
        rw [expandFirst, remainder?_append hbase.1 hbase.2 hne, hkey]
        exact hexpand base hbase

end AliasTable

/-! ## Section 4: Joining -/

namespace Path

/-- Joining carries the last segment along, if it is a name. -/
theorem exists_front_joinTo (dir : List Char) {front : List Char} (hfront : IsFront front) :
    ∃ front', IsFront front' ∧
      ∀ base, IsName base → joinTo dir (front ++ base) = front' ++ base := by
  let start := ((fields (· == '/') dir).filter (fun s => !s.isEmpty)).reverse
  -- the segments that the front leads to
  obtain ⟨segments, hsegments⟩ : ∃ segments, ∀ base, IsName base →
      (fields (· == '/') (front ++ base)).foldl move start = base :: segments := by
    have hmove : ∀ base segments, IsName base → move segments base = base :: segments := by
      intro base segments h
      simp [move, h.segment.1, h.ne_stay, h.ne_up]
    have hone : ∀ base, IsName base → fields (· == '/') base = [base] := fun base h =>
      fields_of_no_sep (not_beq_of_not_mem h.segment.2)
    rcases hfront with rfl | ⟨d, rfl⟩
    · refine ⟨start, fun base h => ?_⟩
      rw [List.nil_append, hone base h]
      exact hmove base start h
    · refine ⟨(fields (· == '/') d).foldl move start, fun base h => ?_⟩
      have hfields : fields (· == '/') (d ++ ['/'] ++ base) = fields (· == '/') d ++ [base] := by
        rw [List.append_assoc, List.singleton_append, fields_append_cons (by decide), hone base h]
      rw [hfields, List.foldl_append]
      exact hmove base _ h
  -- the last of them stands behind a slash, or alone
  obtain ⟨front', hfront', hjoin⟩ : ∃ front', IsFront front' ∧ ∀ base : List Char,
      join ['/'] (base :: segments).reverse = front' ++ base := by
    cases segments with
    | nil => exact ⟨[], .inl rfl, fun base => rfl⟩
    | cons s segments =>
      refine ⟨join ['/'] (s :: segments).reverse ++ ['/'], isFront_concat _, fun base => ?_⟩
      rw [List.reverse_cons, join_append (by simp) (List.cons_ne_nil base [])]
      simp [join]
  cases hroot : startsWith ['/'] dir with
  | true =>
    refine ⟨'/' :: front', (isFront_concat []).append hfront', fun base h => ?_⟩
    rw [joinTo, hsegments base h, hjoin, hroot]
    rfl
  | false =>
    refine ⟨front', hfront', fun base h => ?_⟩
    rw [joinTo, hsegments base h, hjoin, hroot]
    rfl

end Path

/-! ## Section 5: Comparison keys -/

namespace Resolver

open BuildMacros.Path

/-- **The way to a comparison key** leads along the front of a specifier; the last segment only
    loses its extension. -/
theorem exists_front (r : Resolver) {front : List Char} (hfront : IsFront front) :
    ∃ front', ∀ base, IsName base →
      (∀ e ∈ r.aliases.entries, e.1.toList ≠ front ++ base) →
        r.resolve (String.ofList (front ++ base)) =
          String.ofList (front' ++ dropExtension base) := by
  obtain ⟨expanded, hexpanded, hexpand⟩ :=
    AliasTable.exists_front_expandFirst r.aliases.entries hfront
  obtain ⟨joined, hjoined, hjoin⟩ := exists_front_joinTo r.directory hexpanded
  have halias : ∀ base, IsName base → (∀ e ∈ r.aliases.entries, e.1.toList ≠ front ++ base) →
      (r.aliases.resolve (String.ofList (front ++ base))).toList = expanded ++ base := by
    intro base h hes
    rw [AliasTable.resolve, String.toList_ofList, String.toList_ofList, hexpand base h.segment hes]
  have hrelative : ∀ base, IsName base →
      isRelative (expanded ++ base) = isRelative expanded := fun base h => by
    have hstay : startsWith ['.', '/'] (expanded ++ base) = startsWith ['.', '/'] expanded :=
      startsWith_append h.segment.2 ['.'] expanded
    have hup : startsWith ['.', '.', '/'] (expanded ++ base) =
        startsWith ['.', '.', '/'] expanded :=
      startsWith_append h.segment.2 ['.', '.'] expanded
    rw [isRelative, isRelative, hstay, hup]
  cases hjoins : isRelative expanded && !r.directory.isEmpty with
  | true =>
    refine ⟨joined, fun base h hes => ?_⟩
    simp only [resolve, halias base h hes, hrelative base h, hjoins, if_true, hjoin base h,
      dropExtension_append hjoined h.segment.2]
  | false =>
    refine ⟨expanded, fun base h hes => ?_⟩
    simp only [resolve, halias base h hes, hrelative base h, hjoins, Bool.false_eq_true, if_false,
      dropExtension_append hexpanded h.segment.2]

/-- **Extensions of specifiers**: with an extension behind it a specifier keeps its comparison key,
    unless its last segment ends in small letters behind a dot already. This holds for every
    module and all aliases but those that stand for the whole specifier. -/
theorem resolve_extension_iff (r : Resolver) (s ext : String)
    (hname : IsName (splitSegment s.toList).2) (hext : isExtension ext.toList = true)
    (hwhole : ∀ e ∈ r.aliases.entries, e.1 ≠ s ∧ e.1 ≠ s ++ "." ++ ext) :
    r.resolve (s ++ "." ++ ext) = r.resolve s ↔ ¬HasExtension (splitSegment s.toList).2 := by
  obtain ⟨hs, hfront, -⟩ := splitSegment_spec s.toList
  obtain ⟨front', hresolve⟩ := r.exists_front hfront
  generalize (splitSegment s.toList).1 = front at hs hresolve
  generalize (splitSegment s.toList).2 = base at hs hname
  have hplain : r.resolve s = String.ofList (front' ++ dropExtension base) := by
    have hkey : ∀ e ∈ r.aliases.entries, e.1.toList ≠ front ++ base := fun e he heq =>
      (hwhole e he).1 (String.toList_inj.mp (heq.trans hs.symm))
    have hplain := hresolve base hname hkey
    rwa [← hs, String.ofList_toList] at hplain
  have hextended : r.resolve (s ++ "." ++ ext) = String.ofList (front' ++ base) := by
    have htext : (s ++ "." ++ ext).toList = front ++ (base ++ '.' :: ext.toList) := by
      simp [hs]
    have hkey : ∀ e ∈ r.aliases.entries, e.1.toList ≠ front ++ (base ++ '.' :: ext.toList) :=
      fun e he heq => (hwhole e he).2 (String.toList_inj.mp (heq.trans htext.symm))
    have hextended := hresolve _ (hname.extended hext) hkey
    rwa [← htext, String.ofList_toList, dropExtension_extended hname.segment.2 hext] at hextended
  rw [hplain, hextended, String.ofList_inj, List.append_cancel_left_eq,
    ← dropExtension_eq_self_iff hname.segment.2]
  exact eq_comm

/-- A file of the importer's directory, with and without its extension. -/
theorem resolve_extension_sample :
    let r := Resolver.new ⟨[("~", "/app")]⟩ "/app/pages/index.ts"
    r.resolve "./fetch.ts" = r.resolve "./fetch" := by
  intro r
  have hname : IsName (splitSegment "./fetch".toList).2 := by decide +kernel
  have hwhole : ∀ e ∈ r.aliases.entries, e.1 ≠ "./fetch" ∧ e.1 ≠ "./fetch" ++ "." ++ "ts" := by
    decide +kernel
  refine (r.resolve_extension_iff "./fetch" "ts" hname (by decide +kernel) hwhole).mpr ?_
  -- there is no dot in the segment
  rw [← dropExtension_eq_self_iff hname.segment.2]
  decide +kernel

/-- Without its extension a dotted name loses what stands behind its last dot, and an alias for a
    whole specifier does not know the specifier with an extension. -/
theorem resolve_extension_fails :
    (Resolver.new ⟨[]⟩ "/app/pages/index.ts").resolve "./foo.client" = "/app/pages/foo" ∧
      (Resolver.new ⟨[]⟩ "/app/pages/index.ts").resolve "./foo.client.ts" =
        "/app/pages/foo.client" ∧
      (Resolver.new ⟨[("#app", "/nuxt/app")]⟩ "/app/pages/index.ts").resolve "#app" =
        "/nuxt/app" ∧
      (Resolver.new ⟨[("#app", "/nuxt/app")]⟩ "/app/pages/index.ts").resolve "#app.ts" =
        "#app" := by
  decide +kernel

end Resolver

end BuildMacros
