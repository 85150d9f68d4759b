import BuildMacros.Proofs.Template.Scanning
import BuildMacros.Proofs.Template.Tags

/-! # Scanning by bytes and by characters

    The loop over the bytes of a template (`Scans`) and the functions that read its characters
    (`tags`) have the same result on every text (`scans_iff`). So the loop comes to its end
    wherever quotes or tags are left open, and it never cuts a character in two; and the bound on
    the number of steps of `tags` is never reached.
-/

namespace BuildMacros.Template

open BuildMacros.Text

/-! ## Section 1: Searches -/

section

variable {before rest : List Char}

/-- A search that has found nothing so far goes on at the next character. -/
theorem exists_finds {word : List Char} (hword : word ≠ []) {i : Nat}
    (hcut : isBoundary (before ++ rest) i = true) (hle : i ≤ byteLength before)
    (hnone : ∀ k, i ≤ k → k < byteLength before → ¬StandsAt word k (before ++ rest)) :
    ∃ mid, rest = mid ++ afterWord word rest ∧
      Finds (before ++ rest) word i (byteLength (before ++ mid)) := by
  induction rest generalizing before with
  | nil =>
    refine ⟨[], rfl, .missing hcut ?_⟩
    intro k hk
    by_cases hlt : k < byteLength before
    · exact hnone k hk hlt
    · apply not_standsAt_of_le hword
      rw [List.append_nil]
      omega
  | cons c rest ih =>
    rw [afterWord]
    cases hstrip : strip? word (c :: rest) with
    | some after =>
      have hrest := strip?_eq_some_iff.mp hstrip
      refine ⟨word, hrest, ?_⟩
      rw [byteLength_append]
      exact .found hcut hle (standsAt_byteLength_iff.mpr ⟨after, hrest⟩) hnone
    | none =>
      have hassoc : before ++ c :: rest = before ++ [c] ++ rest := List.append_cons before c rest
      have hsize : byteLength (before ++ [c]) = byteLength before + c.utf8Size := by
        rw [byteLength_append]
        rfl
      have hnext : ∀ k, i ≤ k → k < byteLength (before ++ [c]) →
          ¬StandsAt word k (before ++ [c] ++ rest) := by
        intro k hk hlt
        rw [← hassoc]
        by_cases hold : k < byteLength before
        · exact hnone k hk hold
        · by_cases hhere : k = byteLength before
          · rw [hhere, standsAt_byteLength_iff]
            rintro ⟨after, hrest⟩
            rw [hrest, strip?_append] at hstrip
            cases hstrip
          · exact not_standsAt_inside (by omega) (by omega)
      rw [hassoc] at hcut
      obtain ⟨mid, hmid, hfinds⟩ := ih hcut (by omega) hnext
      refine ⟨c :: mid, congrArg (c :: ·) hmid, ?_⟩
      rwa [hassoc, List.append_cons before c mid]

/-- **A search** from a boundary on leaves what `afterWord` leaves. -/
theorem finds_afterWord {word : List Char} (hword : word ≠ []) (before rest : List Char) :
    ∃ mid, rest = mid ++ afterWord word rest ∧
      Finds (before ++ rest) word (byteLength before) (byteLength (before ++ mid)) := by
  apply exists_finds hword (isBoundary_append before rest) (Nat.le_refl _)
  intro k hk hlt
  omega

end

/-! ## Section 2: Names and values -/

theorem uniform_isNameChar : Uniform isNameChar := by
  apply Uniform.of_forall (v := false)
  intro a ha
  simp [isNameChar, isAlphanum_eq_false_of_le ha, beq_eq_false_of_le ha]

theorem uniform_isValueChar : Uniform isValueChar := by
  apply Uniform.of_forall (v := true)
  intro a ha
  simp [isValueChar, isAsciiBlank_eq_false_of_le ha, bne, beq_eq_false_of_le ha]

theorem uniform_isAttributeChar : Uniform isAttributeChar := by
  apply Uniform.of_forall (v := true)
  intro a ha
  simp [isAttributeChar, isAsciiBlank_eq_false_of_le ha, beq_eq_false_of_le ha]

theorem uniform_isQuote : Uniform isQuote := by
  apply Uniform.of_forall (v := false)
  intro a ha
  simp [isQuote, beq_eq_false_of_le ha]

/-- Where an empty tag ends. -/
theorem slashes_append (before : List Char) (c : Char) (rest : List Char) :
    slashes (before ++ c :: rest) (byteLength before) = (c == '/' && rest.head? == some '>') := by
  have hslash : '/'.toNat < 128 := by decide
  have hbracket : '>'.toNat < 128 := by decide
  rw [Bool.eq_iff_iff, slashes, Bool.and_eq_true, Bool.and_eq_true, beq_iff_eq, beq_iff_eq,
    beq_iff_eq, beq_iff_eq, byteAt?_length, byteAt?_zero_eq_iff hslash, List.head?_cons,
    Option.some.injEq]
  apply and_congr_right
  rintro rfl
  have hnext := byteAt?_length (before ++ ['/']) rest
  rw [byteLength_append, ← List.append_cons] at hnext
  rw [← byteAt?_zero_eq_iff hbracket, ← hnext]
  rfl

/-- Inside of a character no tag ends. -/
theorem slashes_inside {before : List Char} {c : Char} {rest : List Char} {k : Nat} (hpos : 0 < k)
    (hk : k < c.utf8Size) : slashes (before ++ c :: rest) (byteLength before + k) = false := by
  have hwide : 128 ≤ c.toNat := by
    apply Nat.le_of_not_lt
    intro hascii
    rw [utf8Size_of_lt hascii] at hk
    omega
  obtain ⟨b, hb, hle⟩ := byteAt?_cons_of_le hwide rest hk
  have hne : (b == '/') = false := beq_eq_false_of_le hle (by decide)
  rw [slashes, byteAt?_append, hb]
  simpa using fun h : b = '/' => absurd h (beq_eq_false_iff_ne.mp hne)

/-- **The loop over the name of an attribute** stops where the name ends. -/
theorem runs_attributeName (before rest : List Char) :
    (attributeName rest).1 ++ (attributeName rest).2 = rest ∧
      Runs (inName (before ++ rest)) (byteLength before)
        (byteLength (before ++ (attributeName rest).1)) := by
  induction rest generalizing before with
  | nil =>
    refine ⟨rfl, ?_⟩
    rw [attributeName, List.append_nil]
    apply Runs.stop
    have hend := byteAt?_length before []
    rw [List.append_nil] at hend
    rw [inName, passes, hend]
    rfl
  | cons c rest ih =>
    have hgo : ∀ k, k < c.utf8Size → inName (before ++ c :: rest) (byteLength before + k) =
        (isAttributeChar c && !slashes (before ++ c :: rest) (byteLength before + k)) := by
      intro k hk
      obtain ⟨b, hb, hpb⟩ := exists_byteAt? uniform_isAttributeChar c rest hk
      rw [inName, passes, byteAt?_append, hb, Option.any_some, hpb]
    rw [attributeName]
    split
    · next hstop =>
      refine ⟨rfl, ?_⟩
      rw [List.append_nil]
      apply Runs.stop
      have hhere := hgo 0 c.utf8Size_pos
      rw [Nat.add_zero, slashes_append] at hhere
      rw [hhere]
      simp only [isAttributeChar]
      generalize (c == '/' && rest.head? == some '>') = slash at hstop
      generalize (isAsciiBlank c || c == '=' || c == '>') = other at hstop
      cases slash <;> cases other <;> simp_all
    · next hgoes =>
      obtain ⟨hsplit, hruns⟩ := ih (before ++ [c])
      refine ⟨congrArg (c :: ·) hsplit, ?_⟩
      have hattribute : isAttributeChar c = true := by
        simp only [isAttributeChar]
        generalize (isAsciiBlank c || c == '=' || c == '>') = other at hgoes
        cases other <;> simp_all
      refine Runs.advance (n := c.utf8Size) ?_ ?_
      · intro k hk
        rw [hgo k hk, hattribute, Bool.true_and, Bool.not_eq_true']
        by_cases hzero : k = 0
        · rw [hzero, Nat.add_zero, slashes_append]
          generalize (c == '/' && rest.head? == some '>') = slash at hgoes
          cases slash <;> simp_all
        · exact slashes_inside (Nat.pos_of_ne_zero hzero) hk
      · rw [byteLength_append before [c], ← List.append_cons, ← List.append_cons] at hruns
        exact hruns

/-- What is read of a value behind its equals sign. -/
theorem exists_value (before rest : List Char) : ∃ mid, rest = mid ++ afterValue rest ∧
    Value (before ++ '=' :: rest) (byteLength before) (byteLength (before ++ '=' :: mid)) := by
  have hequals : '='.toNat < 128 := by decide
  have hsign : byteAt? (before ++ '=' :: rest) (byteLength before) = some '=' := by
    rw [byteAt?_length, byteAt?_cons_of_lt hequals]
  have hbare : passes (before ++ '=' :: rest) isQuote (byteLength before + 1) = false →
      Value (before ++ '=' :: rest) (byteLength before)
        (byteLength (before ++ '=' :: rest.takeWhile isValueChar)) := by
    intro hquote
    have hruns := runs_takeWhile uniform_isValueChar (before ++ ['=']) rest
    rw [← List.append_cons, ← List.append_cons, byteLength_append_ascii hequals] at hruns
    exact .bare hsign hquote hruns
  cases rest with
  | nil =>
    refine ⟨[], rfl, hbare ?_⟩
    rw [passes, byteAt?_succ hequals]
    rfl
  | cons c rest =>
    rw [afterValue]
    split
    · next hquote =>
      have hascii : c.toNat < 128 := by
        simp only [Bool.or_eq_true, beq_iff_eq] at hquote
        rcases hquote with rfl | rfl <;> decide
      obtain ⟨mid, hmid, hfinds⟩ :=
        finds_afterWord (List.cons_ne_nil c []) (before ++ ['=', c]) rest
      refine ⟨c :: mid, congrArg (c :: ·) hmid, ?_⟩
      have hlength : byteLength (before ++ ['=', c]) = byteLength before + 2 := by
        rw [byteLength_append_ascii hequals, byteLength, utf8Size_of_lt hascii]
        rfl
      rw [List.append_assoc, List.append_assoc, hlength] at hfinds
      refine .quoted hsign ?_ hquote hfinds
      rw [byteAt?_succ hequals, byteAt?_cons_of_lt hascii]
    · next hquote =>
      refine ⟨(c :: rest).takeWhile isValueChar, List.takeWhile_append_dropWhile.symm, hbare ?_⟩
      obtain ⟨b, hb, hpb⟩ := exists_byteAt? uniform_isQuote c rest c.utf8Size_pos
      rw [passes, byteAt?_succ hequals, hb, Option.any_some, hpb]
      simpa [isQuote] using hquote

/-- The name of an attribute takes up some of the text, or an equals sign follows. -/
theorem length_attributeName_le {before : List Char} {c : Char} {rest : List Char}
    (hblank : isAsciiBlank c = false) (hclosed : c ≠ '>')
    (hslash : slashes (before ++ c :: rest) (byteLength before) = false)
    (hsign : (attributeName (c :: rest)).2.head? ≠ some '=') :
    (attributeName (c :: rest)).2.length ≤ rest.length := by
  rw [attributeName] at hsign ⊢
  split
  · next hstop =>
    have hequals : c ≠ '=' := by
      rintro rfl
      exact hsign (by rw [if_pos hstop]; rfl)
    rw [slashes_append] at hslash
    simp [hslash, hblank, hequals, hclosed] at hstop
  · exact (attributeName_suffix rest).length_le

/-- **One attribute**: behind its name and its value, if it has one, the loop goes on with the
    others. -/
theorem exists_named {before name mid next rest' : List Char} {c : Char} {rest : List Char}
    {names : List String} {isEmpty : Bool} (hwhole : c :: rest = name ++ (mid ++ next))
    (hblank : isAsciiBlank c = false) (hclosed : c ≠ '>')
    (hslash : slashes (before ++ c :: rest) (byteLength before) = false)
    (hname : Runs (inName (before ++ c :: rest)) (byteLength before) (byteLength (before ++ name)))
    (hvalue : Value (before ++ c :: rest) (byteLength (before ++ name))
      (byteLength (before ++ name ++ mid)))
    (hothers : ∃ mid', next = mid' ++ rest' ∧ Attributes (before ++ name ++ mid ++ next)
      (byteLength (before ++ name ++ mid)) names isEmpty
      (byteLength (before ++ name ++ mid ++ mid'))) :
    ∃ mid', c :: rest = mid' ++ rest' ∧ Attributes (before ++ c :: rest) (byteLength before)
      (String.ofList name :: names) isEmpty (byteLength (before ++ mid')) := by
  obtain ⟨mid', hmid', hothers⟩ := hothers
  obtain ⟨b, hb, hpb⟩ := exists_byteAt? uniform_isAsciiBlank c rest c.utf8Size_pos
  have hnotClosed : b ≠ '>' := by
    rintro rfl
    exact hclosed (Option.some.inj ((byteAt?_zero_eq_iff (by decide)).mp hb))
  obtain ⟨hcut, hslice⟩ := cut_append before name (mid ++ next)
  have hsame : before ++ name ++ mid ++ next = before ++ c :: rest := by
    rw [hwhole, List.append_assoc, List.append_assoc]
  rw [← hwhole] at hcut hslice
  rw [hsame] at hothers
  refine ⟨name ++ (mid ++ mid'), ?_, ?_⟩
  · rw [hwhole, hmid', List.append_assoc, List.append_assoc]
  · have hnamed := Attributes.named (by rw [byteAt?_length, hb]) (by rw [hpb, hblank]) hnotClosed
      hslash hname hcut hvalue hothers
    rwa [hslice, List.append_assoc, List.append_assoc] at hnamed

/-- **The loop over the attributes** reads what `attributes` reads, if the bound is large enough. -/
theorem exists_attributes {fuel : Nat} {rest : List Char} (hfuel : rest.length < fuel)
    (before : List Char) : ∃ mid, rest = mid ++ (attributes fuel rest).2.2 ∧
      Attributes (before ++ rest) (byteLength before) (attributes fuel rest).1
        (attributes fuel rest).2.1 (byteLength (before ++ mid)) := by
  induction fuel generalizing before rest with
  | zero => exact absurd hfuel (Nat.not_lt_zero _)
  | succ fuel ih =>
    have hbracket : '>'.toNat < 128 := by decide
    have hslash : '/'.toNat < 128 := by decide
    unfold attributes
    split
    · refine ⟨[], rfl, ?_⟩
      have hend := byteAt?_length before []
      rw [List.append_nil] at hend ⊢
      exact .ended hend
    · next rest =>
      refine ⟨['>'], rfl, ?_⟩
      rw [byteLength_append_ascii hbracket]
      exact .closed (by rw [byteAt?_length, byteAt?_cons_of_lt hbracket])
    · next rest =>
      refine ⟨['/', '>'], rfl, ?_⟩
      rw [byteLength_append_ascii hslash, byteLength, utf8Size_of_lt hbracket]
      exact .slashed (by rw [slashes_append]; rfl)
    · next c rest hclosed hslashed =>
      have hlength : rest.length < fuel := Nat.lt_of_succ_lt_succ hfuel
      split
      · next hblank =>
        have hascii := lt_of_passes (fun _ => isAsciiBlank_eq_false_of_le) hblank
        obtain ⟨mid, hmid, hrest⟩ := ih hlength (before ++ [c])
        refine ⟨c :: mid, congrArg (c :: ·) hmid, ?_⟩
        rw [byteLength_append_ascii hascii, ← List.append_cons, ← List.append_cons] at hrest
        exact .blank (by rw [passes, byteAt?_length, byteAt?_cons_of_lt hascii]; exact hblank) hrest
      · next hblank =>
        rw [Bool.not_eq_true] at hblank
        have hnotSlashed : slashes (before ++ c :: rest) (byteLength before) = false := by
          rw [slashes_append, Bool.and_eq_false_imp, beq_iff_eq, beq_eq_false_iff_ne]
          intro hc hhead
          obtain ⟨more, hmore⟩ := List.head?_eq_some_iff.mp hhead
          exact hslashed more hc hmore
        obtain ⟨hsplit, hruns⟩ := runs_attributeName before (c :: rest)
        have hshort := length_attributeName_le hblank hclosed hnotSlashed
        generalize attributeName (c :: rest) = found at hsplit hruns hshort
        obtain ⟨name, after⟩ := found
        dsimp only at hsplit hruns hshort ⊢
        -- the text behind the name begins with an equals sign, or there is no value
        split
        · next value =>
          obtain ⟨mid, hmid, hvalue⟩ := exists_value (before ++ name) value
          have hfew : (afterValue value).length < fuel := by
            have hsuffix := (afterValue_suffix value).length_le
            have hsum := congrArg List.length hsplit
            simp only [List.length_append, List.length_cons] at hsum
            omega
          rw [List.append_assoc, hsplit] at hvalue
          refine exists_named ?_ hblank hclosed hnotSlashed hruns hvalue (ih hfew _)
          rw [← hsplit, List.cons_append, ← hmid]
        · next hno =>
          have hsign : after.head? ≠ some '=' := by
            intro hhead
            obtain ⟨value, hvalue⟩ := List.head?_eq_some_iff.mp hhead
            exact hno value hvalue
          have hfew := Nat.lt_of_le_of_lt (hshort hsign) hlength
          have hnone : Value (before ++ c :: rest) (byteLength (before ++ name))
              (byteLength (before ++ name ++ [])) := by
            rw [List.append_nil]
            apply Value.absent
            rw [← hsplit, ← List.append_assoc, byteAt?_length, ne_eq,
              byteAt?_zero_eq_iff (by decide)]
            exact hsign
          exact exists_named hsplit.symm hblank hclosed hnotSlashed hruns hnone (ih hfew _)

/-! ## Section 3: Rounds -/

/-- No comment begins where the text does not go on like one. -/
theorem not_comment {before cs : List Char} (h : strip? "<!--".toList cs = none) :
    ¬StandsAt "<!--".toList (byteLength before) (before ++ cs) := by
  rw [standsAt_byteLength_iff]
  rintro ⟨after, hcs⟩
  rw [hcs, strip?_append] at h
  cases h

/-- The name of a tag, which is read behind the lead of the tag. -/
theorem name_behind (before lead body : List Char) :
    Runs (passes (before ++ (lead ++ body)) isNameChar) (byteLength (before ++ lead))
        (byteLength (before ++ lead ++ body.takeWhile isNameChar)) ∧
      IsRange (before ++ (lead ++ body)) (byteLength (before ++ lead))
        (byteLength (before ++ lead ++ body.takeWhile isNameChar)) ∧
      slice (before ++ (lead ++ body)) (byteLength (before ++ lead))
        (byteLength (before ++ lead ++ body.takeWhile isNameChar)) = body.takeWhile isNameChar := by
  have hruns := runs_takeWhile uniform_isNameChar (before ++ lead) body
  have hcut := cut_append (before ++ lead) (body.takeWhile isNameChar) (body.dropWhile isNameChar)
  rw [List.takeWhile_append_dropWhile, List.append_assoc before lead body] at hcut
  rw [List.append_assoc before lead body] at hruns
  exact ⟨hruns, hcut⟩

/-- What is read behind the name of a tag is read behind the lead and the name. -/
theorem append_behind (before lead body : List Char) :
    before ++ lead ++ body.takeWhile isNameChar ++ body.dropWhile isNameChar =
      before ++ (lead ++ body) := by
  rw [List.append_assoc _ _ (body.dropWhile _), List.takeWhile_append_dropWhile,
    List.append_assoc before lead body]

theorem byteAt?_bracket (before body : List Char) :
    byteAt? (before ++ '<' :: body) (byteLength before) = some '<' := by
  rw [byteAt?_length, byteAt?_cons_of_lt (by decide)]

/-- **A closing tag** ends behind the next closing bracket. -/
theorem exists_closing (before body : List Char) :
    ∃ mid, '<' :: '/' :: body = mid ++ afterWord ['>'] (body.dropWhile isNameChar) ∧
      Round (before ++ '<' :: '/' :: body) (byteLength before)
        (some (.closing (String.ofList (body.takeWhile isNameChar)) (byteLength before + 2)))
        (byteLength (before ++ mid)) := by
  have hbracket : '<'.toNat < 128 := by decide
  have hslash : '/'.toNat < 128 := by decide
  have hlength : byteLength (before ++ ['<', '/']) = byteLength before + 2 := by
    rw [byteLength_append_ascii hbracket, byteLength, utf8Size_of_lt hslash]
    rfl
  obtain ⟨hruns, hrange, hslice⟩ := name_behind before ['<', '/'] body
  obtain ⟨mid, hmid, hfinds⟩ := finds_afterWord (List.cons_ne_nil '>' [])
    (before ++ ['<', '/'] ++ body.takeWhile isNameChar) (body.dropWhile isNameChar)
  rw [append_behind] at hfinds
  rw [hlength] at hruns hrange hslice
  have hnext : byteAt? (before ++ '<' :: '/' :: body) (byteLength before + 1) = some '/' := by
    rw [byteAt?_succ hbracket, byteAt?_cons_of_lt hslash]
  have hround := Round.closing (byteAt?_bracket before _) (isBoundary_append before _)
    (not_comment rfl) hnext hruns hrange hfinds
  refine ⟨['<', '/'] ++ (body.takeWhile isNameChar ++ mid), ?_, ?_⟩
  · rw [List.append_assoc, List.append_assoc, ← hmid, List.takeWhile_append_dropWhile]
    rfl
  · have hname : slice (before ++ '<' :: '/' :: body) _ _ = body.takeWhile isNameChar := hslice
    rw [← List.append_assoc, ← List.append_assoc]
    rwa [hname] at hround

/-- **An opening tag** ends behind its attributes. -/
theorem exists_opening {before body : List Char} {c : Char} (halpha : c.isAlpha = true)
    (hstrip : strip? "<!--".toList ('<' :: c :: body) = none) {fuel : Nat}
    (hfuel : ((c :: body).dropWhile isNameChar).length < fuel) :
    ∃ mid, '<' :: c :: body = mid ++ (attributes fuel ((c :: body).dropWhile isNameChar)).2.2 ∧
      Round (before ++ '<' :: c :: body) (byteLength before)
        (some (.opening (String.ofList ((c :: body).takeWhile isNameChar)) (byteLength before + 1)
          (attributes fuel ((c :: body).dropWhile isNameChar)).1
          (attributes fuel ((c :: body).dropWhile isNameChar)).2.1))
        (byteLength (before ++ mid)) := by
  have hbracket : '<'.toNat < 128 := by decide
  have hlength : byteLength (before ++ ['<']) = byteLength before + 1 :=
    byteLength_append_ascii hbracket before []
  obtain ⟨hruns, hrange, hslice⟩ := name_behind before ['<'] (c :: body)
  obtain ⟨mid, hmid, hattributes⟩ := exists_attributes hfuel
    (before ++ ['<'] ++ (c :: body).takeWhile isNameChar)
  rw [append_behind] at hattributes
  rw [hlength] at hruns hrange hslice
  have hletter : passes (before ++ '<' :: c :: body) Char.isAlpha (byteLength before + 1) =
      true := by
    have hascii := lt_of_passes (fun _ => isAlpha_eq_false_of_le) halpha
    rw [passes, byteAt?_succ hbracket, byteAt?_cons_of_lt hascii, Option.any_some]
    exact halpha
  have hround := Round.opening (byteAt?_bracket before _) (isBoundary_append before _)
    (not_comment hstrip) hletter hruns hrange hattributes
  refine ⟨['<'] ++ ((c :: body).takeWhile isNameChar ++ mid), ?_, ?_⟩
  · rw [List.append_assoc, List.append_assoc, ← hmid, List.takeWhile_append_dropWhile]
    rfl
  · have hname : slice (before ++ '<' :: c :: body) _ _ = (c :: body).takeWhile isNameChar := hslice
    rw [← List.append_assoc, ← List.append_assoc]
    rwa [hname] at hround

/-- **A round at a tag or comment** reads what `tagAt` reads. -/
theorem exists_round {before cs rest : List Char} {tag : Option Tag}
    (h : tagAt (byteLength before) cs = some (tag, rest)) :
    ∃ mid, cs = mid ++ rest ∧
      Round (before ++ cs) (byteLength before) tag (byteLength (before ++ mid)) := by
  unfold tagAt at h
  split at h
  · next after hstrip =>
    cases h
    have hcs := strip?_eq_some_iff.mp hstrip
    have hend : "-->".toList ≠ [] := by decide
    obtain ⟨mid, hmid, hfinds⟩ := finds_afterWord hend before cs
    refine ⟨mid, hmid, .comment ?_ (standsAt_byteLength_iff.mpr ⟨after, hcs⟩) hfinds⟩
    rw [hcs]
    exact byteAt?_bracket before _
  · next hstrip =>
    split at h
    · next _ body =>
      cases h
      exact exists_closing before body
    · next _ c body hslash =>
      split at h
      · next halpha =>
        cases h
        exact exists_opening halpha hstrip (Nat.lt_succ_self _)
      · cases h
    · cases h

/-- Where nothing begins at an angle bracket, the loop goes on behind it. -/
theorem round_of_tagAt {before cs : List Char} (h : tagAt (byteLength before) ('<' :: cs) = none) :
    Round (before ++ '<' :: cs) (byteLength before) none (byteLength before + 1) := by
  have hbracket : '<'.toNat < 128 := by decide
  have hnext := byteAt?_succ hbracket before cs
  unfold tagAt at h
  cases hstrip : strip? "<!--".toList ('<' :: cs) with
  | some after =>
    rw [hstrip] at h
    cases h
  | none =>
    rw [hstrip] at h
    refine .bare (byteAt?_bracket before cs) (isBoundary_append _ _) (not_comment hstrip) ?_ ?_
    · rw [hnext]
      intro hslash
      obtain ⟨body, rfl⟩ := List.head?_eq_some_iff.mp
        ((byteAt?_zero_eq_iff (by decide)).mp hslash)
      cases h
    · rw [passes, hnext]
      cases cs with
      | nil => rfl
      | cons c body =>
        obtain ⟨b, hb, hpb⟩ := exists_byteAt? uniform_isAlpha c body c.utf8Size_pos
        rw [hb, Option.any_some, hpb]
        by_cases hslash : c = '/'
        · rw [hslash]
          rfl
        · by_cases halpha : c.isAlpha = true
          · simp [halpha] at h
          · simpa using halpha

/-! ## Section 4: The whole text -/

/-- A round that reports no tag. -/
theorem Scans.skip {t : List Char} {i j : Nat} {ts : List Tag} (h : Round t i none j)
    (rest : Scans t j ts) : Scans t i ts :=
  .round h rest

/-- A loop that meets no angle bracket for a while. -/
theorem Scans.advance {t : List Char} {i n : Nat} {ts : List Tag}
    (hpass : ∀ k, k < n → ∃ b, byteAt? t (i + k) = some b ∧ b ≠ '<') (h : Scans t (i + n) ts) :
    Scans t i ts := by
  induction n generalizing i with
  | zero => exact h
  | succ n ih =>
    obtain ⟨b, hb, hne⟩ := hpass 0 (Nat.succ_pos n)
    refine .skip (.other hb hne) (ih ?_ ?_)
    · intro k hk
      have hnext := hpass (k + 1) (Nat.succ_lt_succ hk)
      rwa [← Nat.add_assoc, Nat.add_right_comm] at hnext
    · rwa [← Nat.add_assoc, Nat.add_right_comm] at h

/-- **The loop comes to its end**, with the tags that are read by characters, if the bound is large
    enough. -/
theorem scans_tagsFrom {fuel : Nat} {rest : List Char} (hfuel : rest.length ≤ fuel)
    (before : List Char) :
    Scans (before ++ rest) (byteLength before) (tagsFrom fuel (byteLength before) rest) := by
  induction fuel generalizing before rest with
  | zero =>
    obtain rfl := List.eq_nil_of_length_eq_zero (Nat.le_zero.mp hfuel)
    apply Scans.ended
    rw [byteAt?_length]
    rfl
  | succ fuel ih =>
    cases rest with
    | nil =>
      apply Scans.ended
      rw [byteAt?_length]
      rfl
    | cons c cs =>
      have hcs : cs.length ≤ fuel := Nat.le_of_succ_le_succ hfuel
      rw [tagsFrom]
      split
      · next tag rest htag =>
        obtain ⟨mid, hmid, hround⟩ := exists_round htag
        have hlt := hround.lt
        have hlength := byteLength_append before mid
        rw [hmid] at hfuel ⊢
        have hoffset : byteLength before + (byteLength (mid ++ rest) - byteLength rest) =
            byteLength (before ++ mid) := by
          rw [byteLength_append mid, Nat.add_sub_cancel, hlength]
        have hmore : rest.length ≤ fuel := by
          have hpos : mid ≠ [] := by
            rintro rfl
            rw [List.append_nil] at hlt
            exact Nat.lt_irrefl _ hlt
          have hpos := List.length_pos_iff.mpr hpos
          rw [List.length_append] at hfuel
          omega
        rw [hoffset, ← List.append_assoc]
        rw [hmid, ← List.append_assoc] at hround
        exact .round hround (ih hmore (before ++ mid))
      · next htag =>
        have hnext := ih hcs (before ++ [c])
        rw [byteLength_append before [c], ← List.append_cons] at hnext
        by_cases hc : c = '<'
        · subst hc
          exact .skip (round_of_tagAt htag) hnext
        · refine Scans.advance (n := c.utf8Size) ?_ hnext
          intro k hk
          have huniform : Uniform fun b => b == '<' := uniform_beq (by decide)
          obtain ⟨b, hb, hpb⟩ := exists_byteAt? huniform c cs hk
          refine ⟨b, by rw [byteAt?_append, hb], ?_⟩
          rintro rfl
          exact hc (beq_iff_eq.mp hpb.symm)

/-- **Scanning by bytes is scanning by characters**: on every text the loop over the bytes comes to
    its end without cutting a character in two, and its tags are those of the text. -/
theorem scans_iff (t : List Char) (ts : List Tag) : Scans t 0 ts ↔ ts = tags t := by
  have hscans : Scans t 0 (tags t) := scans_tagsFrom (Nat.le_refl t.length) []
  constructor
  · intro h
    exact h.unique hscans
  · rintro rfl
    exact hscans

end BuildMacros.Template
