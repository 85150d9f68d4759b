import BuildMacros.Proofs.Assoc
import BuildMacros.Proofs.Specifiers
import BuildMacros.Proofs.Text.Slices

/-! # The longest alias

    An alias applies to a specifier where it ends with a segment of it: at the end of the
    specifier, before a slash, or at a slash of its own. A table tries its aliases by falling
    length, so the first one that applies is the longest (`resolve_ofMap_iff`). There is only
    one, because all that apply are beginnings of the specifier. An alias that is a beginning
    but ends inside a segment is passed over, and a shorter one may apply.
-/

namespace BuildMacros.AliasTable

open BuildMacros.Text

/-! ## Section 1: Aliases that apply -/

/-- An alias applies to a specifier that it equals, to one that goes on with a slash behind it and,
    if it ends with a slash itself, to one that goes on in any way. -/
def Applies (key specifier : String) : Prop :=
  specifier = key ∨ key.toList ++ ['/'] <+: specifier.toList ∨
    ['/'] <:+ key.toList ∧ key.toList <+: specifier.toList

/-- An alias of a map that applies to a specifier, and the longest one that does. -/
structure Longest (aliases : Assoc String String) (specifier key : String) : Prop where
  known : aliases.has key = true
  applies : Applies key specifier
  longest : ∀ other, aliases.has other = true → Applies other specifier → other ≠ key →
    other.length < key.length

variable {aliases : Assoc String String} {specifier key : String}

theorem remainder?_eq_some_iff {key specifier rest : List Char} :
    remainder? key specifier = some rest ↔
      specifier = key ++ rest ∧ (rest = [] ∨ ['/'] <+: rest ∨ ['/'] <:+ key) := by
  have hends : (rest.isEmpty || startsWith ['/'] rest || endsWith ['/'] key) = true ↔
      rest = [] ∨ ['/'] <+: rest ∨ ['/'] <:+ key := by
    rw [Bool.or_eq_true, Bool.or_eq_true, List.isEmpty_iff, startsWith_iff, endsWith_iff, or_assoc]
  rw [← hends, ← strip?_eq_some_iff, remainder?]
  cases hstrip : strip? key specifier with
  | none => simp
  | some rest' =>
    dsimp only
    constructor
    · intro h
      split at h
      · next hrest =>
        obtain rfl : rest' = rest := Option.some.inj h
        exact ⟨rfl, hrest⟩
      · cases h
    · rintro ⟨hsame, hrest⟩
      obtain rfl : rest' = rest := Option.some.inj hsame
      exact if_pos hrest

/-- An alias applies when it leaves something, possibly nothing, of the specifier. -/
theorem applies_iff :
    Applies key specifier ↔ ∃ rest, remainder? key.toList specifier.toList = some rest := by
  simp only [remainder?_eq_some_iff]
  constructor
  · rintro (rfl | ⟨tail, htail⟩ | ⟨hslash, rest, hrest⟩)
    · exact ⟨[], by simp⟩
    · exact ⟨'/' :: tail, by simp [← htail]⟩
    · exact ⟨rest, hrest.symm, .inr (.inr hslash)⟩
  · rintro ⟨rest, hrest, rfl | ⟨tail, rfl⟩ | hslash⟩
    · exact .inl (String.toList_injective (by simpa using hrest))
    · exact .inr (.inl ⟨tail, by simp [hrest]⟩)
    · exact .inr (.inr ⟨hslash, rest, hrest.symm⟩)

theorem Applies.isPrefix (h : Applies key specifier) : key.toList <+: specifier.toList := by
  obtain ⟨rest, hrest⟩ := applies_iff.mp h
  exact ⟨rest, (remainder?_eq_some_iff.mp hrest).1.symm⟩

/-- An alias that ends inside a segment of the specifier does not apply. -/
theorem not_applies_inside {c : Char} {rest : List Char}
    (hspecifier : specifier.toList = key.toList ++ c :: rest) (hc : c ≠ '/')
    (hkey : ¬ ['/'] <:+ key.toList) : ¬ Applies key specifier := by
  intro h
  obtain ⟨rest', hrest⟩ := applies_iff.mp h
  obtain ⟨hsplit, hends⟩ := remainder?_eq_some_iff.mp hrest
  rw [hspecifier] at hsplit
  obtain rfl : c :: rest = rest' := List.append_cancel_left hsplit
  rcases hends with hnil | ⟨tail, htail⟩ | hslash
  · cases hnil
  · exact hc (List.cons.inj htail).1.symm
  · exact hkey hslash

/-- Of two aliases that apply, the one with the fewer bytes is the shorter one. -/
theorem Applies.length_lt {other : String} (h : Applies key specifier)
    (hother : Applies other specifier) (hne : other ≠ key)
    (hbytes : other.utf8ByteSize ≤ key.utf8ByteSize) : other.length < key.length := by
  -- both are beginnings of the specifier, so one is a beginning of the other one
  have hfront : other.toList <+: key.toList := by
    rcases List.prefix_or_prefix_of_prefix hother.isPrefix h.isPrefix with hfront | ⟨more, hmore⟩
    · exact hfront
    · rw [utf8ByteSize_eq, utf8ByteSize_eq, ← hmore, byteLength_append] at hbytes
      have hnil : more = [] := by
        refine Decidable.byContradiction fun hmore => ?_
        have hpos := byteLength_pos_of_ne_nil hmore
        omega
      exact ⟨[], by rw [← hmore, hnil, List.append_nil, List.append_nil]⟩
  have hle : other.length ≤ key.length := hfront.length_le
  refine Nat.lt_of_le_of_ne hle fun hsame => hne ?_
  exact String.toList_injective (hfront.eq_of_length hsame)

theorem Longest.unique {key' : String} (h : Longest aliases specifier key)
    (h' : Longest aliases specifier key') : key = key' := by
  refine Decidable.byContradiction fun hne => ?_
  have hlt := h'.longest key h.known h.applies hne
  have hgt := h.longest key' h'.known h'.applies (Ne.symm hne)
  omega

/-! ## Section 2: Targets -/

/-- What becomes of a target and of what an alias has left of a specifier: the target loses the
    slashes at its end. If there is more left than slashes, it follows on one slash, without the
    slashes at its front. -/
inductive Expands : List Char → List Char → List Char → Prop where
  | alone {base slashes rest : List Char} (hbase : ¬ ['/'] <:+ base)
      (hslashes : ∀ c ∈ slashes, c = '/') (hrest : ∀ c ∈ rest, c = '/') :
      Expands (base ++ slashes) rest base
  | behind {base slashes slashes' tail : List Char} (hbase : ¬ ['/'] <:+ base)
      (hslashes : ∀ c ∈ slashes, c = '/') (hslashes' : ∀ c ∈ slashes', c = '/')
      (hne : tail ≠ []) (htail : ¬ ['/'] <+: tail) :
      Expands (base ++ slashes) (slashes' ++ tail) (base ++ '/' :: tail)

theorem dropEnd_slashes {base slashes : List Char} (hbase : ¬ ['/'] <:+ base)
    (hslashes : ∀ c ∈ slashes, c = '/') : dropEnd (· == '/') (base ++ slashes) = base := by
  rw [dropEnd_append (by simpa using hslashes), dropEnd_eq_self]
  intro c hc
  refine beq_false_of_ne ?_
  rintro rfl
  obtain ⟨front, hfront⟩ := List.getLast?_eq_some_iff.mp hc
  exact hbase ⟨front, hfront.symm⟩

theorem dropWhile_slashes {slashes tail : List Char} (hslashes : ∀ c ∈ slashes, c = '/')
    (htail : ¬ ['/'] <+: tail) : (slashes ++ tail).dropWhile (· == '/') = tail := by
  rw [List.dropWhile_append_of_pos (by simpa using hslashes), dropWhile_eq_self]
  intro c hc
  refine beq_false_of_ne ?_
  rintro rfl
  obtain ⟨more, hmore⟩ := List.head?_eq_some_iff.mp hc
  exact htail ⟨more, hmore.symm⟩

theorem not_prefix_dropWhile (cs : List Char) : ¬ ['/'] <+: cs.dropWhile (· == '/') := by
  rintro ⟨tail, htail⟩
  have hhead := List.head?_dropWhile_not (· == '/') cs
  rw [← htail] at hhead
  simp at hhead

theorem eq_slash_of_mem_takeWhile {cs : List Char} {c : Char} (h : c ∈ cs.takeWhile (· == '/')) :
    c = '/' := by
  have hall := List.all_eq_true.mp (List.all_takeWhile (l := cs) (p := (· == '/')))
  simpa using hall c h

theorem Expands.eq {target rest out : List Char} (h : Expands target rest out) :
    out = expand target rest := by
  cases h with
  | @alone base slashes rest hbase hslashes hrest =>
    have hempty : ¬ ['/'] <+: ([] : List Char) := by simp
    have hnone := dropWhile_slashes hrest hempty
    rw [List.append_nil] at hnone
    simp [expand, dropEnd_slashes hbase hslashes, hnone]
  | behind hbase hslashes hslashes' hne htail =>
    simp [expand, dropEnd_slashes hbase hslashes, dropWhile_slashes hslashes' htail, hne]

theorem expands_expand (target rest : List Char) : Expands target rest (expand target rest) := by
  -- the slashes that are dropped at the end of the target, and those at the front of the rest
  obtain ⟨base, slashes, rfl, hbase, hslashes⟩ : ∃ base slashes, target = base ++ slashes ∧
      ¬ ['/'] <:+ base ∧ ∀ c ∈ slashes, c = '/' := by
    refine ⟨dropEnd (· == '/') target, (target.reverse.takeWhile (· == '/')).reverse, ?_, ?_, ?_⟩
    · rw [dropEnd, ← List.reverse_append, List.takeWhile_append_dropWhile, List.reverse_reverse]
    · rw [dropEnd, ← List.reverse_prefix, List.reverse_reverse]
      exact not_prefix_dropWhile target.reverse
    · intro c hc
      exact eq_slash_of_mem_takeWhile (List.mem_reverse.mp hc)
  have hrest : rest.takeWhile (· == '/') ++ rest.dropWhile (· == '/') = rest :=
    List.takeWhile_append_dropWhile
  have hfront : ∀ c ∈ rest.takeWhile (· == '/'), c = '/' :=
    fun c hc => eq_slash_of_mem_takeWhile hc
  rw [expand, dropEnd_slashes hbase hslashes]
  by_cases htail : rest.dropWhile (· == '/') = []
  · rw [htail, List.append_nil] at hrest
    rw [hrest] at hfront
    rw [htail]
    exact .alone hbase hslashes hfront
  · have hbehind := Expands.behind hbase hslashes hfront htail (not_prefix_dropWhile rest)
    rw [hrest] at hbehind
    simpa [htail] using hbehind

/-! ## Section 3: The order of a table -/

theorem before_iff (a b : String × String) : before a b = true ↔
    b.1.utf8ByteSize < a.1.utf8ByteSize ∨ a.1.utf8ByteSize = b.1.utf8ByteSize ∧ a.1 ≤ b.1 := by
  simp [before]

theorem before_trans (a b c : String × String) (hab : before a b = true)
    (hbc : before b c = true) : before a c = true := by
  rw [before_iff] at hab hbc ⊢
  rcases hab with hab | ⟨hab, hle⟩
  · left
    omega
  · rcases hbc with hbc | ⟨hbc, hle'⟩
    · left
      omega
    · exact .inr ⟨hab.trans hbc, String.le_trans hle hle'⟩

theorem before_total (a b : String × String) : (before a b || before b a) = true := by
  rw [Bool.or_eq_true, before_iff, before_iff]
  rcases Nat.lt_trichotomy a.1.utf8ByteSize b.1.utf8ByteSize with hlt | heq | hgt
  · exact .inr (.inl hlt)
  · rcases String.le_total a.1 b.1 with hle | hle
    · exact .inl (.inr ⟨heq, hle⟩)
    · exact .inr (.inr ⟨heq.symm, hle⟩)
  · exact .inl (.inl hgt)

/-- Longer aliases come first. -/
theorem pairwise_entries (aliases : Assoc String String) :
    (ofMap aliases).entries.Pairwise fun a b => b.1.utf8ByteSize ≤ a.1.utf8ByteSize := by
  have hsorted := List.pairwise_mergeSort before_trans before_total aliases
  refine hsorted.imp fun {a b} hab => ?_
  rcases (before_iff a b).mp hab with hlt | ⟨heq, -⟩ <;> omega

/-- A table knows what its map knows. -/
theorem get?_entries (aliases : Assoc String String) (key : String) :
    Assoc.get? (ofMap aliases).entries key = aliases.get? key := by
  -- the sorting is stable, and equal keys are not told apart
  apply Assoc.get?_mergeSort before_trans before_total
  intro a b hsame
  rw [before_iff, hsame]
  exact .inr ⟨rfl, String.le_refl _⟩

/-! ## Section 4: The alias that is expanded -/

theorem applies_of_remainder? {rest : List Char}
    (h : remainder? key.toList specifier.toList = some rest) : Applies key specifier :=
  applies_iff.mpr ⟨rest, h⟩

theorem not_applies_of_remainder? (h : remainder? key.toList specifier.toList = none) :
    ¬ Applies key specifier := by
  intro happlies
  obtain ⟨rest, hrest⟩ := applies_iff.mp happlies
  rw [h] at hrest
  cases hrest

/-- A map knows an alias when its table has an entry for it. -/
theorem exists_mem_entries (h : aliases.has key = true) :
    ∃ target, (key, target) ∈ (ofMap aliases).entries := by
  obtain ⟨target, htarget⟩ := Option.isSome_iff_exists.mp h
  rw [← get?_entries] at htarget
  exact ⟨target, Assoc.mem_of_get? htarget⟩

/-- The first entry that applies is the one of the longest alias that does. -/
theorem longest_of_first {front back : List (String × String)} {target : String}
    {rest : List Char} (hentries : (ofMap aliases).entries = front ++ (key, target) :: back)
    (hfront : ∀ e ∈ front, remainder? e.1.toList specifier.toList = none)
    (hrest : remainder? key.toList specifier.toList = some rest) :
    Longest aliases specifier key ∧ aliases.get? key = some target := by
  have happlies := applies_of_remainder? hrest
  have hget : aliases.get? key = some target := by
    have hnone : Assoc.get? front key = none := by
      rw [Option.eq_none_iff_forall_ne_some]
      intro other hother
      exact not_applies_of_remainder? (hfront (key, other) (Assoc.mem_of_get? hother)) happlies
    rw [← get?_entries, hentries, Assoc.get?_append, hnone, Option.none_or, Assoc.get?,
      List.lookup_cons, beq_self_eq_true]
  refine ⟨⟨?_, happlies, ?_⟩, hget⟩
  · rw [Assoc.has, hget, Option.isSome_some]
  · intro other hknown hother hne
    obtain ⟨target', hmem⟩ := exists_mem_entries hknown
    have hsorted := pairwise_entries aliases
    rw [hentries] at hmem hsorted
    have hback : (other, target') ∈ back := by
      rcases List.mem_append.mp hmem with hmem | hmem
      · exact absurd hother (not_applies_of_remainder? (hfront _ hmem))
      · rcases List.mem_cons.mp hmem with hmem | hmem
        · exact absurd (Prod.mk.inj hmem).1 hne
        · exact hmem
    have hbytes := (List.pairwise_cons.mp (List.pairwise_append.mp hsorted).2.1).1 _ hback
    exact happlies.length_lt hother hne hbytes

/-- What a specifier stands for under a map of aliases: the longest alias that applies is expanded,
    and without one the specifier stands for itself. -/
inductive Resolves (aliases : Assoc String String) (specifier : String) : String → Prop where
  | expanded {key target out : String} {rest : List Char}
      (hlongest : Longest aliases specifier key) (htarget : aliases.get? key = some target)
      (hrest : specifier.toList = key.toList ++ rest)
      (hout : Expands target.toList rest out.toList) : Resolves aliases specifier out
  | unchanged (hnone : ∀ key, aliases.has key = true → ¬ Applies key specifier) :
      Resolves aliases specifier specifier

/-- What is returned for a specifier is what it stands for. -/
theorem resolves_resolve (aliases : Assoc String String) (specifier : String) :
    Resolves aliases specifier ((ofMap aliases).resolve specifier) := by
  rcases expandFirst_cases specifier.toList (ofMap aliases).entries with
    ⟨hnone, hsame⟩ | ⟨front, key, target, back, rest, hentries, hfront, hrest, hout⟩
  · rw [resolve, hsame, String.ofList_toList]
    apply Resolves.unchanged
    intro key hkey
    obtain ⟨target, hmem⟩ := exists_mem_entries hkey
    exact not_applies_of_remainder? (hnone _ hmem)
  · obtain ⟨hlongest, hget⟩ := longest_of_first hentries hfront hrest
    apply Resolves.expanded hlongest hget (remainder?_eq_some_iff.mp hrest).1
    rw [resolve, String.toList_ofList, hout]
    exact expands_expand target.toList rest

/-- A specifier stands for one text only. -/
theorem Resolves.unique {out out' : String} (h : Resolves aliases specifier out)
    (h' : Resolves aliases specifier out') : out = out' := by
  cases h with
  | @expanded key target _ rest hlongest htarget hrest hout =>
    cases h' with
    | @expanded key' target' _ rest' hlongest' htarget' hrest' hout' =>
      obtain rfl : key = key' := hlongest.unique hlongest'
      obtain rfl : target = target' := Option.some.inj (htarget.symm.trans htarget')
      obtain rfl : rest = rest' := List.append_cancel_left (hrest.symm.trans hrest')
      exact String.toList_injective (hout.eq.trans hout'.eq.symm)
    | unchanged hnone => exact absurd hlongest.applies (hnone key hlongest.known)
  | unchanged hnone =>
    cases h' with
    | expanded hlongest => exact absurd hlongest.applies (hnone _ hlongest.known)
    | unchanged => rfl

/-! ## Section 5: Aliases that do not apply -/

theorem get?_insert_of_applies {other target : String} (hkey : ¬ Applies key specifier)
    (hother : Applies other specifier) :
    Assoc.get? (aliases.insert key target) other = aliases.get? other := by
  apply Assoc.get?_insert_of_ne
  intro hsame
  exact hkey (hsame ▸ hother)

theorem has_insert_of_applies {other target : String} (hkey : ¬ Applies key specifier)
    (hother : Applies other specifier) :
    Assoc.has (aliases.insert key target) other = aliases.has other := by
  rw [Assoc.has, get?_insert_of_applies hkey hother, Assoc.has]

/-- A specifier stands for the same with one more alias that does not apply to it. -/
theorem Resolves.insert {out : String} (h : Resolves aliases specifier out)
    (hkey : ¬ Applies key specifier) (target : String) :
    Resolves (aliases.insert key target) specifier out := by
  cases h with
  | @expanded longest target' _ rest hlongest htarget hrest hout =>
    refine .expanded ⟨?_, hlongest.applies, ?_⟩ ?_ hrest hout
    · rw [has_insert_of_applies hkey hlongest.applies]
      exact hlongest.known
    · intro other hknown hother hne
      rw [has_insert_of_applies hkey hother] at hknown
      exact hlongest.longest other hknown hother hne
    · rw [get?_insert_of_applies hkey hlongest.applies]
      exact htarget
  | unchanged hnone =>
    apply Resolves.unchanged
    intro other hknown hother
    rw [has_insert_of_applies hkey hother] at hknown
    exact hnone other hknown hother

/-- **Aliases are expanded by length**: what is returned for a specifier is the expansion of the
    longest alias that applies to it, of which there is one at most, or the specifier itself when
    none applies. Expanded means the target without the slashes at its end and, if the alias left
    more than slashes, one slash and what it left without the slashes at its front. An alias that
    the specifier begins with, but that ends inside one of its segments, makes no difference,
    whatever its target is. -/
theorem resolve_ofMap_iff (aliases : Assoc String String) (specifier : String) :
    (∀ out, (ofMap aliases).resolve specifier = out ↔ Resolves aliases specifier out) ∧
      (∀ key key', Longest aliases specifier key → Longest aliases specifier key' → key = key') ∧
      ∀ key c rest, specifier.toList = key.toList ++ c :: rest → c ≠ '/' →
        ¬ ['/'] <:+ key.toList → ∀ target,
          (ofMap (aliases.insert key target)).resolve specifier =
            (ofMap aliases).resolve specifier := by
  refine ⟨?_, ?_, ?_⟩
  · intro out
    constructor
    · intro hout
      rw [← hout]
      exact resolves_resolve aliases specifier
    · intro hout
      exact (resolves_resolve aliases specifier).unique hout
  · intro key key' h h'
    exact h.unique h'
  · intro key c rest hspecifier hc hkey target
    have hinside := not_applies_inside hspecifier hc hkey
    have hsame := (resolves_resolve aliases specifier).insert hinside target
    exact (resolves_resolve (aliases.insert key target) specifier).unique hsame

/-- Aliases of which one is the beginning of another. -/
def overlapping : Assoc String String := [("#app", "/nuxt/app"), ("#app/composables", "/lib/")]

/-- The longer one is expanded without doubling slashes, and a third one that ends inside the same
    segment makes no difference. -/
theorem resolve_overlapping :
    Longest overlapping "#app/composables//fetch" "#app/composables" ∧
      (ofMap overlapping).resolve "#app/composables//fetch" = "/lib/fetch" ∧
      (ofMap (overlapping.insert "#app/comp" "/nowhere")).resolve "#app/composables//fetch" =
        "/lib/fetch" := by
  have hlongest : Longest overlapping "#app/composables//fetch" "#app/composables" := by
    refine ⟨rfl, .inr (.inl ⟨"/fetch".toList, rfl⟩), ?_⟩
    intro other hknown hother hne
    obtain ⟨target, htarget⟩ := Option.isSome_iff_exists.mp hknown
    have hmem := Assoc.mem_of_get? htarget
    simp only [overlapping, List.mem_cons, Prod.mk.injEq, List.not_mem_nil, or_false] at hmem
    rcases hmem with ⟨rfl, -⟩ | ⟨rfl, -⟩
    · decide
    · exact absurd rfl hne
  have hexpands : Expands "/lib/".toList "//fetch".toList "/lib/fetch".toList :=
    @Expands.behind "/lib".toList ['/'] ['/', '/'] "fetch".toList (by decide) (by simp) (by simp)
      (by decide) (by decide)
  obtain ⟨hiff, -, hinside⟩ := resolve_ofMap_iff overlapping "#app/composables//fetch"
  have hout := (hiff "/lib/fetch").mpr (.expanded hlongest rfl rfl hexpands)
  have hsame := hinside "#app/comp" 'o' "sables//fetch".toList rfl (by decide) (by decide)
    "/nowhere"
  exact ⟨hlongest, hout, hsame.trans hout⟩

end BuildMacros.AliasTable
