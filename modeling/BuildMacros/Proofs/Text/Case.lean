import BuildMacros.Text.Class

/-! # Upper case of single characters

    The tables of case are compared as sets of code points, and a set of code points
    is kept as the number whose bits it names: two tables have no code point in common
    when their numbers have no bit in common (`not_mem_of_bits`).

    In this way the tables say that upper case comes to rest after one step. A
    character with the property Uppercase has no image (`upper_of_isUpper`), and neither
    has the first character of any image (`upper_of_head?_upper`). Within ASCII, nothing but
    capital letters is in an image (`mem_upper_cases`).
-/

namespace BuildMacros.Text

/-! ## Section 1: Sets of code points as numbers -/

/-- The number whose bits are set at the given places. -/
def bits (ns : List Nat) : Nat := ns.foldr (fun n m => 1 <<< n ||| m) 0

/-- The same for the places of several lists. -/
def allBits (nss : List (List Nat)) : Nat := nss.foldr (fun ns m => bits ns ||| m) 0

theorem testBit_bits {ns : List Nat} {n : Nat} (h : n ∈ ns) : (bits ns).testBit n = true := by
  induction ns with
  | nil => cases h
  | cons k ns ih =>
    rw [bits, List.foldr_cons, Nat.testBit_or, Bool.or_eq_true]
    rcases List.mem_cons.mp h with rfl | h
    · exact .inl (by simp [Nat.testBit_shiftLeft])
    · exact .inr (ih h)

theorem testBit_allBits {nss : List (List Nat)} {ns : List Nat} {n : Nat} (hns : ns ∈ nss)
    (h : n ∈ ns) : (allBits nss).testBit n = true := by
  induction nss with
  | nil => cases hns
  | cons ms nss ih =>
    rw [allBits, List.foldr_cons, Nat.testBit_or, Bool.or_eq_true]
    rcases List.mem_cons.mp hns with rfl | hns
    · exact .inl (testBit_bits h)
    · exact .inr (ih hns)

/-- Lists without a common bit have no common member. -/
theorem not_mem_of_bits {nss mss : List (List Nat)} (hbits : allBits nss &&& allBits mss = 0)
    {ns ms : List Nat} {n : Nat} (hns : ns ∈ nss) (hn : n ∈ ns) (hms : ms ∈ mss) : n ∉ ms := by
  intro hm
  have hboth : (allBits nss &&& allBits mss).testBit n = true := by
    rw [Nat.testBit_and, testBit_allBits hns hn, testBit_allBits hms hm]
    rfl
  rw [hbits, Nat.zero_testBit] at hboth
  cases hboth

/-! ## Section 2: Runs -/

/-- The code points of a run. -/
def runPoints (first last step : Nat) : List Nat :=
  List.range' first ((last - first) / step + 1) step

theorem mem_runPoints {first last step n : Nat} (h : inRun first last step n = true) :
    n ∈ runPoints first last step := by
  simp only [inRun, Bool.and_eq_true, decide_eq_true_eq, beq_iff_eq] at h
  obtain ⟨⟨hfirst, hlast⟩, hstep⟩ := h
  have hle : (n - first) / step ≤ (last - first) / step := Nat.div_le_div_right (by omega)
  have hsum := Nat.div_add_mod (n - first) step
  exact List.mem_range'.mpr ⟨(n - first) / step, by omega, by omega⟩

/-- The code points that a shifted run maps to. -/
def runImages (r : Nat × Nat × Nat × Int) : List Nat :=
  (runPoints r.1 r.2.1 r.2.2.1).map fun n => (Int.ofNat n + r.2.2.2).toNat

theorem exists_run_of_shifted? {table : Array (Nat × Nat × Nat × Int)} {n image : Nat}
    (h : shifted? table n = some image) : ∃ r ∈ table.toList, image ∈ runImages r := by
  obtain ⟨r, hr, rfl⟩ := Option.map_eq_some_iff.mp h
  refine ⟨r, Array.mem_toList_iff.mpr (Array.mem_of_find?_eq_some hr), ?_⟩
  have hrun := Array.find?_some hr
  exact List.mem_map.mpr ⟨n, mem_runPoints hrun, rfl⟩

/-! ## Section 3: Mappings -/

section

variable (long : List (Nat × List Nat)) (short : Array (Nat × Nat × Nat × Int))

/-- The code points that a mapping has images of. -/
def mappedPoints : List (List Nat) :=
  long.map Prod.fst :: short.toList.map fun r => runPoints r.1 r.2.1 r.2.2.1

/-- The code points that images begin with. -/
def firstImages : List (List Nat) := long.filterMap (·.2.head?) :: short.toList.map runImages

/-- All code points in images. -/
def allImages : List (List Nat) := long.map Prod.snd ++ short.toList.map runImages

end

section

variable {long : List (Nat × List Nat)} {short : Array (Nat × Nat × Nat × Int)} {c d : Char}

/-- What begins an image is in it. -/
theorem exists_allImages {ns : List Nat} {n : Nat} (hns : ns ∈ firstImages long short)
    (hn : n ∈ ns) : ∃ ms ∈ allImages long short, n ∈ ms := by
  rcases List.mem_cons.mp hns with rfl | hns
  · obtain ⟨p, hp, hhead⟩ := List.mem_filterMap.mp hn
    exact ⟨p.2, List.mem_append_left _ (List.mem_map.mpr ⟨p, hp, rfl⟩), List.mem_of_head? hhead⟩
  · exact ⟨ns, List.mem_append_right _ hns, hn⟩

/-- Characters without an image stay as they are. -/
theorem mapCase_of_not_mapped (h : ∀ ns ∈ mappedPoints long short, c.toNat ∉ ns) :
    mapCase long short c = [c] := by
  have hlong : long.lookup c.toNat = none := by
    rw [List.lookup_eq_none_iff]
    intro p hp
    have hne : c.toNat ∉ long.map Prod.fst := h _ List.mem_cons_self
    rw [bne_iff_ne]
    exact fun heq => hne (List.mem_map.mpr ⟨p, hp, heq.symm⟩)
  have hshort : shifted? short c.toNat = none := by
    rw [shifted?, Option.map_eq_none_iff, Array.find?_eq_none]
    intro r hr hrun
    have hpoints : runPoints r.1 r.2.1 r.2.2.1 ∈ mappedPoints long short :=
      List.mem_cons_of_mem _ (List.mem_map.mpr ⟨r, Array.mem_toList_iff.mpr hr, rfl⟩)
    exact h _ hpoints (mem_runPoints hrun)
  rw [mapCase, hlong, hshort]

variable (long short c) in
/-- What a character is mapped to: itself, a long image or a short one. -/
theorem mapCase_cases :
    mapCase long short c = [c] ∨
      (∃ p ∈ long, mapCase long short c = p.2.map Char.ofNat) ∨
      ∃ r ∈ short.toList, ∃ n ∈ runImages r, mapCase long short c = [Char.ofNat n] := by
  unfold mapCase
  split
  · next ns hns =>
    obtain ⟨before, after, htable, -⟩ := List.lookup_eq_some_iff.mp hns
    exact .inr (.inl ⟨(c.toNat, ns), by simp [htable], rfl⟩)
  · split
    · next n hn =>
      obtain ⟨r, hr, himage⟩ := exists_run_of_shifted? hn
      exact .inr (.inr ⟨r, hr, n, himage, rfl⟩)
    · exact .inl rfl

theorem exists_of_mem_mapCase (h : d ∈ mapCase long short c) :
    (d = c ∧ mapCase long short c = [c]) ∨
      ∃ ns ∈ allImages long short, ∃ n ∈ ns, d = Char.ofNat n := by
  rcases mapCase_cases long short c with heq | ⟨p, hp, heq⟩ | ⟨r, hr, n, hn, heq⟩
  · exact .inl ⟨by simpa [heq] using h, heq⟩
  · rw [heq] at h
    obtain ⟨n, hn, rfl⟩ := List.mem_map.mp h
    exact .inr ⟨p.2, List.mem_append_left _ (List.mem_map.mpr ⟨p, hp, rfl⟩), n, hn, rfl⟩
  · rw [heq, List.mem_singleton] at h
    exact .inr ⟨runImages r, List.mem_append_right _ (List.mem_map.mpr ⟨r, hr, rfl⟩), n, hn, h⟩

theorem exists_of_head?_mapCase (h : (mapCase long short c).head? = some d) :
    (d = c ∧ mapCase long short c = [c]) ∨
      ∃ ns ∈ firstImages long short, ∃ n ∈ ns, d = Char.ofNat n := by
  rcases mapCase_cases long short c with heq | ⟨p, hp, heq⟩ | ⟨r, hr, n, hn, heq⟩
  · exact .inl ⟨by simpa [heq, eq_comm] using h, heq⟩
  · rw [heq, List.head?_map] at h
    obtain ⟨n, hn, rfl⟩ := Option.map_eq_some_iff.mp h
    exact .inr ⟨_, List.mem_cons_self, n, List.mem_filterMap.mpr ⟨p, hp, hn⟩, rfl⟩
  · rw [heq, List.head?_cons, Option.some.injEq] at h
    exact .inr ⟨runImages r, List.mem_cons_of_mem _ (List.mem_map.mpr ⟨r, hr, rfl⟩), n, hn, h.symm⟩

end

/-! ## Section 4: Upper case -/

/-- Code points of the capital letters of ASCII. -/
def IsCapital (n : Nat) : Prop := 65 ≤ n ∧ n ≤ 90

instance (n : Nat) : Decidable (IsCapital n) := inferInstanceAs (Decidable (_ ∧ _))

/-- What the images of the mapping to upper case consist of. -/
theorem upper_allImages : ∀ ns ∈ allImages Table.toUpperLong Table.toUpperRuns,
    ns ≠ [] ∧ ∀ n ∈ ns, n.isValidChar ∧ (128 ≤ n ∨ IsCapital n) := by
  decide +kernel

/-- Neither a code point of the property Uppercase nor one that begins an image is mapped to
    upper case. -/
theorem bits_unmapped :
    allBits (Table.uppercaseRuns.toList.map fun r => runPoints r.1 r.2.1 r.2.2) &&&
        allBits (mappedPoints Table.toUpperLong Table.toUpperRuns) = 0 ∧
      allBits (firstImages Table.toUpperLong Table.toUpperRuns) &&&
        allBits (mappedPoints Table.toUpperLong Table.toUpperRuns) = 0 := by
  decide +kernel

theorem exists_ascii {c : Char} (hc : c.toNat < 128) : ∃ n : Fin 128, c = Char.ofNat n :=
  ⟨⟨c.toNat, hc⟩, (Char.ofNat_toNat c).symm⟩

/-- Upper case of an ASCII character. -/
theorem upper_of_ascii {c : Char} (hc : c.toNat < 128) : upper c = [c.toUpper] := if_pos hc

/-- Upper case of any other character. -/
theorem upper_of_not_ascii {c : Char} (hc : ¬c.toNat < 128) :
    upper c = mapCase Table.toUpperLong Table.toUpperRuns c := if_neg hc

theorem toNat_ofNat {n : Nat} (h : n.isValidChar) : (Char.ofNat n).toNat = n := by
  rw [Char.ofNat, dif_pos h]
  rfl

/-- Within ASCII, a character is its own upper case, or its upper case is a capital letter. -/
theorem toUpper_cases {c : Char} (hc : c.toNat < 128) :
    (isUpper c = true → c.toUpper = c) ∧ c.toUpper.toUpper = c.toUpper ∧
      (c.toUpper = c ∨ IsCapital c.toUpper.toNat) := by
  obtain ⟨n, rfl⟩ := exists_ascii hc
  clear hc
  -- each of the 128 characters
  revert n
  decide

theorem upper_of_isCapital {c : Char} (h : IsCapital c.toNat) : upper c = [c] := by
  have hc : c.toNat < 128 := by unfold IsCapital at h; omega
  obtain ⟨n, rfl⟩ := exists_ascii hc
  rw [upper_of_ascii hc]
  clear hc
  revert n
  decide

/-- **Characters with the property Uppercase** are their own upper case. -/
theorem upper_of_isUpper {c : Char} (h : isUpper c = true) : upper c = [c] := by
  by_cases hc : c.toNat < 128
  · rw [upper_of_ascii hc, (toUpper_cases hc).1 h]
  · rw [isUpper, if_neg hc, inRuns, Array.any_eq_true'] at h
    obtain ⟨r, hr, hrun⟩ := h
    rw [upper_of_not_ascii hc]
    apply mapCase_of_not_mapped
    intro ns hns
    have hpoints : runPoints r.1 r.2.1 r.2.2 ∈
        Table.uppercaseRuns.toList.map fun r => runPoints r.1 r.2.1 r.2.2 :=
      List.mem_map.mpr ⟨r, Array.mem_toList_iff.mpr hr, rfl⟩
    exact not_mem_of_bits bits_unmapped.1 hpoints (mem_runPoints hrun) hns

/-- **The first character of an upper case** is its own upper case. -/
theorem upper_of_head?_upper {c d : Char} (h : (upper c).head? = some d) : upper d = [d] := by
  by_cases hc : c.toNat < 128
  · rw [upper_of_ascii hc, List.head?_cons, Option.some.injEq] at h
    subst h
    obtain ⟨-, htwice, hself | hcapital⟩ := toUpper_cases hc
    · rw [hself, upper_of_ascii hc, hself]
    · exact upper_of_isCapital hcapital
  · rw [upper_of_not_ascii hc] at h
    rcases exists_of_head?_mapCase h with ⟨rfl, hself⟩ | ⟨ns, hns, n, hn, rfl⟩
    · rw [upper_of_not_ascii hc, hself]
    · obtain ⟨ms, hms, hn'⟩ := exists_allImages hns hn
      obtain ⟨hvalid, hplaced⟩ := (upper_allImages ms hms).2 n hn'
      rcases hplaced with hlarge | hcapital
      · rw [upper_of_not_ascii (by rw [toNat_ofNat hvalid]; omega)]
        apply mapCase_of_not_mapped
        intro ks hks
        rw [toNat_ofNat hvalid]
        exact not_mem_of_bits bits_unmapped.2 hns hn hks
      · exact upper_of_isCapital (by rwa [toNat_ofNat hvalid])

/-- **What an upper case consists of**: the character itself, when it has no image, and else
    characters beyond ASCII and capital letters. -/
theorem mem_upper_cases {c d : Char} (h : d ∈ upper c) :
    (d = c ∧ upper c = [c]) ∨ 128 ≤ d.toNat ∨ IsCapital d.toNat := by
  by_cases hc : c.toNat < 128
  · rw [upper_of_ascii hc] at h ⊢
    rw [List.mem_singleton] at h
    subst h
    obtain ⟨-, -, hself | hcapital⟩ := toUpper_cases hc
    · exact .inl ⟨hself, by rw [hself]⟩
    · exact .inr (.inr hcapital)
  · rw [upper_of_not_ascii hc] at h ⊢
    rcases exists_of_mem_mapCase h with hself | ⟨ns, hns, n, hn, rfl⟩
    · exact .inl hself
    · obtain ⟨hvalid, hplaced⟩ := (upper_allImages ns hns).2 n hn
      rw [toNat_ofNat hvalid]
      exact .inr hplaced

/-- A character of ASCII that is no capital letter is in no upper case but its own. -/
theorem eq_of_mem_upper {c d : Char} (h : d ∈ upper c) (hascii : d.toNat < 128)
    (hcapital : ¬IsCapital d.toNat) : d = c ∧ upper c = [c] := by
  rcases mem_upper_cases h with hself | hlarge | hcapital'
  · exact hself
  · omega
  · exact absurd hcapital' hcapital

/-- No character is mapped to nothing. -/
theorem upper_ne_nil (c : Char) : upper c ≠ [] := by
  by_cases hc : c.toNat < 128
  · rw [upper_of_ascii hc]
    exact List.cons_ne_nil _ _
  · rw [upper_of_not_ascii hc]
    rcases mapCase_cases Table.toUpperLong Table.toUpperRuns c with
      heq | ⟨p, hp, heq⟩ | ⟨r, -, n, -, heq⟩
    · rw [heq]
      exact List.cons_ne_nil _ _
    · have hp' : p.2 ∈ allImages Table.toUpperLong Table.toUpperRuns :=
        List.mem_append_left _ (List.mem_map.mpr ⟨p, hp, rfl⟩)
      rw [heq]
      exact fun hnil => (upper_allImages p.2 hp').1 (List.map_eq_nil_iff.mp hnil)
    · rw [heq]
      exact List.cons_ne_nil _ _

end BuildMacros.Text
