import BuildMacros.Proofs.Pattern.Literals

/-! # What a filter of names accepts

    The filter of a list of names is read from a text, so which names pass is a matter
    of how that text is written: names that begin another name of the list, names that
    are empty and names with characters that mean something in patterns are told apart
    only by the escapes and the anchors in it. It accepts the names of its list and no
    others (`accepts_ofNames`).

    The escaped names stand in that text in ascending order and once each. So the text
    depends on which names are listed, and not on how they are (`exactly_congr`).
-/

namespace BuildMacros

namespace Pattern

/-! ## Section 1: Ascending lists -/

theorem mem_place {v w : List Char} {ws : List (List Char)} : v ∈ place w ws ↔ v = w ∨ v ∈ ws := by
  induction ws with
  | nil => simp [place]
  | cons u us ih =>
    unfold place
    split
    · next h => simp [h]
    · split
      · simp
      · rw [List.mem_cons, ih, List.mem_cons]
        exact or_left_comm

theorem mem_ascending {v : List Char} {ws : List (List Char)} : v ∈ ascending ws ↔ v ∈ ws := by
  induction ws with
  | nil => rfl
  | cons w ws ih =>
    rw [ascending, List.foldr_cons, mem_place, List.mem_cons, ← ascending, ih]

theorem pairwise_place {w : List Char} {ws : List (List Char)} (h : ws.Pairwise (· < ·)) :
    (place w ws).Pairwise (· < ·) := by
  induction ws with
  | nil => exact List.pairwise_singleton _ _
  | cons v vs ih =>
    obtain ⟨hv, hvs⟩ := List.pairwise_cons.mp h
    unfold place
    split
    · exact h
    · next hne =>
      split
      · next hlt =>
        refine List.pairwise_cons.mpr ⟨fun u hu => ?_, h⟩
        rcases List.mem_cons.mp hu with rfl | hu
        · exact hlt
        · exact List.lt_trans hlt (hv u hu)
      · next hlt =>
        have hle := List.le_iff_lt_or_eq.mp (List.not_lt.mp hlt)
        have hvw : v < w := hle.resolve_right (Ne.symm hne)
        refine List.pairwise_cons.mpr ⟨fun u hu => ?_, ih hvs⟩
        rcases mem_place.mp hu with rfl | hu
        · exact hvw
        · exact hv u hu

theorem pairwise_ascending (ws : List (List Char)) : (ascending ws).Pairwise (· < ·) := by
  induction ws with
  | nil => exact List.Pairwise.nil
  | cons w ws ih => exact pairwise_place ih

/-- Lists of the same texts have one ascending list. -/
theorem ascending_congr {vs ws : List (List Char)} (h : ∀ u, u ∈ vs ↔ u ∈ ws) :
    ascending vs = ascending ws := by
  have hnodup : ∀ us : List (List Char), (ascending us).Nodup := fun us =>
    (pairwise_ascending us).imp fun {u v} (hlt : u < v) (heq : u = v) =>
      List.lt_irrefl v (heq ▸ hlt)
  have hperm : (ascending vs).Perm (ascending ws) :=
    (List.perm_ext_iff_of_nodup (hnodup vs) (hnodup ws)).mpr fun u => by
      rw [mem_ascending, mem_ascending, h]
  exact hperm.eq_of_pairwise (fun u v _ _ huv hvu => absurd hvu (List.lt_asymm huv))
    (pairwise_ascending vs) (pairwise_ascending ws)

/-! ## Section 2: Exactly the given texts -/

/-- The text depends on which texts are given, not on their order or repetition. -/
theorem exactly_congr {vs ws : List (List Char)} (h : ∀ u, u ∈ vs ↔ u ∈ ws) :
    exactly vs = exactly ws := by
  have hescaped : ∀ e, e ∈ vs.map escaped ↔ e ∈ ws.map escaped := fun e => by
    simp only [List.mem_map, h]
  rw [exactly, exactly, ascending_congr hescaped]

theorem escaped_mem_ascending {w : List Char} {ws : List (List Char)} :
    escaped w ∈ ascending (ws.map escaped) ↔ w ∈ ws := by
  simp only [mem_ascending, List.mem_map, escaped_inj, exists_eq_right]

/-- A list of texts reads as a pattern, and that matches these texts and no others. -/
theorem exists_read_exactly {ws : List (List Char)} (hne : ws ≠ []) :
    ∃ p, read (exactly ws) = some p ∧
      ∀ text : String, p.isMatch text = true ↔ text.toList ∈ ws := by
  have hescaped : ∀ e ∈ ascending (ws.map escaped), ∃ w, escaped w = e := by
    intro e he
    obtain ⟨w, -, hw⟩ := List.mem_map.mp (mem_ascending.mp he)
    exact ⟨w, hw⟩
  have hascending : ascending (ws.map escaped) ≠ [] := by
    obtain ⟨w, hw⟩ := List.exists_mem_of_ne_nil ws hne
    exact List.ne_nil_of_mem (escaped_mem_ascending.mpr hw)
  obtain ⟨p, hread, hends⟩ := exists_alternatives
    (group ((Text.join ['|'] (ascending (ws.map escaped))).length + 5))
    ((Text.join ['|'] (ascending (ws.map escaped)) ++ [')', '$']).length + 1) none
    hascending hescaped [] ['$'] (by simp only [List.length_append]; omega)
  refine ⟨whole p, read_anchored hread, fun text => ?_⟩
  rw [isMatch_whole]
  constructor
  · rintro ⟨q, hq, hafter⟩
    rcases (hends _ q).mp hq with ⟨b, hb, -⟩ | ⟨w, hw, hq⟩
    · cases hb
    · have htext : text.toList = w ++ [] := exists_end_literal.mp ⟨q, hq, hafter⟩
      rw [htext, List.append_nil]
      exact escaped_mem_ascending.mp hw
  · intro htext
    obtain ⟨q, hq, hafter⟩ := exists_end_literal.mpr
      (show (⟨none, text.toList⟩ : Place).after = text.toList ++ [] from (List.append_nil _).symm)
    exact ⟨q, (hends _ q).mpr (.inr ⟨_, escaped_mem_ascending.mpr htext, hq⟩), hafter⟩

end Pattern

/-! ## Section 3: Filters of names -/

namespace NameFilter

/-- Some name makes a filter that is read, and no name the absent one. -/
theorem exists_ofNames {names : List String} (hne : names ≠ []) :
    ∃ p, ofNames names = ofPattern p ∧ ∀ name, p.isMatch name = true ↔ name ∈ names := by
  have htexts : names.map String.toList ≠ [] := by simpa using hne
  obtain ⟨p, hread, hmatch⟩ := Pattern.exists_read_exactly htexts
  refine ⟨p, ?_, fun name => ?_⟩
  · rw [ofNames, if_neg (by simpa using hne), hread]
    rfl
  · rw [hmatch]
    simp only [List.mem_map, String.toList_inj, exists_eq_right]

/-- **The filter of a list of names** accepts these names and no others. -/
theorem accepts_ofNames {names : List String} {name : String} :
    (ofNames names).accepts name = true ↔ name ∈ names := by
  cases names with
  | nil => exact ⟨nofun, nofun⟩
  | cons n names =>
    obtain ⟨p, hfilter, hmatch⟩ := exists_ofNames (List.cons_ne_nil n names)
    rw [hfilter]
    exact hmatch name

/-- Lists of the same names have the same filter. -/
theorem ofNames_congr {names names' : List String} (h : ∀ n, n ∈ names' ↔ n ∈ names) :
    ofNames names' = ofNames names := by
  have hempty : names'.isEmpty = names.isEmpty := by
    rw [Bool.eq_iff_iff, List.isEmpty_iff, List.isEmpty_iff, List.eq_nil_iff_forall_not_mem,
      List.eq_nil_iff_forall_not_mem]
    simp only [h]
  have htexts : ∀ w, w ∈ names'.map String.toList ↔ w ∈ names.map String.toList := fun w => by
    simp only [List.mem_map, h]
  rw [ofNames, ofNames, hempty, Pattern.exactly_congr htexts]

/-- **A filter of names** is the set of its names. Every list of names has a filter, which is absent
    for the empty list only and then accepts nothing; it accepts the names that are listed, whatever
    characters they hold; and two lists have one filter when they list the same names, in whatever
    order and however often. -/
theorem ofNames_exact (names : List String) :
    (∀ name, (ofNames names).accepts name = true ↔ name ∈ names) ∧
      (∀ names', ofNames names' = ofNames names ↔ ∀ name, name ∈ names' ↔ name ∈ names) ∧
      ((ofNames names).pattern = none ↔ names = []) ∧
      ∀ name, (ofNames []).accepts name = false := by
  refine ⟨fun name => accepts_ofNames, fun names' => ⟨fun h name => ?_, ofNames_congr⟩, ?_,
    fun name => rfl⟩
  · rw [← accepts_ofNames, h, accepts_ofNames]
  · constructor
    · intro hnone
      cases names with
      | nil => rfl
      | cons n names =>
        obtain ⟨p, hfilter, -⟩ := exists_ofNames (List.cons_ne_nil n names)
        rw [hfilter] at hnone
        cases hnone
    · rintro rfl
      rfl

-- `use$Thing` holds a character that means something in patterns, and `use` begins a listed name
example : let f := ofNames ["use$Thing", "useFetch", "", "use$Thing"]
    f.accepts "use$Thing" = true ∧ f.accepts "" = true ∧ f.accepts "use" = false ∧
      f.accepts "useFetchX" = false := by decide

end NameFilter

end BuildMacros
