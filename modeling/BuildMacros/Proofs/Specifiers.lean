import BuildMacros.Proofs.Text.Infixes
import BuildMacros.Specifier

/-! # Specifiers that name a file

    A module names a file by a relative specifier when the specifier, joined to the
    directory of the module, is the path of the file (`Resolver.Names`). Where no alias
    interferes, such a specifier and the path itself have one comparison key, and that is
    why what a file registers is found by the files that import from it.
-/

namespace BuildMacros

open BuildMacros.Text

/-! ## Section 1: Aliases -/

/-- No alias of the table applies to the text. -/
def AliasTable.Spares (t : AliasTable) (s : String) : Prop :=
  ∀ e ∈ t.entries, remainder? e.1.toList s.toList = none

/-- The first alias that applies is expanded. -/
theorem AliasTable.expandFirst_cases (specifier : List Char) (es : List (String × String)) :
    ((∀ e ∈ es, remainder? e.1.toList specifier = none) ∧ expandFirst specifier es = specifier) ∨
      ∃ front key target back rest, es = front ++ (key, target) :: back ∧
        (∀ e ∈ front, remainder? e.1.toList specifier = none) ∧
        remainder? key.toList specifier = some rest ∧
        expandFirst specifier es = expand target.toList rest := by
  induction es with
  | nil => exact .inl ⟨fun e he => (by cases he), rfl⟩
  | cons e es ih =>
    obtain ⟨key, target⟩ := e
    rw [expandFirst]
    cases hkey : remainder? key.toList specifier with
    | some rest => exact .inr ⟨[], key, target, es, rest, rfl, by simp, hkey, rfl⟩
    | none =>
      rcases ih with ⟨hnone, hsame⟩ | ⟨front, key', target', back, rest, rfl, hfront, hrest, hout⟩
      · exact .inl ⟨List.forall_mem_cons.mpr ⟨hkey, hnone⟩, hsame⟩
      · exact .inr ⟨(key, target) :: front, key', target', back, rest, rfl,
          List.forall_mem_cons.mpr ⟨hkey, hfront⟩, hrest, hout⟩

theorem AliasTable.resolve_of_spares {t : AliasTable} {s : String} (h : t.Spares s) :
    t.resolve s = s := by
  rcases expandFirst_cases s.toList t.entries with
    ⟨-, hsame⟩ | ⟨front, key, target, back, rest, hentries, -, hrest, -⟩
  · rw [resolve, hsame, String.ofList_toList]
  · have hnone := h (key, target) (by simp [hentries])
    rw [hrest] at hnone
    cases hnone

/-! ## Section 2: Joined paths -/

namespace Path

/-- A segment of a path. -/
def IsSegment (s : List Char) : Prop := s ≠ [] ∧ '/' ∉ s

/-- One part of a relative path adds at most one segment. -/
theorem isSegment_move {segments : List (List Char)} {part : List Char}
    (h : ∀ s ∈ segments, IsSegment s) (hpart : '/' ∉ part) :
    ∀ s ∈ move segments part, IsSegment s := by
  unfold move
  split
  · exact h
  · next hstay =>
    split
    · exact fun s hs => h s (List.mem_of_mem_tail hs)
    · intro s hs
      rcases List.mem_cons.mp hs with rfl | hs
      · exact ⟨fun hnil => hstay (by simp [hnil]), hpart⟩
      · exact h s hs

theorem isSegment_foldl_move {parts segments : List (List Char)}
    (h : ∀ s ∈ segments, IsSegment s) (hparts : ∀ p ∈ parts, '/' ∉ p) :
    ∀ s ∈ parts.foldl move segments, IsSegment s := by
  induction parts generalizing segments with
  | nil => exact h
  | cons p parts ih =>
    exact ih (isSegment_move h (hparts p List.mem_cons_self)) fun q hq =>
      hparts q (List.mem_cons_of_mem _ hq)

/-- Segments that are joined begin with the first of them. -/
theorem startsWith_join_eq_false {segments : List (List Char)} (h : ∀ s ∈ segments, IsSegment s) :
    startsWith ['/'] (join ['/'] segments) = false := by
  rw [Bool.eq_false_iff, ne_eq, startsWith_iff]
  rintro ⟨rest, hrest⟩
  cases segments with
  | nil => cases hrest
  | cons s segments =>
    obtain ⟨hne, hslash⟩ := h s List.mem_cons_self
    obtain ⟨c, cs, rfl⟩ := List.exists_cons_of_ne_nil hne
    have hhead : c = '/' := by
      cases segments with
      | nil =>
        cases hrest
        rfl
      | cons t segments =>
        cases hrest
        rfl
    exact hslash (hhead ▸ List.mem_cons_self)

/-- Only what is joined to a directory is an absolute path. -/
theorem ne_nil_of_absolute {base relative : List Char}
    (h : startsWith ['/'] (joinTo base relative) = true) : base ≠ [] := by
  rintro rfl
  have hsegments : ∀ s ∈ ((fields (· == '/') relative).foldl move []).reverse, IsSegment s := by
    intro s hs
    refine isSegment_foldl_move (fun s hs => by cases hs) (fun p hp hslash => ?_) s
      (List.mem_reverse.mp hs)
    exact absurd (not_sep_of_mem_fields hp '/' hslash) (by decide)
  have hrelative : startsWith ['/'] (joinTo [] relative) = false :=
    startsWith_join_eq_false hsegments
  rw [hrelative] at h
  cases h

end Path

/-! ## Section 3: Comparison keys -/

namespace Resolver

/-- The module names the file at an absolute path by a relative specifier. -/
structure Names (r : Resolver) (specifier path : String) : Prop where
  relative : isRelative specifier.toList = true
  joined : Path.joinTo r.directory specifier.toList = path.toList
  absolute : startsWith ['/'] path.toList = true
  spared : r.aliases.Spares specifier

/-- **A specifier and the file that it names** have one comparison key. -/
theorem Names.resolve_eq {r : Resolver} {specifier path : String} (h : r.Names specifier path) :
    r.resolve specifier = Path.stripExtension path := by
  have hdirectory : r.directory ≠ [] := by
    have habsolute : startsWith ['/'] (Path.joinTo r.directory specifier.toList) = true := by
      rw [h.joined]
      exact h.absolute
    exact Path.ne_nil_of_absolute habsolute
  have hjoins : (isRelative specifier.toList && !r.directory.isEmpty) = true := by
    rw [h.relative, Bool.true_and, Bool.not_eq_true']
    exact List.isEmpty_eq_false_iff.mpr hdirectory
  unfold resolve
  simp only [AliasTable.resolve_of_spares h.spared, hjoins, if_true, h.joined]
  rfl

end Resolver

end BuildMacros
