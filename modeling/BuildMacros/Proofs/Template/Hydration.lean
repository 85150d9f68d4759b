import BuildMacros.Proofs.Splice.Batches
import BuildMacros.Proofs.Template.Tags
import BuildMacros.Template.Hydration

/-! # Renaming elements

    The pass renames elements at the places of their names and nowhere else
    (`hydrate_eq`). Those places are apart in the template, and the template stands in
    the file at the offset that is added to them; so no renaming is refused.
-/

namespace BuildMacros.Template

open BuildMacros.Text BuildMacros.Script BuildMacros.Components BuildMacros.Splicer

/-! ## Section 1: The template in its file -/

theorem standsAt_of_templateFrom {pos offset : Nat} {cs template : List Char}
    (h : templateFrom pos cs = some (offset, template)) :
    ∃ n, offset = n + pos ∧ StandsAt template n cs := by
  induction cs generalizing pos with
  | nil => cases h
  | cons c cs ih =>
    rw [templateFrom] at h
    split at h
    · obtain ⟨n, -, hn⟩ := Option.map_eq_some_iff.mp h
      cases hn
      exact ⟨0, (Nat.zero_add _).symm, [], _, (List.take_append_drop _ _).symm, rfl⟩
    · obtain ⟨n, hn, hstands⟩ := ih h
      refine ⟨n + c.utf8Size, by omega, ?_⟩
      simpa [byteLength] using hstands.append_left [c]

/-- **The template is a part of the file**, at its offset. -/
theorem standsAt_of_locate? {code : String} {offset : Nat} {template : List Char}
    (h : locate? code = some (offset, template)) : StandsAt template offset code.toList := by
  obtain ⟨n, hn, hstands⟩ := standsAt_of_templateFrom h
  rwa [hn, Nat.add_zero]

/-! ## Section 2: The edits of the pass -/

/-- The call that replaces a name at its place. -/
def replacing (offset : Nat) (name : String) (x : String × Nat) : Call :=
  .overwrite (offset + x.2) (offset + x.2 + byteLength x.1.toList) name

/-- The calls that an element asks for, given its new name when there is one. -/
def Element.renamings (offset : Nat) (name? : Option String) (e : Element) : List Call :=
  match name? with
  | some name => e.places.map (replacing offset name)
  | none => []

theorem rename_eq (offset : Nat) (s : Splicer) (e : Element) (name : String) :
    rename offset s e name = (e.renamings offset (some name)).foldlM call? s := by
  unfold rename Element.renamings Element.places
  cases e.closing with
  | none => rfl
  | some start =>
    simp only [Option.toList_some, List.map_cons, List.map_nil, List.foldlM_cons, List.foldlM_nil]
    refine bind_congr fun t => ?_
    exact (bind_pure _).symm

/-- A call of an element replaces its name at one of its places. -/
theorem Element.exists_place {offset : Nat} {name? : Option String} {e : Element} {c : Call}
    (hc : c ∈ e.renamings offset name?) : ∃ x ∈ e.places, ∃ name, c = replacing offset name x := by
  cases name? with
  | none => cases hc
  | some name =>
    obtain ⟨x, hx, rfl⟩ := List.mem_map.mp hc
    exact ⟨x, hx, name, rfl⟩

/-- Replacing names whose places are apart. -/
theorem agree_replacing {x y : String × Nat} (h : Clear x y) (offset : Nat) (name name' : String) :
    Agree (replacing offset name x) (replacing offset name' y) := by
  refine agree_of_apart ?_
  rintro _ _ ⟨⟩ ⟨⟩
  unfold Clear at h
  dsimp only
  omega

/-- **No renaming is refused**, whichever elements get whichever names. -/
theorem exists_renamed {code : String} {offset : Nat} {template : List Char}
    (h : StandsAt template offset code.toList) (name? : Element → Option String) :
    ∃ s, ((elements template).flatMap fun e => e.renamings offset (name? e)).foldlM call?
      (Splicer.new code) = .ok s := by
  obtain ⟨hnamed, hstands, hclear⟩ := elements_places template
  obtain ⟨hwithin, hamong⟩ := List.pairwise_flatMap.mp hclear
  refine exists_foldlM_call? _ _ ?_ (List.pairwise_flatMap.mpr ⟨fun e he => ?_, hamong.imp ?_⟩)
  · intro c hc
    obtain ⟨e, he, hc⟩ := List.mem_flatMap.mp hc
    obtain ⟨x, hx, name, rfl⟩ := Element.exists_place hc
    have hpart := ((hstands x (List.mem_flatMap.mpr ⟨e, he, hx⟩)).trans h).isRange
    rw [Nat.add_comm] at hpart
    have hpos := byteLength_pos_of_ne_nil (hnamed e he)
    rw [← Element.fst_of_mem_places hx] at hpos
    exact ⟨Nat.lt_add_of_pos_right hpos, hpart⟩
  · cases hname : name? e with
    | none => exact List.Pairwise.nil
    | some name =>
      exact List.pairwise_map.mpr ((hwithin e he).imp fun hxy => agree_replacing hxy _ _ _)
  · intro a b hab c hc d hd
    obtain ⟨x, hx, name, rfl⟩ := Element.exists_place hc
    obtain ⟨y, hy, name', rfl⟩ := Element.exists_place hd
    exact agree_replacing (hab x hx y hy) _ _ _

/-! ## Section 3: What the pass does -/

/-- An element with its new name, in a template at an offset. -/
structure Renamed where
  offset : Nat
  element : Element
  name : String

/-- The elements of a file that the pass renames, in the order of their opening tags. -/
def renamed (r : ComponentRegistry) (code id : String) : List Renamed :=
  match locate? code with
  | none => []
  | some (offset, template) =>
    if isVue id && hasWord hydrationWords none template then
      (elements template).filterMap fun e =>
        (newName? r (scriptScopes code id) e).map fun name => ⟨offset, e, name⟩
    else []

/-- Which elements are renamed, and to what. -/
theorem mem_renamed_iff {r : ComponentRegistry} {code id : String} {x : Renamed} :
    x ∈ renamed r code id ↔ isVue id = true ∧
      ∃ template, locate? code = some (x.offset, template) ∧
        hasWord hydrationWords none template = true ∧ x.element ∈ elements template ∧
        newName? r (scriptScopes code id) x.element = some x.name := by
  unfold renamed
  constructor
  · intro h
    split at h
    · cases h
    · next offset template hlocate =>
      split at h
      · next hlooked =>
        obtain ⟨hvue, hword⟩ := Bool.and_eq_true_iff.mp hlooked
        obtain ⟨e, he, hx⟩ := List.mem_filterMap.mp h
        obtain ⟨name, hname, rfl⟩ := Option.map_eq_some_iff.mp hx
        exact ⟨hvue, template, hlocate, hword, he, hname⟩
      · cases h
  · rintro ⟨hvue, template, hlocate, hword, he, hname⟩
    simp only [hlocate, hvue, hword, Bool.and_self, if_true]
    exact List.mem_filterMap.mpr ⟨x.element, he, by rw [hname]; rfl⟩

/-- The calls that replace the name of an element in its tags. -/
def Renamed.calls (x : Renamed) : List Call := x.element.places.map (replacing x.offset x.name)

/-- The calls of the renamed elements are what all elements ask for. -/
theorem flatMap_calls (name? : Element → Option String) (offset : Nat) (es : List Element) :
    (es.filterMap fun e => (name? e).map fun name => Renamed.mk offset e name).flatMap
        Renamed.calls =
      es.flatMap fun e => e.renamings offset (name? e) := by
  induction es with
  | nil => rfl
  | cons e es ih =>
    rw [List.flatMap_cons, ← ih]
    cases hname : name? e with
    | none =>
      rw [List.filterMap_cons_none (by rw [hname]; rfl)]
      rfl
    | some name =>
      rw [List.filterMap_cons_some (by rw [hname]; rfl)]
      rfl

/-- **What the pass does**: it replaces the names of the renamed elements in their tags, and it
    changes nothing else. -/
theorem hydrate_eq (r : ComponentRegistry) (sourcemap : Bool) (code id : String) :
    hydrate r sourcemap code id =
      .ok ((run code ((renamed r code id).flatMap Renamed.calls)).output id sourcemap) := by
  have hnothing : (.ok .unchanged : Except Failure Output) =
      .ok ((run code []).output id sourcemap) := by
    simp [run, output, hasChanged, new]
  unfold hydrate renamed
  cases hlocate : locate? code with
  | none =>
    by_cases hvue : isVue id = true <;>
      simpa [hvue, pure, Except.pure] using hnothing
  | some place =>
    obtain ⟨offset, template⟩ := place
    by_cases hlooked : (isVue id && hasWord hydrationWords none template) = true
    · obtain ⟨hvue, hword⟩ := Bool.and_eq_true _ _ |>.mp hlooked
      obtain ⟨s, hs⟩ := exists_renamed (standsAt_of_locate? hlocate)
        (newName? r (scriptScopes code id))
      dsimp only
      rw [if_pos hlooked, flatMap_calls, run, foldl_call_of_foldlM hs]
      simp only [hvue, hword, Bool.not_true, Bool.false_eq_true, if_false]
      rw [foldlM_eq_foldlM_call? fun e =>
        e.renamings offset (newName? r (scriptScopes code id) e), hs]
      · rfl
      · intro s e
        cases newName? r (scriptScopes code id) e with
        | none => rfl
        | some name => exact rename_eq offset s e name
    · dsimp only
      rw [if_neg hlooked]
      by_cases hvue : isVue id = true
      · have hword : hasWord hydrationWords none template = false := by simpa [hvue] using hlooked
        simpa [hvue, hword, pure, Except.pure] using hnothing
      · simpa [hvue, pure, Except.pure] using hnothing

/-- The pass never fails. -/
theorem exists_hydrate (r : ComponentRegistry) (sourcemap : Bool) (code id : String) :
    ∃ o, hydrate r sourcemap code id = .ok o :=
  ⟨_, hydrate_eq r sourcemap code id⟩

end BuildMacros.Template
