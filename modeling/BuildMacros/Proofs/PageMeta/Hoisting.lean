import BuildMacros.PageMeta
import BuildMacros.Proofs.Script.Blocks
import Mathlib.Data.List.Nodup

/-! # What the metadata of a page needs

    The metadata refers to declarations of its module, and these refer to others, perhaps in
    a circle. Hoisting follows the references in depth: a declaration that is met for the
    first time is taken, with all that it refers to, before the next one.

    `Hoists` says what such a run does without a bound on its depth. The program has a
    bound, the number of references, and never gets there: each step down takes a new
    declaration, which some reference refers to (`hoists_hoistAll`). So hoisting ends on
    every module, and its result is that of the run.

    When it succeeds, it has taken what is `Reached`: declarations that are referred to by
    the metadata or by another declaration that is taken. A declaration that cannot be
    hoisted, such as a local one, is passed over with all that it refers to
    (`local_not_followed`).
-/

namespace BuildMacros.PageMeta

open BuildMacros.Script

/-! ## Section 1: What is reached -/

/-- The text of a span refers to a declaration whose name stands outside of it. -/
def RefersTo (refs : List Reference) (within : Span) (d : Declaration) : Prop :=
  ∃ x ∈ refs, within.contains x.span = true ∧ x.declaration = some d ∧
    within.contains d.span = false

theorem mem_outward_iff {refs : List Reference} {within : Span} {d : Declaration} :
    d ∈ outward refs within ↔ RefersTo refs within d := by
  unfold outward RefersTo
  rw [List.mem_filterMap]
  constructor
  · intro ⟨x, hx, hd⟩
    obtain ⟨hmem, hinside⟩ := List.mem_filter.mp hx
    obtain ⟨hdecl, houtside⟩ := Option.filter_eq_some_iff.mp hd
    exact ⟨x, hmem, hinside, hdecl, by simpa using houtside⟩
  · intro ⟨x, hmem, hinside, hdecl, houtside⟩
    refine ⟨x, List.mem_filter.mpr ⟨hmem, hinside⟩, Option.filter_eq_some_iff.mpr ⟨hdecl, ?_⟩⟩
    simpa using houtside

/-- The text of a span refers to a declaration, or to one that can be hoisted and whose text in turn
    leads to it. -/
inductive Reached (refs : List Reference) (within : Span) : Declaration → Prop where
  | used {d : Declaration} (h : RefersTo refs within d) : Reached refs within d
  | through {d e : Declaration} (hd : Reached refs within d) (hroot : isHoistable d = true)
      (he : RefersTo refs d.node e) : Reached refs within e

/-- The same through declarations of any kind. -/
inductive Linked (refs : List Reference) (within : Span) : Declaration → Prop where
  | used {d : Declaration} (h : RefersTo refs within d) : Linked refs within d
  | through {d e : Declaration} (hd : Linked refs within d) (he : RefersTo refs d.node e) :
      Linked refs within e

/-- The two differ only where something that cannot be hoisted lies in between. -/
theorem reached_iff_linked {refs : List Reference} {within : Span}
    (h : ∀ d e, Linked refs within d → RefersTo refs d.node e → isHoistable d = true)
    (d : Declaration) : Reached refs within d ↔ Linked refs within d := by
  constructor
  · intro hd
    induction hd with
    | used hd => exact .used hd
    | through _ _ he ih => exact .through ih he
  · intro hd
    induction hd with
    | used hd => exact .used hd
    | through hd he ih => exact .through ih (h _ _ hd he) he

/-- What can be hoisted is not imported. -/
theorem isImport_of_isHoistable {d : Declaration} (h : isHoistable d = true) :
    d.isImport = false := by
  unfold isHoistable at h
  unfold Declaration.isImport Declaration.import?
  cases hkind : d.kind with
  | imported b => simp [hkind] at h
  | _ => rfl

/-! ## Section 2: Needs -/

/-- The text of the statement that declares a name. -/
def statementText (m : Module) (d : Declaration) : String :=
  String.ofList (Text.trim Text.isBlank (m.textAt d.node).toList)

namespace Needs

@[simp] theorem declarations_addImport (n : Needs) (text : String) :
    (n.addImport text).declarations = n.declarations := by
  unfold addImport
  split <;> rfl

@[simp] theorem imports_addDeclaration (n : Needs) (span : Span) :
    (n.addDeclaration span).imports = n.imports := rfl

@[simp] theorem mem_addDeclaration {n : Needs} {span span' : Span} :
    span' ∈ (n.addDeclaration span).declarations ↔ span' ∈ n.declarations ∨ span' = span := by
  simp [addDeclaration]

@[simp] theorem mem_addImport {n : Needs} {text text' : String} :
    text' ∈ (n.addImport text).imports ↔ text' ∈ n.imports ∨ text' = text := by
  unfold addImport
  by_cases h : n.imports.contains text = true
  · rw [if_pos h]
    constructor
    · exact Or.inl
    · intro hmem
      rcases hmem with hmem | rfl
      · exact hmem
      · exact List.contains_iff_mem.mp h
  · rw [if_neg h]
    simp

theorem nodup_addImport {n : Needs} (h : n.imports.Nodup) (text : String) :
    (n.addImport text).imports.Nodup := by
  unfold addImport
  by_cases hmem : n.imports.contains text = true
  · rwa [if_pos hmem]
  · rw [if_neg hmem]
    have hfresh : text ∉ n.imports := fun hin => hmem (List.contains_iff_mem.mpr hin)
    rw [← List.concat_eq_append]
    exact h.concat hfresh

theorem nodup_addDeclaration {n : Needs} (h : n.declarations.Nodup) {span : Span}
    (hfresh : span ∉ n.declarations) : (n.addDeclaration span).declarations.Nodup := by
  rw [addDeclaration, ← List.concat_eq_append]
  exact h.concat hfresh

/-- The declaration is among what is needed, as far as it is one that is hoisted. -/
structure Covers (n : Needs) (m : Module) (d : Declaration) : Prop where
  imported : d.isImport = true → statementText m d ∈ n.imports
  hoisted : isHoistable d = true → d.node ∈ n.declarations

/-- All that is needed is still needed later. -/
structure Within (n n' : Needs) : Prop where
  imports : n.imports ⊆ n'.imports
  declarations : n.declarations ⊆ n'.declarations

theorem Within.refl (n : Needs) : n.Within n := ⟨fun _ h => h, fun _ h => h⟩

theorem Within.trans {a b c : Needs} (hab : a.Within b) (hbc : b.Within c) : a.Within c :=
  ⟨fun _ h => hbc.imports (hab.imports h), fun _ h => hbc.declarations (hab.declarations h)⟩

theorem within_addImport (n : Needs) (text : String) : n.Within (n.addImport text) :=
  ⟨fun _ h => mem_addImport.mpr (.inl h), fun _ h => by rwa [declarations_addImport]⟩

theorem within_addDeclaration (n : Needs) (span : Span) : n.Within (n.addDeclaration span) :=
  ⟨fun _ h => h, fun _ h => mem_addDeclaration.mpr (.inl h)⟩

theorem Covers.of_within {n n' : Needs} {m : Module} {d : Declaration} (h : n.Covers m d)
    (hwithin : n.Within n') : n'.Covers m d :=
  ⟨fun himport => hwithin.imports (h.imported himport),
    fun hroot => hwithin.declarations (h.hoisted hroot)⟩

end Needs

/-! ## Section 3: Runs -/

/-- The declaration can be hoisted, and has not been taken yet. -/
structure Fresh (needs : Needs) (d : Declaration) : Prop where
  hoistable : isHoistable d = true
  absent : d.node ∉ needs.declarations

instance (needs : Needs) (d : Declaration) : Decidable (Fresh needs d) :=
  decidable_of_iff (isHoistable d = true ∧ d.node ∉ needs.declarations)
    ⟨fun h => ⟨h.1, h.2⟩, fun h => ⟨h.hoistable, h.absent⟩⟩

/-- A run over declarations, to any depth: an import adds its statement, a declaration that is fresh
    is taken with all that it refers to, unless it waits for a value, and any other is passed. -/
inductive Hoists (m : Module) (id : String) (refs : List Reference) :
    Needs → List Declaration → Except Failure Needs → Prop where
  | done {needs : Needs} : Hoists m id refs needs [] (.ok needs)
  | imported {needs : Needs} {d : Declaration} {ds : List Declaration} {r : Except Failure Needs}
      (himport : d.isImport = true)
      (rest : Hoists m id refs (needs.addImport (statementText m d)) ds r) :
      Hoists m id refs needs (d :: ds) r
  | passed {needs : Needs} {d : Declaration} {ds : List Declaration} {r : Except Failure Needs}
      (himport : d.isImport = false) (hold : ¬Fresh needs d) (rest : Hoists m id refs needs ds r) :
      Hoists m id refs needs (d :: ds) r
  | stopped {needs : Needs} {d : Declaration} {ds : List Declaration} (hfresh : Fresh needs d)
      (hwaits : waits m d = true) :
      Hoists m id refs needs (d :: ds) (.error (.awaitInCall metaCall (Path.clean id)))
  | failed {needs : Needs} {d : Declaration} {ds : List Declaration} {f : Failure}
      (hfresh : Fresh needs d) (hwaits : waits m d = false)
      (inner : Hoists m id refs (needs.addDeclaration d.node) (outward refs d.node) (.error f)) :
      Hoists m id refs needs (d :: ds) (.error f)
  | taken {needs more : Needs} {d : Declaration} {ds : List Declaration}
      {r : Except Failure Needs} (hfresh : Fresh needs d) (hwaits : waits m d = false)
      (inner : Hoists m id refs (needs.addDeclaration d.node) (outward refs d.node) (.ok more))
      (rest : Hoists m id refs more ds r) : Hoists m id refs needs (d :: ds) r

section

variable {m : Module} {id : String} {refs : List Reference} {needs : Needs}
  {ds : List Declaration} {r : Except Failure Needs}

/-- **A run has one result.** -/
theorem Hoists.unique {r' : Except Failure Needs} (h : Hoists m id refs needs ds r)
    (h' : Hoists m id refs needs ds r') : r = r' := by
  induction h generalizing r' with
  | done =>
    cases h'
    rfl
  | imported himport rest ih =>
    cases h' with
    | imported _ rest' => exact ih rest'
    | passed himport' => simp [himport] at himport'
    | stopped hfresh => simp [isImport_of_isHoistable hfresh.hoistable] at himport
    | failed hfresh => simp [isImport_of_isHoistable hfresh.hoistable] at himport
    | taken hfresh => simp [isImport_of_isHoistable hfresh.hoistable] at himport
  | passed himport hold rest ih =>
    cases h' with
    | imported himport' => simp [himport] at himport'
    | passed _ _ rest' => exact ih rest'
    | stopped hfresh => exact absurd hfresh hold
    | failed hfresh => exact absurd hfresh hold
    | taken hfresh => exact absurd hfresh hold
  | stopped hfresh hwaits =>
    cases h' with
    | imported himport => simp [isImport_of_isHoistable hfresh.hoistable] at himport
    | passed _ hold => exact absurd hfresh hold
    | stopped => rfl
    | failed _ hwaits' => simp [hwaits] at hwaits'
    | taken _ hwaits' => simp [hwaits] at hwaits'
  | failed hfresh hwaits inner ih =>
    cases h' with
    | imported himport => simp [isImport_of_isHoistable hfresh.hoistable] at himport
    | passed _ hold => exact absurd hfresh hold
    | stopped _ hwaits' => simp [hwaits] at hwaits'
    | failed _ _ inner' => exact ih inner'
    | taken _ _ inner' => cases ih inner'
  | taken hfresh hwaits inner rest ih ihrest =>
    cases h' with
    | imported himport => simp [isImport_of_isHoistable hfresh.hoistable] at himport
    | passed _ hold => exact absurd hfresh hold
    | stopped _ hwaits' => simp [hwaits] at hwaits'
    | failed _ _ inner' => cases ih inner'
    | taken _ _ inner' rest' =>
      cases ih inner'
      exact ihrest rest'

/-- **What one step keeps, a run keeps.** If each import and each fresh declaration that is taken,
    because it does not wait, keeps a property of the needs, and what is referred to by a taken
    declaration is again one of those in question, then a run that succeeds keeps the property, and
    a run that fails has met a declaration in question that waits. -/
theorem Hoists.keeps {P : Needs → Prop} {Q : Declaration → Prop}
    (hthrough : ∀ d e, Q d → isHoistable d = true → RefersTo refs d.node e → Q e)
    (himport : ∀ needs d, P needs → Q d → d.isImport = true →
      P (needs.addImport (statementText m d)))
    (htake : ∀ needs d, P needs → Q d → Fresh needs d → waits m d = false →
      P (needs.addDeclaration d.node))
    (h : Hoists m id refs needs ds r) (hP : P needs) (hds : ∀ d ∈ ds, Q d) :
    (∀ more, r = .ok more → P more) ∧
      ∀ f, r = .error f → f = .awaitInCall metaCall (Path.clean id) ∧
        ∃ d, Q d ∧ isHoistable d = true ∧ waits m d = true := by
  induction h with
  | done =>
    constructor
    · intro more hmore
      cases hmore
      exact hP
    · intro f hf
      cases hf
  | imported hkind rest ih =>
    obtain ⟨hd, hds⟩ := List.forall_mem_cons.mp hds
    exact ih (himport _ _ hP hd hkind) hds
  | passed hkind hold rest ih =>
    obtain ⟨-, hds⟩ := List.forall_mem_cons.mp hds
    exact ih hP hds
  | stopped hfresh hwaits =>
    obtain ⟨hd, -⟩ := List.forall_mem_cons.mp hds
    constructor
    · intro more hmore
      cases hmore
    · intro f hf
      cases hf
      exact ⟨rfl, _, hd, hfresh.hoistable, hwaits⟩
  | failed hfresh hwaits inner ih =>
    obtain ⟨hd, -⟩ := List.forall_mem_cons.mp hds
    exact ih (htake _ _ hP hd hfresh hwaits)
      fun e he => hthrough _ e hd hfresh.hoistable (mem_outward_iff.mp he)
  | taken hfresh hwaits inner rest ih ihrest =>
    obtain ⟨hd, hds⟩ := List.forall_mem_cons.mp hds
    have hinner := ih (htake _ _ hP hd hfresh hwaits)
      fun e he => hthrough _ e hd hfresh.hoistable (mem_outward_iff.mp he)
    exact ihrest (hinner.1 _ rfl) hds

/-- Nothing is lost in a run. -/
theorem Hoists.within {more : Needs} (h : Hoists m id refs needs ds (.ok more)) :
    needs.Within more := by
  refine (h.keeps (P := fun n => needs.Within n) (Q := fun _ => True) ?_ ?_ ?_
    (Needs.Within.refl needs) fun _ _ => trivial).1 more rfl
  · intro d e _ _ _
    trivial
  · intro n d hn _ _
    exact hn.trans (n.within_addImport _)
  · intro n d hn _ _ _
    exact hn.trans (n.within_addDeclaration _)

/-- **A run leaves nothing out**: what it met is covered, and so is all that its new declarations
    refer to. -/
theorem Hoists.covers (h : Hoists m id refs needs ds r) {more : Needs} (hr : r = .ok more) :
    (∀ d ∈ ds, more.Covers m d) ∧
      ∀ span ∈ more.declarations, span ∉ needs.declarations →
        ∀ e, RefersTo refs span e → more.Covers m e := by
  induction h generalizing more with
  | done =>
    cases hr
    constructor
    · intro d hd
      cases hd
    · intro span hspan hnew
      exact absurd hspan hnew
  | @imported needs d ds r himport rest ih =>
    obtain ⟨hcovers, hnew⟩ := ih hr
    rw [hr] at rest
    rw [Needs.declarations_addImport] at hnew
    refine ⟨List.forall_mem_cons.mpr ⟨?_, hcovers⟩, hnew⟩
    constructor
    · intro _
      exact rest.within.imports (Needs.mem_addImport.mpr (.inr rfl))
    · intro hroot
      rw [isImport_of_isHoistable hroot] at himport
      cases himport
  | @passed needs d ds r himport hold rest ih =>
    obtain ⟨hcovers, hnew⟩ := ih hr
    rw [hr] at rest
    refine ⟨List.forall_mem_cons.mpr ⟨?_, hcovers⟩, hnew⟩
    constructor
    · intro hkind
      rw [himport] at hkind
      cases hkind
    · intro hroot
      -- a declaration that is passed has been taken before
      apply rest.within.declarations
      by_contra habsent
      exact hold ⟨hroot, habsent⟩
  | stopped => cases hr
  | failed => cases hr
  | @taken needs inside d ds r hfresh hwaits inner rest ih ihrest =>
    obtain ⟨hinner, hinnerNew⟩ := ih rfl
    obtain ⟨hcovers, hnew⟩ := ihrest hr
    rw [hr] at rest
    have hmem : d.node ∈ inside.declarations :=
      inner.within.declarations (Needs.mem_addDeclaration.mpr (.inr rfl))
    refine ⟨List.forall_mem_cons.mpr ⟨?_, hcovers⟩, ?_⟩
    · constructor
      · intro hkind
        rw [isImport_of_isHoistable hfresh.hoistable] at hkind
        cases hkind
      · intro _
        exact rest.within.declarations hmem
    · intro span hspan hold e he
      by_cases hinside : span ∈ inside.declarations
      · refine Needs.Covers.of_within ?_ rest.within
        by_cases hsame : span = d.node
        · rw [hsame] at he
          exact hinner e (mem_outward_iff.mpr he)
        · refine hinnerNew span hinside ?_ e he
          intro hadded
          rcases Needs.mem_addDeclaration.mp hadded with hin | heq
          · exact hold hin
          · exact hsame heq
      · exact hnew span hspan hinside e he

end

/-! ## Section 4: The bound on the depth -/

/-- How many references refer to declarations that are not taken yet. -/
def pending (refs : List Reference) (needs : Needs) : Nat :=
  refs.countP fun x => x.declaration.any fun d => !needs.declarations.contains d.node

theorem pending_le {refs : List Reference} {needs more : Needs} (h : needs.Within more) :
    pending refs more ≤ pending refs needs := by
  unfold pending
  apply List.countP_mono_left
  intro x _ hx
  cases hdecl : x.declaration with
  | none => simp [hdecl] at hx
  | some d =>
    simp only [hdecl, Option.any_some, Bool.not_eq_true', List.contains_eq_mem,
      decide_eq_false_iff_not] at hx ⊢
    intro hmem
    exact hx (h.declarations hmem)

/-- Taking a declaration that some reference refers to leaves fewer of them. -/
theorem pending_addDeclaration_lt {refs : List Reference} {needs : Needs} {d : Declaration}
    {x : Reference} (hx : x ∈ refs) (hdecl : x.declaration = some d)
    (habsent : d.node ∉ needs.declarations) :
    pending refs (needs.addDeclaration d.node) < pending refs needs := by
  obtain ⟨before, after, rfl⟩ := List.append_of_mem hx
  have hbefore : pending before (needs.addDeclaration d.node) ≤ pending before needs :=
    pending_le (needs.within_addDeclaration d.node)
  have hafter : pending after (needs.addDeclaration d.node) ≤ pending after needs :=
    pending_le (needs.within_addDeclaration d.node)
  unfold pending at hbefore hafter ⊢
  rw [List.countP_append, List.countP_append, List.countP_cons_of_neg (by simp [hdecl]),
    List.countP_cons_of_pos (by simpa [hdecl] using habsent)]
  omega

/-- What the text of a span refers to is what some reference refers to. -/
theorem exists_reference_of_mem_outward {refs : List Reference} {within : Span} {d : Declaration}
    (h : d ∈ outward refs within) : ∃ x ∈ refs, x.declaration = some d := by
  obtain ⟨x, hx, -, hdecl, -⟩ := mem_outward_iff.mp h
  exact ⟨x, hx, hdecl⟩

theorem fresh_of_not_skipped {needs : Needs} {d : Declaration}
    (h : ¬(!isHoistable d || needs.declarations.contains d.node) = true) : Fresh needs d := by
  simp only [Bool.or_eq_true, Bool.not_eq_true', List.contains_eq_mem, decide_eq_true_eq, not_or,
    Bool.not_eq_false] at h
  exact ⟨h.1, h.2⟩

/-- **The bound is never reached**: hoisting with more depth than there are references to
    declarations not taken yet gives the result of the run. -/
theorem hoists_hoistAll (m : Module) (id : String) (refs : List Reference) (fuel : Nat)
    (needs : Needs) (ds : List Declaration)
    (hds : ∀ d ∈ ds, ∃ x ∈ refs, x.declaration = some d) (hfuel : pending refs needs < fuel) :
    Hoists m id refs needs ds (hoistAll m id refs fuel needs ds) := by
  induction fuel, needs, ds using hoistAll.induct m id refs with
  | case1 fuel needs =>
    rw [hoistAll]
    exact .done
  | case2 needs ds hne =>
    exact absurd hfuel (Nat.not_lt_zero _)
  | case3 fuel needs d ds himport ih =>
    obtain ⟨-, hds⟩ := List.forall_mem_cons.mp hds
    rw [hoistAll, if_pos himport]
    refine .imported himport (ih _ hds ?_)
    exact Nat.lt_of_le_of_lt (pending_le (needs.within_addImport _)) hfuel
  | case4 fuel needs d ds himport hskip ih =>
    obtain ⟨-, hds⟩ := List.forall_mem_cons.mp hds
    rw [hoistAll, if_neg himport, if_pos hskip]
    refine .passed (by simpa using himport) ?_ (ih _ hds hfuel)
    intro hfresh
    simp [hfresh.hoistable, hfresh.absent] at hskip
  | case5 fuel needs d ds himport hskip hwaits ih =>
    rw [hoistAll, if_neg himport, if_neg hskip, if_pos hwaits]
    exact .stopped (fresh_of_not_skipped hskip) hwaits
  | case6 fuel needs d ds himport hskip hwaits ih ih' =>
    obtain ⟨⟨x, hx, hdecl⟩, hds⟩ := List.forall_mem_cons.mp hds
    have hfresh := fresh_of_not_skipped hskip
    have hless := pending_addDeclaration_lt hx hdecl hfresh.absent
    -- the declaration is taken, so one step further down there is one less to take
    have hinner := ih' (fun e he => exists_reference_of_mem_outward he) (by omega)
    have hwaits : waits m d = false := by simpa using hwaits
    rw [hoistAll, if_neg himport, if_neg hskip, if_neg (by simp [hwaits])]
    cases hresult : hoistAll m id refs fuel (needs.addDeclaration d.node) (outward refs d.node) with
    | error f =>
      rw [hresult] at hinner
      exact .failed hfresh hwaits hinner
    | ok more =>
      rw [hresult] at hinner
      refine .taken hfresh hwaits hinner (ih more hds ?_)
      have hmore : pending refs more ≤ pending refs (needs.addDeclaration d.node) :=
        pending_le hinner.within
      omega

/-! ## Section 5: The result -/

section

variable {m : Module} {id : String} {within : Span}

/-- Every run of the hoisting for a span has the result that the program computes. -/
theorem hoists_iff (m : Module) (id : String) (within : Span) (r : Except Failure Needs) :
    Hoists m id (references m) .nothing (outward (references m) within) r ↔
      needsOf m id within = r := by
  have hrun : Hoists m id (references m) .nothing (outward (references m) within)
      (needsOf m id within) := by
    apply hoists_hoistAll
    · intro d hd
      exact exists_reference_of_mem_outward hd
    · exact Nat.lt_succ_of_le List.countP_le_length
  constructor
  · intro h
    exact hrun.unique h
  · intro h
    rw [← h]
    exact hrun

/-- What is needed is needed for a reason, and nothing is needed twice. -/
structure Justified (m : Module) (within : Span) (n : Needs) : Prop where
  declared : ∀ span ∈ n.declarations, ∃ d, Reached (references m) within d ∧
    isHoistable d = true ∧ d.node = span
  imported : ∀ text ∈ n.imports, ∃ d, Reached (references m) within d ∧ d.isImport = true ∧
    statementText m d = text
  declarations_nodup : n.declarations.Nodup
  imports_nodup : n.imports.Nodup

theorem Justified.addImport {needs : Needs} {d : Declaration} (h : Justified m within needs)
    (hd : Reached (references m) within d) (himport : d.isImport = true) :
    Justified m within (needs.addImport (statementText m d)) := by
  refine ⟨?_, ?_, ?_, Needs.nodup_addImport h.imports_nodup _⟩
  · rw [Needs.declarations_addImport]
    exact h.declared
  · intro text htext
    rcases Needs.mem_addImport.mp htext with hmem | rfl
    · exact h.imported text hmem
    · exact ⟨d, hd, himport, rfl⟩
  · rw [Needs.declarations_addImport]
    exact h.declarations_nodup

theorem Justified.addDeclaration {needs : Needs} {d : Declaration} (h : Justified m within needs)
    (hd : Reached (references m) within d) (hfresh : Fresh needs d) :
    Justified m within (needs.addDeclaration d.node) := by
  refine ⟨?_, h.imported, Needs.nodup_addDeclaration h.declarations_nodup hfresh.absent,
    h.imports_nodup⟩
  intro span hspan
  rcases Needs.mem_addDeclaration.mp hspan with hmem | rfl
  · exact h.declared span hmem
  · exact ⟨d, hd, hfresh.hoistable, rfl⟩

/-- A run for a span takes what is reached only, and fails only where something reached waits. -/
theorem justified_of_hoists {r : Except Failure Needs}
    (h : Hoists m id (references m) .nothing (outward (references m) within) r) :
    (∀ needs, r = .ok needs → Justified m within needs) ∧
      ∀ f, r = .error f → f = .awaitInCall metaCall (Path.clean id) ∧
        ∃ d, Reached (references m) within d ∧ isHoistable d = true ∧ waits m d = true := by
  refine h.keeps ?_ ?_ ?_ ?_ ?_
  · intro d e hd hroot he
    exact .through hd hroot he
  · intro needs d hneeds hd himport
    exact hneeds.addImport hd himport
  · intro needs d hneeds hd hfresh _
    exact hneeds.addDeclaration hd hfresh
  · exact ⟨fun _ h => (List.not_mem_nil h).elim, fun _ h => (List.not_mem_nil h).elim,
      List.nodup_nil, List.nodup_nil⟩
  · intro d hd
    exact .used (mem_outward_iff.mp hd)

/-- If nothing that is reached waits for a value, hoisting succeeds. -/
theorem exists_needsOf (id : String)
    (hready : ∀ d, Reached (references m) within d → isHoistable d = true → waits m d = false) :
    ∃ needs, needsOf m id within = .ok needs := by
  cases hresult : needsOf m id within with
  | ok needs => exact ⟨needs, rfl⟩
  | error f =>
    have hrun := (hoists_iff m id within _).mpr hresult
    obtain ⟨-, d, hd, hroot, hwaits⟩ := (justified_of_hoists hrun).2 f rfl
    rw [hready d hd hroot] at hwaits
    cases hwaits

/-- A run for a span covers what is reached. -/
theorem covers_of_reached {needs : Needs}
    (h : Hoists m id (references m) .nothing (outward (references m) within) (.ok needs))
    {d : Declaration} (hd : Reached (references m) within d) : needs.Covers m d := by
  obtain ⟨hcovers, hnew⟩ := h.covers rfl
  induction hd with
  | used h => exact hcovers _ (mem_outward_iff.mpr h)
  | through hd hroot he ih => exact hnew _ (ih.hoisted hroot) List.not_mem_nil _ he

/-- **What is hoisted.** For any tree, any scopes and any span: hoisting ends, with the result of
    the run that has no bound on its depth. It fails only where a declaration that is reached waits
    for a value. When it succeeds, the hoisted declarations are exactly the nodes of the variables,
    functions and classes of the root that are reached, each node once, and the hoisted imports
    are exactly the statements of the imports that are reached, each text once. The module that is
    written has the declarations in the order in which they stand in the source. If all that leads
    on to another declaration can be hoisted, reached is what is linked to the span in any way. -/
theorem hoists_reached (m : Module) (id : String) (within : Span) :
    (∀ r, Hoists m id (references m) .nothing (outward (references m) within) r ↔
      needsOf m id within = r) ∧
    (∀ f, needsOf m id within = .error f → f = .awaitInCall metaCall (Path.clean id) ∧
      ∃ d, Reached (references m) within d ∧ isHoistable d = true ∧ waits m d = true) ∧
    ((∀ d e, Linked (references m) within d → RefersTo (references m) d.node e →
      isHoistable d = true) →
        ∀ d, Reached (references m) within d ↔ Linked (references m) within d) ∧
    ∀ needs, needsOf m id within = .ok needs →
      (∀ span, span ∈ needs.declarations ↔ ∃ d, Reached (references m) within d ∧
        isHoistable d = true ∧ d.node = span) ∧ needs.declarations.Nodup ∧
      (∀ text, text ∈ needs.imports ↔ ∃ d, Reached (references m) within d ∧
        d.isImport = true ∧ statementText m d = text) ∧ needs.imports.Nodup ∧
      ∃ spans : List Span, spans.Perm needs.declarations ∧
        spans.Pairwise (fun a b => a.start ≤ b.start) ∧
        ∀ o : PageMetaOptions, extracted m o needs within =
          String.ofList (Text.trim Text.isBlank ("\n".intercalate [
            "\n".intercalate needs.imports, "\n".intercalate (spans.map m.textAt),
            "const " ++ metaName ++ " = " ++ m.textAt within ++ "\nexport default " ++ metaName
              ++ (if o.dev then updates else "")]).toList) := by
  have hruns := hoists_iff m id within
  refine ⟨hruns, ?_, reached_iff_linked, ?_⟩
  · intro f hf
    exact (justified_of_hoists ((hruns _).mpr hf)).2 f rfl
  intro needs hneeds
  have hrun := (hruns _).mpr hneeds
  have hjustified := (justified_of_hoists hrun).1 needs rfl
  refine ⟨?_, hjustified.declarations_nodup, ?_, hjustified.imports_nodup, ?_⟩
  · intro span
    constructor
    · exact hjustified.declared span
    · intro ⟨d, hd, hroot, hnode⟩
      rw [← hnode]
      exact (covers_of_reached hrun hd).hoisted hroot
  · intro text
    constructor
    · exact hjustified.imported text
    · intro ⟨d, hd, himport, htext⟩
      rw [← htext]
      exact (covers_of_reached hrun hd).imported himport
  · refine ⟨needs.declarations.mergeSort fun a b => a.start ≤ b.start, List.mergeSort_perm _ _, ?_,
      fun _ => rfl⟩
    have hsorted : (needs.declarations.mergeSort fun a b => a.start ≤ b.start).Pairwise
        fun a b => decide (a.start ≤ b.start) = true := by
      apply List.pairwise_mergeSort
      · intro a b c hab hbc
        simp only [decide_eq_true_eq] at hab hbc ⊢
        omega
      · intro a b
        simp only [Bool.or_eq_true, decide_eq_true_eq]
        omega
    simpa using hsorted

/-- Two declarations that refer to each other, one of them to an import. -/
def cyclicCode : String :=
  "import { mark } from './mark'\nfunction odd(n) { return even(n) }\n" ++
    "const even = n => mark(n) || odd(n)\ndefinePageMeta({ odd })\n"

/-- Metadata that refers to one of them needs both, and the import. -/
theorem hoists_reached_cyclic :
    ∃ m needs, Module.parse cyclicCode "/app/pages/a.ts" = .ok m ∧
      metaArguments m = [some ⟨116, 123⟩] ∧
      needsOf m "/app/pages/a.ts" ⟨116, 123⟩ = .ok needs ∧
      needs = ⟨["import { mark } from './mark'"], [⟨30, 64⟩, ⟨65, 100⟩]⟩ ∧
      ∀ span, span ∈ needs.declarations ↔ ∃ d, Reached (references m) ⟨116, 123⟩ d ∧
        isHoistable d = true ∧ d.node = span := by
  let mark : Declaration :=
    ⟨⟨"mark", .imported ⟨"./mark", .named "mark", false⟩, ⟨9, 13⟩, ⟨0, 29⟩⟩, 0⟩
  let odd : Declaration := ⟨⟨"odd", .function, ⟨39, 42⟩, ⟨30, 64⟩⟩, 0⟩
  let even : Declaration := ⟨⟨"even", .variable .const, ⟨71, 75⟩, ⟨65, 100⟩⟩, 0⟩
  have hchars : cyclicCode.toList = _ := toList_append_ofList String.toList_ofList _
  have hfile : ((Module.parse cyclicCode "/app/pages/a.ts").toOption.any fun m =>
      decide (metaArguments m = [some ⟨116, 123⟩] ∧
        outward (references m) ⟨116, 123⟩ = [odd] ∧ outward (references m) odd.node = [even] ∧
        outward (references m) even.node = [mark, odd] ∧ waits m even = false)) = true := by
    rw [Module.toOption_parse_script hchars (by decide)]
    decide +kernel
  obtain ⟨m, hparse, hfile⟩ := (Option.any_eq_true _ _).mp hfile
  obtain ⟨hargument, hmeta, hodd, heven, hwaits⟩ := of_decide_eq_true hfile
  have htext : statementText m mark = "import { mark } from './mark'" := by
    rw [statementText, Module.textAt, (Module.parse_eq_ok (eq_ok_of_toOption hparse)).1]
    show String.ofList (Text.trim _ (String.ofList (Text.slice cyclicCode.toList _ _)).toList) = _
    rw [hchars, String.toList_ofList]
    decide +kernel
  have hneeds : needsOf m "/app/pages/a.ts" ⟨116, 123⟩ =
      .ok ⟨["import { mark } from './mark'"], [⟨30, 64⟩, ⟨65, 100⟩]⟩ := by
    rw [← hoists_iff, hmeta]
    refine .taken (by decide) rfl ?_ .done
    rw [hodd]
    refine .taken (by decide) hwaits ?_ .done
    rw [heven]
    refine .imported rfl ?_
    rw [htext]
    -- the second declaration leads back to the first one, which is passed
    exact .passed rfl (by decide) .done
  obtain ⟨hdeclarations, -⟩ := (hoists_reached m "/app/pages/a.ts" ⟨116, 123⟩).2.2.2 _ hneeds
  exact ⟨m, _, eq_ok_of_toOption hparse, hargument, hneeds, rfl, hdeclarations⟩

end

/-- Metadata that is stated inside of a function and refers to a constant of the function, which
    refers to one of the root. -/
def localCode : String :=
  r"const base = 1
function setup() {
  const size = base
  definePageMeta({ size })
}
"

/-- **A local declaration is not followed**: the constant of the root is linked to the metadata by
    the local one, but it is not hoisted. -/
theorem local_not_followed :
    ∃ m within base, Module.parse localCode "/app/pages/a.ts" = .ok m ∧
      metaArguments m = [some within] ∧ Linked (references m) within base ∧
      isHoistable base = true ∧ needsOf m "/app/pages/a.ts" within = .ok .nothing := by
  let size : Declaration := ⟨⟨"size", .variable .const, ⟨42, 46⟩, ⟨36, 53⟩⟩, 1⟩
  let base : Declaration := ⟨⟨"base", .variable .const, ⟨6, 10⟩, ⟨0, 14⟩⟩, 0⟩
  have hchars : localCode.toList = _ := String.toList_ofList
  have hfile : ((Module.parse localCode "/app/pages/a.ts").toOption.any fun m =>
      decide (metaArguments m = [some ⟨71, 79⟩] ∧ outward (references m) ⟨71, 79⟩ = [size] ∧
        outward (references m) size.node = [base])) = true := by
    rw [Module.toOption_parse_script hchars (by decide)]
    decide +kernel
  obtain ⟨m, hparse, hfile⟩ := (Option.any_eq_true _ _).mp hfile
  obtain ⟨hargument, hmeta, hsize⟩ := of_decide_eq_true hfile
  have hlinked : Linked (references m) ⟨71, 79⟩ base := by
    refine .through (d := size) (.used ?_) ?_
    · rw [← mem_outward_iff, hmeta]
      exact List.mem_cons_self
    · rw [← mem_outward_iff, hsize]
      exact List.mem_cons_self
  have hneeds : needsOf m "/app/pages/a.ts" ⟨71, 79⟩ = .ok .nothing := by
    rw [← hoists_iff, hmeta]
    exact .passed rfl (by decide) .done
  exact ⟨m, ⟨71, 79⟩, base, eq_ok_of_toOption hparse, hargument, hlinked, rfl, hneeds⟩

end BuildMacros.PageMeta
