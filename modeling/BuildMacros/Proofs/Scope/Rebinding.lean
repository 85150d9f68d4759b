import BuildMacros.Proofs.Scope.Growth

/-! # What a scope keeps of its declarations

    A scope keeps one declaration of a name. Of all that has been done to a tracker that
    preserves what it has seen, only the declarations of that name in that scope matter, in
    their order: kept is the first that is no import, or else the first import
    (`own?_of_performAll`). So an import never takes the place of a local declaration, and
    never hides one from its own scope, whichever of the two was made first.
-/

namespace BuildMacros.Script.Tracker

/-! ## Section 1: The declarations of a run -/

/-- What a command declares. -/
def Command.declared? : Command → Option Declaration
  | .declare d => some d
  | _ => none

/-- The declarations of a name in a scope among some commands, in their order. -/
def declarations (commands : List Command) (scope : Nat) (name : String) : List Declaration :=
  (commands.filterMap Command.declared?).filter fun d => d.name == name && d.scope == scope

variable {t t' : Tracker} {c : Command} {commands more : List Command} {scope : Nat} {name : String}

theorem declarations_append (commands more : List Command) (scope : Nat) (name : String) :
    declarations (commands ++ more) scope name =
      declarations commands scope name ++ declarations more scope name := by
  rw [declarations, List.filterMap_append, List.filter_append]
  rfl

/-! ## Section 2: What a scope knows after a run -/

theorem preserve_perform (h : t.perform c = .ok t') : t'.preserve = t.preserve := by
  rcases perform_cases h with ⟨flags, -, -, rfl⟩ | ⟨-, rfl⟩ | ⟨d, -, -, -, rfl⟩ | ⟨-, rfl⟩
  · rfl
  · exact preserve_leave t
  · rfl
  · rfl

theorem preserve_performAll (h : t.performAll commands = .ok t') : t'.preserve = t.preserve := by
  induction commands generalizing t with
  | nil =>
    obtain rfl : t = t' := Except.ok.inj h
    rfl
  | cons c commands ih =>
    obtain ⟨next, hfirst, hrest⟩ := performAll_cons_iff.mp h
    rw [ih hrest, preserve_perform hfirst]

/-- **One command** teaches a scope what it declares there. -/
theorem own?_perform (h : t.perform c = .ok t') (hpreserve : t.preserve = true) (scope : Nat)
    (name : String) :
    t'.own? name scope = (declarations [c] scope name).foldl learn (t.own? name scope) := by
  rcases perform_cases h with
    ⟨flags, rfl, -, rfl⟩ | ⟨rfl, rfl⟩ | ⟨d, rfl, -, hscope, rfl⟩ | ⟨rfl, rfl⟩
  · exact own?_push t flags name scope
  · rw [own?, scopes_leave hpreserve]
    rfl
  · have hdeclared : declarations [.declare d] scope name =
        if d.name = name ∧ d.scope = scope then [d] else [] := by
      simp [declarations, Command.declared?, List.filter_cons]
    rw [own?_record hscope, hdeclared]
    split <;> rfl
  · rfl

/-- **Several commands** teach a scope what they declare there, in their order. -/
theorem own?_performAll (h : t.performAll commands = .ok t') (hpreserve : t.preserve = true)
    (scope : Nat) (name : String) :
    t'.own? name scope = (declarations commands scope name).foldl learn (t.own? name scope) := by
  induction commands generalizing t with
  | nil =>
    obtain rfl : t = t' := Except.ok.inj h
    rfl
  | cons c commands ih =>
    obtain ⟨next, hfirst, hrest⟩ := performAll_cons_iff.mp h
    have hnext : next.preserve = true := by rw [preserve_perform hfirst, hpreserve]
    have hcons := declarations_append [c] commands scope name
    rw [List.singleton_append] at hcons
    rw [ih hrest hnext, own?_perform hfirst hpreserve, hcons, List.foldl_append]

/-- A tracker that has seen nothing knows nothing. -/
theorem own?_new (preserve : Bool) (name : String) (scope : Nat) :
    (Tracker.new preserve).own? name scope = none := rfl

/-- What a scope knows is what counts among all its declarations of the name. -/
theorem own?_eq_pick (h : (Tracker.new true).performAll commands = .ok t) (scope : Nat)
    (name : String) : t.own? name scope = Declaration.pick (declarations commands scope name) := by
  rw [own?_performAll h rfl, own?_new, foldl_learn]

/-! ## Section 3: What is kept -/

/-- What counts among some declarations: the first local one, or else the first import. -/
theorem pick_eq_or (ds : List Declaration) :
    Declaration.pick ds = (ds.find? fun d => !d.isImport).or (ds.find? Declaration.isImport) := by
  rw [Declaration.pick]
  cases hfirst : ds.find? fun d => !d.isImport with
  | some d => rfl
  | none =>
    -- without a local declaration all of them are imports
    have himports : ∀ d ∈ ds, d.isImport = true := by simpa using List.find?_eq_none.mp hfirst
    cases ds with
    | nil => rfl
    | cons d ds => rw [List.find?_cons_of_pos (himports d List.mem_cons_self), List.head?_cons]

/-- A local declaration is kept whatever is declared after it. -/
theorem foldl_learn_local {kept : Declaration} (h : kept.isImport = false)
    (ds : List Declaration) : ds.foldl learn (some kept) = some kept := by
  rw [foldl_learn_some, if_neg (by simp [h])]

/-- Where a local declaration is made, one is kept. -/
theorem exists_local_pick {ds : List Declaration} {d : Declaration} (hd : d ∈ ds)
    (h : d.isImport = false) : ∃ kept, kept.isImport = false ∧ Declaration.pick ds = some kept := by
  have hsome : (ds.find? fun d => !d.isImport).isSome = true := by
    rw [List.find?_isSome]
    exact ⟨d, hd, by simp [h]⟩
  obtain ⟨kept, hkept⟩ := Option.isSome_iff_exists.mp hsome
  refine ⟨kept, by simpa using List.find?_some hkept, ?_⟩
  rw [Declaration.pick, hkept, Option.some_or]

/-- **What a scope keeps of a name** after any commands that are not refused: the first local
    declaration of the name that was made in the scope, or else the first import. So the
    declarations of the name in the scope decide alone, by their order. Once a local one has been
    made, a local one is kept and is visible in the scope; and what is kept then stays, whatever
    is done to the tracker afterwards. -/
theorem own?_of_performAll (h : (Tracker.new true).performAll commands = .ok t) (scope : Nat)
    (name : String) :
    t.own? name scope =
        ((declarations commands scope name).find? fun d => !d.isImport).or
          ((declarations commands scope name).find? Declaration.isImport) ∧
      (∀ commands' t', (Tracker.new true).performAll commands' = .ok t' →
        declarations commands' scope name = declarations commands scope name →
          t'.own? name scope = t.own? name scope) ∧
      (∀ d ∈ declarations commands scope name, d.isImport = false →
        ∃ kept, kept.isImport = false ∧ t.own? name scope = some kept ∧
          t.getFrom? scope name = some kept) ∧
      ∀ kept, t.own? name scope = some kept → kept.isImport = false →
        ∀ more t', t.performAll more = .ok t' → t'.own? name scope = some kept := by
  have hwell : WellFormed t := (WellFormed.new true).performAll h
  have hown := own?_eq_pick h scope name
  refine ⟨?_, ?_, ?_, ?_⟩
  · rw [hown, pick_eq_or]
  · intro commands' t' h' hsame
    rw [hown, own?_eq_pick h', hsame]
  · intro d hd hlocal
    obtain ⟨kept, hkept, hpick⟩ := exists_local_pick hd hlocal
    rw [hpick] at hown
    exact ⟨kept, hkept, hown, by rw [hwell.getFrom?_eq_or, hown, Option.some_or]⟩
  · intro kept hkept hlocal more t' hmore
    have hpreserve : t.preserve = true := preserve_performAll h
    rw [own?_performAll hmore hpreserve, hkept, foldl_learn_local hlocal]

/-- An import `name` that is declared in a scope. -/
def importIn (scope : Nat) (name source : String) : Declaration :=
  ⟨⟨name, .imported ⟨source, .named name, false⟩, ⟨0, 0⟩, ⟨0, 0⟩⟩, scope⟩

/-- In a module `x` is imported twice and then declared, in a block of it the other way round; and
    `y` is only imported. -/
def rebound : List Command :=
  [.enter .ofModule, .declare (importIn 0 "x" "#a"), .enter .plain, .declare (functionIn 1 "x"),
    .declare (importIn 0 "y" "#a"), .declare (importIn 1 "x" "#a"), .leave,
    .declare (importIn 0 "x" "#b"), .declare (functionIn 0 "x"), .declare (importIn 0 "y" "#b")]

theorem own?_of_rebound : ∃ t, (Tracker.new true).performAll rebound = .ok t ∧
    t.own? "x" 0 = some (functionIn 0 "x") ∧ t.own? "x" 1 = some (functionIn 1 "x") ∧
    t.own? "y" 0 = some (importIn 0 "y" "#a") ∧ t.own? "y" 1 = none := by
  have hgrown : (Tracker.new true).performAll rebound = .ok _ := rfl
  refine ⟨_, hgrown, ?_, ?_, ?_, ?_⟩
  · exact (own?_of_performAll hgrown 0 "x").1.trans rfl
  · exact (own?_of_performAll hgrown 1 "x").1.trans rfl
  · exact (own?_of_performAll hgrown 0 "y").1.trans rfl
  · exact (own?_of_performAll hgrown 1 "y").1.trans rfl

end BuildMacros.Script.Tracker
