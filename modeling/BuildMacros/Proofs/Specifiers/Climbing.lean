import BuildMacros.Proofs.Specifiers

/-! # Ways from one file to another

    A relative specifier first climbs from the directory of its importer and then
    descends: `../../utils/fetch.ts`. There are as many ways to a file as there are
    directories above both files, and the importers may be anywhere. All of them lead
    to one path, and so to one comparison key (`Route.resolve_eq_stripExtension`).

    Files are compared by these keys alone: what one file registers is found by the
    files that import from it because their specifiers come out as the same text.
-/

namespace BuildMacros

open BuildMacros.Text

/-! ## Section 1: Paths in segments -/

namespace Path

/-- A segment that names a file or a directory: neither empty nor a move. -/
structure IsName (s : List Char) : Prop where
  segment : IsSegment s
  ne_stay : s ≠ ['.']
  ne_up : s ≠ ['.', '.']

instance (s : List Char) : Decidable (IsName s) :=
  decidable_of_iff ((s ≠ [] ∧ '/' ∉ s) ∧ s ≠ ['.'] ∧ s ≠ ['.', '.'])
    ⟨fun h => ⟨h.1, h.2.1, h.2.2⟩, fun h => ⟨h.1, h.2, h.3⟩⟩

/-- The absolute path with the given segments. -/
def absolute (segments : List (List Char)) : List Char := '/' :: join ['/'] segments

theorem absolute_concat {segments : List (List Char)} (h : segments ≠ []) (s : List Char) :
    absolute (segments ++ [s]) = absolute segments ++ '/' :: s := by
  rw [absolute, join_append h (List.cons_ne_nil s [])]
  simp [absolute, join]

/-- The directory of a file is its path without the last segment. -/
theorem dirname_absolute (segments : List (List Char)) {file : List Char} (h : '/' ∉ file) :
    dirname (absolute (segments ++ [file])) = absolute segments := by
  by_cases hroot : segments = []
  · subst hroot
    have hsplit := splitLast?_append_char h []
    rw [List.nil_append] at hsplit
    show dirname ('/' :: file) = _
    rw [dirname, hsplit]
    rfl
  · have hsplit := splitLast?_append_char h (absolute segments)
    rw [absolute_concat hroot, dirname, hsplit]
    rfl

/-- Reading the segments of an absolute path. -/
theorem filter_fields_absolute {segments : List (List Char)} (h : ∀ s ∈ segments, IsSegment s) :
    (fields (· == '/') (absolute segments)).filter (fun s => !s.isEmpty) = segments := by
  have hkeep : segments.filter (fun s => !s.isEmpty) = segments := by
    apply List.filter_eq_self.mpr
    intro s hs
    simp [(h s hs).1]
  rw [absolute, fields_cons_of_sep (by decide)]
  by_cases hroot : segments = []
  · subst hroot
    rfl
  · rw [fields_join hroot fun s hs => (h s hs).2]
    exact hkeep

/-- Joining to an absolute directory moves along the parts of the relative path. -/
theorem joinTo_absolute {segments : List (List Char)} (h : ∀ s ∈ segments, IsSegment s)
    (relative : List Char) :
    joinTo (absolute segments) relative =
      absolute ((fields (· == '/') relative).foldl move segments.reverse).reverse := by
  have hstart : startsWith ['/'] (absolute segments) = true := by
    simp [absolute, startsWith, strip?]
  rw [joinTo, filter_fields_absolute h, hstart, if_pos rfl]
  rfl

/-! ## Section 2: Climbing and descending -/

/-- A part of a relative path that names nothing: it stays, or goes up. -/
def IsStep (part : List Char) : Prop := part = ['.'] ∨ part = ['.', '.']

instance (part : List Char) : Decidable (IsStep part) := inferInstanceAs (Decidable (_ ∨ _))

/-- Number of directories that steps climb. -/
def height (steps : List (List Char)) : Nat := steps.count ['.', '.']

/-- Steps climb out of the directories on top, innermost first. -/
theorem foldl_move_steps {steps up segments : List (List Char)} (hsteps : ∀ p ∈ steps, IsStep p)
    (hheight : height steps = up.length) : steps.foldl move (up ++ segments) = segments := by
  induction steps generalizing up with
  | nil =>
    have hup : up = [] := List.length_eq_zero_iff.mp hheight.symm
    rw [hup]
    rfl
  | cons p steps ih =>
    have hrest : ∀ q ∈ steps, IsStep q := fun q hq => hsteps q (List.mem_cons_of_mem p hq)
    rw [List.foldl_cons]
    rcases hsteps p List.mem_cons_self with rfl | rfl
    · -- staying changes neither the directory nor the height that is left
      have hsame : height (['.'] :: steps) = height steps := by
        simp [height]
      exact ih hrest (hsame ▸ hheight)
    · have hone : height (['.', '.'] :: steps) = height steps + 1 := by
        simp [height]
      rw [hone] at hheight
      cases up with
      | nil => simp at hheight
      | cons u up =>
        have hup : height steps = up.length := by simpa using hheight
        exact ih hrest hup

/-- Names descend. -/
theorem foldl_move_names {names segments : List (List Char)} (h : ∀ s ∈ names, IsName s) :
    names.foldl move segments = names.reverse ++ segments := by
  induction names generalizing segments with
  | nil => rfl
  | cons s names ih =>
    have hs := h s List.mem_cons_self
    have hmove : move segments s = s :: segments := by
      simp [move, hs.segment.1, hs.ne_stay, hs.ne_up]
    rw [List.foldl_cons, hmove, ih fun t ht => h t (List.mem_cons_of_mem s ht)]
    simp

/-- A path that begins with a step is relative, unless the step is all of it. -/
theorem isRelative_of_step {p : List Char} (hp : IsStep p) {ps : List (List Char)} (hps : ps ≠ []) :
    Resolver.isRelative (join ['/'] (p :: ps)) = true := by
  have hjoin : join ['/'] (p :: ps) = p ++ '/' :: join ['/'] ps := by
    have happend := join_append (s := ['/']) (List.cons_ne_nil p []) hps
    simpa [join] using happend
  rw [hjoin]
  rcases hp with rfl | rfl
  · simp [Resolver.isRelative, startsWith, strip?]
  · simp [Resolver.isRelative, startsWith, strip?]

end Path

/-! ## Section 3: Routes -/

open BuildMacros.Path in
/-- A way from an importer to a target. Both lie below the directory `common`; the specifier climbs
    to that directory and descends to the target from there. -/
structure Route (importer specifier target : String) where
  common : List (List Char)
  /-- Directories between `common` and the importer. -/
  up : List (List Char)
  file : List Char
  /-- Directories between `common` and the target, and the target itself. -/
  down : List (List Char)
  steps : List (List Char)
  importer_eq : (clean importer).toList = absolute (common ++ up ++ [file])
  target_eq : target.toList = absolute (common ++ down)
  specifier_eq : specifier.toList = join ['/'] (steps ++ down)
  importer_names : ∀ s ∈ common ++ up ++ [file], IsName s
  target_names : ∀ s ∈ common ++ down, IsName s
  down_ne_nil : down ≠ []
  steps_ne_nil : steps ≠ []
  isStep : ∀ p ∈ steps, IsStep p
  climbs : height steps = up.length

namespace Route

open BuildMacros.Path

variable {importer specifier target : String}

/-- The importer's directory. -/
theorem directory_eq (route : Route importer specifier target) (aliases : AliasTable) :
    (Resolver.new aliases importer).directory = absolute (route.common ++ route.up) := by
  have hfile := (route.importer_names route.file (by simp)).segment.2
  unfold Resolver.new
  rw [route.importer_eq, dirname_absolute _ hfile]

/-- **A route leads to its target.** -/
theorem joinTo_eq (route : Route importer specifier target) :
    joinTo (absolute (route.common ++ route.up)) specifier.toList = target.toList := by
  have hdirectory : ∀ s ∈ route.common ++ route.up, IsSegment s := fun s hs =>
    (route.importer_names s (List.mem_append_left _ hs)).segment
  have hdown : ∀ s ∈ route.down, IsName s := fun s hs =>
    route.target_names s (List.mem_append_right _ hs)
  have hslash : ∀ p ∈ route.steps ++ route.down, '/' ∉ p := by
    intro p hp
    rcases List.mem_append.mp hp with hp | hp
    · rcases route.isStep p hp with rfl | rfl <;> decide
    · exact (hdown p hp).segment.2
  have hclimbed : route.steps.foldl move (route.common ++ route.up).reverse =
      route.common.reverse := by
    rw [List.reverse_append]
    exact foldl_move_steps route.isStep (by simpa using route.climbs)
  rw [joinTo_absolute hdirectory, route.specifier_eq,
    fields_join (List.append_ne_nil_of_left_ne_nil route.steps_ne_nil _) hslash,
    List.foldl_append, hclimbed, foldl_move_names hdown, route.target_eq]
  simp

theorem isRelative (route : Route importer specifier target) :
    Resolver.isRelative specifier.toList = true := by
  obtain ⟨p, steps, hsteps⟩ := List.exists_cons_of_ne_nil route.steps_ne_nil
  have hp : IsStep p := route.isStep p (hsteps ▸ List.mem_cons_self)
  rw [route.specifier_eq, hsteps, List.cons_append]
  exact isRelative_of_step hp (List.append_ne_nil_of_right_ne_nil steps route.down_ne_nil)

/-- A specifier that takes a route names the file at the end of it. -/
theorem names (route : Route importer specifier target) {aliases : AliasTable}
    (hspared : aliases.Spares specifier) :
    (Resolver.new aliases importer).Names specifier target where
  relative := route.isRelative
  joined := by
    rw [route.directory_eq]
    exact route.joinTo_eq
  absolute := by
    rw [route.target_eq]
    simp [Path.absolute, startsWith, strip?]
  spared := hspared

/-- **All ways to a file have one comparison key**, the path of the file without its extension.
    This holds for every importer, every directory above importer and target, and every alias
    table that leaves the specifier alone; so two ways to one file cannot be told apart. -/
theorem resolve_eq_stripExtension {aliases : AliasTable} (route : Route importer specifier target)
    (hspared : aliases.Spares specifier) :
    (Resolver.new aliases importer).resolve specifier = stripExtension target ∧
      ∀ (aliases' : AliasTable) (importer' specifier' : String),
        Route importer' specifier' target → aliases'.Spares specifier' →
          (Resolver.new aliases' importer').resolve specifier' =
            (Resolver.new aliases importer).resolve specifier := by
  have hkey := (route.names hspared).resolve_eq
  refine ⟨hkey, fun aliases' importer' specifier' route' hspared' => ?_⟩
  rw [hkey, (route'.names hspared').resolve_eq]

/-- A page two directories below the one that it shares with the target. -/
def fromPage : Route "/project/pages/shop/index.vue?vue" "../../composables/fetch.ts"
    "/project/composables/fetch.ts" where
  common := ["project".toList]
  up := ["pages".toList, "shop".toList]
  file := "index.vue".toList
  down := ["composables".toList, "fetch.ts".toList]
  steps := [['.', '.'], ['.', '.']]
  importer_eq := by decide +kernel
  target_eq := by decide +kernel
  specifier_eq := by decide +kernel
  importer_names := by decide +kernel
  target_names := by decide +kernel
  down_ne_nil := by decide
  steps_ne_nil := by decide
  isStep := by decide
  climbs := by decide

/-- A file in the directory of the target, by way of the root of all paths. -/
def fromSibling : Route "/project/composables/index.ts" "./../../project/composables/fetch.ts"
    "/project/composables/fetch.ts" where
  common := []
  up := ["project".toList, "composables".toList]
  file := "index.ts".toList
  down := ["project".toList, "composables".toList, "fetch.ts".toList]
  steps := [['.'], ['.', '.'], ['.', '.']]
  importer_eq := by decide +kernel
  target_eq := by decide +kernel
  specifier_eq := by decide +kernel
  importer_names := by decide +kernel
  target_names := by decide +kernel
  down_ne_nil := by decide
  steps_ne_nil := by decide
  isStep := by decide
  climbs := by decide

/-- Both come out as the same key. -/
theorem resolve_eq_stripExtension_sample :
    let aliases : AliasTable := ⟨[("~", "/project"), ("#app", "/nuxt/app")]⟩
    aliases.Spares "../../composables/fetch.ts" ∧
      aliases.Spares "./../../project/composables/fetch.ts" ∧
      (Resolver.new aliases "/project/pages/shop/index.vue?vue").resolve
          "../../composables/fetch.ts" = "/project/composables/fetch" ∧
      (Resolver.new aliases "/project/composables/index.ts").resolve
          "./../../project/composables/fetch.ts" = "/project/composables/fetch" := by
  intro aliases
  have hpage : aliases.Spares "../../composables/fetch.ts" := by
    unfold AliasTable.Spares
    decide +kernel
  have hsibling : aliases.Spares "./../../project/composables/fetch.ts" := by
    unfold AliasTable.Spares
    decide +kernel
  have hfile : stripExtension "/project/composables/fetch.ts" = "/project/composables/fetch" := by
    decide +kernel
  obtain ⟨hkey, hsame⟩ := fromPage.resolve_eq_stripExtension hpage
  rw [hfile] at hkey
  exact ⟨hpage, hsibling, hkey, (hsame _ _ _ fromSibling hsibling).trans hkey⟩

end Route

end BuildMacros
