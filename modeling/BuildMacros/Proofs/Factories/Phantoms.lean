import BuildMacros.Proofs.Assoc
import BuildMacros.Proofs.Factories.Origins

/-! # Calls of imports that are not there

    A name that nothing declares is taken for a registered factory, because no other name
    gets past the filter; if none is registered under it, the search fails. The filter,
    however, is also fed with the imports that the text seems to have, and a comment or a
    string can read like an import. Such a *phantom* is a name that the text imports a
    factory as, that the module does not declare and that is not registered itself.

    The search fails exactly when an exported call is a call of a phantom. In particular it
    never fails when every import that is read off the text is declared by the module.
-/

namespace BuildMacros.Factories

open BuildMacros.Script

/-! ## Section 1: Candidates that fail -/

/-- The text seems to import a factory as the name, but the module has no such import, and the name
    is not the one of a factory. -/
structure Context.Phantom (x : Context) (m : Module) (name : String) : Prop where
  undeclared : m.scopes.getFrom? Tracker.root name = none
  unregistered : x.registry.get? name = none
  written : ∃ d, (name, d) ∈ x.imports.direct ∧ (x.registry.get? d.exported).isSome = true

/-- When resolving a candidate fails, and how. -/
theorem factoryOf_error_iff {x : Context} {m : Module} {id : String} {e : Candidate}
    {failure : Failure} :
    x.factoryOf m id e = .error failure ↔
      e.callee.qualifier = none ∧ m.scopes.getFrom? Tracker.root e.callee.name = none ∧
        x.registry.get? e.callee.name = none ∧ failure = .missingFactory e.functionName id := by
  constructor
  -- only a plain name that nothing declares can fail, and only in the registry
  · intro h
    unfold Context.factoryOf at h
    split at h
    · next hroot =>
      by_cases hqualified : e.callee.qualifier.isSome = true
      · rw [if_pos hqualified] at h
        cases h
      · rw [if_neg hqualified] at h
        have hbare : e.callee.qualifier = none := by simpa using hqualified
        rw [hbare, Option.getD_none] at hroot
        unfold Context.autoImported at h
        split at h
        · next hnone =>
          cases h
          exact ⟨hbare, hroot, hnone, rfl⟩
        · cases h
    · cases h
  · rintro ⟨hbare, hroot, hnone, rfl⟩
    unfold Context.factoryOf Context.autoImported
    rw [hbare, Option.getD_none, hroot, hnone]
    rfl

/-- A name that is looked at without being registered is one that the text seems to import. -/
theorem Context.Notices.written {x : Context} {name : String} (h : x.Notices name)
    (hnone : x.registry.get? name = none) :
    ∃ d, (name, d) ∈ x.imports.direct ∧ (x.registry.get? d.exported).isSome = true := by
  rcases h with hname | hwritten
  · obtain ⟨⟨key, f⟩, hmem, rfl⟩ := List.mem_map.mp hname
    obtain ⟨f', hf'⟩ := Assoc.exists_get?_of_mem hmem
    unfold FactoryRegistry.get? at hnone
    rw [hf'] at hnone
    cases hnone
  · exact hwritten

/-- No candidate that fails is passed over. -/
theorem exists_factoryOf_ok_of_resolveAll {x : Context} {m : Module} {id : String}
    {es : List Candidate} {calls : List FactoryCall} (h : x.resolveAll m id es = .ok calls) :
    ∀ e ∈ es, ∃ found, x.factoryOf m id e = .ok found := by
  induction es generalizing calls with
  | nil =>
    intro e he
    cases he
  | cons e es ih =>
    obtain ⟨found, more, hfirst, hmore, -⟩ := exists_of_resolveAll_cons h
    intro e' he'
    rcases List.mem_cons.mp he' with rfl | he'
    · exact ⟨found, hfirst⟩
    · exact ih hmore e' he'

/-! ## Section 2: The search -/

/-- **When the search for factory calls fails**: exactly when the module exports what a call of a
    phantom gives. The failure then names the export of such a call. So the search does not fail
    when the module declares every import that is read off its text. -/
theorem find_error_iff (registry : FactoryRegistry) (options : TransformOptions) (id : String)
    (m : Module) :
    let x := Context.new registry options id m.block.content
    ((∃ failure, find registry options id m = .error failure) ↔
      ∃ name c, Origin m id name c ∧ c.qualifier = none ∧ x.Phantom m c.name) ∧
      (∀ failure, find registry options id m = .error failure →
        ∃ name c, failure = .missingFactory name id ∧ Origin m id name c ∧ c.qualifier = none ∧
          x.Phantom m c.name) ∧
      ((∀ e ∈ x.imports.direct, (m.scopes.getFrom? Tracker.root e.1).isSome = true) →
        ∃ calls, find registry options id m = .ok calls) := by
  intro x
  have hfails : ∀ failure, find registry options id m = .error failure →
      ∃ name c, failure = .missingFactory name id ∧ Origin m id name c ∧ c.qualifier = none ∧
        x.Phantom m c.name := by
    intro failure h
    obtain ⟨e, he, hfailed⟩ := exists_factoryOf_of_resolveAll h
    obtain ⟨horigin, haccepts⟩ := mem_candidates_iff.mp he
    obtain ⟨hbare, hroot, hnone, rfl⟩ := factoryOf_error_iff.mp hfailed
    have hnotices : x.Notices e.callee.name := accepts_filter_iff.mp haccepts
    exact ⟨_, _, rfl, horigin, hbare, hroot, hnone, hnotices.written hnone⟩
  refine ⟨⟨?_, ?_⟩, hfails, fun hdeclared => ?_⟩
  · rintro ⟨failure, h⟩
    obtain ⟨name, c, -, hc⟩ := hfails failure h
    exact ⟨name, c, hc⟩
  · rintro ⟨name, c, horigin, hbare, hphantom⟩
    cases h : find registry options id m with
    | error failure => exact ⟨failure, rfl⟩
    | ok calls =>
      -- the call is a candidate, and no candidate may fail
      have haccepts : x.filter.accepts c.name = true :=
        accepts_filter_iff.mpr (.inr hphantom.written)
      have hmem : (⟨name, c⟩ : Candidate) ∈ m.program.body.flatMap (candidates m x.filter id) :=
        mem_candidates_iff.mpr ⟨horigin, haccepts⟩
      obtain ⟨found, hfound⟩ := exists_factoryOf_ok_of_resolveAll h _ hmem
      have hfailed : x.factoryOf m id ⟨name, c⟩ = .error (.missingFactory name id) :=
        factoryOf_error_iff.mpr ⟨hbare, hphantom.undeclared, hphantom.unregistered, rfl⟩
      rw [hfound] at hfailed
      cases hfailed
  · cases h : find registry options id m with
    | ok calls => exact ⟨calls, rfl⟩
    | error failure =>
      obtain ⟨name, c, -, -, -, hphantom⟩ := hfails failure h
      obtain ⟨d, hd, -⟩ := hphantom.written
      have hsome := hdeclared _ hd
      rw [hphantom.undeclared] at hsome
      cases hsome

/-- A file whose only import stands in a comment. -/
def phantomCode : String :=
  "/*\nimport { make as build } from '#m'\n*/\nexport const useIt = build()"

/-- Options without aliases and automatic imports. -/
def plainOptions : TransformOptions := ⟨none, .empty, .empty, false, defaultFactoryMarker⟩

/-- **A comment ends a scan**: the name in it gets past the filter, and no factory has this name. -/
theorem phantom_ends_scan :
    (∃ m, Module.parse phantomCode "/a.ts" = .ok m ∧
      find (.ofEntries (.ofMap []) waysEntries) plainOptions "/a.ts" m =
        .error (.missingFactory "useIt" "/a.ts")) ∧
      scan (.ofEntries (.ofMap []) waysEntries) plainOptions phantomCode "/a.ts" =
        .error (.missingFactory "useIt" "/a.ts") := by
  have hfind : ((Module.parse phantomCode "/a.ts").toOption.any fun m => decide
      (find (.ofEntries (.ofMap []) waysEntries) plainOptions "/a.ts" m =
        .error (.missingFactory "useIt" "/a.ts"))) = true := by decide +kernel
  obtain ⟨m, hm, hfind⟩ := (Option.any_eq_true _ _).mp hfind
  exact ⟨⟨m, eq_ok_of_toOption hm, of_decide_eq_true hfind⟩, by decide +kernel⟩

end BuildMacros.Factories
