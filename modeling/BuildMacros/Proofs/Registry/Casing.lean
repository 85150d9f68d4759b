import BuildMacros.Proofs.Naming
import BuildMacros.Proofs.Registry.Choice

/-! # Requests in any casing

    Components are registered in pascal case, and a requested name is cased before it
    is looked up. A name that has been cased by someone else is cased again, so that
    what is found depends on casing being the same the second time, also where the
    second splitting finds other words than the first.
-/

namespace BuildMacros

namespace ComponentRegistry

open BuildMacros.Text

/-- A name and its pascal case are registered alike. -/
theorem registeredName_pascalCase (name : String) :
    registeredName (Naming.pascalCase name) = registeredName name := by
  simp only [registeredName, Naming.pascalCase, String.toList_ofList, Naming.pascal_pascal]

/-- **A name in pascal case is as good as the name**: casing it again changes nothing, its camel
    case is that of the name, and every bundle finds the same component for both. The names in
    pascal case are those without separators that begin with their own upper case. -/
theorem cased_names_agree (name : String) :
    Naming.pascalCase (Naming.pascalCase name) = Naming.pascalCase name ∧
      Naming.camelCase (Naming.pascalCase name) = Naming.camelCase name ∧
      (Naming.pascalCase name = name ↔
        (∀ c ∈ name.toList, Naming.isSeparator c = false) ∧
          ∀ c, name.toList.head? = some c → upper c = [c]) ∧
      ∀ (r : ComponentRegistry) (bundle : Bundle),
        r.find? (Naming.pascalCase name) bundle = r.find? name bundle := by
  refine ⟨?_, ?_, ?_, fun r bundle => find?_congr (registeredName_pascalCase name) bundle⟩
  · rw [Naming.pascalCase, Naming.pascalCase, String.toList_ofList, Naming.pascal_pascal]
  · rw [Naming.camelCase, Naming.camelCase, Naming.camel, Naming.camel, Naming.pascalCase,
      String.toList_ofList, Naming.pascal_pascal]
  · rw [← String.toList_inj, Naming.pascalCase, String.toList_ofList]
    exact Naming.pascal_eq_self_iff

end ComponentRegistry

end BuildMacros
