import BuildMacros.Registry.Component

/-! # The component for a name

    A bundle is given a component that it can use as it is, whenever one of the name is
    registered. Failing that it makes do with another one: the client with a component of
    the name that is meant for the server, the server with the placeholder.

    All of this is `Chosen`; what is found for a name is `Chosen` for the name in the
    case of components (`exists_chosen_of_find?`).
-/

namespace BuildMacros

namespace ComponentRegistry

/-- A registered component of the name that the bundle can use as it is. -/
structure Usable (r : ComponentRegistry) (bundle : Bundle) (name : String) (c : Component) :
    Prop where
  mem : c ∈ r.components
  named : c.pascalName = name
  accepted : bundle.accepts c.mode = true

/-- Name of what a bundle makes do with when it can use no component of a name. -/
def standIn (name : String) : Bundle → String
  | .client => name
  | .server => "ServerPlaceholder"

/-- The component is a right choice for the name: one that the bundle can use, if there is any. -/
structure Chosen (r : ComponentRegistry) (bundle : Bundle) (name : String) (c : Component) :
    Prop where
  mem : c ∈ r.components
  usable : (∃ d, Usable r bundle name d) → Usable r bundle name c
  other : (¬∃ d, Usable r bundle name d) → c.pascalName = standIn name bundle

variable {r : ComponentRegistry} {bundle : Bundle} {name : String} {c : Component} {i : Nat}

/-- What is chosen under another name is the placeholder. -/
theorem Chosen.replaced (h : Chosen r bundle name c) (hname : c.pascalName ≠ name) :
    c.pascalName = "ServerPlaceholder" ∧ ¬∃ d, Usable r bundle name d := by
  have hunusable : ¬∃ d, Usable r bundle name d := fun hsome => hname (h.usable hsome).named
  refine ⟨?_, hunusable⟩
  have hother := h.other hunusable
  cases bundle with
  | client => exact absurd hother hname
  | server => exact hother

/-- The client makes do with the name. -/
theorem Chosen.named (h : Chosen r .client name c) : c.pascalName = name := by
  by_cases hsome : ∃ d, Usable r .client name d
  · exact (h.usable hsome).named
  · exact h.other hsome

/-- **The component that is found** is a right choice. -/
theorem exists_chosen_of_find? (h : r.find? name bundle = some i) :
    ∃ c, r.components[i]? = some c ∧ Chosen r bundle (registeredName name) c := by
  have hfound : ∀ {p : Component → Bool}, r.components.findIdx? p = some i →
      ∃ c, r.components[i]? = some c ∧ c ∈ r.components ∧ p c = true := by
    intro p hp
    obtain ⟨hlt, hp, -⟩ := List.findIdx?_eq_some_iff_getElem.mp hp
    exact ⟨_, List.getElem?_eq_getElem hlt, List.getElem_mem hlt, hp⟩
  unfold find? at h
  dsimp only at h
  split at h
  · next husable =>
    cases h
    obtain ⟨c, hc, hmem, hp⟩ := hfound husable
    rw [Bool.and_eq_true, beq_iff_eq] at hp
    have husable : Usable r bundle (registeredName name) c := ⟨hmem, hp.1, hp.2⟩
    exact ⟨c, hc, hmem, fun _ => husable, fun hnone => absurd ⟨c, husable⟩ hnone⟩
  · cases h
  · next hnone hany =>
    have hunusable : ¬∃ d, Usable r bundle (registeredName name) d := by
      intro ⟨d, hd⟩
      have hfalse := List.findIdx?_eq_none_iff.mp hnone d hd.mem
      simp [hd.named, hd.accepted] at hfalse
    -- what is found in its stead has the name that the bundle makes do with
    have hchosen : ∀ {p : Component → Bool}, r.components.findIdx? p = some i →
        (∀ c, p c = true → c.pascalName = standIn (registeredName name) bundle) →
          ∃ c, r.components[i]? = some c ∧ Chosen r bundle (registeredName name) c := by
      intro p hp hname
      obtain ⟨c, hc, hmem, hpc⟩ := hfound hp
      exact ⟨c, hc, hmem, fun hsome => absurd hsome hunusable, fun _ => hname c hpc⟩
    split at h
    · cases h
      apply hchosen hany
      intro c hc
      simpa [standIn] using hc
    · apply hchosen h
      intro c hc
      simpa [standIn] using hc

/-- The same, said of the component that stands at the index. -/
theorem chosen_of_find? (h : r.find? name bundle = some i) (hc : r.components[i]? = some c) :
    Chosen r bundle (registeredName name) c := by
  obtain ⟨d, hd, hchosen⟩ := exists_chosen_of_find? h
  rw [hc] at hd
  rwa [Option.some.inj hd]

/-- Names that are registered alike find the same component. -/
theorem find?_congr {other : String} (h : registeredName name = registeredName other)
    (bundle : Bundle) : r.find? name bundle = r.find? other bundle := by
  unfold find?
  rw [h]

end ComponentRegistry

end BuildMacros
