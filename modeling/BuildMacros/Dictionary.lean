import BuildMacros.Assoc

/-! # Dictionaries of texts

    A `Dictionary` maps texts to texts. Every key occurs once; that is part of the
    type, so writing a dictionary down and reading it back loses nothing.
-/

namespace BuildMacros

namespace Assoc

variable {α β : Type} [BEq α] [LawfulBEq α]

theorem mem_keys_insert {m : Assoc α β} {k x : α} {v : β} :
    x ∈ (m.insert k v).keys ↔ x = k ∨ x ∈ m.keys := by
  induction m with
  | nil => simp [insert, keys]
  | cons p m ih =>
    obtain ⟨k', v'⟩ := p
    by_cases h : k == k'
    · have : k = k' := by simpa using h
      subst this
      simp [insert, keys]
    · simp only [keys] at ih
      simp [insert, h, keys, ih]
      grind

theorem nodup_keys_insert {m : Assoc α β} (h : m.keys.Nodup) (k : α) (v : β) :
    (m.insert k v).keys.Nodup := by
  induction m with
  | nil => simp [insert, keys]
  | cons p m ih =>
    obtain ⟨k', v'⟩ := p
    simp only [keys, List.map_cons, List.nodup_cons] at h
    by_cases hk : k == k'
    · have : k = k' := by simpa using hk
      subst this
      simpa [insert, keys] using h
    · have hne : ¬ k = k' := by simpa using hk
      have hmem : k' ∉ (Assoc.insert m k v).keys := by
        rw [mem_keys_insert]
        simp only [keys]
        grind
      simpa [insert, hne, keys] using And.intro hmem (ih h.2)

end Assoc

/-- A map from texts to texts. -/
structure Dictionary where
  entries : Assoc String String
  /-- No key occurs twice. -/
  distinct : entries.keys.Nodup
deriving DecidableEq

namespace Dictionary

/-- No entries. -/
def empty : Dictionary := ⟨[], List.nodup_nil⟩

instance : Inhabited Dictionary := ⟨empty⟩

/-- Stores a value under a key, in place of an earlier one. -/
def insert (d : Dictionary) (k v : String) : Dictionary :=
  ⟨d.entries.insert k v, Assoc.nodup_keys_insert d.distinct k v⟩

/-- Value of a key. -/
def get? (d : Dictionary) (k : String) : Option String := d.entries.get? k

/-- The dictionary of a list of entries; of entries with one key the last counts. -/
def ofList (entries : List (String × String)) : Dictionary :=
  entries.foldl (fun d e => d.insert e.1 e.2) empty

end Dictionary

end BuildMacros
