/-! # Association lists

    Finite maps in the order in which their keys were first inserted. Inserting a
    key again replaces its value and keeps its place, so keys are never repeated.
-/

namespace BuildMacros

/-- Pairs of a key and its value. -/
abbrev Assoc (α β : Type) := List (α × β)

namespace Assoc

variable {α β : Type} [BEq α]

/-- Value of a key. -/
def get? (m : Assoc α β) (k : α) : Option β := List.lookup k m

/-- Some value is stored under the key. -/
def has (m : Assoc α β) (k : α) : Bool := (m.get? k).isSome

/-- Stores a value under a key, in place of an earlier one. -/
def insert : Assoc α β → α → β → Assoc α β
  | [], k, v => [(k, v)]
  | (k', v') :: m, k, v => if k == k' then (k, v) :: m else (k', v') :: insert m k v

/-- The keys in the order of their first insertion. -/
def keys (m : Assoc α β) : List α := m.map Prod.fst

@[simp] theorem get?_insert_self [LawfulBEq α] (m : Assoc α β) (k : α) (v : β) :
    (m.insert k v).get? k = some v := by
  induction m with
  | nil => simp [insert, get?]
  | cons p m ih =>
    obtain ⟨k', v'⟩ := p
    by_cases h : k == k'
    · simp [insert, h, get?]
    · have hk : (k == k') = false := by simpa using h
      simpa [insert, hk, get?, List.lookup_cons] using ih

theorem get?_insert_of_ne [LawfulBEq α] (m : Assoc α β) {k k₁ : α} (v : β) (h : k₁ ≠ k) :
    (m.insert k v).get? k₁ = m.get? k₁ := by
  have hne : (k₁ == k) = false := by simpa using h
  induction m with
  | nil => simp [insert, get?, List.lookup_cons, hne]
  | cons p m ih =>
    obtain ⟨k', v'⟩ := p
    by_cases hk : k == k'
    · have : k = k' := by simpa using hk
      subst this
      simp [insert, get?, List.lookup_cons, hne]
    · have hk : (k == k') = false := by simpa using hk
      by_cases h₁ : k₁ == k'
      · simp [insert, hk, get?, List.lookup_cons, h₁]
      · have h₁ : (k₁ == k') = false := by simpa using h₁
        simpa [insert, hk, get?, List.lookup_cons, h₁] using ih

end Assoc

end BuildMacros
