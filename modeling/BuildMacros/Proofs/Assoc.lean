import BuildMacros.Assoc

/-! # Looking keys up

    A lookup answers with the first of the pairs that have the key. Inserting a pair
    looks the same as putting it in front, although the keys stay in their places. So of
    several pairs with one key that are inserted, the last one is found. A stable sort
    changes nothing as long as it does not tell pairs with one key apart.
-/

namespace BuildMacros

/-- A stable sort keeps apart what is in order already. -/
theorem filter_mergeSort {α : Type} {le : α → α → Bool}
    (trans : ∀ a b c, le a b = true → le b c = true → le a c = true)
    (total : ∀ a b, (le a b || le b a) = true) {l : List α} {q : α → Bool}
    (h : (l.filter q).Pairwise fun a b => le a b = true) :
    (l.mergeSort le).filter q = l.filter q := by
  have hsub : (l.filter q).Sublist ((l.mergeSort le).filter q) := by
    have := (List.sublist_mergeSort trans total h List.filter_sublist).filter q
    simpa only [List.filter_filter, Bool.and_self] using this
  have hperm : ((l.mergeSort le).filter q).Perm (l.filter q) :=
    (List.mergeSort_perm l le).filter q
  exact (hsub.eq_of_length hperm.length_eq.symm).symm

namespace Assoc

variable {α β : Type} [BEq α]

theorem get?_append (m n : Assoc α β) (k : α) : get? (m ++ n) k = (m.get? k).or (n.get? k) :=
  List.lookup_append

theorem mem_of_get? [LawfulBEq α] {m : Assoc α β} {k : α} {v : β} (h : m.get? k = some v) :
    (k, v) ∈ m := by
  obtain ⟨before, after, rfl, -⟩ := List.lookup_eq_some_iff.mp h
  exact List.mem_append_right _ List.mem_cons_self

theorem exists_get?_of_mem [LawfulBEq α] {m : Assoc α β} {k : α} {v : β} (h : (k, v) ∈ m) :
    ∃ v', m.get? k = some v' := by
  obtain ⟨before, after, rfl⟩ := List.append_of_mem h
  rw [get?_append]
  cases hbefore : get? before k with
  | some v' => exact ⟨v', rfl⟩
  | none => exact ⟨v, by simp [get?]⟩

/-- Inserting a pair adds no other one. -/
theorem mem_insert [LawfulBEq α] {m : Assoc α β} {k : α} {v : β} {x : α × β}
    (h : x ∈ m.insert k v) : x = (k, v) ∨ x ∈ m := by
  induction m with
  | nil => exact .inl (List.mem_singleton.mp h)
  | cons y m ih =>
    obtain ⟨k', v'⟩ := y
    rw [insert] at h
    by_cases hk : (k == k') = true
    · rw [if_pos hk, List.mem_cons] at h
      exact h.imp_right (List.mem_cons_of_mem _)
    · rw [if_neg hk, List.mem_cons] at h
      rcases h with rfl | h
      · exact .inr List.mem_cons_self
      · exact (ih h).imp_right (List.mem_cons_of_mem _)

/-- A new key is stored behind all others. -/
theorem insert_of_not_mem [LawfulBEq α] {m : Assoc α β} {k : α} (h : k ∉ m.keys) (v : β) :
    m.insert k v = m ++ [(k, v)] := by
  induction m with
  | nil => rfl
  | cons x m ih =>
    obtain ⟨k', v'⟩ := x
    rw [keys, List.map_cons, List.mem_cons, not_or] at h
    rw [insert, if_neg (by simpa using h.1), ih h.2, List.cons_append]

/-- A lookup answers with the first pair that has the key. -/
theorem get?_eq_find? [LawfulBEq α] (m : Assoc α β) (k : α) :
    m.get? k = (m.find? fun x => x.1 == k).map Prod.snd := by
  induction m with
  | nil => rfl
  | cons x m ih =>
    obtain ⟨k', v⟩ := x
    rw [get?] at ih ⊢
    rw [List.lookup_cons, List.find?_cons]
    by_cases hk : k = k'
    · subst hk
      simp
    · have hkk' : (k == k') = false := beq_false_of_ne hk
      have hk'k : (k' == k) = false := beq_false_of_ne (Ne.symm hk)
      simp only [hkk', hk'k]
      exact ih

theorem has_eq_false_iff {m : Assoc α β} {k : α} : m.has k = false ↔ m.get? k = none := by
  rw [has, Option.isSome_eq_false_iff, Option.isNone_iff_eq_none]

/-- The last pair that is inserted counts. -/
theorem get?_insert [LawfulBEq α] (m : Assoc α β) (k k' : α) (v : β) :
    (m.insert k v).get? k' = get? ((k, v) :: m) k' := by
  by_cases hk : k' = k
  · subst hk
    rw [get?_insert_self, get?, List.lookup_cons, beq_self_eq_true]
  · have hne : (k' == k) = false := beq_false_of_ne hk
    rw [get?_insert_of_ne m v hk, get?, get?, List.lookup_cons, hne]

/-- Of several values that are inserted under one key, the last one counts. -/
theorem get?_foldl_insert [LawfulBEq α] {γ : Type} (key : γ → α) (value : γ → Option β)
    {step : Assoc α β → γ → Assoc α β}
    (hsome : ∀ m x v, value x = some v → step m x = insert m (key x) v)
    (hnone : ∀ m x, value x = none → step m x = m) (xs : List γ) (m : Assoc α β) (k : α) :
    (xs.foldl step m).get? k =
      ((xs.filter fun x => key x == k && (value x).isSome).getLast?.bind value).or (m.get? k) := by
  induction xs generalizing m with
  | nil => rfl
  | cons x xs ih =>
    rw [List.foldl_cons, ih, List.filter_cons]
    cases hvalue : value x with
    | none => simp [hnone m x hvalue]
    | some v =>
      rw [hsome m x v hvalue]
      by_cases hkey : key x = k
      · -- the value is stored, and counts unless a later one is
        subst hkey
        cases hlast : (xs.filter fun y => key y == key x && (value y).isSome).getLast? with
        | none => simp [hvalue, List.getLast?_cons, hlast]
        | some y =>
          have hy := List.mem_of_getLast? hlast
          rw [List.mem_filter, Bool.and_eq_true] at hy
          obtain ⟨w, hw⟩ := Option.isSome_iff_exists.mp hy.2.2
          simp [List.getLast?_cons, hlast, hw]
      · simp [hkey, get?_insert_of_ne m v (Ne.symm hkey)]

/-- A stable sort that does not tell pairs with one key apart changes no lookup. -/
theorem get?_mergeSort [LawfulBEq α] {le : α × β → α × β → Bool}
    (trans : ∀ a b c, le a b = true → le b c = true → le a c = true)
    (total : ∀ a b, (le a b || le b a) = true)
    (hsame : ∀ a b : α × β, a.1 = b.1 → le a b = true) (m : Assoc α β) (k : α) :
    get? (m.mergeSort le) k = m.get? k := by
  have hordered : (m.filter fun x => x.1 == k).Pairwise fun a b => le a b = true := by
    apply List.pairwise_iff_forall_sublist.mpr
    intro a b hab
    have hkey : ∀ x ∈ [a, b], x.1 = k := by
      intro x hx
      exact eq_of_beq (List.mem_filter.mp (hab.subset hx)).2
    apply hsame
    rw [hkey a List.mem_cons_self, hkey b (List.mem_cons_of_mem a List.mem_cons_self)]
  rw [get?_eq_find?, get?_eq_find?, ← List.head?_filter, ← List.head?_filter,
    filter_mergeSort trans total hordered]

end Assoc

end BuildMacros
