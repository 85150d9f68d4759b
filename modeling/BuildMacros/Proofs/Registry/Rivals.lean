import BuildMacros.Proofs.Assoc
import BuildMacros.Registry.Component
import Mathlib.Data.List.Induction
import Mathlib.Data.List.Nodup
import Mathlib.Data.List.Perm.Basic

/-! # Which components are kept

    A component claims a place in the registry: its name in its mode. Of all components
    that claim one place a single one is kept. It is the first of the highest priority
    (`Wins`), but it stands where the place was claimed first, which may be earlier than
    the component itself in the list.

    Where a place stands is looked up in an index, which is only written when a place is
    claimed first. It stays right because nothing ever moves (`Winners.Indexed`), so that
    it does what a search through the list would do.

    The registry is made by entering one component after the other, so a component that
    is kept now may be displaced later. What is true of every beginning of the list is
    `Settled`: the places are in the order of the first claims, and each is held by the
    best of the claims so far. This says all that there is to say about a registry, since
    no two registries are settled for the same list.
-/

namespace BuildMacros.ComponentRegistry

/-! ## Section 1: Claims -/

/-- The component is in the list, and it is the first one among those of the highest priority that
    claim its place. -/
def Wins (cs : List Component) (w : Component) : Prop :=
  ∃ before after, cs = before ++ w :: after ∧
    (∀ c ∈ before, place c = place w → c.priority < w.priority) ∧
    ∀ c ∈ after, place c = place w → c.priority ≤ w.priority

namespace Wins

variable {cs : List Component} {c v w : Component}

theorem mem (h : Wins cs w) : w ∈ cs := by
  obtain ⟨before, after, rfl, -, -⟩ := h
  simp

/-- No claim to the place has a higher priority. -/
theorem le (h : Wins cs w) (hc : c ∈ cs) (hplace : place c = place w) :
    c.priority ≤ w.priority := by
  obtain ⟨before, after, rfl, hbefore, hafter⟩ := h
  rcases List.mem_append.mp hc with hc | hc
  · exact Int32.le_of_lt (hbefore c hc hplace)
  · rcases List.mem_cons.mp hc with heq | hc
    · rw [heq]
      exact Int32.le_refl _
    · exact hafter c hc hplace

/-- One more component that does not have the higher priority changes nothing. -/
theorem concat (h : Wins cs w) (hc : place c = place w → c.priority ≤ w.priority) :
    Wins (cs ++ [c]) w := by
  obtain ⟨before, after, rfl, hbefore, hafter⟩ := h
  refine ⟨before, after ++ [c], by simp, hbefore, ?_⟩
  intro d hd hplace
  rcases List.mem_append.mp hd with hd | hd
  · exact hafter d hd hplace
  · rw [List.mem_singleton.mp hd] at hplace ⊢
    exact hc hplace

/-- One more component wins if it has a higher priority than all others that claim its place. -/
theorem last (h : ∀ d ∈ cs, place d = place c → d.priority < c.priority) : Wins (cs ++ [c]) c :=
  ⟨cs, [], rfl, h, by simp⟩

/-- Of two claims that both win, neither stands before the other. -/
theorem eq_of_split {before after before' after' more : List Component}
    (hplace : place v = place w)
    (hafter : ∀ c ∈ after, place c = place v → c.priority ≤ v.priority)
    (hbefore' : ∀ c ∈ before', place c = place w → c.priority < w.priority)
    (hmore : before' = before ++ more) (hrest : v :: after = more ++ w :: after') : v = w := by
  cases more with
  | nil => exact (List.cons.inj hrest).1
  | cons x more =>
    obtain ⟨rfl, hafter'⟩ := List.cons.inj hrest
    -- the earlier one would have to be both below the later one and not below it
    have hlt : v.priority < w.priority := hbefore' v (by simp [hmore]) hplace
    have hle : w.priority ≤ v.priority := hafter w (by simp [hafter']) hplace.symm
    exact absurd hlt (Int32.not_lt.mpr hle)

/-- **A place has one winner.** -/
theorem unique (hv : Wins cs v) (hw : Wins cs w) (hplace : place v = place w) : v = w := by
  obtain ⟨before, after, hsplit, hbefore, hafter⟩ := hv
  obtain ⟨before', after', hsplit', hbefore', hafter'⟩ := hw
  rw [hsplit] at hsplit'
  rcases List.append_eq_append_iff.mp hsplit' with ⟨more, hmore, hrest⟩ | ⟨more, hmore, hrest⟩
  · exact eq_of_split hplace hafter hbefore' hmore hrest
  · exact (eq_of_split hplace.symm hafter' hbefore hmore hrest).symm

end Wins

/-! ## Section 2: One more component -/

namespace Winners

variable {w : Winners} {c v : Component} {i : Nat}

/-- The index gives the position of every place that is held, and answers for no other place. -/
def Indexed (w : Winners) : Prop :=
  ∀ p i, w.index.get? p = some i ↔ (w.components.map place)[i]? = some p

/-- A component whose place the index does not know comes last. -/
theorem enter_of_free (hfree : w.index.get? (place c) = none) :
    w.enter c = ⟨w.components ++ [c], w.index.insert (place c) w.components.length⟩ := by
  rw [enter, hfree]

/-- A component whose place the index knows may displace who holds it. -/
theorem enter_of_held (hheld : w.index.get? (place c) = some i)
    (hv : w.components[i]? = some v) :
    w.enter c =
      ⟨w.components.set i (if v.priority < c.priority then c else v), w.index⟩ := by
  obtain ⟨hlt, hget⟩ := List.getElem?_eq_some_iff.mp hv
  rw [enter, hheld]
  simp only [hv]
  split
  · rfl
  · rw [← hget, List.set_getElem_self]

namespace Indexed

theorem nil : Indexed ⟨[], []⟩ := by
  intro p i
  simp [Assoc.get?]

/-- **A search through the list finds what the index gives.** -/
theorem get?_eq_none_iff (h : w.Indexed) {p : String × ComponentMode} :
    w.index.get? p = none ↔ p ∉ w.components.map place := by
  rw [Option.eq_none_iff_forall_ne_some, List.mem_iff_getElem?, not_exists]
  exact forall_congr' fun i => not_congr (h p i)

/-- Who holds a place that is held. -/
theorem exists_holder (h : w.Indexed) (hheld : w.index.get? (place c) = some i) :
    ∃ v, w.components[i]? = some v ∧ place v = place c := by
  have hplace := (h (place c) i).mp hheld
  rw [List.getElem?_map] at hplace
  exact Option.map_eq_some_iff.mp hplace

/-- A position in the index is one in the list. -/
theorem lt_length (h : w.Indexed) {p : String × ComponentMode}
    (hp : w.index.get? p = some i) : i < w.components.length := by
  have hlt := (List.getElem?_eq_some_iff.mp ((h p i).mp hp)).1
  rwa [List.length_map] at hlt

/-- A place at the end of the list is put down in the index. -/
theorem push (h : w.Indexed) (hfree : w.index.get? (place c) = none) :
    Indexed ⟨w.components ++ [c], w.index.insert (place c) w.components.length⟩ := by
  intro p i
  rw [List.map_append, List.map_singleton]
  by_cases hp : p = place c
  · -- its only position is the last one
    subst hp
    have hnew := h.get?_eq_none_iff.mp hfree
    rw [Assoc.get?_insert_self, Option.some.injEq, List.getElem?_append, List.length_map]
    split
    · next hi =>
      refine iff_of_false (by omega) ?_
      intro hget
      exact hnew (List.mem_of_getElem? hget)
    · next hi =>
      simp only [List.getElem?_singleton, Option.ite_none_right_eq_some, and_true]
      omega
  · rw [Assoc.get?_insert_of_ne _ _ hp, List.getElem?_append, List.length_map]
    split
    · exact h p i
    · next hi =>
      refine iff_of_false (fun hget => hi (h.lt_length hget)) ?_
      simp only [List.getElem?_singleton, Option.ite_none_right_eq_some, Option.some.injEq]
      exact fun hlast => hp hlast.2.symm

/-- The index holds whoever the holder of a place is. -/
theorem set (h : w.Indexed) (hv : w.components[i]? = some v) (hplace : place c = place v) :
    Indexed ⟨w.components.set i c, w.index⟩ := by
  have hsame : (w.components.set i c).map place = w.components.map place := by
    obtain ⟨hlt, rfl⟩ := List.getElem?_eq_some_iff.mp hv
    rw [List.map_set, hplace, ← List.getElem_map place (h := by simpa), List.set_getElem_self]
  intro p j
  rw [hsame]
  exact h p j

/-- **One more component** leaves the index right. -/
theorem enter (h : w.Indexed) (c : Component) : (w.enter c).Indexed := by
  cases hat : w.index.get? (place c) with
  | none =>
    rw [enter_of_free hat]
    exact h.push hat
  | some i =>
    obtain ⟨v, hv, hplace⟩ := h.exists_holder hat
    rw [enter_of_held hat hv]
    apply h.set hv
    split
    · exact hplace.symm
    · rfl

/-- **What entering a component does**: it comes last if nobody holds its place. Otherwise the one
    that does is displaced by a higher priority, and nothing else changes. -/
theorem enter_cases (h : w.Indexed) (c : Component) :
    (place c ∉ w.components.map place ∧ (w.enter c).components = w.components ++ [c]) ∨
      ∃ front v back, w.components = front ++ v :: back ∧ place v = place c ∧
        (w.enter c).components =
          front ++ (if v.priority < c.priority then c else v) :: back := by
  cases hat : w.index.get? (place c) with
  | none => exact .inl ⟨h.get?_eq_none_iff.mp hat, by rw [enter_of_free hat]⟩
  | some i =>
    obtain ⟨v, hv, hplace⟩ := h.exists_holder hat
    obtain ⟨hlt, hget⟩ := List.getElem?_eq_some_iff.mp hv
    refine .inr ⟨w.components.take i, v, w.components.drop (i + 1), ?_, hplace, ?_⟩
    · rw [← hget, List.getElem_cons_drop, List.take_append_drop]
    · rw [enter_of_held hat hv, List.set_eq_take_append_cons_drop, if_pos hlt]

end Indexed

end Winners

/-- The components are those that are kept of a list. -/
structure Settled (cs ws : List Component) : Prop where
  /-- Every place that is claimed is held. -/
  held : ∀ c ∈ cs, place c ∈ ws.map place
  /-- Who holds a place has won it. -/
  won : ∀ w ∈ ws, Wins cs w
  /-- The places are in the order in which they were claimed first. -/
  ordered : (ws.map place).Pairwise fun p q =>
    (cs.map place).idxOf p < (cs.map place).idxOf q

namespace Settled

variable {cs ws ws' : List Component} {c w : Component}

theorem nil : Settled [] [] := ⟨by simp, by simp, by simp⟩

/-- No place is held twice. -/
theorem nodup (h : Settled cs ws) : (ws.map place).Nodup := by
  refine h.ordered.imp ?_
  intro p q hlt heq
  rw [heq] at hlt
  exact absurd hlt (Nat.lt_irrefl _)

theorem eq_of_place (h : Settled cs ws) {v : Component} (hv : v ∈ ws) (hw : w ∈ ws)
    (hplace : place v = place w) : v = w :=
  (h.won v hv).unique (h.won w hw) hplace

/-- A place that is held was claimed. -/
theorem claimed (h : Settled cs ws) {p : String × ComponentMode} (hp : p ∈ ws.map place) :
    p ∈ cs.map place := by
  obtain ⟨w, hw, rfl⟩ := List.mem_map.mp hp
  exact List.mem_map_of_mem (h.won w hw).mem

/-- Later claims do not count for the order. -/
theorem ordered_concat (h : Settled cs ws) (c : Component) :
    (ws.map place).Pairwise fun p q =>
      ((cs ++ [c]).map place).idxOf p < ((cs ++ [c]).map place).idxOf q := by
  refine h.ordered.imp_of_mem ?_
  intro p q hp hq hlt
  rw [List.map_append, List.idxOf_append_of_mem (h.claimed hp),
    List.idxOf_append_of_mem (h.claimed hq)]
  exact hlt

/-- A component whose place nobody claimed before comes last. -/
theorem concat_of_free (h : Settled cs ws) (hfree : place c ∉ ws.map place) :
    Settled (cs ++ [c]) (ws ++ [c]) := by
  have hnew : place c ∉ cs.map place := by
    intro hin
    obtain ⟨d, hd, hplace⟩ := List.mem_map.mp hin
    exact hfree (hplace ▸ h.held d hd)
  have hother : ∀ w ∈ ws, place c ≠ place w := by
    intro w hw heq
    exact hfree (heq ▸ List.mem_map_of_mem hw)
  refine ⟨?_, ?_, ?_⟩
  · intro d hd
    rw [List.map_append, List.mem_append]
    rcases List.mem_append.mp hd with hd | hd
    · exact .inl (h.held d hd)
    · exact .inr (List.mem_map_of_mem hd)
  · intro w hw
    rcases List.mem_append.mp hw with hw | hw
    · apply (h.won w hw).concat
      intro heq
      exact absurd heq (hother w hw)
    · rw [List.mem_singleton.mp hw]
      apply Wins.last
      intro d hd hplace
      exact absurd (hplace ▸ List.mem_map_of_mem hd) hnew
  · have hplaces : (ws ++ [c]).map place = ws.map place ++ [place c] := by simp
    rw [hplaces, List.pairwise_append]
    refine ⟨h.ordered_concat c, List.pairwise_singleton _ _, ?_⟩
    intro p hp q hq
    -- the new place has the last index of all
    have hlt : (cs.map place).idxOf p < (cs.map place).length :=
      List.idxOf_lt_length_of_mem (h.claimed hp)
    rw [List.mem_singleton.mp hq, List.map_append, List.idxOf_append_of_mem (h.claimed hp),
      List.idxOf_append, if_neg hnew]
    omega

/-- A component whose place is held displaces who holds it, or changes nothing. -/
theorem concat_of_held {front back : List Component} (h : Settled cs (front ++ w :: back))
    (hplace : place w = place c) :
    Settled (cs ++ [c]) (front ++ (if w.priority < c.priority then c else w) :: back) := by
  -- the places stay what they are, whoever holds this one
  have hsame : place (if w.priority < c.priority then c else w) = place w := by
    split
    · exact hplace.symm
    · rfl
  have hplaces : (front ++ (if w.priority < c.priority then c else w) :: back).map place =
      (front ++ w :: back).map place := by
    rw [List.map_append, List.map_append, List.map_cons, List.map_cons, hsame]
  have hmem : w ∈ front ++ w :: back := by simp
  have hwon := h.won w hmem
  have hother : ∀ v ∈ front ++ back, place c ≠ place v := by
    intro v hv heq
    have hnodup := h.nodup
    rw [List.map_append, List.map_cons, List.nodup_middle, List.nodup_cons, ← List.map_append]
      at hnodup
    exact hnodup.1 (hplace.trans heq ▸ List.mem_map_of_mem hv)
  refine ⟨?_, ?_, ?_⟩
  · intro d hd
    rw [hplaces]
    rcases List.mem_append.mp hd with hd | hd
    · exact h.held d hd
    · rw [List.mem_singleton.mp hd, ← hplace]
      exact List.mem_map_of_mem hmem
  · intro v hv
    rw [List.mem_append, List.mem_cons, or_left_comm, ← List.mem_append] at hv
    rcases hv with rfl | hv
    · by_cases hlt : w.priority < c.priority
      · rw [if_pos hlt]
        apply Wins.last
        intro d hd hd'
        exact Int32.lt_of_le_of_lt (hwon.le hd (hd'.trans hplace.symm)) hlt
      · rw [if_neg hlt]
        apply hwon.concat
        intro _
        exact Int32.not_lt.mp hlt
    · have hv' : v ∈ front ++ w :: back := by
        rw [List.mem_append, List.mem_cons, or_left_comm, ← List.mem_append]
        exact .inr hv
      apply (h.won v hv').concat
      intro heq
      exact absurd heq (hother v hv)
  · rw [hplaces]
    exact h.ordered_concat c

/-- **One more component** leaves the registry settled. -/
theorem enter {w : Winners} (h : Settled cs w.components) (hindex : w.Indexed) (c : Component) :
    Settled (cs ++ [c]) (w.enter c).components := by
  rcases hindex.enter_cases c with ⟨hfree, heq⟩ | ⟨front, v, back, hsplit, hplace, heq⟩
  · rw [heq]
    exact h.concat_of_free hfree
  · rw [heq]
    exact (hsplit ▸ h).concat_of_held hplace

/-- The registry of a list is settled for the list. -/
theorem ofList (cs : List Component) : Settled cs (ComponentRegistry.ofList cs).components := by
  have hrun : (cs.foldl Winners.enter ⟨[], []⟩).Indexed ∧
      Settled cs (cs.foldl Winners.enter ⟨[], []⟩).components := by
    -- on the list from its end, because components are entered from its start
    induction cs using List.reverseRecOn with
    | nil => exact ⟨Winners.Indexed.nil, nil⟩
    | append_singleton cs c ih =>
      obtain ⟨hindex, hsettled⟩ := ih
      rw [List.foldl_append]
      exact ⟨hindex.enter c, hsettled.enter hindex c⟩
  exact hrun.2

/-- What is kept in one registry is kept in every other one. -/
theorem subset (h : Settled cs ws) (h' : Settled cs ws') : ws ⊆ ws' := by
  intro w hw
  have hwon := h.won w hw
  obtain ⟨w', hw', hplace⟩ := List.mem_map.mp (h'.held w hwon.mem)
  rw [← (h'.won w' hw').unique hwon hplace]
  exact hw'

/-- **There is one settled registry for a list.** -/
theorem eq (h : Settled cs ws) (h' : Settled cs ws') : ws = ws' := by
  have hperm : ws.Perm ws' := by
    rw [List.perm_ext_iff_of_nodup h.nodup.of_map h'.nodup.of_map]
    intro w
    exact ⟨fun hw => h.subset h' hw, fun hw => h'.subset h hw⟩
  have hordered := List.pairwise_map.mp h.ordered
  have hordered' := List.pairwise_map.mp h'.ordered
  refine hperm.eq_of_pairwise ?_ hordered hordered'
  intro v w _ _ hlt hgt
  omega

end Settled

/-! ## Section 3: The registry of a list -/

/-- **Which components are kept, and in which order.** Components are those of the registry of a
    list exactly if: for every place that is claimed in the list there is exactly one of them; each
    of them is in the list and is the first one of the highest priority that claims its place; and
    they stand in the order in which their places are claimed first in the list, wherever in it
    they are themselves. -/
theorem components_ofList_iff (cs ws : List Component) :
    (ofList cs).components = ws ↔
      (∀ c ∈ cs, ∃! w, w ∈ ws ∧ place w = place c) ∧
        (∀ w ∈ ws, ∃ before after, cs = before ++ w :: after ∧
          (∀ c ∈ before, place c = place w → c.priority < w.priority) ∧
          ∀ c ∈ after, place c = place w → c.priority ≤ w.priority) ∧
        (ws.map place).Pairwise fun p q =>
          (cs.map place).idxOf p < (cs.map place).idxOf q := by
  constructor
  · intro h
    have hsettled : Settled cs ws := h ▸ Settled.ofList cs
    refine ⟨?_, hsettled.won, hsettled.ordered⟩
    intro c hc
    obtain ⟨w, hw, hplace⟩ := List.mem_map.mp (hsettled.held c hc)
    refine ⟨w, ⟨hw, hplace⟩, ?_⟩
    intro v ⟨hv, hplace'⟩
    exact hsettled.eq_of_place hv hw (hplace'.trans hplace.symm)
  · intro ⟨hheld, hwon, hordered⟩
    refine (Settled.ofList cs).eq ⟨?_, hwon, hordered⟩
    intro c hc
    obtain ⟨w, ⟨hw, hplace⟩, -⟩ := hheld c hc
    exact hplace ▸ List.mem_map_of_mem hw

/-- The second button displaces the first one and stands in its place; the third one comes too late,
    and the one for the client is no rival. -/
example :
    let button (file : String) (mode : ComponentMode) (priority : Int32) : Component :=
      ⟨"Button", file, mode, defaultExport, priority, false⟩
    let card : Component := ⟨"Card", "/c/Card.vue", .all, defaultExport, 0, false⟩
    (ofList [button "/a" .all 0, card, button "/b" .all 1, button "/c" .all 1,
      button "/d" .client 0]).components.map Component.filePath = ["/b", "/c/Card.vue", "/d"] := by
  decide

end BuildMacros.ComponentRegistry
