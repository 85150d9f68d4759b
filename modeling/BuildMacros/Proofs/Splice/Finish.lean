import BuildMacros.Proofs.Splice.Assembly

/-! # What a splicer makes of a text

    `finish?` is `finish` with every cut checked: it answers nothing when it would
    have to cut outside the text, backwards or through a character. It always
    answers, and its answer is put together offset by offset from the calls that
    were accepted.
-/

namespace BuildMacros

open BuildMacros.Text

namespace Splicer

/-! ## Section 1: Checked cuts -/

/-- The characters of a range; nothing when it is no range of the text. -/
def cut? (source : List Char) (start stop : Nat) : Option (List Char) :=
  if IsRange source start stop then some (slice source start stop) else none

/-- The text from a cursor on with the edits applied, by checked cuts. -/
def splice? (source : List Char) (cursor : Nat) : List Edit → Option (List Char)
  | [] => cut? source cursor (byteLength source)
  | e :: es => do
    let kept ← cut? source cursor e.start
    let rest ← splice? source (max e.stop cursor) es
    return kept ++ e.text.toList ++ rest

/-- The edited text by checked cuts. -/
def finish? (s : Splicer) : Option String :=
  (splice? s.source.toList 0 s.ordered).map fun cs => s.intro ++ String.ofList cs

theorem Laid.max_eq {source : List Char} {cursor : Nat} {e : Edit} {es : List Edit}
    (h : Laid source cursor (e :: es)) : max e.stop cursor = e.stop := by
  obtain ⟨hcursor, hedit, _⟩ := h
  have h₁ := hcursor.le
  have h₂ := hedit.le
  omega

/-- Over edits in order all cuts are ranges. -/
theorem splice?_eq {source : List Char} {cursor : Nat} {es : List Edit}
    (h : Laid source cursor es) : splice? source cursor es = some (splice source cursor es) := by
  induction es generalizing cursor with
  | nil =>
    have hcut : cut? source cursor (byteLength source) =
        some (slice source cursor (byteLength source)) := if_pos h
    rw [splice?, splice, hcut, dropBytes_eq_slice h]
  | cons e es ih =>
    have hcut : cut? source cursor e.start = some (slice source cursor e.start) := if_pos h.1
    rw [splice?, splice, Laid.max_eq h, hcut, ih h.2.2]
    rfl

theorem splice_eq_interleave {source : List Char} {cursor : Nat} {es : List Edit}
    (h : Laid source cursor es) :
    splice source cursor es =
      interleave (fun e => e.text.toList) (slice source) (byteLength source) cursor es := by
  induction es generalizing cursor with
  | nil => exact dropBytes_eq_slice h
  | cons e es ih => rw [splice, interleave, Laid.max_eq h, ih h.2.2]

theorem Sound.finish?_eq {s : Splicer} (h : s.Sound) : s.finish? = some s.finish := by
  rw [finish?, splice?_eq h.laid]
  rfl

/-! ## Section 2: The edited text by offsets -/

/-- What respects putting together turns the edited text into what stands at the offsets. -/
theorem Sound.hom_finish {β : Type} {f : List Char → List β} {unit : Nat → List β} {s : Splicer}
    (h : s.Sound) (hf : ∀ xs ys, f (xs ++ ys) = f xs ++ f ys)
    (hcut : ∀ a b, IsRange s.source.toList a b →
      f (slice s.source.toList a b) = (List.range' a (b - a)).flatMap unit)
    (hend : unit (byteLength s.source.toList) = []) :
    f s.finish.toList = f s.intro.toList ++
      (List.range (byteLength s.source.toList + 1)).flatMap
        (standing unit (fun e => f e.text.toList) s.edits) := by
  have hsplice : f (splice s.source.toList 0 s.ordered) =
      (List.range' 0 (byteLength s.source.toList + 1 - 0)).flatMap
        (standing unit (fun e => f e.text.toList) s.ordered) := by
    rw [splice_eq_interleave h.laid, interleave_hom hf]
    exact interleave_eq_standing h.laid hcut hend
  rw [finish, String.toList_append, String.toList_ofList, hf, hsplice, Nat.sub_zero,
    ← List.range_eq_range']
  congr 1
  apply List.flatMap_congr
  intro p _
  exact standing_mergeSort s.edits p

/-- The bytes of the edited text. -/
theorem Sound.utf8_finish {s : Splicer} (h : s.Sound) :
    utf8 s.finish = utf8 s.intro ++ (List.range (s.source.utf8ByteSize + 1)).flatMap
      (standing (fun p => (utf8 s.source)[p]?.toList) (fun e => utf8 e.text) s.edits) := by
  simp only [utf8_eq_bytes, utf8ByteSize_eq]
  refine h.hom_finish bytes_append (fun a b hab => bytes_slice_eq_flatMap hab) ?_
  rw [List.getElem?_eq_none (Nat.le_of_eq (length_bytes _))]
  rfl

/-- A new text is what a splicer with changes makes of its source. -/
theorem finish_of_output_eq {s : Splicer} {file text : String} {sourcemap : Bool}
    {map : Option SourceMap} (h : s.output file sourcemap = .edited text map) :
    s.hasChanged = true ∧ s.finish = text := by
  unfold output at h
  by_cases hchanged : s.hasChanged = true
  · rw [if_pos hchanged] at h
    cases h
    exact ⟨hchanged, rfl⟩
  · rw [if_neg hchanged] at h
    cases h

end Splicer

/-! ## Section 3: The edited text by calls -/

namespace Call

/-- The text that a call inserts at an offset. -/
def insertedAt? (p : Nat) : Call → Option String
  | insert pos text => if pos = p then some text else none
  | _ => none

/-- The text that a call puts in place of a range that starts at an offset. -/
def overwrittenAt? (p : Nat) : Call → Option String
  | overwrite start _ text => if start = p then some text else none
  | _ => none

/-- A call replaces the byte at an offset. -/
def covers (p : Nat) : Call → Bool
  | overwrite start stop _ => start ≤ p && p < stop
  | _ => false

end Call

/-- Texts of the edits that a list of calls asks for, selected by edit or by call. -/
theorem flatMap_filter_edits {β : Type} (f : String → List β) {q : Edit → Bool}
    {g : Call → Option String} {cs : List Call}
    (h : ∀ c ∈ cs, (c.edit?.bind fun e => if q e then some e.text else none) = g c) :
    ((cs.filterMap Call.edit?).filter q).flatMap (fun e => f e.text) =
      (cs.filterMap g).flatMap f := by
  have hcalls : cs.filterMap (fun c => c.edit?.bind fun e => if q e then some e.text else none) =
      cs.filterMap g := List.filterMap_congr h
  -- both sides are selections from the same edits
  rw [← hcalls, ← List.filterMap_filterMap]
  induction cs.filterMap Call.edit? with
  | nil => rfl
  | cons e es ih => cases hq : q e <;> simp [hq, ih]

section

variable {cs : List Call}
  (hcs : ∀ start stop text, Call.overwrite start stop text ∈ cs → start < stop)

include hcs

theorem bind_insertedAt (p : Nat) : ∀ c ∈ cs, (c.edit?.bind fun e =>
    if e.isInsert && e.start == p then some e.text else none) = c.insertedAt? p := by
  intro c hc
  cases c with
  | prepend text => rfl
  | insert pos text =>
    by_cases hp : pos = p <;> simp [Call.edit?, Call.insertedAt?, Edit.isInsert, hp]
  | overwrite start stop text =>
    have hne := Nat.ne_of_lt (hcs start stop text hc)
    simp [Call.edit?, Call.insertedAt?, Edit.isInsert, hne]

theorem bind_overwrittenAt (p : Nat) : ∀ c ∈ cs, (c.edit?.bind fun e =>
    if !e.isInsert && e.start == p then some e.text else none) = c.overwrittenAt? p := by
  intro c hc
  cases c with
  | prepend text => rfl
  | insert pos text => simp [Call.edit?, Call.overwrittenAt?, Edit.isInsert]
  | overwrite start stop text =>
    have hne := Nat.ne_of_lt (hcs start stop text hc)
    simp [Call.edit?, Call.overwrittenAt?, Edit.isInsert, hne]

theorem length_overwrittenAt (p : Nat) :
    (cs.filterMap (Call.overwrittenAt? p)).length =
      ((cs.filterMap Call.edit?).filter fun e => !e.isInsert && e.start == p).length := by
  have h := flatMap_filter_edits (fun t => [t]) (bind_overwrittenAt hcs p)
  rw [List.flatMap_singleton'] at h
  rw [← h, List.length_flatMap]
  simp

end

theorem any_covers (cs : List Call) (p : Nat) :
    (cs.filterMap Call.edit?).any (·.covers p) = cs.any (Call.covers p) := by
  rw [List.any_filterMap]
  congr 1
  funext c
  cases c with
  | prepend text => rfl
  | overwrite start stop text => rfl
  | insert pos text =>
    show Edit.covers ⟨pos, pos, text⟩ p = false
    simp only [Edit.covers, Bool.and_eq_false_iff, decide_eq_false_iff_not]
    omega

namespace Splicer

/-- Two replacements never start at one offset. -/
theorem Sound.length_filter_le_one {s : Splicer} (h : s.Sound) (p : Nat) :
    (s.edits.filter fun e => !e.isInsert && e.start == p).length ≤ 1 := by
  have hfree : (s.edits.filter fun e => !e.isInsert && e.start == p).Pairwise
      fun a b => a.conflicts b.start b.stop = false := h.free.filter _
  have hmem : ∀ e ∈ s.edits.filter fun e => !e.isInsert && e.start == p,
      e.start = p ∧ e.start < e.stop := by
    intro e he
    simp only [List.mem_filter, Edit.isInsert, Bool.and_eq_true, Bool.not_eq_true',
      beq_eq_false_iff_ne, beq_iff_eq] at he
    have := (h.ranges e he.1).le
    omega
  generalize s.edits.filter (fun e => !e.isInsert && e.start == p) = es at hfree hmem ⊢
  -- of two such edits the later would conflict with the earlier
  rcases es with _ | ⟨a, _ | ⟨b, es⟩⟩
  · simp
  · simp
  · have ha := hmem a (by simp)
    have hb := hmem b (by simp)
    have hab := (List.pairwise_cons.mp hfree).1 b (by simp)
    have hne₁ : (b.start == b.stop) = false := by
      simp only [beq_eq_false_iff_ne]
      omega
    have hne₂ : (a.start == a.stop) = false := by
      simp only [beq_eq_false_iff_ne]
      omega
    simp only [Edit.conflicts, Edit.isInsert, hne₁, hne₂, Bool.false_eq_true, if_false,
      Bool.and_eq_false_iff, decide_eq_false_iff_not] at hab
    omega

/-- **The edited text, call by call.** Whatever is called on a splicer, `finish` never cuts outside
    the text, and its bytes are those of the texts put in front, the latest first, followed offset
    by offset by the accepted insertions in the order of their calls, the accepted replacement that
    starts there, and the byte of the source unless an accepted replacement covers it. -/
theorem utf8_finish_run (source : String) (calls : List Call) :
    let s := run source calls
    let done := (new source).accepted calls
    s.finish? = some s.finish ∧
    utf8 s.finish =
      (done.filterMap Call.intro?).reverse.flatMap utf8 ++
      (List.range (source.utf8ByteSize + 1)).flatMap fun p =>
        (done.filterMap (Call.insertedAt? p)).flatMap utf8
          ++ (done.findSome? (Call.overwrittenAt? p)).toList.flatMap utf8
          ++ if done.any (Call.covers p) then [] else (utf8 source)[p]?.toList := by
  intro s done
  have hsound : s.Sound := Sound.run source calls
  have hsource : s.source = source := source_foldl_call (new source) calls
  have hedits : s.edits = done.filterMap Call.edit? := edits_foldl_call (new source) calls
  -- accepted replacements are never empty, so edits and calls agree on their kind
  have hlt : ∀ a b t, Call.overwrite a b t ∈ done → a < b :=
    fun _ _ _ h => start_lt_stop_of_mem_accepted h
  have hintro : utf8 s.intro = (done.filterMap Call.intro?).reverse.flatMap utf8 := by
    have h : s.intro.toList = _ ++ "".toList := intro_foldl_call (new source) calls
    rw [utf8_eq_bytes, h, String.toList_empty, List.append_nil, funext utf8_eq_bytes]
    simp only [bytes, List.flatMap_assoc]
    rfl
  refine ⟨hsound.finish?_eq, ?_⟩
  rw [hsound.utf8_finish, hintro, hsource]
  congr 1
  apply List.flatMap_congr
  intro p _
  -- of one replacement at most, the first one is all of them
  have hone : (done.filterMap (Call.overwrittenAt? p)).length ≤ 1 := by
    rw [length_overwrittenAt hlt, ← hedits]
    exact hsound.length_filter_le_one p
  have hhead : (done.findSome? (Call.overwrittenAt? p)).toList =
      done.filterMap (Call.overwrittenAt? p) := by
    rw [← List.head?_filterMap]
    generalize done.filterMap (Call.overwrittenAt? p) = texts at hone ⊢
    rcases texts with _ | ⟨t, _ | ⟨t', texts⟩⟩
    · rfl
    · rfl
    · simp at hone
  rw [standing, hedits, flatMap_filter_edits utf8 (bind_insertedAt hlt p),
    flatMap_filter_edits utf8 (bind_overwrittenAt hlt p), any_covers, hhead]

end Splicer

end BuildMacros
