import BuildMacros.Proofs.PageMeta.Hoisting
import BuildMacros.Proofs.Safety
import BuildMacros.Proofs.Text.Infixes

/-! # Pages that are parsed for their metadata

    Before a page is parsed, its text is searched: for the name of the function that states
    metadata, with nothing but blanks up to a parenthesis, or for two other texts. A page
    in which nothing is found is answered by the empty module.

    The search reads characters, where the tree has calls. So a page with one call that
    states metadata is answered by what the call states exactly if the search finds
    something (`extract_edited`), and other ways to write the call are missed:
    type arguments, a comment before the parenthesis, an optional call
    (`spellings_missed`).
-/

namespace BuildMacros.PageMeta

open BuildMacros.Text BuildMacros.Script

/-! ## Section 1: What the search finds -/

/-- Behind the name of the function come blanks and a parenthesis. -/
def Opens (rest : List Char) : Prop :=
  ∃ gap after, rest = gap ++ '(' :: after ∧ ∀ c ∈ gap, isBlank c = true

/-- The name stands somewhere after a word edge, with blanks and a parenthesis behind it. -/
def Spelled (cs : List Char) : Prop :=
  ∃ before rest, cs = before ++ (metaCall.toList ++ rest) ∧
    (∀ c, before.getLast? = some c → isWord c = false) ∧ Opens rest

theorem opens_iff {rest : List Char} :
    (rest.dropWhile isBlank).head? = some '(' ↔ Opens rest := by
  constructor
  · intro h
    obtain ⟨after, hafter⟩ := List.head?_eq_some_iff.mp h
    refine ⟨rest.takeWhile isBlank, after, ?_, ?_⟩
    · rw [← hafter, List.takeWhile_append_dropWhile]
    · intro c hc
      exact List.all_eq_true.mp List.all_takeWhile c hc
  · intro ⟨gap, after, hrest, hgap⟩
    rw [hrest, List.dropWhile_append_of_pos hgap, List.dropWhile_cons_of_neg (by decide)]
    rfl

/-- The search at the head of a text. -/
theorem callsMeta_iff {cs : List Char} :
    callsMeta cs = true ↔ ∃ rest, cs = metaCall.toList ++ rest ∧ Opens rest := by
  unfold callsMeta
  cases hstrip : strip? metaCall.toList cs with
  | none =>
    constructor
    · intro h
      cases h
    · intro ⟨rest, hcs, _⟩
      rw [hcs, strip?_append] at hstrip
      cases hstrip
  | some rest =>
    rw [strip?_eq_some_iff] at hstrip
    simp only [beq_iff_eq, opens_iff]
    constructor
    · intro h
      exact ⟨rest, hstrip, h⟩
    · intro ⟨rest', hcs, h⟩
      rw [List.append_cancel_left (hstrip.symm.trans hcs)]
      exact h

/-- **The search in a whole text**, behind some character or at the beginning. -/
theorem mentionsCall_iff {last : Option Char} {cs : List Char} :
    mentionsCall last cs = true ↔ ∃ before rest, cs = before ++ (metaCall.toList ++ rest) ∧
      (∀ c, before.getLast?.or last = some c → isWord c = false) ∧ Opens rest := by
  induction cs generalizing last with
  | nil =>
    constructor
    · intro h
      cases h
    · intro ⟨before, rest, hcs, _⟩
      have hlength := congrArg List.length hcs
      have hname : metaCall.toList.length = 14 := by decide
      simp [hname] at hlength
      omega
  | cons a cs ih =>
    rw [mentionsCall, Bool.or_eq_true, Bool.and_eq_true, callsMeta_iff, ih]
    have hedge : (!last.any isWord) = true ↔ ∀ c, last = some c → isWord c = false := by
      cases last <;> simp
    rw [hedge]
    constructor
    · intro h
      rcases h with ⟨hword, rest, hcs, hopens⟩ | ⟨before, rest, hcs, hword, hopens⟩
      · exact ⟨[], rest, hcs, hword, hopens⟩
      · refine ⟨a :: before, rest, by rw [hcs, List.cons_append], ?_, hopens⟩
        intro c hc
        apply hword c
        rw [← hc, List.getLast?_cons]
        cases before.getLast? <;> rfl
    · intro ⟨before, rest, hcs, hword, hopens⟩
      cases before with
      | nil => exact .inl ⟨hword, rest, hcs, hopens⟩
      | cons b before =>
        obtain ⟨rfl, htail⟩ := List.cons.inj hcs
        refine .inr ⟨before, rest, htail, ?_, hopens⟩
        intro c hc
        apply hword c
        rw [← hc, List.getLast?_cons]
        cases before.getLast? <;> rfl

/-- **Which pages are parsed**: those with the call in one spelling, or with one of two texts. -/
theorem mayState_iff {code : String} :
    mayState code = true ↔ Spelled code.toList ∨
      "export { default }".toList <:+: code.toList ∨ metaName.toList <:+: code.toList := by
  unfold mayState holdsMeta Spelled
  rw [Bool.or_eq_true, Bool.or_eq_true, contains_iff, contains_iff, mentionsCall_iff, or_assoc]
  simp

/-! ## Section 2: What a text is replaced by -/

/-- One edit of a whole text leaves its own text and nothing else. -/
theorem output_of_call? {code text : String} {s : Splicer} {c : Call}
    (hc : c.edit? = some ⟨0, byteLength code.toList, text⟩)
    (h : (Splicer.new code).call? c = .ok s) (id : String) (sourcemap : Bool) :
    ∃ map, s.output id sourcemap = .edited text map := by
  rcases Splicer.call?_eq_ok h with ⟨front, rfl, -⟩ | ⟨e, he, -, hrange, -, rfl⟩
  · cases hc
  obtain rfl : e = ⟨0, byteLength code.toList, text⟩ := Option.some.inj (he.symm.trans hc)
  have hfirst : slice code.toList 0 0 = [] := by
    apply slice_self
    exact ⟨Nat.le_refl 0, Nat.zero_le _, isBoundary_zero _, isBoundary_zero _⟩
  have hlast := dropBytes_append code.toList []
  rw [List.append_nil] at hlast
  have hfinish : Splicer.finish { Splicer.new code with
      edits := (Splicer.new code).edits ++ [⟨0, byteLength code.toList, text⟩] } = text := by
    simp [Splicer.finish, Splicer.ordered, Splicer.new, Splicer.splice, hfirst, hlast]
  rw [Splicer.output, if_pos (by simp [Splicer.hasChanged]), hfinish]
  exact ⟨_, rfl⟩

/-- What is written for a page begins with no blank, as the empty module does. -/
theorem extracted_ne_emptyModule (m : Module) (o : PageMetaOptions) (needs : Needs)
    (within : Span) : extracted m o needs within ≠ emptyModule o := by
  intro h
  have hblank : (extracted m o needs within).toList.head? = some '\n' := by
    rw [h]
    unfold emptyModule
    cases o.dev <;> simp
  rw [extracted, String.toList_ofList] at hblank
  exact absurd (eq_false_of_head?_trim hblank) (by decide)

/-! ## Section 3: Calls -/

/-- The node calls the function that states metadata, by its plain name. -/
def isMetaCall : Node → Bool
  | .call (.use callee) _ _ _ _ => callee.name == metaCall
  | _ => false

/-- The calls of a module that state metadata. -/
def metaCalls (m : Module) : List Node := m.program.nodes.filter isMetaCall

/-- Only such a call has an argument that states metadata. -/
theorem metaArgument?_of_not_isMetaCall {n : Node} (h : isMetaCall n = false) :
    metaArgument? (.call n) = none := by
  cases n with
  | call callee typeArgs args optional span =>
    cases callee with
    | use id =>
      rw [isMetaCall, beq_eq_false_iff_ne] at h
      rw [metaArgument?, if_neg h]
    | _ => rfl
  | _ => rfl

/-- A repeated walk meets the events of the walk. -/
theorem map_snd_replay (c : Cursor) (es : List Event) : (c.replay es).map Prod.snd = es := by
  induction es generalizing c with
  | nil => rfl
  | cons e es ih => rw [Cursor.replay, List.map_cons, ih]

/-- **The arguments that state metadata** are those of the calls in the tree, in their order. -/
theorem metaArguments_eq (m : Module) :
    metaArguments m = (metaCalls m).filterMap fun n => metaArgument? (.call n) := by
  have hcalls := m.program.filterMap_calls (fun n _ => metaArgument? (.call n)) ?_
  · have hevents : m.program.events.filterMap metaArgument? =
        m.program.spots.filterMap fun s => metaArgument? (.call s.node) := by
      refine Eq.trans ?_ hcalls
      rw [Program.moments, List.filterMap_map]
      nth_rewrite 1 [← map_snd_replay (.new (.collect m.program)) m.program.events]
      rw [List.filterMap_map]
      apply List.filterMap_congr
      intro x _
      obtain ⟨c, e⟩ := x
      cases e <;> rfl
    rw [metaArguments, hevents, metaCalls, List.filterMap_filter, Program.nodes,
      List.filterMap_map]
    apply List.filterMap_congr
    intro s _
    by_cases hmeta : isMetaCall s.node = true
    · simp [hmeta]
    · rw [Bool.not_eq_true] at hmeta
      simp [hmeta, metaArgument?_of_not_isMetaCall hmeta]
  · intro n look hcall
    cases n with
    | call callee typeArgs args optional span => exact absurd rfl hcall
    | _ => rfl

/-- The first argument of the only call that states metadata. -/
def soleArgument? (m : Module) : Option Node :=
  match metaCalls m with
  | [.call _ _ args _ _] => args.head?
  | _ => none

/-- The only call states its first argument as metadata, if it has one. -/
theorem metaArguments_of_length {m : Module} (h : (metaCalls m).length = 1) :
    metaArguments m = [(soleArgument? m).map Node.span] := by
  obtain ⟨call, hcalls⟩ := List.length_eq_one_iff.mp h
  have hmem : call ∈ metaCalls m := by
    rw [hcalls]
    exact List.mem_cons_self
  have hmeta := (List.mem_filter.mp hmem).2
  cases call with
  | call callee typeArgs args optional span =>
    cases callee with
    | use id =>
      have hname : id.name = metaCall := beq_iff_eq.mp hmeta
      rw [metaArguments_eq, soleArgument?, hcalls]
      simp [metaArgument?, hname]
    | _ => cases hmeta
  | _ => cases hmeta

theorem length_of_soleArgument? {m : Module} {arg : Node} (h : soleArgument? m = some arg) :
    (metaCalls m).length = 1 := by
  unfold soleArgument? at h
  split at h
  · next hcalls => rw [hcalls, List.length_singleton]
  · cases h

/-- The only call states its first argument as metadata. -/
theorem metaArguments_of_soleArgument? {m : Module} {arg : Node}
    (h : soleArgument? m = some arg) : metaArguments m = [some arg.span] := by
  rw [metaArguments_of_length (length_of_soleArgument? h), h]
  rfl

/-! ## Section 4: Answers -/

/-- A page that is not parsed is answered by the empty module. -/
theorem extract_of_not_mayState {code : String} (hstate : ¬mayState code = true)
    (o : PageMetaOptions) (sourcemap : Bool) (id : String) :
    ∃ map, extract o sourcemap code id = .ok (.edited (emptyModule o) map) := by
  unfold extract
  rw [if_neg hstate]
  by_cases hempty : code.isEmpty = true
  · obtain rfl : code = "" := String.isEmpty_iff.mp hempty
    obtain ⟨s, hs⟩ : ∃ s, (Splicer.new "").call? (.insert 0 (emptyModule o)) = .ok s := by
      apply (Splicer.exists_call?_iff _ _).mpr
      exact ⟨⟨Nat.le_refl _, Nat.zero_le _, isBoundary_zero _, isBoundary_zero _⟩,
        fun a ha => (List.not_mem_nil ha).elim⟩
    obtain ⟨map, hmap⟩ := output_of_call? (c := .insert 0 (emptyModule o)) rfl hs id sourcemap
    refine ⟨map, ?_⟩
    rw [if_pos hempty, ← hmap]
    show (Splicer.new "").call? (.insert 0 (emptyModule o)) >>= _ = _
    rw [hs]
    rfl
  · obtain ⟨s, hs⟩ := exists_replaceAll (by simpa using hempty) (emptyModule o)
    obtain ⟨map, hmap⟩ := output_of_call?
      (c := .overwrite 0 (byteLength code.toList) (emptyModule o)) rfl hs id sourcemap
    refine ⟨map, ?_⟩
    rw [if_neg hempty, hs, ← hmap]
    rfl

section

variable {code id : String} {m : Module} (hparse : Module.parse code id = .ok m)

include hparse

/-- A page that is parsed is answered by what its tree is edited to. -/
theorem extract_of_mayState (hstate : mayState code = true) (o : PageMetaOptions)
    (sourcemap : Bool) : extract o sourcemap code id =
      (extractFrom o code id m).map fun s => s.output id sourcemap := by
  unfold extract
  rw [if_pos hstate, hparse]
  show extractFrom o code id m >>= _ = _
  cases extractFrom o code id m <;> rfl

/-- **One call with an argument**: what the file is answered by is written from what the argument
    needs, if the file is parsed at all. -/
theorem extract_eq {within : Span} {needs : Needs} (hcalls : metaArguments m = [some within])
    (hneeds : needsOf m id within = .ok needs) (o : PageMetaOptions) (sourcemap : Bool) :
    ∃ map, extract o sourcemap code id = .ok (.edited
      (if mayState code then extracted m o needs within else emptyModule o) map) := by
  by_cases hstate : mayState code = true
  · have hcode : code ≠ "" := by
      intro hempty
      rw [hempty, mayState_empty] at hstate
      cases hstate
    obtain ⟨s, hs⟩ := exists_replaceAll hcode (extracted m o needs within)
    obtain ⟨map, hmap⟩ := output_of_call?
      (c := .overwrite 0 (byteLength code.toList) (extracted m o needs within)) rfl hs id sourcemap
    refine ⟨map, ?_⟩
    have hextract : extractFrom o code id m = .ok s := by
      unfold extractFrom
      rw [hcalls]
      show needsOf m id within >>= _ = _
      rw [hneeds]
      exact hs
    rw [if_pos hstate, extract_of_mayState hparse hstate, hextract, ← hmap]
    rfl
  · rw [if_neg hstate]
    exact extract_of_not_mayState hstate o sourcemap id

/-- **What a page is answered by.** Let a page parse, with exactly one call of the function by its
    plain name, however the call is written, and with an argument, and let no declaration that is
    hoisted for the argument wait for a value. Then the page is answered by a module of its own.
    That is the one written from the argument exactly if the text of the page has the call in one
    spelling, or one of two other texts in it; otherwise it is the empty module, which is another
    one. -/
theorem extract_edited {arg : Node} (hcall : soleArgument? m = some arg)
    (hready : ∀ d, Reached (references m) arg.span d → isHoistable d = true →
      waits m d = false) :
    ∃ needs, needsOf m id arg.span = .ok needs ∧ ∀ (o : PageMetaOptions) (sourcemap : Bool),
      ∃ text map, extract o sourcemap code id = .ok (.edited text map) ∧
        (text = extracted m o needs arg.span ∨ text = emptyModule o) ∧
        (text = extracted m o needs arg.span ↔ Spelled code.toList ∨
          "export { default }".toList <:+: code.toList ∨
            metaName.toList <:+: code.toList) := by
  obtain ⟨needs, hneeds⟩ := exists_needsOf id hready
  refine ⟨needs, hneeds, ?_⟩
  intro o sourcemap
  obtain ⟨map, hextract⟩ :=
    extract_eq hparse (metaArguments_of_soleArgument? hcall) hneeds o sourcemap
  refine ⟨_, map, hextract, ?_⟩
  rw [← mayState_iff]
  by_cases hstate : mayState code = true
  · rw [if_pos hstate]
    exact ⟨.inl rfl, iff_of_true rfl hstate⟩
  · rw [if_neg hstate]
    exact ⟨.inr rfl, iff_of_false (extracted_ne_emptyModule m o needs arg.span).symm hstate⟩

end

/-- A page that states a layout by its name. -/
def layoutCode : String := "const layout = 'wide'\ndefinePageMeta({ layout })\n"

/-- That page is answered by the layout, with the constant that holds its name. -/
theorem extract_edited_layout :
    ∃ m arg needs map, Module.parse layoutCode "/app/pages/a.ts" = .ok m ∧
      soleArgument? m = some arg ∧ m.textAt arg.span = "{ layout }" ∧
      needsOf m "/app/pages/a.ts" arg.span = .ok needs ∧
      extract ⟨false⟩ false layoutCode "/app/pages/a.ts" =
        .ok (.edited (extracted m ⟨false⟩ needs arg.span) map) := by
  let layout : Declaration := ⟨⟨"layout", .variable .const, ⟨6, 12⟩, ⟨0, 21⟩⟩, 0⟩
  have hfile : ((Module.parse layoutCode "/app/pages/a.ts").toOption.any fun m =>
      (soleArgument? m).any fun arg => decide (m.textAt arg.span = "{ layout }" ∧
        outward (references m) arg.span = [layout] ∧
          outward (references m) layout.node = [] ∧ waits m layout = false)) = true := by
    decide +kernel
  obtain ⟨m, hparse, hfile⟩ := (Option.any_eq_true _ _).mp hfile
  obtain ⟨arg, hcall, hfile⟩ := (Option.any_eq_true _ _).mp hfile
  obtain ⟨htext, hmeta, hlayout, hwaits⟩ := of_decide_eq_true hfile
  have hparse := eq_ok_of_toOption hparse
  have hready : ∀ d, Reached (references m) arg.span d → d = layout := by
    intro d hd
    induction hd with
    | used h => simpa [hmeta] using mem_outward_iff.mpr h
    | through _ _ he ih => simpa [ih, hlayout] using mem_outward_iff.mpr he
  obtain ⟨needs, hneeds, hextract⟩ := extract_edited hparse hcall fun d hd _ => by
    rw [hready d hd]
    exact hwaits
  obtain ⟨text, map, hextract, -, hiff⟩ := hextract ⟨false⟩ false
  have hlast : "const layout = 'wide'\n".toList.getLast? = some '\n' := by decide +kernel
  have hspelled : Spelled layoutCode.toList := by
    refine ⟨"const layout = 'wide'\n".toList, "({ layout })\n".toList, by decide +kernel,
      ?_, [], "{ layout })\n".toList, by decide +kernel, by simp⟩
    intro c hc
    rw [hlast] at hc
    obtain rfl := Option.some.inj hc
    decide
  rw [hiff.mpr (.inl hspelled)] at hextract
  exact ⟨m, arg, needs, map, hparse, hcall, htext, hneeds, hextract⟩

/-- The page parses, with one call that states a layout and needs nothing else, but it is answered
    by the empty module, which is not the one written from the argument. -/
def Missed (code : String) : Prop :=
  ∃ m arg, Module.parse code "/app/pages/a.ts" = .ok m ∧ soleArgument? m = some arg ∧
    m.textAt arg.span = r"{ layout: 'wide' }" ∧
    needsOf m "/app/pages/a.ts" arg.span = .ok .nothing ∧
    extracted m ⟨false⟩ .nothing arg.span ≠ emptyModule ⟨false⟩ ∧
    ∃ map, extract ⟨false⟩ false code "/app/pages/a.ts" =
      .ok (.edited (emptyModule ⟨false⟩) map)

/-- A call that refers to nothing is missed if the search finds nothing in the text. -/
theorem missed_of_mayState {code : String}
    (hfile : ((Module.parse code "/app/pages/a.ts").toOption.any fun m =>
      (soleArgument? m).any fun arg => decide (m.textAt arg.span = r"{ layout: 'wide' }" ∧
        outward (references m) arg.span = [])) = true)
    (hstate : mayState code = false) : Missed code := by
  obtain ⟨m, hparse, hfile⟩ := (Option.any_eq_true _ _).mp hfile
  obtain ⟨arg, hcall, hfile⟩ := (Option.any_eq_true _ _).mp hfile
  obtain ⟨htext, hmeta⟩ := of_decide_eq_true hfile
  have hparse := eq_ok_of_toOption hparse
  have hneeds : needsOf m "/app/pages/a.ts" arg.span = .ok .nothing := by
    rw [← hoists_iff, hmeta]
    exact .done
  obtain ⟨map, hextract⟩ :=
    extract_eq hparse (metaArguments_of_soleArgument? hcall) hneeds ⟨false⟩ false
  rw [if_neg (by simp [hstate])] at hextract
  exact ⟨m, arg, hparse, hcall, htext, hneeds, extracted_ne_emptyModule m _ _ _, map, hextract⟩

/-- **Spellings that are missed**: a call with type arguments, one with a comment before the
    parenthesis, and an optional one. -/
theorem spellings_missed :
    Missed (r"definePageMeta<Meta>({ layout: 'wide' })" ++ "\n") ∧
      Missed (r"definePageMeta/* page */({ layout: 'wide' })" ++ "\n") ∧
      Missed (r"definePageMeta?.({ layout: 'wide' })" ++ "\n") :=
  ⟨missed_of_mayState (by decide +kernel) (by decide +kernel),
    missed_of_mayState (by decide +kernel) (by decide +kernel),
    missed_of_mayState (by decide +kernel) (by decide +kernel)⟩

end BuildMacros.PageMeta
