import BuildMacros.Proofs.Factories.Redirection
import BuildMacros.Proofs.Keys.Mentions
import BuildMacros.Proofs.Splice.Embedding

/-! # Scripts inside of files

    Two passes edit scripts: keys are given, and factory calls are redirected. A script of
    a component stands somewhere in a file, and a pass over the file reads the script alone
    and makes its edits in the whole text. Two things are read in the whole text all the
    same: the question whether the file mentions a registered name, and whether an optional
    link follows a callee. The closing tag behind the script is no such link.

    So a file that is rewritten is rewritten as its script would be, taken as a module of
    its own: the same edits, moved by the offset of the script, and nothing else changes
    (`rewrites_as_alone`). Only the question may be answered differently. A name that
    stands in a template may be the reason for looking at a script that would not have been
    looked at alone.
-/

namespace BuildMacros

open BuildMacros.Text

/-! ## Section 1: A script alone -/

namespace Script

/-- The script of a block as a module of its own, in the same language. -/
def Block.alone (b : Block) : Block := { b with offset := 0 }

/-- The module of a script on its own. -/
def Module.alone (m : Module) : Module := { m with block := m.block.alone }

theorem ofBlock_alone (id : String) (b : Block) :
    Module.ofBlock id b.alone = (Module.ofBlock id b).map Module.alone := by
  have hparse : Program.parse? (dialect id b.alone.lang) b.alone.content.toList =
      Program.parse? (dialect id b.lang) b.content.toList := rfl
  unfold Module.ofBlock
  rw [hparse]
  cases Program.parse? (dialect id b.lang) b.content.toList <;> rfl

/-- Calls with a known callee, and these callees, end within the parsed text. -/
def Module.CallsWithin (m : Module) : Prop :=
  ∀ n ∈ m.program.nodes, ∀ c, n.knownCall? = some c →
    c.span.stop ≤ byteLength m.block.content.toList ∧
      c.callee.span.stop ≤ byteLength m.block.content.toList

instance (m : Module) : Decidable m.CallsWithin :=
  decidable_of_iff (∀ n ∈ m.program.nodes, ∀ c ∈ n.knownCall?,
    c.span.stop ≤ byteLength m.block.content.toList ∧
      c.callee.span.stop ≤ byteLength m.block.content.toList) Iff.rfl

theorem Module.CallsWithin.of_staticCall? {m : Module} (h : m.CallsWithin) {n : Node}
    (hn : n ∈ m.program.nodes) {filter : NameFilter} {c : StaticCall}
    (hc : n.staticCall? filter = some c) :
    c.span.stop ≤ byteLength m.block.content.toList ∧
      c.callee.span.stop ≤ byteLength m.block.content.toList := by
  rw [Node.staticCall?_eq_filter, Option.filter_eq_some_iff] at hc
  exact h n hn c hc.1

end Script

open BuildMacros.Script

/-! ## Section 2: Passes over scripts -/

/-- A pass that edits scripts. -/
structure ScriptPass where
  /-- The module that the pass looks at. -/
  id : String
  sourcemap : Bool
  /-- Texts that are left as they are without being parsed. -/
  skips : String → Bool
  /-- The calls on the splicer of a text, given the module of one of its blocks. -/
  calls : String → Module → Except Failure (List Call)

namespace ScriptPass

/-- The edits that a pass makes in a text for the module of one of its blocks. -/
def edit (p : ScriptPass) (code : String) (m : Module) : Except Failure Splicer := do
  let cs ← p.calls code m
  cs.foldlM Splicer.call? (.new code)

/-- The pass over one block of a text. -/
def run (p : ScriptPass) (code : String) (b : Block) : Except Failure Output := do
  if p.skips code then return .unchanged
  let m ← Module.ofBlock p.id b
  let s ← p.edit code m
  return s.output p.id p.sourcemap

end ScriptPass

namespace Keys

/-- Giving keys, as a pass over scripts. -/
def pass (registry : KeyedRegistry) (options : TransformOptions) (id : String) : ScriptPass where
  id := id
  sourcemap := options.sourcemap
  skips := fun code => registry.isEmpty || !registry.isMentionedIn code
  calls := fun _ m =>
    let path := Path.relativeTo options.rootDir (Path.clean id)
    .ok ((insertions (siteOf registry options id m) path m).map fun x => .insert x.1 x.2)

theorem inject_eq_run (registry : KeyedRegistry) (options : TransformOptions) (code id : String) :
    inject registry options code id = (pass registry options id).run code (locate code id) := by
  have hedit : ∀ m, (insertions (siteOf registry options id m)
      (Path.relativeTo options.rootDir (Path.clean id)) m).foldlM
        (fun (s : Splicer) x => s.insert x.1 x.2) (.new code) =
      (pass registry options id).edit code m := by
    intro m
    show _ = List.foldlM Splicer.call? _ (List.map _ _)
    rw [List.foldlM_map]
    rfl
  unfold inject ScriptPass.run
  simp only [← hedit]
  rfl

end Keys

namespace Factories

/-- Redirecting factory calls, as a pass over scripts. -/
def pass (registry : FactoryRegistry) (options : TransformOptions) (id : String) : ScriptPass where
  id := id
  sourcemap := options.sourcemap
  skips := fun code => registry.isEmpty || !registry.isMentionedIn code
  calls := fun code m => do
    let found ← find registry options id m
    return (distinct [] (found.map FactoryCall.callee)).map
      (redirection options.factoryMarker m code.toList)

theorem redirectFactories_eq_run (registry : FactoryRegistry) (options : TransformOptions)
    (code id : String) :
    redirectFactories registry options code id =
      (pass registry options id).run code (locate code id) := by
  unfold redirectFactories callsIn ScriptPass.run
  by_cases hskips : (registry.isEmpty || !registry.isMentionedIn code) = true
  · have hpass : (pass registry options id).skips code = true := hskips
    rw [if_pos hskips, if_pos hpass]
    rfl
  · have hpass : ¬(pass registry options id).skips code = true := hskips
    rw [if_neg hskips, if_neg hpass]
    show _ = Module.ofBlock id (locate code id) >>= _
    rw [Module.parse]
    cases Module.ofBlock id (locate code id) with
    | error f => rfl
    | ok m =>
      have hedit : (pass registry options id).edit code m =
          find registry options id m >>= fun found =>
            redirectAll options.factoryMarker m [] (.new code) (found.map FactoryCall.callee) := by
        unfold ScriptPass.edit
        show (find registry options id m >>= _) >>= _ = _
        rw [bind_assoc]
        refine bind_congr fun found => ?_
        rw [redirectAll_eq]
        rfl
      show (find registry options id m >>= fun found => .ok (some (m, found))) >>= _ =
        (pass registry options id).edit code m >>= _
      rw [hedit]
      cases find registry options id m <;> rfl

end Factories

/-! ## Section 3: Passes follow the script -/

namespace ScriptPass

/-- What the pass does for the script in its file is what it does for the script alone, moved by the
    offset, and all of it is done inside the script. -/
structure Follows (p : ScriptPass) (code : String) (m : Module) : Prop where
  moved : p.calls code m =
    (p.calls m.block.content m.alone).map (List.map (Call.moved m.block.offset))
  within : ∀ cs, p.calls m.block.content m.alone = .ok cs →
    ∀ c ∈ cs, c.Within (byteLength m.block.content.toList)

end ScriptPass

namespace Keys

/-- Keys are inserted in front of closing parentheses, and read nothing but the script. -/
theorem follows (registry : KeyedRegistry) (options : TransformOptions) (id code : String)
    {m : Module} (hscopes : m.scopes = .collect m.program) (hwithin : m.CallsWithin) :
    (pass registry options id).Follows code m where
  moved := by
    refine congrArg Except.ok ?_
    show List.map _ (List.map _ _) = List.map _ (List.map _ (List.map _ _))
    rw [List.map_map, List.map_map, List.map_map]
    rfl
  within := by
    rintro cs ⟨⟩ c hc
    obtain ⟨x, hx, rfl⟩ := List.mem_map.mp hc
    obtain ⟨⟨call, count⟩, hmem, rfl⟩ := List.mem_map.mp hx
    have hkeyed : call ∈ keyedCalls (siteOf registry options id m) m :=
      List.fst_mem_of_mem_zipIdx hmem
    obtain ⟨spot, hspot, hstatic, -⟩ := exists_spot_of_mem_keyedCalls hscopes hkeyed
    have hstop := (hwithin.of_staticCall? (List.mem_map.mpr ⟨spot, hspot, rfl⟩) hstatic).1
    exact Nat.le_trans (Nat.sub_le _ _) hstop

end Keys

namespace Factories

/-- Which calls are found does not depend on the file. -/
theorem find_alone (registry : FactoryRegistry) (options : TransformOptions) (id : String)
    (m : Module) : find registry options id m.alone = find registry options id m := by
  have hcandidates : ∀ filter n, candidates m.alone filter id n = candidates m filter id n :=
    fun _ _ => rfl
  have hresolve : ∀ (x : Context) cs, x.resolveAll m.alone id cs = x.resolveAll m id cs := by
    intro x cs
    induction cs with
    | nil => rfl
    | cons c cs ih =>
      rw [Context.resolveAll, Context.resolveAll, ih]
      rfl
  unfold find
  rw [hresolve]
  exact congrArg (Context.resolveAll _ m id) (List.flatMap_congr fun n _ => hcandidates _ n)

/-- A callee that is redirected ends inside the script. -/
theorem stop_le_of_find {registry : FactoryRegistry} {options : TransformOptions} {id : String}
    {m : Module} (hwithin : m.CallsWithin) {found : List FactoryCall}
    (h : find registry options id m = .ok found) :
    ∀ c ∈ found.map FactoryCall.callee, c.span.stop ≤ byteLength m.block.content.toList := by
  intro c hc
  obtain ⟨filter, hexported⟩ := isExported_of_find h
  obtain ⟨v, hv, call, hcall, rfl⟩ := hexported c hc
  obtain ⟨n, hn, hstatic, -⟩ := exists_node_of_directCall? (mem_nodes_of_mem_exportable hv) hcall
  exact (hwithin.of_staticCall? hn hstatic).2

section

variable {code : String} {m : Module} {before after : List Char} {c : Callee}
  (hcode : code.toList = before ++ (m.block.content.toList ++ after))
  (hoffset : byteLength before = m.block.offset) (hafter : ∀ c, after.head? = some c → c = '<')
  (hstop : c.span.stop ≤ byteLength m.block.content.toList)

include hcode hoffset hafter hstop

/-- An optional link behind a callee stands in the script: what follows the script is a tag. -/
theorem isOptionalIn_alone :
    isOptionalIn code.toList m c = isOptionalIn m.block.content.toList m.alone c := by
  have hfile : dropBytes (m.inFile c.span.stop) code.toList =
      dropBytes c.span.stop m.block.content.toList ++ after := by
    rw [Module.inFile, ← hoffset, hcode, dropBytes_add, dropBytes_append_of_le _ _ hstop]
  unfold isOptionalIn
  rw [hfile]
  show _ = startsWith ['?', '.'] (dropBytes c.span.stop m.block.content.toList)
  -- the link would have to begin or to end with the tag
  cases after with
  | nil => rw [List.append_nil]
  | cons d ds =>
    obtain rfl := hafter d rfl
    generalize dropBytes c.span.stop m.block.content.toList = rest
    rcases rest with _ | ⟨a, _ | ⟨b, rest⟩⟩
    · simp [startsWith, strip?]
    · simp [startsWith, strip?]
    · simp only [List.cons_append, startsWith, strip?]
      split
      · split <;> rfl
      · rfl

/-- One redirection in the file is the one in the script, moved. -/
theorem redirection_alone (marker : String) :
    redirection marker m code.toList c =
      (redirection marker m.alone m.block.content.toList c).moved m.block.offset := by
  have hshift : c.span.stop + m.block.offset + 2 = c.span.stop + 2 + m.block.offset :=
    Nat.add_right_comm _ _ _
  unfold redirection
  rw [isOptionalIn_alone hcode hoffset hafter hstop]
  show (if _ then if _ then Call.overwrite _ (c.span.stop + m.block.offset + 2) _ else _
    else if _ then Call.insert (c.span.stop + m.block.offset + 2) _ else _) = _
  rw [hshift]
  split
  · split <;> rfl
  · split <;> rfl

end

/-- One redirection of a script alone is done inside the script. -/
theorem within_redirection {m : Module} {c : Callee}
    (hstop : c.span.stop ≤ byteLength m.block.content.toList) (marker : String) :
    (redirection marker m.alone m.block.content.toList c).Within
      (byteLength m.block.content.toList) := by
  have hlink : isOptionalIn m.block.content.toList m.alone c = true →
      c.span.stop + 2 ≤ byteLength m.block.content.toList := by
    intro hoptional
    have hstart : startsWith ['?', '.'] (dropBytes c.span.stop m.block.content.toList) = true :=
      hoptional
    obtain ⟨rest, hrest⟩ := startsWith_iff.mp hstart
    have hleft := byteLength_dropBytes_le _ hstop
    rw [← hrest, byteLength_append] at hleft
    have htwo : byteLength ['?', '.'] = 2 := rfl
    omega
  unfold redirection
  split
  · split
    · next hoptional => exact hlink hoptional
    · exact hstop
  · split
    · next hoptional => exact hlink hoptional
    · exact hstop

/-- Factory calls are redirected at their callees, and read nothing but the script and the tag
    behind it. -/
theorem follows (registry : FactoryRegistry) (options : TransformOptions) (id : String)
    {code : String} {m : Module} {before after : List Char}
    (hcode : code.toList = before ++ (m.block.content.toList ++ after))
    (hoffset : byteLength before = m.block.offset) (hafter : ∀ c, after.head? = some c → c = '<')
    (hwithin : m.CallsWithin) : (pass registry options id).Follows code m := by
  have hcalls : ∀ text m', (pass registry options id).calls text m' =
      (find registry options id m').map fun found =>
        (distinct [] (found.map FactoryCall.callee)).map
          (redirection options.factoryMarker m' text.toList) := by
    intro text m'
    show find registry options id m' >>= _ = _
    cases find registry options id m' <;> rfl
  cases hfound : find registry options id m with
  | error f =>
    constructor
    · rw [hcalls, hcalls, find_alone, hfound]
      rfl
    · intro cs hcs
      rw [hcalls, find_alone, hfound] at hcs
      cases hcs
  | ok found =>
    have hstop : ∀ c ∈ distinct [] (found.map FactoryCall.callee),
        c.span.stop ≤ byteLength m.block.content.toList := fun c hc =>
      stop_le_of_find hwithin hfound c ((distinct_spec [] _).1 c hc).1
    constructor
    · rw [hcalls, hcalls, find_alone, hfound]
      refine congrArg Except.ok ?_
      rw [List.map_map]
      refine List.map_congr_left fun c hc => ?_
      exact redirection_alone hcode hoffset hafter (hstop c hc) options.factoryMarker
    · intro cs hcs d hd
      rw [hcalls, find_alone, hfound] at hcs
      cases hcs
      obtain ⟨c, hc, rfl⟩ := List.mem_map.mp hd
      exact within_redirection (hstop c hc) options.factoryMarker

end Factories

/-! ## Section 4: Rewritten files -/

namespace ScriptPass

/-- A file is rewritten as its script is. The splicer `s` is what the pass leaves of the script
    alone. -/
structure Rewrites (p : ScriptPass) (code text : String) (m : Module) (before after : List Char)
    (s : Splicer) : Prop where
  alone : p.edit m.block.content m.alone = .ok s
  /-- The edits in the file are the edits in the script, moved by its offset. -/
  moved : ∃ t, p.edit code m = .ok t ∧ t.edits = s.edits.map (Edit.moved m.block.offset)
  /-- The new text has the new script between what stood before and behind the script. -/
  text_eq : text.toList = before ++ (s.finish.toList ++ after)
  /-- The pass over the script alone has these edits for an answer, unless it skips the script. -/
  answers_iff : p.run m.block.content m.block.alone = .ok (s.output p.id p.sourcemap) ↔
    p.skips m.block.content = false

variable {p : ScriptPass} {code : String} {m : Module} {before after : List Char}

/-- The edits that follow the script are those of the script, embedded in the file. -/
theorem Follows.edit_eq_ok_iff (h : p.Follows code m)
    (hcode : code.toList = before ++ (m.block.content.toList ++ after))
    (hoffset : byteLength before = m.block.offset) {t : Splicer} :
    p.edit code m = .ok t ↔
      ∃ s, p.edit m.block.content m.alone = .ok s ∧ t = s.embed before after := by
  unfold edit
  rw [h.moved]
  cases hcalls : p.calls m.block.content m.alone with
  | error f =>
    constructor
    · intro ht
      cases ht
    · rintro ⟨s, hs, -⟩
      cases hs
  | ok cs =>
    have hwithin : ∀ c ∈ cs, c.Within (byteLength (Splicer.new m.block.content).source.toList) :=
      h.within cs hcalls
    show (cs.map (Call.moved m.block.offset)).foldlM Splicer.call? (.new code) = .ok t ↔
      ∃ s, cs.foldlM Splicer.call? (.new m.block.content) = .ok s ∧ t = s.embed before after
    rw [← hoffset, ← Splicer.embed_new hcode]
    exact Splicer.foldlM_embed hwithin

/-- What the pass leaves of a script alone: edits that do not conflict, and nothing in front. -/
theorem Follows.spec (h : p.Follows code m) {s : Splicer}
    (hs : p.edit m.block.content m.alone = .ok s) : s.Sound ∧ s.intro = "" := by
  obtain ⟨cs, hcalls, hs⟩ := exists_of_bind_eq_ok hs
  refine ⟨?_, Splicer.intro_of_foldlM (h.within cs hcalls) hs⟩
  rw [← Splicer.foldl_call_of_foldlM hs]
  exact Splicer.Sound.run m.block.content cs

/-- **A pass that follows the script** rewrites the file as it rewrites the script. -/
theorem Follows.exists_rewrites (h : p.Follows code m)
    (hcode : code.toList = before ++ (m.block.content.toList ++ after))
    (hoffset : byteLength before = m.block.offset) (hparse : Module.ofBlock p.id m.block = .ok m)
    {text : String} {map : Option SourceMap}
    (hrun : p.run code m.block = .ok (.edited text map)) :
    ∃ s, p.Rewrites code text m before after s := by
  unfold run at hrun
  split at hrun
  · cases hrun
  rw [hparse] at hrun
  have hrun : (p.edit code m >>= fun t => .ok (t.output p.id p.sourcemap)) =
      .ok (.edited text map) := hrun
  obtain ⟨t, ht, houtput⟩ := exists_of_bind_eq_ok hrun
  obtain ⟨s, hs, rfl⟩ := (h.edit_eq_ok_iff hcode hoffset).mp ht
  obtain ⟨hsound, hintro⟩ := h.spec hs
  obtain ⟨hchanged, htext⟩ := Splicer.finish_of_output_eq (Except.ok.inj houtput)
  refine ⟨s, hs, ⟨_, ht, by rw [← hoffset]; rfl⟩, ?_, ?_⟩
  · rw [← htext, Splicer.finish_embed hsound hintro]
  · -- the script has edits, so it is not left as it is
    have hscript : s.hasChanged = true := by
      simpa [Splicer.hasChanged, Splicer.embed] using hchanged
    have hedited : s.output p.id p.sourcemap ≠ .unchanged := by
      rw [Splicer.output, if_pos hscript]
      exact fun heq => by cases heq
    have halone : Module.ofBlock p.id m.block.alone = .ok m.alone := by
      rw [ofBlock_alone, hparse]
      rfl
    unfold run
    cases hskips : p.skips m.block.content with
    | true =>
      refine iff_of_false (fun heq => hedited ?_) (by decide)
      exact (Except.ok.inj heq).symm
    | false =>
      refine iff_of_true ?_ rfl
      rw [halone]
      show p.edit m.block.content m.alone >>= _ = _
      rw [hs]
      rfl

/-- A pass that follows every script that it parses, over the block that is looked at. -/
theorem exists_rewrites_of_run
    (hcode : code.toList = before ++ ((locate code p.id).content.toList ++ after))
    (hoffset : byteLength before = (locate code p.id).offset)
    (hfollows : ∀ m, Module.parse code p.id = .ok m → p.Follows code m) {text : String}
    {map : Option SourceMap} (hrun : p.run code (locate code p.id) = .ok (.edited text map)) :
    ∃ m s, Module.parse code p.id = .ok m ∧ p.Rewrites code text m before after s := by
  -- a pass that rewrites the file has parsed it
  obtain ⟨m, hm⟩ : ∃ m, Module.parse code p.id = .ok m := by
    unfold run at hrun
    split at hrun
    · cases hrun
    · obtain ⟨m, hm, -⟩ := exists_of_bind_eq_ok hrun
      exact ⟨m, hm⟩
  have hblock := (Module.parse_eq_ok hm).1
  have hparse : Module.ofBlock p.id m.block = .ok m := by
    rw [hblock]
    exact hm
  rw [← hblock] at hcode hoffset hrun
  obtain ⟨s, hs⟩ := (hfollows m hm).exists_rewrites hcode hoffset hparse hrun
  exact ⟨m, s, hm, hs⟩

end ScriptPass

/-- **A script is rewritten in its file as it is rewritten alone.** Whatever the file, its script
    and the registries: when keys are given in the file or factory calls are redirected, all that
    stands before and behind the script stays, and the edits are those of the script as a module
    of its own, with the same id and in the same language, moved by the offset of the script. Such
    a module is the script itself, which has no blocks. The pass over the script alone answers
    with these edits unless it skips the script: the question which names are mentioned is asked
    of the file in one case, and of the script in the other. -/
theorem rewrites_as_alone (options : TransformOptions) (code id : String)
    (hwithin : ∀ m, Module.parse code id = .ok m → m.CallsWithin) :
    ∃ before after, code.toList = before ++ ((locate code id).content.toList ++ after) ∧
      byteLength before = (locate code id).offset ∧
      locate (locate code id).content id = ⟨(locate code id).content, 0, none⟩ ∧
      (∀ registry text map, Keys.inject registry options code id = .ok (.edited text map) →
        ∃ m s, Module.parse code id = .ok m ∧
          (Keys.pass registry options id).Rewrites code text m before after s) ∧
      ∀ registry text map,
        Factories.redirectFactories registry options code id = .ok (.edited text map) →
          ∃ m s, Module.parse code id = .ok m ∧
            (Factories.pass registry options id).Rewrites code text m before after s := by
  obtain ⟨before, after, hcode, hoffset, hafter, hinner⟩ := exists_surroundings code id
  refine ⟨before, after, hcode, hoffset, hinner, ?_, ?_⟩
  · intro registry text map hrun
    rw [Keys.inject_eq_run] at hrun
    refine ScriptPass.exists_rewrites_of_run (p := Keys.pass registry options id) hcode hoffset
      (fun m hm => ?_) hrun
    exact Keys.follows registry options id code (Module.parse_eq_ok hm).2 (hwithin m hm)
  · intro registry text map hrun
    rw [Factories.redirectFactories_eq_run] at hrun
    refine ScriptPass.exists_rewrites_of_run (p := Factories.pass registry options id) hcode hoffset
      (fun m hm => ?_) hrun
    have hblock : m.block = locate code id := (Module.parse_eq_ok hm).1
    rw [← hblock] at hcode hoffset
    exact Factories.follows registry options id hcode hoffset hafter (hwithin m hm)

/-! ## Section 5: A script and the template beside it -/

/-- A component whose script makes a function by a factory and calls a keyed one, the two calls
    being given. -/
def componentCode (made used : String) : String :=
  "<p/>\n<script>import { m, useKey } from '#app'\nexport let a = " ++ made ++ "\n" ++ used ++
    "</script>\n"

/-- A factory of the module that the keyed function is from. -/
def componentFactories : FactoryRegistry :=
  .ofEntries (.ofMap TransformOptions.default.aliases.entries) [⟨"m", "#app", 3⟩]

/-- The component is rewritten as its script is, whether the keyed function is given a key or the
    call of the factory is redirected. -/
theorem rewrites_as_alone_component :
    ∃ m before after, Module.parse (componentCode "m()" "useKey()") "/app/a.vue" = .ok m ∧
      m.CallsWithin ∧ m.block.offset = 13 ∧
      (Keys.inject Keys.sampleRegistry .default (componentCode "m()" "useKey()") "/app/a.vue" =
          .ok (.edited (componentCode "m()" "useKey('$b8cd55f582')") none) ∧
        ∃ s, (Keys.pass Keys.sampleRegistry .default "/app/a.vue").Rewrites
          (componentCode "m()" "useKey()") (componentCode "m()" "useKey('$b8cd55f582')")
          m before after s) ∧
      Factories.redirectFactories componentFactories .default
          (componentCode "m()" "useKey()") "/app/a.vue" =
          .ok (.edited (componentCode "m.__nuxt_factory()" "useKey()") none) ∧
        ∃ s, (Factories.pass componentFactories .default "/app/a.vue").Rewrites
          (componentCode "m()" "useKey()") (componentCode "m.__nuxt_factory()" "useKey()")
          m before after s := by
  have hchars : (componentCode "m()" "useKey()").toList = _ :=
    toList_append_ofList (toList_append_ofList (toList_append_ofList
      (toList_append_ofList String.toList_ofList _) _) _) _
  have hfirst : firstBlock? (componentCode "m()" "useKey()") =
      some ⟨String.ofList (((componentCode "m()" "useKey()").toList.drop 13).take 60), 13,
        none⟩ := by
    rw [firstBlock?, hchars]
    decide +kernel
  have hrun : ((Module.parse (componentCode "m()" "useKey()") "/app/a.vue").toOption.any fun m =>
      decide (m.CallsWithin ∧ m.block.offset = 13)) = true := by
    rw [Module.toOption_parse_component hfirst (by decide), hchars]
    decide +kernel
  have hinject : Keys.inject Keys.sampleRegistry .default (componentCode "m()" "useKey()")
      "/app/a.vue" = .ok (.edited (componentCode "m()" "useKey('$b8cd55f582')") none) := by
    decide +kernel
  have hredirect : Factories.redirectFactories componentFactories .default
      (componentCode "m()" "useKey()") "/app/a.vue" =
        .ok (.edited (componentCode "m.__nuxt_factory()" "useKey()") none) := by
    decide +kernel
  obtain ⟨m, hparse, hrun⟩ := (Option.any_eq_true _ _).mp hrun
  obtain ⟨hwithin, hoffset⟩ := of_decide_eq_true hrun
  have hparse := eq_ok_of_toOption hparse
  have hsame : ∀ m', Module.parse (componentCode "m()" "useKey()") "/app/a.vue" = .ok m' →
      m' = m := by
    intro m' hm'
    rw [hparse] at hm'
    exact (Except.ok.inj hm').symm
  obtain ⟨before, after, -, -, -, hkeys, hfactories⟩ := rewrites_as_alone .default
    (componentCode "m()" "useKey()") "/app/a.vue" fun m' hm' => hsame m' hm' ▸ hwithin
  obtain ⟨m₁, s₁, hm₁, hrewrites₁⟩ := hkeys _ _ none hinject
  obtain ⟨m₂, s₂, hm₂, hrewrites₂⟩ := hfactories _ _ none hredirect
  obtain rfl := hsame m₁ hm₁
  obtain rfl := hsame m₂ hm₂
  exact ⟨m₂, before, after, hparse, hwithin, hoffset, ⟨hinject, s₁, hrewrites₁⟩, hredirect, s₂,
    hrewrites₂⟩

/-- The script that imports a default export through an alias, below a template with the name of the
    file that exports it. -/
def mentionCode : String :=
  "<template>use-thing</template>\n<script>import t from '#thing'\nt()\n</script>\n"

/-- **A name in a template**: the script gets a key in its file, which mentions the name. Alone,
    with the same id and in the same language, it is not looked at. -/
theorem template_mention_only :
    ∃ registry, Keys.thingRegistry = .ok registry ∧
      locate mentionCode "/app/pages/a.vue" = ⟨Keys.aliasedCode, 39, none⟩ ∧
      Keys.inject registry Keys.thingOptions mentionCode "/app/pages/a.vue" = .ok (.edited
        ("<template>use-thing</template>\n<script>import t from '#thing'\n" ++
          "t('$644ea98d2b')\n</script>\n") none) ∧
      Keys.inject registry Keys.thingOptions Keys.aliasedCode "/app/pages/a.vue" =
        .ok .unchanged := by
  have hrun : (Keys.thingRegistry.toOption.any fun registry =>
      decide (locate mentionCode "/app/pages/a.vue" = ⟨Keys.aliasedCode, 39, none⟩ ∧
      Keys.inject registry Keys.thingOptions mentionCode "/app/pages/a.vue" = .ok (.edited
        ("<template>use-thing</template>\n<script>import t from '#thing'\n" ++
          "t('$644ea98d2b')\n</script>\n") none) ∧
      Keys.inject registry Keys.thingOptions Keys.aliasedCode "/app/pages/a.vue" =
        .ok .unchanged)) = true := by
    decide +kernel
  obtain ⟨registry, hregistry, hrun⟩ := (Option.any_eq_true _ _).mp hrun
  exact ⟨registry, eq_ok_of_toOption hregistry, of_decide_eq_true hrun⟩

end BuildMacros
