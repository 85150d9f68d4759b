import BuildMacros.Proofs.Import.Reading
import BuildMacros.Proofs.Keys.Shadowing
import BuildMacros.Proofs.Pattern.Names
import BuildMacros.Proofs.Registry.Sealing
import BuildMacros.Proofs.Script.Blocks

/-! # Calls of imported functions

    When the visible declaration of a call's name is a value import, the registry alone
    decides: the call takes a key exactly when the registry finds a function for what is
    imported, the function is exported under the name that the import asks for, and the
    call is `Keyless`. The name that a function is found by and the name that it is
    exported under are two things. For default exports the first is made from the path
    of the file, and the import asks for `default` as the second.
-/

namespace BuildMacros.Keys

open BuildMacros.Script

/-! ## Section 1: Room for a key -/

/-- What the checks of a call say, taken together. -/
theorem keyless_iff {c : StaticCall} {f : KeyedFunction} :
    Keyless c f ↔ Site.isFull c f = false ∧ Site.hasStatedKey c f = false ∧
      Site.endsWithKey c = false := by
  constructor
  · rintro ⟨hroom, hunstated, hunkeyed⟩
    refine ⟨?_, ?_, ?_⟩
    · rw [Site.isFull, Bool.and_eq_false_iff, decide_eq_false_iff_not, Bool.not_eq_false']
      rcases hroom with hroom | hspread
      · exact .inl (by omega)
      · exact .inr (List.any_eq_true.mpr hspread)
    · rw [Site.hasStatedKey, List.any_eq_false]
      intro place hplace htext
      obtain ⟨i, hi, htext⟩ := (Option.any_eq_true _ _).mp htext
      obtain ⟨a, ha, htext⟩ := (Option.any_eq_true _ _).mp htext
      rw [hunstated place hplace i hi a ha] at htext
      cases htext
    · unfold Site.endsWithKey
      split
      · next value span hlast => exact hunkeyed value span hlast
      · rfl
  · rintro ⟨hfull, hstated, hkeyed⟩
    exact ⟨Site.room_of_not_isFull hfull, Site.unstated_of_not_hasStatedKey hstated,
      Site.unkeyed_of_not_endsWithKey hkeyed⟩

/-! ## Section 2: Calls of imports -/

end BuildMacros.Keys

namespace BuildMacros.Script

/-- The call of a known callee that a node is, whatever the callee's name. -/
def Node.knownCall? : Node → Option StaticCall
  | .call callee _ args optional span => callee.callee?.map (⟨·, args, optional, span⟩)
  | _ => none

theorem Node.staticCall?_eq_filter (filter : NameFilter) (n : Node) :
    n.staticCall? filter = n.knownCall?.filter fun c => filter.accepts c.callee.name := by
  cases n with
  | call callee typeArgs args optional span =>
    rw [staticCall?, knownCall?]
    cases callee.callee? with
    | none => rfl
    | some c =>
      rw [Option.map_some, Option.filter_some]
  | _ => rfl

end BuildMacros.Script

namespace BuildMacros.Keys

open BuildMacros.Script

/-- What the decision on a node asks: the node is the call of a known callee, the name is worth a
    look, and the call takes a key. -/
theorem keyAt?_eq_some_iff {s : Site} {p : Program} {x : Spot} {c : StaticCall} :
    keyAt? s p x = some c ↔ x.node.knownCall? = some c ∧ s.filter.accepts c.callee.name = true ∧
      s.takesKey c (p.visible? x.scopes c.binding) = true := by
  rw [keyAt?, Node.staticCall?_eq_filter, Option.filter_eq_some_iff, Option.filter_eq_some_iff,
    and_assoc]

/-- A node is a call of a name that is imported under an exported name `e`. The declaration that is
    visible there is the import, the text of the module shows the same import, and the module does
    not export the name as a function of its own. -/
structure CallsImport (s : Site) (p : Program) (x : Spot) (c : StaticCall) (b : ImportBinding)
    (e : String) : Prop where
  mem : x ∈ p.spots
  call : x.node.knownCall? = some c
  bare : c.callee.qualifier = none
  visible : (p.visible? x.scopes c.callee.name).bind Declaration.valueImport? = some b
  exported : exportedAs? b.imported = some e
  written : s.imports.direct.get? c.callee.name = some ⟨e, s.resolver.resolve b.source⟩
  foreign : s.localExports.has c.callee.name = false

namespace CallsImport

variable {s : Site} {p : Program} {x : Spot} {c : StaticCall} {b : ImportBinding} {e : String}

theorem binding_eq (h : CallsImport s p x c b e) : c.binding = c.callee.name := by
  rw [StaticCall.binding, h.bare]
  rfl

/-- The function that the registry finds for the import. -/
theorem lookup?_eq (h : CallsImport s p x c b e) :
    s.lookup? c.callee (s.resolver.resolve b.source) =
      s.registry.get? (importedName e (s.resolver.resolve b.source))
        (s.resolver.resolve b.source) := by
  have hnone := Assoc.has_eq_false_iff.mp h.foreign
  unfold Site.lookup?
  rw [h.bare, Option.isSome_none, if_neg Bool.false_ne_true, hnone, h.written]

/-- **Which calls of imports take a key.** -/
theorem takesKey_iff (h : CallsImport s p x c b e) :
    s.takesKey c (p.visible? x.scopes c.binding) = true ↔
      ∃ f, s.registry.get? (importedName e (s.resolver.resolve b.source))
          (s.resolver.resolve b.source) = some f ∧ f.exportName = e ∧ Keyless c f := by
  rw [h.binding_eq, Site.takesKey, Site.resolve?_of_valueImport h.bare h.foreign h.visible,
    h.lookup?_eq]
  cases s.registry.get? (importedName e (s.resolver.resolve b.source))
      (s.resolver.resolve b.source) with
  | none => simp
  | some f =>
    have hone : (∃ g, some f = some g ∧ g.exportName = e ∧ Keyless c g) ↔
        f.exportName = e ∧ Keyless c f := by
      constructor
      · rintro ⟨_, ⟨⟩, h⟩
        exact h
      · exact fun h => ⟨f, rfl, h⟩
    have hasks : Site.imports? f b = true ↔ f.exportName = e := by
      rw [Site.imports?_iff, h.exported, Option.some_inj, eq_comm]
    rw [hone, keyless_iff, ← hasks, Option.filter_some]
    cases Site.isFull c f <;> cases Site.imports? f b <;> simp

end CallsImport

/-! ## Section 3: Keys that a pass gives -/

/-- The pass that gives keys looks at a text and gives one to a call of its module. -/
structure GivesKey (registry : KeyedRegistry) (options : TransformOptions) (code file : String)
    (m : Module) (x : Spot) (c : StaticCall) : Prop where
  registered : registry.isEmpty = false
  mentioned : registry.isMentionedIn code = true
  parses : Module.parse code file = .ok m
  mem : x ∈ m.program.spots
  keyed : keyAt? (siteOf registry options file m) m.program x = some c

variable {registry : KeyedRegistry} {options : TransformOptions} {code file : String} {m : Module}
  {x : Spot} {c : StaticCall}

/-- What it means that a key is given: the edits of the pass are the insertions of the module, and
    one of them is the insertion at the call. -/
theorem GivesKey.inserts (h : GivesKey registry options code file m x c) :
    let path := Path.relativeTo options.rootDir (Path.clean file)
    let edits := insertions (siteOf registry options file m) path m
    (∃ count, insertion m path count c ∈ edits) ∧
      inject registry options code file =
        (edits.foldlM (fun (s : Splicer) (pos, text) => s.insert pos text) (.new code)).map
          (Splicer.output · file options.sourcemap) := by
  intro path edits
  constructor
  · have hmem : c ∈ keyedCalls (siteOf registry options file m) m :=
      (mem_keyedCalls_iff h.parses).mpr ⟨x, h.mem, h.keyed⟩
    obtain ⟨i, hi⟩ := List.getElem?_of_mem hmem
    refine ⟨i + 1, List.mem_of_getElem? (i := i) ?_⟩
    rw [getElem?_insertions, hi]
    rfl
  · unfold inject
    rw [h.registered, h.mentioned, h.parses]
    rfl

/-- **Keys for calls of imports**, in a text that the pass looks at. -/
theorem CallsImport.givesKey_iff {b : ImportBinding} {e : String}
    (h : CallsImport (siteOf registry options file m) m.program x c b e)
    (hparse : Module.parse code file = .ok m) :
    GivesKey registry options code file m x c ↔
      registry.isMentionedIn code = true ∧
        ∃ f, registry.get?
            (importedName e ((siteOf registry options file m).resolver.resolve b.source))
            ((siteOf registry options file m).resolver.resolve b.source) = some f ∧
          f.exportName = e ∧ Keyless c f := by
  have htakes := h.takesKey_iff
  constructor
  · intro hgives
    have hkeyed := keyAt?_eq_some_iff.mp hgives.keyed
    exact ⟨hgives.mentioned, htakes.mp hkeyed.2.2⟩
  · rintro ⟨hmentioned, hfound⟩
    obtain ⟨f, hf, -⟩ := id hfound
    have hname := KeyedRegistry.mem_names_of_get? hf
    refine ⟨List.isEmpty_eq_false_iff_exists_mem.mpr ⟨_, hname⟩, hmentioned, hparse, h.mem,
      keyAt?_eq_some_iff.mpr ⟨h.call, ?_, htakes.mpr hfound⟩⟩
    -- the local name is worth a look, because what it is imported as is registered
    refine NameFilter.accepts_ofNames.mpr (List.mem_append_left _ (List.mem_append_right _ ?_))
    refine List.mem_map.mpr ⟨_, List.mem_filter.mpr ⟨Assoc.mem_of_get? h.written, ?_⟩, rfl⟩
    exact List.contains_iff_mem.mpr hname

/-- What the text of a module is found to import stands in the file, default exports aside. -/
theorem contains_of_direct (hparse : Module.parse code file = .ok m) {name : String}
    {d : Import.Direct}
    (h : (siteOf registry options file m).imports.direct.get? name = some d) :
    d.exported = "default" ∨ Text.contains d.exported.toList code.toList = true := by
  have hblock : m.block.content.toList <:+: code.toList := by
    obtain ⟨before, after, hcode, -⟩ := Module.standsAt_block hparse
    exact ⟨before, after, by rw [hcode, List.append_assoc]⟩
  rcases Import.Table.written_of_direct h with hdefault | hwritten
  · exact .inl hdefault
  · right
    rw [Text.contains_iff] at hwritten ⊢
    exact hwritten.trans hblock

/-- A name that is imported and registered is mentioned in the text, unless it is `default`. -/
theorem CallsImport.isMentionedIn {b : ImportBinding} {e : String}
    (h : CallsImport (siteOf registry options file m) m.program x c b e)
    (hparse : Module.parse code file = .ok m) (hname : e ≠ "default") (hmem : e ∈ registry.names) :
    registry.isMentionedIn code = true := by
  have hwritten := (contains_of_direct hparse h.written).resolve_left hname
  exact List.any_eq_true.mpr ⟨e, List.mem_append_left _ hmem, hwritten⟩

end BuildMacros.Keys
