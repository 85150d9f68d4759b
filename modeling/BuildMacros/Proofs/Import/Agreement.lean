import BuildMacros.Import.Table
import BuildMacros.Proofs.Assoc
import BuildMacros.Proofs.Import.Spelling
import BuildMacros.Proofs.Scope.OwnNames
import BuildMacros.Proofs.Scope.Replay
import BuildMacros.Proofs.Script.Blocks

/-! # Imports in the text and in the tree

    Which names a module imports is found twice: by the scan of its text, as a `Table`,
    and by the walk over its tree, as declarations of the root scope. The two agree about
    a module that is `Laid` plainly: its import statements, in their order, are spelled
    plainly at the start of a line or behind `;` or `}`, and nothing else in the text
    reads as an import.

    The condition says what goes wrong without it. Comments between the parts of a
    statement, names in quotes and escapes hide an import from the scan, text that looks
    like an import in a comment or a string adds one, and an import of the name `type`
    under a new name is taken for an import of a type (`renamed_type_missed`).
-/

namespace BuildMacros.Import

open BuildMacros.Text BuildMacros.Script

/-! ## Section 1: What a table says about its records -/

/-- The local names that a record binds to exports, in the order in which they are bound. -/
def Record.binds (r : Resolver) (rec : Record) : List (String × Direct) :=
  if rec.clause.typeOnly then []
  else
    rec.clause.named.map (fun n => (n.localName, ⟨n.imported, r.resolve rec.specifier⟩)) ++
      rec.clause.default.toList.map fun name => (name, ⟨"default", r.resolve rec.specifier⟩)

/-- The local names that a record binds to whole modules, with the modules. -/
def Record.holds (r : Resolver) (rec : Record) : List (String × String) :=
  if rec.clause.typeOnly then []
  else
    (rec.clause.default.toList ++ rec.clause.namespaceName.toList).map fun name =>
      (r.resolve rec.specifier, name)

namespace Table

variable (t : Table)

theorem get?_bind (name exported source name' : String) :
    (t.bind name exported source).direct.get? name' =
      Assoc.get? ((name, ⟨exported, source⟩) :: t.direct) name' :=
  Assoc.get?_insert _ _ _ _

theorem hasNamespace_bind (name exported source source' name' : String) :
    (t.bind name exported source).hasNamespace source' name' = t.hasNamespace source' name' := rfl

theorem hasNamespace_hold (source name source' name' : String) :
    (t.hold source name).hasNamespace source' name' = true ↔
      t.hasNamespace source' name' = true ∨ (source', name') = (source, name) := by
  unfold hasNamespace hold
  by_cases hsource : source' = source
  · subst hsource
    rw [Assoc.get?_insert_self, Option.getD_some]
    generalize (t.namespaces.get? source').getD [] = names
    by_cases hname : names.contains name = true
    · rw [if_pos hname]
      constructor
      · exact .inl
      · rintro (h | h)
        · exact h
        · cases h
          exact hname
    · rw [if_neg hname]
      simp
  · rw [Assoc.get?_insert_of_ne _ _ hsource]
    simp [hsource]

/-- What one more record adds. -/
theorem get?_add (r : Resolver) (rec : Record) (name : String) :
    (t.add r rec).direct.get? name =
      Assoc.get? ((rec.binds r).reverse ++ t.direct) name := by
  have hnamed : ∀ (ns : List Named) (t : Table),
      (ns.foldl (fun t n => t.bind n.localName n.imported (r.resolve rec.specifier)) t).direct.get?
          name =
        Assoc.get? ((ns.map fun n => (n.localName,
          (⟨n.imported, r.resolve rec.specifier⟩ : Direct))).reverse ++ t.direct) name := by
    intro ns
    induction ns with
    | nil => exact fun t => rfl
    | cons n ns ih =>
      intro t
      rw [List.foldl_cons, ih, Assoc.get?_append, get?_bind, List.map_cons, List.reverse_cons,
        List.append_assoc, Assoc.get?_append]
      rfl
  unfold add Record.binds
  split
  · rfl
  · -- noting whole modules binds no names
    have hbraces := hnamed rec.clause.named t
    cases hdefault : rec.clause.default with
    | none =>
      rw [Option.toList_none, List.map_nil, List.append_nil, ← hbraces]
      cases rec.clause.namespaceName <;> rfl
    | some default =>
      rw [Option.toList_some, List.map_cons, List.map_nil, List.reverse_append,
        List.append_assoc, Assoc.get?_append, ← hbraces, ← Assoc.get?_append]
      have hlast := get?_bind (rec.clause.named.foldl
        (fun t n => t.bind n.localName n.imported (r.resolve rec.specifier)) t) default "default"
          (r.resolve rec.specifier) name
      cases rec.clause.namespaceName <;> exact hlast

theorem hasNamespace_add (r : Resolver) (rec : Record) (source name : String) :
    (t.add r rec).hasNamespace source name = true ↔
      t.hasNamespace source name = true ∨ (source, name) ∈ rec.holds r := by
  have hnamed : ∀ (ns : List Named) (t : Table),
      (ns.foldl (fun t n => t.bind n.localName n.imported (r.resolve rec.specifier)) t).hasNamespace
          source name = t.hasNamespace source name := by
    intro ns
    induction ns with
    | nil => exact fun t => rfl
    | cons n ns ih =>
      intro t
      rw [List.foldl_cons, ih, hasNamespace_bind]
  unfold add Record.holds
  split
  · simp
  · cases rec.clause.default <;> cases rec.clause.namespaceName <;>
      simp [hasNamespace_hold, hasNamespace_bind, hnamed, or_assoc]

/-- **What a table knows**: of the bindings of its records the last one for a name, and all whole
    modules. -/
theorem ofRecords_spec (r : Resolver) (records : List Record) :
    (∀ name, (ofRecords r records).direct.get? name =
        Assoc.get? (records.flatMap (Record.binds r)).reverse name) ∧
      ∀ source name, (ofRecords r records).hasNamespace source name = true ↔
        (source, name) ∈ records.flatMap (Record.holds r) := by
  -- from any table on, so that the induction can go through the records
  have hrun : ∀ (records : List Record) (t : Table),
      (∀ name, (records.foldl (add r) t).direct.get? name =
          Assoc.get? ((records.flatMap (Record.binds r)).reverse ++ t.direct) name) ∧
        ∀ source name, (records.foldl (add r) t).hasNamespace source name = true ↔
          t.hasNamespace source name = true ∨
            (source, name) ∈ records.flatMap (Record.holds r) := by
    intro records
    induction records with
    | nil => exact fun t => ⟨fun name => rfl, fun source name => by simp⟩
    | cons rec records ih =>
      intro t
      obtain ⟨hdirect, hwhole⟩ := ih (t.add r rec)
      refine ⟨fun name => ?_, fun source name => ?_⟩
      · rw [List.foldl_cons, hdirect, Assoc.get?_append, get?_add, ← Assoc.get?_append,
          List.flatMap_cons, List.reverse_append, List.append_assoc]
      · rw [List.foldl_cons, hwhole, hasNamespace_add, List.flatMap_cons, List.mem_append, or_assoc]
  obtain ⟨hdirect, hwhole⟩ := hrun records empty
  refine ⟨fun name => ?_, fun source name => ?_⟩
  · rw [ofRecords, hdirect]
    simp [empty]
  · rw [ofRecords, hwhole]
    simp [empty, hasNamespace, Assoc.get?]

/-- When no name is bound twice, a table knows all bindings of its records. -/
theorem get?_ofRecords_iff {r : Resolver} {records : List Record}
    (hone : ∀ name x y, (name, x) ∈ records.flatMap (Record.binds r) →
      (name, y) ∈ records.flatMap (Record.binds r) → x = y) (name : String) (x : Direct) :
    (ofRecords r records).direct.get? name = some x ↔
      (name, x) ∈ records.flatMap (Record.binds r) := by
  rw [(ofRecords_spec r records).1]
  constructor
  · intro h
    exact List.mem_reverse.mp (Assoc.mem_of_get? h)
  · intro h
    obtain ⟨y, hy⟩ := Assoc.exists_get?_of_mem (List.mem_reverse.mpr h)
    rw [hy, hone name y x (List.mem_reverse.mp (Assoc.mem_of_get? hy)) h]

end Table

/-! ## Section 2: Modules that are laid out plainly -/

/-- An import statement of a tree. -/
structure Statement where
  specifiers : List ImportSpecifier
  source : String
  typeOnly : Bool
deriving DecidableEq, Repr

/-- A statement is spelled by a clause and a specifier. What a statement about types imports makes
    no difference. -/
inductive Statement.SpelledBy (s : Statement) : Option (List Char) → List Char → Prop where
  | bare {specifier : List Char} (hnone : s.specifiers = [])
      (hsource : s.source = String.ofList specifier) (hvalue : s.typeOnly = false) :
      s.SpelledBy none specifier
  | values {clause specifier : List Char} (hclause : SpellsClause clause s.specifiers)
      (hsource : s.source = String.ofList specifier) (hvalue : s.typeOnly = false) :
      s.SpelledBy (some clause) specifier
  | types {clause specifier : List Char} (hclause : IsTypeClause clause)
      (htype : s.typeOnly = true) : s.SpelledBy (some clause) specifier

/-- The text, which starts a line or does not, consists of spelled statements and of characters at
    which nothing reads as an import. -/
inductive Laid : Bool → List Char → List Statement → Prop where
  | done {lineStart : Bool} : Laid lineStart [] []
  | skip {lineStart : Bool} {c : Char} {cs : List Char} {ss : List Statement}
      (hnone : matchAt lineStart (c :: cs) = none) (hrest : Laid (c == '\n') cs ss) :
      Laid lineStart (c :: cs) ss
  | line {indent text specifier rest : List Char} {clause : Option (List Char)} {s : Statement}
      {ss : List Statement} (hindent : IsIndent indent) (hreads : Reads text clause specifier)
      (hspelled : s.SpelledBy clause specifier) (hrest : Laid false rest ss) :
      Laid true (indent ++ (importWord ++ (text ++ rest))) (s :: ss)
  | after {lineStart : Bool} {c : Char} {indent text specifier rest : List Char}
      {clause : Option (List Char)} {s : Statement} {ss : List Statement}
      (hc : (c == ';' || c == '}') = true) (hindent : IsIndent indent)
      (hreads : Reads text clause specifier) (hspelled : s.SpelledBy clause specifier)
      (hrest : Laid false rest ss) :
      Laid lineStart (c :: (indent ++ (importWord ++ (text ++ rest)))) (s :: ss)

/-- A record that binds what a statement imports by value. -/
structure Record.Tells (rec : Record) (s : Statement) : Prop where
  source : s.source = rec.specifier
  clause : rec.clause.Tells s.specifiers

/-- The records that bind values are those of the statements that import values. -/
structure Matches (records : List Record) (ss : List Statement) : Prop where
  told : ∀ rec ∈ records, rec.clause.typeOnly = false →
    ∃ s ∈ ss, s.typeOnly = false ∧ rec.Tells s
  tells : ∀ s ∈ ss, s.typeOnly = false →
    ∃ rec ∈ records, rec.clause.typeOnly = false ∧ rec.Tells s

/-- The record of a spelled statement, if there is one. -/
theorem Statement.SpelledBy.record?_eq {s : Statement} {text specifier : List Char}
    {clause : Option (List Char)} (h : s.SpelledBy clause specifier)
    (hreads : Reads text clause specifier) (start stop : Nat) :
    (s.typeOnly = false ∧ ∃ rec, record? start stop clause specifier = some rec ∧
        rec.clause.typeOnly = false ∧ rec.Tells s) ∨
      (s.typeOnly = true ∧ ∀ rec, record? start stop clause specifier = some rec →
        rec.clause.typeOnly = true) := by
  cases h with
  | bare hnone hsource hvalue =>
    refine .inl ⟨hvalue, ⟨String.ofList specifier, .empty, start, stop⟩, rfl, rfl, hsource, ?_⟩
    constructor <;> simp [Clause.empty, hnone]
  | @values clause specifier hclause hsource hvalue =>
    obtain ⟨c, hc, htells⟩ := hclause.parseClause_eq hreads.isTrimmed
    refine .inl ⟨hvalue, ⟨String.ofList specifier, c, start, stop⟩, ?_, htells.value, hsource,
      htells⟩
    simp [record?, hc]
  | @types clause specifier hclause htype =>
    refine .inr ⟨htype, fun rec hrec => ?_⟩
    obtain ⟨c, hc, rfl⟩ := Option.map_eq_some_iff.mp hrec
    exact typeOnly_of_parseClause hclause hreads.isTrimmed hc

/-- One more statement and its record. -/
theorem Matches.cons {records : List Record} {ss : List Statement} (h : Matches records ss)
    {s : Statement} {text specifier : List Char} {clause : Option (List Char)}
    (hspelled : s.SpelledBy clause specifier) (hreads : Reads text clause specifier)
    (start stop : Nat) :
    Matches ((record? start stop clause specifier).toList ++ records) (s :: ss) := by
  have hmore : ∀ rec ∈ records, rec.clause.typeOnly = false →
      ∃ s' ∈ s :: ss, s'.typeOnly = false ∧ rec.Tells s' := by
    intro rec hrec hvalue
    obtain ⟨s', hs', htells⟩ := h.told rec hrec hvalue
    exact ⟨s', List.mem_cons_of_mem s hs', htells⟩
  have hrest : ∀ s' ∈ ss, s'.typeOnly = false →
      ∃ rec ∈ (record? start stop clause specifier).toList ++ records,
        rec.clause.typeOnly = false ∧ rec.Tells s' := by
    intro s' hs' hvalue
    obtain ⟨rec, hrec, htells⟩ := h.tells s' hs' hvalue
    exact ⟨rec, List.mem_append_right _ hrec, htells⟩
  rcases hspelled.record?_eq hreads start stop with ⟨hvalue, rec, hrec, htells⟩ | ⟨htype, hrec⟩
  -- a statement about values has its own record
  · rw [hrec, Option.toList_some] at hrest ⊢
    constructor
    · intro rec' hrec' hvalue'
      rcases List.mem_append.mp hrec' with hrec' | hrec'
      · rw [List.mem_singleton.mp hrec']
        exact ⟨s, List.mem_cons_self, hvalue, htells.2⟩
      · exact hmore rec' hrec' hvalue'
    · intro s' hs' hvalue'
      rcases List.mem_cons.mp hs' with rfl | hs'
      · exact ⟨rec, List.mem_append_left _ (List.mem_singleton.mpr rfl), htells⟩
      · exact hrest s' hs' hvalue'
  -- one about types has a record about types, or none
  · constructor
    · intro rec hmem hvalue
      rcases List.mem_append.mp hmem with hmem | hmem
      · have htype' := hrec rec (Option.mem_toList.mp hmem)
        rw [hvalue] at htype'
        cases htype'
      · exact hmore rec hmem hvalue
    · intro s' hs' hvalue
      rcases List.mem_cons.mp hs' with rfl | hs'
      · rw [htype] at hvalue
        cases hvalue
      · exact hrest s' hs' hvalue

/-- **The scan finds the statements** of a text that is laid out plainly, and nothing else. -/
theorem matches_scan {lineStart : Bool} {cs : List Char} {ss : List Statement}
    (h : Laid lineStart cs ss) {fuel : Nat} (hfuel : cs.length ≤ fuel) (pos : Nat) :
    Matches (scan fuel pos lineStart cs) ss := by
  induction h generalizing fuel pos with
  | @done lineStart =>
    have hempty : scan fuel pos lineStart [] = [] := by
      cases fuel <;> rfl
    rw [hempty]
    constructor <;> simp
  | @skip lineStart c cs ss hnone hrest ih =>
    cases fuel with
    | zero => simp at hfuel
    | succ fuel =>
      rw [scan, hnone]
      exact ih (by simpa using hfuel) _
  | @line indent text specifier rest clause s ss hindent hreads hspelled hrest ih =>
    cases fuel with
    | zero => simp at hfuel
    | succ fuel =>
      rw [scan_of_matchAt (hreads.matchAt_line hindent rest)]
      refine (ih ?_ _).cons hspelled hreads _ _
      simp only [List.length_append, length_importWord] at hfuel
      omega
  | @after lineStart c indent text specifier rest clause s ss hc hindent hreads hspelled hrest ih =>
    cases fuel with
    | zero => simp at hfuel
    | succ fuel =>
      rw [scan_of_matchAt (hreads.matchAt_after hc hindent lineStart rest)]
      refine (ih ?_ _).cons hspelled hreads _ _
      simp only [List.length_cons, List.length_append] at hfuel
      omega

/-! ## Section 3: What the tree says -/

/-- The import statement that a node is. -/
def statement? : Node → Option Statement
  | .importing specifiers source typeOnly _ => some ⟨specifiers, source, typeOnly⟩
  | _ => none

/-- The import statements of a module, in the order of the text. -/
def statements (p : Program) : List Statement := p.spots.filterMap fun x => statement? x.node

/-- The names that a module imports are declared once in it, as the language demands. -/
def DeclaresOnce (p : Program) : Prop :=
  ∀ d ∈ p.declarations, d.isImport = true →
    ∀ d' ∈ p.declarations, d'.name = d.name → d'.scope = d.scope → d' = d

instance (p : Program) : Decidable (DeclaresOnce p) :=
  inferInstanceAs (Decidable (∀ d ∈ p.declarations, d.isImport = true →
    ∀ d' ∈ p.declarations, d'.name = d.name → d'.scope = d.scope → d' = d))

/-- Only import statements make bindings that are imports. -/
theorem statement?_of_binding {n : Node} {b : Binding} {i : ImportBinding} (hb : b ∈ n.bindings)
    (hi : b.kind = .imported i) :
    ∃ s span, statement? n = some s ∧ ∃ x ∈ s.specifiers,
      b = x.binding s.source s.typeOnly span := by
  have hlocal : ∀ (kind : BindingKind) (node : Span) (ids : List Ident),
      b ∈ bindAll kind node ids → kind = .imported i := by
    intro kind node ids hb
    obtain ⟨id, -, rfl⟩ := List.mem_map.mp hb
    exact hi
  -- every other node binds its names as what it declares them to be
  unfold Node.bindings at hb
  split at hb
  case h_6 specifiers source typeOnly span =>
    obtain ⟨x, hx, rfl⟩ := List.mem_map.mp hb
    exact ⟨⟨specifiers, source, typeOnly⟩, span, rfl, x, hx, rfl⟩
  case h_7 => cases hb
  all_goals
    have hkind := hlocal _ _ _ hb
    cases hkind

/-- A declared import is a specifier of a statement. -/
theorem exists_statement_of_import {p : Program} {d : Declaration} (hd : d ∈ p.declarations)
    {i : ImportBinding} (hi : d.kind = .imported i) :
    ∃ s ∈ statements p, ∃ x ∈ s.specifiers, ∃ span,
      d = ⟨x.binding s.source s.typeOnly span, Tracker.root⟩ := by
  have hroot := Program.scope_of_import? hd hi
  obtain ⟨spot, hspot, hmem⟩ := List.mem_flatMap.mp hd
  obtain ⟨b, hb, hdecl⟩ := List.mem_filterMap.mp hmem
  obtain ⟨owner, -, rfl⟩ := Option.map_eq_some_iff.mp hdecl
  obtain ⟨s, span, hs, x, hx, rfl⟩ := statement?_of_binding hb hi
  dsimp only at hroot
  exact ⟨s, List.mem_filterMap.mpr ⟨spot, hspot, hs⟩, x, hx, span, by rw [hroot]⟩

/-- A specifier of a statement is declared at the root. -/
theorem exists_declaration {p : Program} {s : Statement} (hs : s ∈ statements p)
    {x : ImportSpecifier} (hx : x ∈ s.specifiers) :
    ∃ span, (⟨x.binding s.source s.typeOnly span, Tracker.root⟩ : Declaration) ∈
      p.declarations := by
  obtain ⟨spot, hspot, hnode⟩ := List.mem_filterMap.mp hs
  cases hn : spot.node with
  | importing specifiers source typeOnly span =>
    rw [hn] at hnode
    cases hnode
    refine ⟨span, List.mem_flatMap.mpr ⟨spot, hspot, ?_⟩⟩
    refine List.mem_filterMap.mpr ⟨x.binding source typeOnly span, ?_, ?_⟩
    · rw [hn]
      exact List.mem_map_of_mem hx
    · cases x <;> rfl
  | _ =>
    rw [hn] at hnode
    cases hnode

/-- What a name declared at the root is, when it is declared once. -/
theorem own?_of_declaresOnce {p : Program} (h : DeclaresOnce p) {d : Declaration}
    (hd : d ∈ p.declarations) (himport : d.isImport = true) :
    (Tracker.collect p).own? d.name d.scope = some d := by
  rw [own?_collect, Program.owned?, Declaration.pick]
  have hall : ∀ d' ∈ p.declarations.filter (fun d' => d'.name == d.name && d'.scope == d.scope),
      d' = d := by
    intro d' hd'
    obtain ⟨hmem, hsame⟩ := List.mem_filter.mp hd'
    rw [Bool.and_eq_true, beq_iff_eq, beq_iff_eq] at hsame
    exact h d hd himport d' hmem hsame.1 hsame.2
  have hmem : d ∈ p.declarations.filter (fun d' => d'.name == d.name && d'.scope == d.scope) :=
    List.mem_filter.mpr ⟨hd, by simp⟩
  have hnone : (p.declarations.filter fun d' => d'.name == d.name && d'.scope == d.scope).find?
      (fun d' => !d'.isImport) = none := by
    refine List.find?_eq_none.mpr fun d' hd' => ?_
    rw [hall d' hd', himport]
    decide
  rw [hnone, Option.none_or]
  -- all declarations of the name are this one, so the first is
  generalize p.declarations.filter (fun d' => d'.name == d.name && d'.scope == d.scope) = ds
    at hall hmem
  cases ds with
  | nil => cases hmem
  | cons d' ds => rw [List.head?_cons, hall d' List.mem_cons_self]

/-! ## Section 4: Agreement -/

/-- The local name of a specifier. -/
def localName : ImportSpecifier → String
  | .named _ id _ => id.name
  | .default id => id.name
  | .whole id => id.name

/-- What a specifier of a statement about values imports by value. -/
def valueAs? : ImportSpecifier → Option ImportedName
  | .named imported _ false => some (.named imported)
  | .named _ _ true => none
  | .default _ => some .default
  | .whole _ => some .whole

/-- Name of the export that an import binds a name to, when it is not the whole module. -/
def exported? : ImportedName → Option String
  | .named name => some name
  | .default => some "default"
  | .whole => none

/-- The name stands for a whole module; a default export may be one. -/
def holdsModule : ImportedName → Bool
  | .named _ => false
  | .default => true
  | .whole => true

/-- An import binds its name to an export, as a table puts it. -/
def BindsTo (r : Resolver) (i : ImportBinding) (x : Direct) : Prop :=
  exported? i.imported = some x.exported ∧ r.resolve i.source = x.source

/-- An import binds its name to a whole module. -/
def HoldsModule (r : Resolver) (i : ImportBinding) (source : String) : Prop :=
  holdsModule i.imported = true ∧ r.resolve i.source = source

/-- A record binds what the specifiers of its statement bind. -/
theorem Record.Tells.mem_binds_iff {rec : Record} {s : Statement} (h : rec.Tells s)
    (r : Resolver) (name : String) (x : Direct) :
    (name, x) ∈ rec.binds r ↔ ∃ y ∈ s.specifiers, localName y = name ∧
      ∃ as, valueAs? y = some as ∧ BindsTo r ⟨s.source, as, false⟩ x := by
  have hvalue := h.clause.value
  simp only [Record.binds, hvalue, Bool.false_eq_true, if_false, List.mem_append, List.mem_map,
    Option.mem_toList, ← h.source]
  constructor
  · rintro (⟨n, hn, heq⟩ | ⟨name', hname, heq⟩)
    · obtain ⟨id, hid, hlocal⟩ := (h.clause.named n).mp hn
      cases heq
      exact ⟨_, hid, hlocal, _, rfl, rfl, rfl⟩
    · obtain ⟨id, hid, hlocal⟩ := (h.clause.default name').mp hname
      cases heq
      exact ⟨_, hid, hlocal, _, rfl, rfl, rfl⟩
  · rintro ⟨y, hy, hlocal, as, has, hexported, hsource⟩
    obtain ⟨exported, source⟩ := x
    have hkey : r.resolve s.source = source := hsource
    subst hkey
    cases y with
    | named imported id own =>
      cases own <;> cases has
      have hname : imported = exported := Option.some.inj hexported
      rw [hname] at hy
      left
      exact ⟨⟨exported, name⟩, (h.clause.named _).mpr ⟨id, hy, hlocal⟩, rfl⟩
    | default id =>
      cases has
      cases hexported
      right
      exact ⟨name, (h.clause.default name).mpr ⟨id, hy, hlocal⟩, rfl⟩
    | whole id =>
      cases has
      cases hexported

/-- A record notes the whole modules that the specifiers of its statement bind. -/
theorem Record.Tells.mem_holds_iff {rec : Record} {s : Statement} (h : rec.Tells s)
    (r : Resolver) (name source : String) :
    (source, name) ∈ rec.holds r ↔ ∃ y ∈ s.specifiers, localName y = name ∧
      ∃ as, valueAs? y = some as ∧ HoldsModule r ⟨s.source, as, false⟩ source := by
  have hvalue := h.clause.value
  simp only [Record.holds, hvalue, Bool.false_eq_true, if_false, List.mem_append, List.mem_map,
    Option.mem_toList, ← h.source]
  constructor
  · rintro ⟨name', hname, heq⟩
    obtain ⟨rfl, rfl⟩ := Prod.mk.inj heq
    rcases hname with hname | hname
    · obtain ⟨id, hid, hlocal⟩ := (h.clause.default name').mp hname
      exact ⟨_, hid, hlocal, _, rfl, rfl, rfl⟩
    · obtain ⟨id, hid, hlocal⟩ := (h.clause.whole name').mp hname
      exact ⟨_, hid, hlocal, _, rfl, rfl, rfl⟩
  · rintro ⟨y, hy, hlocal, as, has, hholds, hsource⟩
    cases hsource
    cases y with
    | named imported id own =>
      cases own <;> cases has
      cases hholds
    | default id => exact ⟨name, .inl ((h.clause.default name).mpr ⟨id, hy, hlocal⟩), rfl⟩
    | whole id => exact ⟨name, .inr ((h.clause.whole name).mpr ⟨id, hy, hlocal⟩), rfl⟩

/-- The records of a text speak of the imports that its statements by value make. -/
theorem Matches.mem_flatMap_iff {α : Type} {records : List Record} {ss : List Statement}
    (h : Matches records ss) {told : Record → List α} {P : Statement → α → Prop}
    (hnone : ∀ rec, rec.clause.typeOnly = true → told rec = [])
    (hone : ∀ {rec s}, rec.Tells s → ∀ a, a ∈ told rec ↔ P s a) (a : α) :
    a ∈ records.flatMap told ↔ ∃ s ∈ ss, s.typeOnly = false ∧ P s a := by
  rw [List.mem_flatMap]
  constructor
  · rintro ⟨rec, hrec, ha⟩
    have hvalue : rec.clause.typeOnly = false := by
      by_contra htype
      rw [hnone rec (by simpa using htype)] at ha
      cases ha
    obtain ⟨s, hs, hs', htells⟩ := h.told rec hrec hvalue
    exact ⟨s, hs, hs', (hone htells a).mp ha⟩
  · rintro ⟨s, hs, hs', ha⟩
    obtain ⟨rec, hrec, -, htells⟩ := h.tells s hs hs'
    exact ⟨rec, hrec, (hone htells a).mpr ha⟩

/-- The imports that the statements by value make are the declared imports of values. -/
theorem exists_specifier_iff {p : Program} (P : ImportBinding → Prop) (name : String) :
    (∃ s ∈ statements p, s.typeOnly = false ∧ ∃ y ∈ s.specifiers, localName y = name ∧
        ∃ as, valueAs? y = some as ∧ P ⟨s.source, as, false⟩) ↔
      ∃ d ∈ p.declarations, d.name = name ∧ ∃ i, d.valueImport? = some i ∧ P i := by
  have hbinding : ∀ (y : ImportSpecifier) (source : String) (typeOnly : Bool) (span : Span),
      (y.binding source typeOnly span).name = localName y ∧
        (⟨y.binding source typeOnly span, Tracker.root⟩ : Declaration).valueImport? =
          if typeOnly then none else (valueAs? y).map fun as => ⟨source, as, false⟩ := by
    intro y source typeOnly span
    cases y with
    | named imported id own => cases typeOnly <;> cases own <;> exact ⟨rfl, rfl⟩
    | default id => cases typeOnly <;> exact ⟨rfl, rfl⟩
    | whole id => cases typeOnly <;> exact ⟨rfl, rfl⟩
  constructor
  · rintro ⟨s, hs, hvalue, y, hy, hlocal, as, has, hp⟩
    obtain ⟨span, hd⟩ := exists_declaration hs hy
    obtain ⟨hname, himport⟩ := hbinding y s.source s.typeOnly span
    rw [hvalue] at hd hname himport
    rw [has] at himport
    exact ⟨_, hd, hname.trans hlocal, _, himport, hp⟩
  · rintro ⟨d, hd, hlocal, i, hi, hp⟩
    have hkind := (Declaration.kind_of_valueImport? hi).1
    obtain ⟨s, hs, y, hy, span, rfl⟩ := exists_statement_of_import hd hkind
    obtain ⟨hname, himport⟩ := hbinding y s.source s.typeOnly span
    rw [himport] at hi
    cases hvalue : s.typeOnly with
    | true =>
      rw [hvalue] at hi
      cases hi
    | false =>
      rw [hvalue] at hi
      obtain ⟨as, has, rfl⟩ := Option.map_eq_some_iff.mp hi
      exact ⟨s, hs, hvalue, y, hy, hname.symm.trans hlocal, as, has, hp⟩

/-- A declared import is what its name is at the root. -/
theorem DeclaresOnce.exists_own?_iff {p : Program} (honce : DeclaresOnce p)
    (P : ImportBinding → Prop) (name : String) :
    (∃ d ∈ p.declarations, d.name = name ∧ ∃ i, d.valueImport? = some i ∧ P i) ↔
      ∃ d, (Tracker.collect p).own? name Tracker.root = some d ∧
        ∃ i, d.valueImport? = some i ∧ P i := by
  constructor
  · rintro ⟨d, hd, rfl, i, hi, hp⟩
    have hkind := (Declaration.kind_of_valueImport? hi).1
    have himport : d.isImport = true := by
      rw [Declaration.isImport, Declaration.import?, hkind]
      rfl
    have hroot := own?_of_declaresOnce honce hd himport
    rw [Program.scope_of_import? hd hkind] at hroot
    exact ⟨d, hroot, i, hi, hp⟩
  · rintro ⟨d, hd, i, hi, hp⟩
    rw [own?_collect] at hd
    exact ⟨d, (Program.mem_of_owned? hd).1, Program.name_of_owned? hd, i, hi, hp⟩

/-- **The table is what the scopes say**: of a module that is laid out plainly and declares the
    names that it imports once, the table of the text has exactly the value imports that the root
    scope owns, with their exports and sources, and exactly the names of whole modules. -/
theorem table_iff_scopes {code id : String} {m : Module} (hparse : Module.parse code id = .ok m)
    (hlaid : Laid true m.block.content.toList (statements m.program))
    (honce : DeclaresOnce m.program) (r : Resolver) :
    let t := Table.ofRecords r (findImports m.block.content)
    (∀ name x, t.direct.get? name = some x ↔
        ∃ d, m.scopes.own? name Tracker.root = some d ∧
          ∃ i, d.valueImport? = some i ∧ BindsTo r i x) ∧
      ∀ source name, t.hasNamespace source name = true ↔
        ∃ d, m.scopes.own? name Tracker.root = some d ∧
          ∃ i, d.valueImport? = some i ∧ HoldsModule r i source := by
  intro t
  have hmatches : Matches (findImports m.block.content) (statements m.program) :=
    matches_scan hlaid (Nat.le_refl _) 0
  have hclause : ∀ rec : Record, rec.clause.typeOnly = true →
      rec.binds r = [] ∧ rec.holds r = [] := by
    intro rec htype
    simp [Record.binds, Record.holds, htype]
  have hown := fun P name => honce.exists_own?_iff P name
  rw [← (Module.parse_eq_ok hparse).2] at hown
  have hbinds : ∀ name x,
      (name, x) ∈ (findImports m.block.content).flatMap (Record.binds r) ↔
        ∃ d, m.scopes.own? name Tracker.root = some d ∧
          ∃ i, d.valueImport? = some i ∧ BindsTo r i x := by
    intro name x
    rw [hmatches.mem_flatMap_iff (fun rec htype => (hclause rec htype).1)
      (fun h a => h.mem_binds_iff r a.1 a.2)]
    exact (exists_specifier_iff (BindsTo r · x) name).trans (hown _ name)
  constructor
  · intro name x
    -- a name is one declaration, so no binding overrides another
    have hone : ∀ name x y,
        (name, x) ∈ (findImports m.block.content).flatMap (Record.binds r) →
          (name, y) ∈ (findImports m.block.content).flatMap (Record.binds r) → x = y := by
      intro name x y hx hy
      obtain ⟨d, hd, i, hi, hexported, hsource⟩ := (hbinds name x).mp hx
      obtain ⟨d', hd', i', hi', hexported', hsource'⟩ := (hbinds name y).mp hy
      rw [hd] at hd'
      cases hd'
      rw [hi] at hi'
      cases hi'
      rw [hexported] at hexported'
      cases x
      cases y
      simp_all
    rw [← hbinds name x]
    exact Table.get?_ofRecords_iff hone name x
  · intro source name
    rw [(Table.ofRecords_spec r _).2, hmatches.mem_flatMap_iff
      (fun rec htype => (hclause rec htype).2) (fun h a => h.mem_holds_iff r a.2 a.1)]
    exact (exists_specifier_iff (HoldsModule r · source) name).trans (hown _ name)

/-- A module with imports of all kinds. -/
def plainCode : String := "import a, { b as c } from './x'\nimport * as ns from '#y'\n"

/-- The import statements of that module. -/
def plainStatements : List Statement :=
  [⟨[.default ⟨"a", ⟨7, 8⟩⟩, .named "b" ⟨"c", ⟨17, 18⟩⟩ false], "./x", false⟩,
    ⟨[.whole ⟨"ns", ⟨44, 46⟩⟩], "#y", false⟩]

/-- What follows the keyword of a statement with single blanks between its parts. -/
def plainText (clause specifier : List Char) : List Char :=
  [' '] ++ (clause ++ ([' '] ++ (fromWord ++ ([' '] ++ '\'' :: (specifier ++ ['\''])))))

theorem reads_plainText {clause specifier : List Char}
    (hclause : clause.all isClauseChar = true) (hne : clause ≠ [])
    (hends : (clause.head?.any isBlank || clause.getLast?.any isBlank) = false)
    (hspecifier : specifier ≠ [])
    (hline : specifier.all (fun c => isQuote c = false ∧ c ≠ '\n') = true) :
    Reads (plainText clause specifier) (some clause) specifier := by
  rw [Bool.or_eq_false_iff] at hends
  refine .clause isGap_blank isGap_blank isGap_blank (List.all_eq_true.mp hclause) hne
    ⟨fun c hc => ?_, fun c hc => ?_⟩ (.mk rfl rfl hspecifier (List.all_iff_forall_prop.mp hline))
  · simpa [hc] using hends.1
  · simpa [hc] using hends.2

theorem laid_plainCode : Laid true plainCode.toList plainStatements := by
  have hindent : IsIndent [] := fun c hc => absurd hc List.not_mem_nil
  have hfirst : SpellsClause "a, { b as c }".toList
      [.default ⟨"a", ⟨7, 8⟩⟩, .named "b" ⟨"c", ⟨17, 18⟩⟩ false] := by
    have hitem : SpellsItem [' ', 'b', ' ', 'a', 's', ' ', 'c', ' ']
        [.named "b" ⟨"c", ⟨17, 18⟩⟩ false] :=
      .renamed (show _ = [['b'], "as".toList, ['c']] by decide) (by decide) (by decide) (by decide)
    have hpieces : ∀ p ∈ [([' ', 'b', ' ', 'a', 's', ' ', 'c', ' '],
        [ImportSpecifier.named "b" ⟨"c", ⟨17, 18⟩⟩ false])], ',' ∉ p.1 ∧ SpellsItem p.1 p.2 :=
      List.forall_mem_singleton.mpr ⟨by decide, hitem⟩
    have hitems : SpellsBindings "{ b as c }".toList [.named "b" ⟨"c", ⟨17, 18⟩⟩ false] :=
      .items (List.cons_ne_nil _ _) hpieces
    have hname : IsName ['a'] :=
      ⟨show isIdentifier ['a'] = true by decide, List.forall_mem_singleton.mpr rfl⟩
    exact .both hname (by decide) isGap_nil isGap_blank hitems
  have hsecond : SpellsClause "* as ns".toList [.whole ⟨"ns", ⟨44, 46⟩⟩] :=
    .bindings (.whole (show words isBlank " as ns".toList = ["as".toList, "ns".toList] by decide)
      (by decide) (by decide))
  have htext : plainCode.toList =
      [] ++ (importWord ++ (plainText "a, { b as c }".toList "./x".toList ++
        '\n' :: ([] ++ (importWord ++ (plainText "* as ns".toList "#y".toList ++ ['\n']))))) := by
    decide +kernel
  rw [htext]
  refine .line hindent (reads_plainText (by decide) (by decide) (by decide) (by decide) (by decide))
    (.values hfirst rfl rfl) (.skip (by decide) ?_)
  exact .line hindent (reads_plainText (by decide) (by decide) (by decide) (by decide) (by decide))
    (.values hsecond rfl rfl) (.skip (by decide) .done)

/-- In that module the root scope imports `c`, because the table knows the name. -/
theorem table_iff_scopes_plain : ∃ m, Module.parse plainCode "/app/a.ts" = .ok m ∧
    Laid true m.block.content.toList (statements m.program) ∧ DeclaresOnce m.program ∧
    ∃ d, m.scopes.own? "c" Tracker.root = some d ∧ ∃ i, d.valueImport? = some i ∧
      BindsTo (.new (.ofMap []) "/app/a.ts") i ⟨"b", "/app/x"⟩ := by
  have hfacts : (Module.parse plainCode "/app/a.ts").toOption.map (fun m =>
      (m.block.content, statements m.program, decide (DeclaresOnce m.program))) =
        some (plainCode, plainStatements, true) := by
    decide +kernel
  have htable : (Table.ofRecords (.new (.ofMap []) "/app/a.ts")
      (findImports plainCode)).direct.get? "c" = some ⟨"b", "/app/x"⟩ := by
    decide +kernel
  cases hparse : Module.parse plainCode "/app/a.ts" with
  | error e =>
    rw [hparse] at hfacts
    cases hfacts
  | ok m =>
    rw [hparse] at hfacts
    obtain ⟨hcontent, hstatements, honce⟩ :
        m.block.content = plainCode ∧ statements m.program = plainStatements ∧
          decide (DeclaresOnce m.program) = true := by
      simpa [Except.toOption] using hfacts
    have hlaid : Laid true m.block.content.toList (statements m.program) := by
      rw [hcontent, hstatements]
      exact laid_plainCode
    have hdirect := (table_iff_scopes hparse hlaid (of_decide_eq_true honce)
      (.new (.ofMap []) "/app/a.ts")).1 "c" ⟨"b", "/app/x"⟩
    rw [hcontent] at hdirect
    exact ⟨m, rfl, hlaid, of_decide_eq_true honce, hdirect.mp htable⟩

/-- A module that imports a value of the name `type`. -/
def renamedTypeCode : String := "import { type as kind } from '#m'\n"

/-- **An import of the name `type` is missed**: the root scope has the import of a value, and the
    table does not know the name. -/
theorem renamed_type_missed :
    ((Module.parse renamedTypeCode "/app/a.ts").toOption.map fun m =>
      ((m.scopes.own? "kind" Tracker.root).bind Declaration.valueImport?,
        (Table.ofRecords (.new (.ofMap []) "/app/a.ts") (findImports m.block.content)).direct.get?
          "kind")) =
      some (some ⟨"#m", .named "type", false⟩, none) := by
  decide +kernel

end BuildMacros.Import
