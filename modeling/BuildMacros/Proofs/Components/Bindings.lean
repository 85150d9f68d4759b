import BuildMacros.Components.Loading
import BuildMacros.Proofs.Import.Printing
import BuildMacros.Proofs.Text.Infixes
import Mathlib.Data.List.Forall2

/-! # What the lines in front of a module bind

    A line imports a name or declares a constant. `Binds` says which name that is, by the
    text of the line alone, however the line was made. The text decides it: the name of a
    constant ends at the first blank, and an imported name stands before the specifier,
    which is a text in quotes, so that the last quote behind a blank is the one that opens
    it (`Binds.name_eq`).

    `Binds` tells the last name between the braces of an import. It is the only one there
    when the component's export is called by a name, as exports are: then the clause is read
    as one entry, the export under the name (`parseClause_importLine`). A registry could hold
    any text as the name of an export, such as `a, b`; then other names would be imported
    along with the component's.

    Identifiers of components are made of a common beginning, a number, and the mark of a
    form. They can be taken apart again (`numbered_append_inj`): digits end where the
    mark begins. Marks of different forms are different, with one exception: a component
    that is rendered by the server and one that is imported as it is bear no mark at all
    (`Form.eq_of_mem_marks`).
-/

namespace BuildMacros.Components

open BuildMacros.Text

/-! ## Section 1: Texts in quotes -/

/-- Every quote in a text is escaped. -/
def Escaped (cs : List Char) : Prop := ∀ before after, cs = before ++ '"' :: after →
  before.getLast? = some '\\'

theorem escaped_of_not_mem {cs : List Char} (h : '"' ∉ cs) : Escaped cs := by
  intro before after heq
  exact absurd (by simp [heq]) h

theorem escaped_quoteChar (c : Char) : Escaped (Json.quoteChar c) := by
  have hdigit : ∀ n < 16, Nat.digitChar n ≠ '"' := by decide
  have hhex : ∀ n, '"' ≠ Json.hexDigit n := fun n => (hdigit _ (Nat.mod_lt n (by decide))).symm
  by_cases hquote : c = '"'
  -- the one character that is written with a quote
  · intro before after h
    rw [Json.quoteChar, if_pos hquote] at h
    match before with
    | [] => simp at h
    | [b] =>
      obtain ⟨rfl, -⟩ := List.cons.inj h
      rfl
    | b :: b' :: before => simp at h
  · apply escaped_of_not_mem
    unfold Json.quoteChar
    rw [if_neg hquote]
    have hother : '"' ≠ c := fun h => hquote h.symm
    -- all other characters are written without one, escaped or not
    repeat' split
    all_goals simp [hhex, hother]

theorem Escaped.append {xs ys : List Char} (hxs : Escaped xs) (hys : Escaped ys) :
    Escaped (xs ++ ys) := by
  intro before after h
  rcases List.append_eq_append_iff.mp h with ⟨more, rfl, hmore⟩ | ⟨more, hmore, hrest⟩
  · have hlast := hys more after hmore
    rw [List.getLast?_append, hlast]
    rfl
  · cases more with
    | nil =>
      have hlast := hys [] after hrest.symm
      cases hlast
    | cons d more =>
      obtain ⟨rfl, -⟩ := List.cons.inj hrest
      exact hxs before more hmore

/-- What stands between the quotes of a literal is escaped. -/
theorem escaped_flatMap_quoteChar (cs : List Char) : Escaped (cs.flatMap Json.quoteChar) := by
  induction cs with
  | nil => exact escaped_of_not_mem (by simp)
  | cons c cs ih =>
    rw [List.flatMap_cons]
    exact (escaped_quoteChar c).append ih

/-- In escaped text no quote stands behind a blank. -/
theorem eq_nil_of_escaped {more cs ds : List Char} (hcs : Escaped cs)
    (h : ' ' :: '"' :: cs = more ++ ' ' :: '"' :: ds) : more = [] := by
  match more with
  | [] => rfl
  | [a] => simp at h
  | a :: b :: more =>
    have hcs' : cs = (more ++ [' ']) ++ '"' :: ds := by simpa using (List.cons.inj
      (List.cons.inj h).2).2
    have hlast := hcs _ _ hcs'
    simp at hlast

/-- The opening quote of escaped text is the last quote behind a blank. -/
theorem eq_of_append_quote {xs ys cs ds : List Char} (hcs : Escaped cs) (hds : Escaped ds)
    (h : xs ++ ' ' :: '"' :: cs = ys ++ ' ' :: '"' :: ds) : xs = ys := by
  rcases List.append_eq_append_iff.mp h with ⟨more, rfl, hmore⟩ | ⟨more, rfl, hmore⟩
  · rw [eq_nil_of_escaped hcs hmore, List.append_nil]
  · rw [eq_nil_of_escaped hds hmore, List.append_nil]

/-! ## Section 2: Lines -/

/-- The line is an import in braces from a text in quotes, and what it imports last is called by the
    name: that stands alone or behind `as`. -/
def ImportsAs (line name : List Char) : Prop :=
  ∃ entry specifier, (entry = [] ∨ " as ".toList <:+ entry) ∧ Escaped specifier ∧
    line = r"import { ".toList ++ (entry ++ (name ++ (r" } from ".toList ++
      '"' :: (specifier ++ ['"']))))

/-- The line declares the name as a constant. -/
def DeclaresConst (line name : List Char) : Prop :=
  ∃ value, line = "const ".toList ++ (name ++ (" = ".toList ++ value))

/-- The line binds the name, which has no blanks in it, by an import or as a constant. -/
def Binds (line name : String) : Prop :=
  ' ' ∉ name.toList ∧
    (ImportsAs line.toList name.toList ∨ DeclaresConst line.toList name.toList)

theorem toList_literal (text : String) :
    (literal text).toList = '"' :: (text.toList.flatMap Json.quoteChar ++ ['"']) := by
  rw [literal, Json.quote, String.toList_ofList, Json.quoteChars, List.cons_append]

/-- What an import imports: an export by its own name or under another one. -/
theorem toList_importLine (source exported name : String) :
    (importLine source exported name).toList =
      "import ".toList ++ (Import.bracesText [⟨exported, name⟩] ++ (" from ".toList ++
        '"' :: (source.toList.flatMap Json.quoteChar ++ ['"']))) := by
  by_cases hname : exported = name
  · simp [importLine, Import.bracesText, Import.Named.text, join, hname, toList_literal]
  · simp [importLine, Import.bracesText, Import.Named.text, join, hname, Ne.symm hname,
      toList_literal]

theorem importsAs_importLine (source exported name : String) :
    ImportsAs (importLine source exported name).toList name.toList := by
  refine ⟨if exported = name then [] else exported.toList ++ " as ".toList,
    source.toList.flatMap Json.quoteChar, ?_, escaped_flatMap_quoteChar _, ?_⟩
  · split
    · exact .inl rfl
    · exact .inr (List.suffix_append _ _)
  · rw [toList_importLine]
    by_cases hname : exported = name
    · simp [Import.bracesText, Import.Named.text, join, hname]
    · simp [Import.bracesText, Import.Named.text, join, hname]

/-- An import binds the name behind `as`, or else the one that it imports. -/
@[simp] theorem binds_importLine_iff {source exported name : String} :
    Binds (importLine source exported name) name ↔ ' ' ∉ name.toList :=
  ⟨And.left, fun h => ⟨h, .inl (importsAs_importLine source exported name)⟩⟩

@[simp] theorem binds_constLine_iff {name value : String} :
    Binds (constLine name value) name ↔ ' ' ∉ name.toList :=
  ⟨And.left, fun h => ⟨h, .inr ⟨value.toList, by simp [constLine]⟩⟩⟩

/-- **An export that is called by a name is all that its line imports.** -/
theorem parseClause_importLine {exported name : String} (hexported : Import.IsPlainName exported)
    (hname : Import.IsPlainName name) (source : String) :
    ∃ clause, (importLine source exported name).toList =
        "import ".toList ++ (clause ++ (" from ".toList ++ (literal source).toList)) ∧
      Import.parseClause clause = some ⟨none, none, [⟨exported, name⟩], false⟩ := by
  have hprintable : Import.Clause.Printable ⟨none, none, [⟨exported, name⟩], false⟩ :=
    ⟨nofun, nofun, List.forall_mem_singleton.mpr ⟨hexported, hname⟩, .inl rfl, nofun⟩
  refine ⟨Import.bracesText [⟨exported, name⟩], ?_, ?_⟩
  · rw [toList_importLine, toList_literal]
  · exact (hprintable.parseClause_text fun h => List.cons_ne_nil _ _ h.2.2).2

/-- The name that a line imports stands behind a blank. -/
theorem ImportsAs.exists_front {line name : List Char} (h : ImportsAs line name) :
    ∃ front specifier, Escaped specifier ∧
      line = 'i' :: (front ++ ' ' :: name ++ r" } from".toList) ++
        ' ' :: '"' :: specifier ++ ['"'] := by
  obtain ⟨entry, specifier, hentry, hspecifier, rfl⟩ := h
  rcases hentry with rfl | ⟨exported, rfl⟩
  · exact ⟨r"mport {".toList, specifier, hspecifier, by simp⟩
  · exact ⟨r"mport { ".toList ++ exported ++ " as".toList, specifier, hspecifier, by simp⟩

/-- What stands before the first of some character. -/
theorem eq_of_append_char {a : Char} {xs ys cs ds : List Char} (hxs : a ∉ xs) (hys : a ∉ ys)
    (h : xs ++ a :: cs = ys ++ a :: ds) : xs = ys := by
  have hfront : ∀ zs es : List Char, a ∉ zs → (zs ++ a :: es).takeWhile (· != a) = zs := by
    intro zs es hzs
    have hpass : ∀ c ∈ zs, (c != a) = true := by
      intro c hc
      exact bne_iff_ne.mpr fun heq => hzs (heq ▸ hc)
    rw [List.takeWhile_append_of_pos hpass]
    simp
  rw [← hfront xs cs hxs, h, hfront ys ds hys]

/-- No line is both an import and the declaration of a constant. -/
theorem ImportsAs.not_declaresConst {line x y : List Char} (hx : ImportsAs line x) :
    ¬DeclaresConst line y := by
  rintro ⟨value, rfl⟩
  obtain ⟨front, specifier, -, h⟩ := hx.exists_front
  simp at h

/-- **A line binds one name.** -/
theorem Binds.name_eq {line x y : String} (hx : Binds line x) (hy : Binds line y) : x = y := by
  obtain ⟨hblank, hx⟩ := hx
  obtain ⟨hblank', hy⟩ := hy
  rcases hx with hx | hx
  · rcases hy with hy | hy
    · obtain ⟨front, specifier, hspecifier, hline⟩ := hx.exists_front
      obtain ⟨front', specifier', hspecifier', hline'⟩ := hy.exists_front
      rw [hline] at hline'
      -- the specifier is cut off, then what stands in front of it, and then the last word is left
      have hopen := eq_of_append_quote hspecifier hspecifier' (List.append_cancel_right hline')
      have hnames := List.append_cancel_right (List.cons.inj hopen).2
      have hsplit := splitLast?_append_char hblank front
      rw [hnames, splitLast?_append_char hblank' front'] at hsplit
      exact (String.toList_inj.mp (Prod.mk.inj (Option.some.inj hsplit)).2).symm
    · exact absurd hy hx.not_declaresConst
  · rcases hy with hy | hy
    · exact absurd hx hy.not_declaresConst
    · obtain ⟨value, hline⟩ := hx
      obtain ⟨value', hline'⟩ := hy
      rw [hline] at hline'
      exact String.toList_inj.mp
        (eq_of_append_char hblank hblank' (List.append_cancel_left hline'))

/-- Of lines that bind different names, one after the other, each name is bound by one. -/
theorem line_eq_of_forall₂ {lines names : List String} (h : List.Forall₂ Binds lines names)
    (hnames : names.Nodup) {l l' x : String} (hl : l ∈ lines) (hl' : l' ∈ lines) (hx : Binds l x)
    (hx' : Binds l' x) : l = l' := by
  induction h with
  | nil => cases hl
  | @cons a b lines names hab hrest ih =>
    obtain ⟨hb, hnames⟩ := List.nodup_cons.mp hnames
    -- a later line binds a later name
    have hlater : ∀ {k}, k ∈ lines → Binds k x → x ∈ names := by
      intro k hk hkx
      obtain ⟨i, hi, rfl⟩ := List.getElem_of_mem hk
      have hget := List.Forall₂.get hrest hi (hrest.length_eq ▸ hi)
      rw [hkx.name_eq hget]
      exact List.get_mem _ _
    rcases List.mem_cons.mp hl with rfl | hin
    · rcases List.mem_cons.mp hl' with rfl | hin'
      · rfl
      · rw [hab.name_eq hx] at hb
        exact absurd (hlater hin' hx') hb
    · rcases List.mem_cons.mp hl' with rfl | hin'
      · rw [hab.name_eq hx'] at hb
        exact absurd (hlater hin hx) hb
      · exact ih hnames hin hin'

/-! ## Section 3: Forms -/

namespace Form

/-- What all identifiers in a form end in. -/
def mark : Form → String
  | bridged => ""
  | direct => ""
  | clientOnly => "_client_wrapped"
  | deferred client => (if client then "_client" else "") ++ "_lazy"
  | hydrated strategy client =>
    (if client then "_client" else "") ++ (strategy.helper?.map Prod.snd).getD "_lazy_never"

/-- What the names end in that a form binds for a component. -/
def marks (f : Form) : List String :=
  match f with
  | clientOnly => ["_client", f.mark]
  | _ => [f.mark]

/-- The names of the functions that a form imports. -/
def helpers (f : Form) : List String :=
  (if f.isClientOnly then ["createClientOnly"] else []) ++
    match f with
    | bridged => ["createServerComponent"]
    | deferred _ => ["__defineAsyncComponent"]
    | hydrated strategy _ => [(strategy.helper?.map Prod.fst).getD "__defineAsyncComponent"]
    | _ => []

/-- All names that are bound for a component in a form. -/
def names (base : String) (f : Form) : List String := f.helpers ++ f.marks.map (base ++ ·)

theorem mark_mem_marks (f : Form) : f.mark ∈ f.marks := by
  cases f <;> simp [marks]

/-- There are finitely many forms. -/
def all : List Form :=
  let strategies : List Strategy :=
    [.idle, .visible, .interaction, .mediaQuery, .condition, .never, .time]
  [bridged, direct, clientOnly, deferred true, deferred false] ++
    strategies.flatMap fun s => [hydrated s true, hydrated s false]

theorem mem_all (f : Form) : f ∈ all := by
  cases f with
  | deferred client => cases client <;> decide
  | hydrated strategy client => cases strategy <;> cases client <;> decide
  | _ => decide

/-- Marks begin with an underscore, and there are no blanks in them. -/
theorem mark_spec {f : Form} {s : String} (hs : s ∈ f.marks) :
    ' ' ∉ s.toList ∧ (s.toList = [] ∨ s.toList.head? = some '_') := by
  have h : ∀ f ∈ all, ∀ s ∈ f.marks,
      ' ' ∉ s.toList ∧ (s.toList = [] ∨ s.toList.head? = some '_') := by decide
  exact h f f.mem_all s hs

/-- **Marks tell forms apart**, apart from the two forms without a mark. -/
theorem eq_of_mem_marks {f g : Form} {s : String} (hf : s ∈ f.marks) (hg : s ∈ g.marks) :
    f = g ∨ (f = .bridged ∧ g = .direct) ∨ (f = .direct ∧ g = .bridged) := by
  have h : ∀ f ∈ all, ∀ g ∈ all, ∀ s ∈ f.marks, s ∈ g.marks →
      f = g ∨ (f = .bridged ∧ g = .direct) ∨ (f = .direct ∧ g = .bridged) := by decide
  exact h f f.mem_all g g.mem_all s hf hg

end Form

/-! ## Section 4: Identifiers -/

/-- What the identifiers of components begin with. -/
def ownPrefix : String := "__nuxt_component_"

/-- The name is one that only the components of a file have. -/
def IsOwn (name : String) : Prop := ownPrefix.toList <+: name.toList

/-- The identifier of the component with a number, before any mark. -/
def numbered (n : Nat) : String := ownPrefix ++ toString n

theorem toList_numbered (n : Nat) :
    (numbered n).toList = ownPrefix.toList ++ Nat.toDigits 10 n := by
  rw [numbered, String.toList_append, Nat.toString_eq_repr, Nat.toList_repr]

theorem isOwn_numbered_append (n : Nat) (s : String) : IsOwn (numbered n ++ s) := by
  rw [IsOwn, String.toList_append, toList_numbered, List.append_assoc]
  exact List.prefix_append _ _

/-- There are no blanks in an identifier. -/
theorem blank_not_mem_numbered (n : Nat) : ' ' ∉ (numbered n).toList := by
  rw [toList_numbered, List.mem_append, not_or]
  refine ⟨by decide, fun h => ?_⟩
  have hdigit := Nat.isDigit_of_mem_toDigits (by decide) (by decide) h
  exact absurd hdigit (by decide)

/-- **Identifiers can be taken apart**: the digits of the number end where the mark begins. -/
theorem numbered_append_inj {m n : Nat} {f g : Form} {s t : String} (hs : s ∈ f.marks)
    (ht : t ∈ g.marks) (h : numbered m ++ s = numbered n ++ t) : m = n ∧ s = t := by
  have hdigits : ∀ {f : Form} {s : String} (n : Nat), s ∈ f.marks →
      (Nat.toDigits 10 n ++ s.toList).takeWhile Char.isDigit = Nat.toDigits 10 n := by
    intro f s n hs
    rw [List.takeWhile_append_of_pos fun c hc =>
      Nat.isDigit_of_mem_toDigits (by decide) (by decide) hc]
    rcases (Form.mark_spec hs).2 with hnil | hhead
    · simp [hnil]
    · obtain ⟨rest, hrest⟩ := List.head?_eq_some_iff.mp hhead
      rw [hrest, List.takeWhile_cons_of_neg (by decide), List.append_nil]
  have htexts := congrArg String.toList h
  rw [String.toList_append, String.toList_append, toList_numbered, toList_numbered,
    List.append_assoc, List.append_assoc] at htexts
  have htails := List.append_cancel_left htexts
  have hnumbers : Nat.toDigits 10 m = Nat.toDigits 10 n := by
    rw [← hdigits m hs, htails, hdigits n ht]
  refine ⟨?_, ?_⟩
  · have hread := congrArg (fun cs => Nat.ofDigitChars 10 cs 0) hnumbers
    simpa only [Nat.ofDigitChars_toDigits (b := 10) (by decide) (by decide)] using hread
  · rw [hnumbers] at htails
    exact String.toList_inj.mp (List.append_cancel_left htails)

/-! ## Section 5: The lines of one component -/

namespace Form

/-- The functions that a form imports are none of the file's own names. -/
theorem not_isOwn_of_mem_helpers {f : Form} {x : String} (h : x ∈ f.helpers) : ¬IsOwn x := by
  have hall : ∀ f ∈ all, ∀ x ∈ f.helpers, ¬ownPrefix.toList <+: x.toList := by decide
  exact hall f f.mem_all x h

theorem blank_not_mem_helpers {f : Form} {x : String} (h : x ∈ f.helpers) : ' ' ∉ x.toList := by
  have hall : ∀ f ∈ all, ∀ x ∈ f.helpers, ' ' ∉ x.toList := by decide
  exact hall f f.mem_all x h

theorem bind_identifier (o : LoaderOptions) (base : String) (c : Component) (f : Form) :
    (f.bind o base c).identifier = base ++ f.mark := by
  cases f with
  | deferred client => cases client <;> simp [bind, mark, isClientOnly, String.append_assoc]
  | hydrated strategy client =>
    cases hhelper : strategy.helper? <;> cases client <;>
      simp [bind, mark, isClientOnly, hhelper, String.append_assoc]
  | _ => simp [bind, mark, isClientOnly, String.append_assoc]

/-- The lines of a component in a form bind the functions that the form imports and the names of
    the component, one after the other. -/
theorem forall₂_binds {base : String} (hbase : ' ' ∉ base.toList) (o : LoaderOptions)
    (c : Component) (f : Form) : List.Forall₂ Binds (f.bind o base c).lines (f.names base) := by
  have hhelpers : ∀ x ∈ f.helpers, ' ' ∉ x.toList := fun x hx => blank_not_mem_helpers hx
  have hmarks : ∀ s ∈ f.marks, ' ' ∉ s.toList := fun s hs => (mark_spec hs).1
  cases f with
  | deferred client =>
    cases client <;> simp [bind, names, helpers, marks, mark, isClientOnly, clientLines,
      asyncImport, hbase, String.append_assoc]
  | hydrated strategy client =>
    cases hhelper : strategy.helper? with
    | none =>
      cases client <;> simp [bind, names, helpers, marks, mark, isClientOnly, clientLines,
        hhelper, asyncImport, hbase, String.append_assoc]
    | some helper =>
      simp only [helpers, marks, mark, hhelper] at hhelpers hmarks
      cases client <;> simp_all [bind, names, helpers, marks, mark, isClientOnly, clientLines,
        String.append_assoc]
  | _ =>
    simp [bind, names, helpers, marks, mark, isClientOnly, clientLines, hbase, String.append_assoc]

/-- The names that are bound for a component are different. -/
theorem nodup_names {base : String} (hbase : ∀ s, IsOwn (base ++ s)) (f : Form) :
    (f.names base).Nodup := by
  have hall : ∀ f ∈ all, f.helpers.Nodup ∧ f.marks.Nodup := by decide
  obtain ⟨hhelpers, hmarks⟩ := hall f f.mem_all
  rw [names, List.nodup_append]
  refine ⟨hhelpers, List.pairwise_map.mpr (hmarks.imp fun hne h => ?_), ?_⟩
  · exact hne ((String.append_right_inj base).mp h)
  · intro x hx y hy heq
    obtain ⟨s, -, rfl⟩ := List.mem_map.mp hy
    exact not_isOwn_of_mem_helpers hx (heq ▸ hbase s)

end Form

end BuildMacros.Components
