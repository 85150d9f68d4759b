import BuildMacros.Proofs.Keys.Appending
import BuildMacros.Proofs.Keys.Members

/-! # How keys are numbered

    The calls of a module are met in the order of its tree, each before its callee and its
    arguments. A walk in this order needs to remember only how many keys it gave: the next call
    that takes a key gets the next number, and a node that is passed over leaves the count as it
    is. What is inside a node is met all the same (`Preorder`), so a call inside a call that is
    passed over gets its number like any other.

    The pass lists the calls that take a key and numbers the list. `walk_eq` says that the walk
    does the same. A key depends on its number and the path of the file below the root of the
    project, and on nothing else, so it is the same wherever the project lies (`LiesAt`).
-/

namespace BuildMacros

/-! ## Section 1: Visit order -/

namespace Script

/-- Every node of a list is followed by the nodes inside it. -/
def Preorder (xs : List Spot) : Prop :=
  ∀ before x after, xs = before ++ x :: after →
    ∃ next rest, after = x.node.inside x.scopes next ++ rest

theorem Preorder.append {xs ys : List Spot} (hxs : Preorder xs) (hys : Preorder ys) :
    Preorder (xs ++ ys) := by
  intro before x after h
  rcases List.append_eq_append_iff.mp h with ⟨between, -, hsplit⟩ | ⟨between, hsplit, hrest⟩
  · exact hys between x after hsplit
  · cases between with
    | nil => exact hys [] x after hrest.symm
    | cons y between =>
      -- the node is one of the first list, and so is what is inside it
      obtain ⟨rfl, rfl⟩ := List.cons.inj hrest
      obtain ⟨next, rest, rfl⟩ := hxs before x between hsplit
      exact ⟨next, rest ++ ys, List.append_assoc _ _ _⟩

theorem Preorder.node {n : Node} {scopes : List Enclosing} {next : Nat}
    (h : Preorder (n.inside scopes next)) : Preorder (⟨n, scopes⟩ :: n.inside scopes next) := by
  intro before x after hsplit
  cases before with
  | nil =>
    obtain ⟨rfl, rfl⟩ := List.cons.inj hsplit
    exact ⟨next, [], (List.append_nil _).symm⟩
  | cons y before => exact h before x after (List.cons.inj hsplit).2

/-- In a module, every node is followed by the nodes inside it. -/
theorem Program.preorder_spots (p : Program) : Preorder p.spots := by
  apply spotsAll_induction
  · intro before x after hnil
    cases before <;> cases hnil
  · exact Preorder.append
  · exact Preorder.node

end Script

namespace Keys

open BuildMacros.Script BuildMacros.Text

/-! ## Section 2: A walk that counts -/

/-- How far a walk that gives keys has come. -/
structure Tally where
  /-- How many keys it gave. -/
  count : Nat
  /-- What it inserts, and where. -/
  edits : List (Nat × String)

namespace Tally

/-- No key is given yet. -/
def start : Tally := ⟨0, []⟩

variable (s : Site) (path : String) (m : Module)

/-- The walk meets a node. A call that takes a key gets the one with the next number. -/
def visit (t : Tally) (x : Spot) : Tally :=
  match keyAt? s m.program x with
  | some c => ⟨t.count + 1, t.edits ++ [insertion m path (t.count + 1) c]⟩
  | none => t

/-- The walk meets some nodes, one after the other. -/
def walk (t : Tally) (xs : List Spot) : Tally := xs.foldl (visit s path m) t

variable {s path m} {t : Tally} {x : Spot} {c : StaticCall}

theorem visit_of_some (h : keyAt? s m.program x = some c) :
    t.visit s path m x = ⟨t.count + 1, t.edits ++ [insertion m path (t.count + 1) c]⟩ := by
  rw [visit, h]

theorem visit_of_none (h : keyAt? s m.program x = none) : t.visit s path m x = t := by
  rw [visit, h]

theorem walk_concat (xs : List Spot) :
    t.walk s path m (xs ++ [x]) = (t.walk s path m xs).visit s path m x :=
  List.foldl_concat ..

/-- **What a walk does**: the calls that take a key are given the keys with the next numbers, in the
    order in which they are met. -/
theorem walk_eq (t : Tally) (xs : List Spot) :
    t.walk s path m xs =
      ⟨t.count + (xs.filterMap (keyAt? s m.program)).length,
        t.edits ++ ((xs.filterMap (keyAt? s m.program)).zipIdx (t.count + 1)).map
          fun x => insertion m path x.2 x.1⟩ := by
  induction xs generalizing t with
  | nil =>
    show t = ⟨t.count + 0, t.edits ++ []⟩
    rw [Nat.add_zero, List.append_nil]
  | cons x xs ih =>
    show (t.visit s path m x).walk s path m xs = _
    cases hkey : keyAt? s m.program x with
    | none => rw [visit_of_none hkey, ih, List.filterMap_cons_none hkey]
    | some c =>
      rw [visit_of_some hkey, ih, List.filterMap_cons_some hkey, List.length_cons,
        List.zipIdx_cons, List.map_cons, List.append_assoc, List.singleton_append,
        Nat.add_assoc, Nat.add_comm 1]

end Tally

/-! ## Section 3: Numbers and places -/

section

variable (registry : KeyedRegistry) (options : TransformOptions) (id : String) (m : Module)

/-- The calls that are given keys, and their keys. -/
def givenKeys : List (StaticCall × String) :=
  ((takers registry options id m).zipIdx 1).map fun x => (x.1, numberedKey options id x.2)

/-- The walk of the pass over some nodes of the module. -/
def passWalk (xs : List Spot) : Tally :=
  Tally.start.walk (siteOf registry options id m)
    (Path.relativeTo options.rootDir (Path.clean id)) m xs

/-- The insertions of the pass. -/
def keyEdits : List (Nat × String) :=
  insertions (siteOf registry options id m) (Path.relativeTo options.rootDir (Path.clean id)) m

/-- The keys of a module are numbered in the order in which the calls are met. -/
structure Numbered : Prop where
  /-- The calls that take a key are given the keys with the numbers from one on. -/
  calls : (givenKeys registry options id m).map Prod.fst =
    m.program.spots.filterMap (keyAt? (siteOf registry options id m) m.program)
  keys : (givenKeys registry options id m).map Prod.snd =
    (List.range' 1 (givenKeys registry options id m).length).map (numberedKey options id)
  /-- Each key is inserted at the end of its call. -/
  edits : keyEdits registry options id m = (givenKeys registry options id m).map fun x =>
    (m.inFile (x.1.span.stop - 1), separator m x.1 ++ "'" ++ x.2 ++ "'")
  /-- The walk makes these insertions. -/
  walked : (passWalk registry options id m m.program.spots).edits = keyEdits registry options id m
  /-- A call that takes a key gets the next number. -/
  next : ∀ before x after c, m.program.spots = before ++ x :: after →
    keyAt? (siteOf registry options id m) m.program x = some c →
      (passWalk registry options id m (before ++ [x])).count =
          (passWalk registry options id m before).count + 1 ∧
        (givenKeys registry options id m)[(passWalk registry options id m before).count]? =
          some (c, numberedKey options id ((passWalk registry options id m before).count + 1))
  /-- A node that is passed over uses up no number. -/
  passed : ∀ before x, keyAt? (siteOf registry options id m) m.program x = none →
    passWalk registry options id m (before ++ [x]) = passWalk registry options id m before
  /-- The nodes inside a node are met right after it, whether or not it takes a key. -/
  inside : Preorder m.program.spots

end

/-- The file lies at a path below the root of the project. The root may be written with slashes at
    its end, and the file with a query. -/
def LiesAt (options : TransformOptions) (id path : String) : Prop :=
  ∃ root slashes : String, options.rootDir = some (root ++ slashes) ∧
    (∀ c ∈ slashes.toList, c = '/') ∧ root.toList.getLast? ≠ some '/' ∧
    Path.clean id = root ++ "/" ++ path

/-- The path of a file does not depend on where the project lies. -/
theorem relativeTo_of_liesAt {options : TransformOptions} {id path : String}
    (h : LiesAt options id path) : Path.relativeTo options.rootDir (Path.clean id) = path := by
  obtain ⟨root, slashes, hroot, hslashes, hlast, hclean⟩ := h
  have htrimmed : dropEnd (· == '/') (root ++ slashes).toList = root.toList := by
    rw [String.toList_append, dropEnd_append fun c hc => beq_iff_eq.mpr (hslashes c hc)]
    apply dropEnd_eq_self
    intro c hc
    apply beq_eq_false_iff_ne.mpr
    rintro rfl
    exact hlast hc
  have hfile : (root ++ "/" ++ path).toList = root.toList ++ '/' :: path.toList := by
    simp
  rw [hroot, hclean, Path.relativeTo, htrimmed, hfile, strip?_append]
  exact String.ofList_toList

/-! ## Section 4: The keys of a pass -/

section

variable {registry : KeyedRegistry} {options : TransformOptions} {code id : String} {m : Module}

/-- A key is given to each call that takes one. -/
theorem map_fst_givenKeys :
    (givenKeys registry options id m).map Prod.fst = takers registry options id m := by
  rw [givenKeys, List.map_map]
  exact List.zipIdx_map_fst 1 _

theorem length_givenKeys :
    (givenKeys registry options id m).length = (takers registry options id m).length := by
  rw [← map_fst_givenKeys, List.length_map]

/-- The calls with their keys, by number. -/
theorem getElem?_givenKeys (i : Nat) :
    (givenKeys registry options id m)[i]? =
      (takers registry options id m)[i]?.map fun c => (c, numberedKey options id (i + 1)) := by
  rw [givenKeys, List.getElem?_map, List.getElem?_zipIdx, Option.map_map, Nat.add_comm 1 i]
  rfl

theorem keyEdits_eq :
    keyEdits registry options id m = (givenKeys registry options id m).map fun x =>
      (m.inFile (x.1.span.stop - 1), separator m x.1 ++ "'" ++ x.2 ++ "'") := by
  rw [keyEdits, insertions, givenKeys, List.map_map]
  rfl

/-- The keys of a parsed module are numbered by the walk. -/
theorem numbered_of_parse (hparse : Module.parse code id = .ok m) :
    Numbered registry options id m := by
  have htakers : takers registry options id m =
      m.program.spots.filterMap (keyAt? (siteOf registry options id m) m.program) :=
    keyedCalls_of_parse hparse _
  have hcount : ∀ xs, (passWalk registry options id m xs).count =
      (xs.filterMap (keyAt? (siteOf registry options id m) m.program)).length := by
    intro xs
    rw [passWalk, Tally.walk_eq]
    exact Nat.zero_add _
  constructor
  case calls => rw [map_fst_givenKeys, htakers]
  case keys =>
    rw [length_givenKeys, givenKeys, List.map_map, ← List.zipIdx_map_snd 1, List.map_map]
    rfl
  case edits => exact keyEdits_eq
  case walked =>
    rw [passWalk, Tally.walk_eq, ← htakers]
    rfl
  case next =>
    intro before x after c hspots hkey
    constructor
    · rw [hcount, hcount, List.filterMap_append, List.filterMap_cons_some hkey,
        List.length_append]
      rfl
    · rw [hcount, getElem?_givenKeys, htakers, hspots, List.filterMap_append,
        List.filterMap_cons_some hkey, List.getElem?_append_right (Nat.le_refl _), Nat.sub_self]
      rfl
  case passed =>
    intro before x hkey
    rw [passWalk, Tally.walk_concat, Tally.visit_of_none hkey]
    rfl
  case inside => exact m.program.preorder_spots

/-- Where a closing parenthesis ends in the parsed text, there is one in the file. -/
theorem head?_inFile (hparse : Module.parse code id = .ok m) {stop : Nat}
    (hcloses : ClosesAt m.block.content.toList stop)
    (hle : stop ≤ byteLength m.block.content.toList) :
    (dropBytes (m.inFile (stop - 1)) code.toList).head? = some ')' := by
  obtain ⟨before, after, hcode, hoffset⟩ := Module.standsAt_block hparse
  rw [hcode, Module.inFile, ← hoffset, dropBytes_add, dropBytes_append_of_le _ _ (by omega),
    List.head?_append, hcloses.2.2]
  rfl

/-- If the spans of a module are those of its text, the pass makes all its insertions. -/
theorem inject_eq_of_spanned (hparse : Module.parse code id = .ok m) (hspans : m.Spanned) :
    inject registry options code id =
      .ok (if registry.isEmpty || !registry.isMentionedIn code then .unchanged
        else (⟨code, "", (keyEdits registry options id m).map Edit.insertion⟩ : Splicer).output id
          options.sourcemap) := by
  obtain ⟨t, ht⟩ := exists_foldlM_insertions hparse hspans (siteOf registry options id m)
    (Path.relativeTo options.rootDir (Path.clean id))
  have hmade : t = ⟨code, "", (keyEdits registry options id m).map Edit.insertion⟩ :=
    Splicer.eq_of_foldlM_insert ht
  rw [inject_eq, injectUnasked_eq_map hparse, ht, hmade]
  split <;> rfl

/-- **How keys are numbered.** A file parses. The keys that the pass inserts are those with the
    numbers from one on, in the order in which the calls are met, each before the closing
    parenthesis of its call. A changed file is the file with these insertions, and if the spans of
    the tree are those of the text, all of them are made.

    The keys are made from the path of the file below the root of the project. So the same calls of
    the same file get the same keys wherever the project lies. -/
theorem inject_numbers (registry : KeyedRegistry) (options : TransformOptions)
    (hparse : Module.parse code id = .ok m) :
    Numbered registry options id m ∧
      (∀ out map, inject registry options code id = .ok (.edited out map) →
        out = (⟨code, "", (keyEdits registry options id m).map Edit.insertion⟩ : Splicer).finish) ∧
      (m.Spanned →
        inject registry options code id =
          .ok (if registry.isEmpty || !registry.isMentionedIn code then .unchanged
            else (⟨code, "", (keyEdits registry options id m).map Edit.insertion⟩ : Splicer).output
              id options.sourcemap) ∧
        ∀ x ∈ givenKeys registry options id m,
          (dropBytes (m.inFile (x.1.span.stop - 1)) code.toList).head? = some ')') ∧
      ∀ path, LiesAt options id path →
        (∀ count, numberedKey options id count = generate path count) ∧
        ∀ registry' options' id' m', LiesAt options' id' path →
          takers registry' options' id' m' = takers registry options id m →
          givenKeys registry' options' id' m' = givenKeys registry options id m := by
  have hkey : ∀ {options : TransformOptions} {id path : String}, LiesAt options id path →
      ∀ count, numberedKey options id count = generate path count := by
    intro options id path hlies count
    rw [numberedKey, relativeTo_of_liesAt hlies]
  refine ⟨numbered_of_parse hparse, ?_, fun hspans => ⟨inject_eq_of_spanned hparse hspans, ?_⟩, ?_⟩
  · intro out map hout
    obtain ⟨t, ht, rfl⟩ := exists_finish_of_inject hparse hout
    rw [Splicer.eq_of_foldlM_insert ht]
    rfl
  · intro x hx
    obtain ⟨⟨c, count⟩, hc, rfl⟩ := List.mem_map.mp hx
    have hplaced := placed_of_mem_keyedCalls (Module.parse_eq_ok hparse).2 hspans
      (List.fst_mem_of_mem_zipIdx hc)
    exact head?_inFile hparse hplaced.closes hplaced.range.stop_le
  · intro path hlies
    refine ⟨hkey hlies, fun registry' options' id' m' hlies' htakers => ?_⟩
    rw [givenKeys, givenKeys, htakers]
    apply List.map_congr_left
    intro x _
    rw [hkey hlies, hkey hlies']

end

/-! ## Section 5: Calls inside calls -/

/-- A registry with one function, which takes two arguments. -/
def pairRegistry : KeyedRegistry :=
  ⟨[(("useKey", "#app"), ⟨"useKey", "useKey", some "#app", 2⟩)], [], [], []⟩

/-- A call in a call that has all its arguments, in a call that has not. -/
def nestedCode : String :=
  "import { useKey } from '#app'\nuseKey(useKey(1, 2, useKey()))\n"

/-- Options that tell where the project is, with a slash at the end. -/
def slashedOptions : TransformOptions := { rootedOptions with rootDir := some "/app/" }

/-- The outer call gets the first key and the innermost one the second; the call between them gets
    none. The query of the file plays no part. -/
theorem inject_numbers_nested :
    ∃ m, Module.parse nestedCode "/app/pages/a.ts?macro" = .ok m ∧
      ((givenKeys pairRegistry slashedOptions "/app/pages/a.ts?macro" m).map Prod.fst).map
        (fun c => c.args.length) = [1, 0] ∧
      (givenKeys pairRegistry slashedOptions "/app/pages/a.ts?macro" m).map Prod.snd =
        [generate "pages/a.ts" 1, generate "pages/a.ts" 2] ∧
      ∀ x ∈ givenKeys pairRegistry slashedOptions "/app/pages/a.ts?macro" m,
        (dropBytes (m.inFile (x.1.span.stop - 1)) nestedCode.toList).head? = some ')' := by
  have hrun : ((Module.parse nestedCode "/app/pages/a.ts?macro").toOption.any fun m =>
      decide m.Spanned &&
        (takers pairRegistry slashedOptions "/app/pages/a.ts?macro" m).map
          (fun c => c.args.length) == [1, 0]) = true := by
    decide +kernel
  obtain ⟨m, hparse, hrun⟩ := exists_ok_of_any hrun
  obtain ⟨hspans, hargs⟩ := Bool.and_eq_true_iff.mp hrun
  have hspans : m.Spanned := of_decide_eq_true hspans
  have hargs := eq_of_beq hargs
  have hlies : LiesAt slashedOptions "/app/pages/a.ts?macro" "pages/a.ts" :=
    ⟨"/app", "/", rfl, by simp, by decide, by decide⟩
  obtain ⟨hnumbered, -, hplaced, hpath⟩ := inject_numbers pairRegistry slashedOptions hparse
  refine ⟨m, hparse, ?_, ?_, (hplaced hspans).2⟩
  · rw [map_fst_givenKeys]
    exact hargs
  · have hlength :
        (givenKeys pairRegistry slashedOptions "/app/pages/a.ts?macro" m).length = 2 := by
      rw [length_givenKeys, ← List.length_map fun c : StaticCall => c.args.length, hargs]
      rfl
    rw [hnumbered.keys, hlength]
    show [numberedKey _ _ 1, numberedKey _ _ 2] = _
    rw [(hpath _ hlies).1, (hpath _ hlies).1]

end Keys

end BuildMacros
