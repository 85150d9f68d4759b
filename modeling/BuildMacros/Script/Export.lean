import BuildMacros.Script.Node
import BuildMacros.NameFilter

/-! # What a module exports

    Pairs of a local name and the name it is exported under, as far as a statement
    alone tells: declarations of plain names, lists without a module, and default
    exports of something that has a name. Destructured names, names passed on from
    other modules and types are left out.
-/

namespace BuildMacros.Script

/-- A local name and the name it is exported under. -/
structure ExportPair where
  inner : String
  exported : String
deriving DecidableEq, Repr

/-- A name exported under itself. -/
def ExportPair.same (name : String) : ExportPair := ⟨name, name⟩

/-- The plain name that a declarator declares. -/
def Node.declaratorName? : Node → Option String
  | .declarator (.name id) _ _ => some id.name
  | _ => none

/-- Names that a declaration of values declares. -/
def Node.declaredNames : Node → List String
  | .variableDeclaration _ declarators _ => declarators.filterMap declaratorName?
  | .function _ id _ _ => (id.map Ident.name).toList
  | .cls _ _ id _ _ => (id.map Ident.name).toList
  | _ => []

/-- The name of a function, class or variable as the value of a default export. -/
def Node.defaultName? : Node → Option String
  | .function _ id _ _ => id.map Ident.name
  | .cls _ _ id _ _ => id.map Ident.name
  | .use id => some id.name
  | _ => none

/-- The pair of an entry of an export list. -/
def ExportSpecifier.pair? (s : ExportSpecifier) : Option ExportPair :=
  if s.typeOnly || s.inner.isQuoted then none else some ⟨s.inner.id.name, s.exported.id.name⟩

/-- The pairs of a statement. -/
def Node.exportPairs : Node → List ExportPair
  | .exportDeclaration declaration typeOnly =>
    if typeOnly then [] else declaration.declaredNames.map .same
  | .exportNames specifiers source typeOnly =>
    if typeOnly || source.isSome then [] else specifiers.filterMap ExportSpecifier.pair?
  | .exportDefault value => value.defaultName?.toList.map (⟨·, "default"⟩)
  | .exportAssign (.use id) => [⟨id.name, "default"⟩]
  | _ => []

/-- The pairs of a statement whose local name passes. -/
def Node.filteredExports (filter : Option NameFilter) (n : Node) : List ExportPair :=
  match filter with
  | some f => n.exportPairs.filter fun p => f.accepts p.inner
  | none => n.exportPairs

end BuildMacros.Script
