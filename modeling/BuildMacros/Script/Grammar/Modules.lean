import BuildMacros.Script.Grammar.Declarations

/-! # Imports and exports

    An import binds names of another module; an export list refers to names of this
    one, unless it passes on names of another. `type` in front of a list or of an
    entry of it makes it type-only, unless the word is itself what is imported or
    exported.
-/

namespace BuildMacros.Script.Grammar

/-! ## Section 1: Parts of both -/

/-- The quoted name of a module. -/
def moduleName : Rule String := do
  let t ← peek
  match t.kind with
  | .string value =>
    let _ ← advance
    return value
  | _ => refuse

/-- One attribute of an import: a key, which is answered, and a quoted value. -/
def importAttribute : Rule String := do
  let t ← peek
  let key ← match t.kind with
    | .string value => do
      let _ ← advance
      pure value
    | _ => do pure (← wordRule).name
  expectPunct ":"
  let _ ← moduleName
  return key

/-- Attributes after the name of a module; no key is repeated. -/
def importAttributes : Rule Unit := do
  let t ← peek
  if Token.isWord t "with" || (Token.isWord t "assert" && !t.newline) then
    let _ ← advance
    expectPunct r"{"
    let keys ← commaList importAttribute r"}"
    require (decide keys.Nodup)
  return ()

/-- `from` and the name of a module. -/
def source : Rule String := do
  expectWord "from"
  let name ← moduleName
  importAttributes
  return name

/-- A name in a list: any word, or a string. -/
def listName : Rule ExportName := do
  let t ← peek
  match t.kind with
  | .string value =>
    let _ ← advance
    return ⟨⟨value, t.span⟩, true⟩
  | _ => return ⟨← wordRule, false⟩

/-- A name can stand here. -/
def atListName : Rule Bool := do
  let t ← peek
  return Token.isAnyWord t || isString t

/-- An entry of a list as written: whether it is type-only, its name, and its new name. -/
structure Entry where
  typeOnly : Bool
  name : ExportName
  renamed : Option ExportName

/-- An entry after its first name. -/
def renamedEntry (typeOnly : Bool) (name : ExportName) : Rule Entry := do
  if ← acceptWord "as" then return ⟨typeOnly, name, some (← listName)⟩
  return ⟨typeOnly, name, none⟩

/-- An entry that begins with the word `type`. The word marks the entry when another name follows;
    `as` may be a name, too: `type as`, `type as as`, `type as as as`. -/
def typeEntry : Rule Entry := do
  let word ← listName
  if ← atWord "as" then
    let firstAs ← listName
    if ← atWord "as" then
      let secondAs ← listName
      if ← atListName then return ⟨true, firstAs, some (← listName)⟩
      return ⟨false, word, some secondAs⟩
    if ← atListName then return ⟨false, word, some (← listName)⟩
    return ⟨true, firstAs, none⟩
  if ← atListName then
    let name ← listName
    return ← renamedEntry true name
  return ⟨false, word, none⟩

/-- An entry of an import or export list. -/
def entry : Rule Entry := do
  let c ← surroundings
  if c.typed && (← atWord "type") then return ← typeEntry
  let name ← listName
  renamedEntry false name

/-! ## Section 2: Imports -/

/-- The name can be bound. -/
def isBindable (n : ExportName) : Bool :=
  !n.isQuoted && !isReserved n.id.name && n.id.name != "await"

/-- Words that are reserved in strict code only. -/
def strictWords : List String := [
  "implements", "interface", "let", "package", "private", "protected", "public", "static",
  "yield"]

/-- The name can be exported from this module. -/
def isReferable (n : ExportName) : Bool := isBindable n && !strictWords.contains n.id.name

/-- An entry of an import list as a binding. -/
def Entry.toImport (e : Entry) : Rule ImportSpecifier := do
  let bound := e.renamed.getD e.name
  require (isBindable bound)
  return .named e.name.id.name bound.id e.typeOnly

/-- An import list in braces. -/
def importList : Rule (List ImportSpecifier) := do
  expectPunct r"{"
  commaList (do
    let e ← entry
    e.toImport) r"}"

/-- A binding of a whole module. -/
def wholeImport : Rule ImportSpecifier := do
  expectPunct "*"
  expectWord "as"
  return .whole (← nameRule)

/-- A word for the phase in which a module is imported: `source` before a single name, `defer`
    before a binding of the whole module. -/
def atImportPhase : Rule Bool := ahead do
  if ← acceptWord "defer" then return ← atPunct "*"
  expectWord "source"
  let t ← peek
  let _ ← nameRule
  return !Token.isWord t "from" || (← atWord "from")

/-- What an import statement binds. -/
def importClause : Rule (List ImportSpecifier) := do
  if ← atImportPhase then
    let _ ← advance
    if ← atPunct "*" then return [← wholeImport]
    return [.default (← nameRule)]
  if ← atPunct r"{" then return ← importList
  if ← atPunct "*" then return [← wholeImport]
  let id ← nameRule
  if ← acceptPunct "," then
    let more ← if ← atPunct "*" then do pure [← wholeImport] else importList
    return .default id :: more
  return [.default id]

/-- `type` after `import` makes the statement type-only unless it is the imported name. -/
def atImportType : Rule Bool := do
  let c ← surroundings
  ahead do
    require c.typed
    expectWord "type"
    let t ← peek
    if Token.isPunct t r"{" || Token.isPunct t "*" then return true
    require (Token.isName t)
    let _ ← advance
    if Token.isWord t "from" then
      -- `import type from from 'm'` and `import type from = require('m')`
      return (← atWord "from") || (← atPunct "=")
    return true

/-- A name and an equals sign. -/
def atImportAlias : Rule Bool := ahead do
  let _ ← nameRule
  atPunct "="

/-- An import statement, from its keyword. -/
def importStatement (start : Nat) : Rule Node := do
  let c ← surroundings
  expectWord "import"
  if isString (← peek) then
    let name ← moduleName
    importAttributes
    endStatement
    return .importing [] name false (← spanFrom start)
  let typeOnly ← atImportType
  if typeOnly then
    let _ ← advance
  if c.typed && (← atImportAlias) then return ← importAlias start
  let specifiers ← importClause
  let name ← source
  endStatement
  return .importing specifiers name typeOnly (← spanFrom start)

/-- `import` that begins an expression. -/
def atImportExpression : Rule Bool := ahead do
  expectWord "import"
  return (← atPunct "(") || (← atPunct ".")

/-! ## Section 3: Exports -/

/-- An entry of an export list. -/
def Entry.toExport (e : Entry) : ExportSpecifier := ⟨e.name, e.renamed.getD e.name, e.typeOnly⟩

/-- An export list, with the module it passes names on from. Without one, every entry is a name of
    this module. -/
def exportList (typeOnly : Bool) : Rule Node := do
  expectPunct r"{"
  let entries ← commaList entry r"}"
  let from? ← listIf (← atWord "from") source
  require (!from?.isEmpty || entries.all fun e => isReferable e.name)
  endStatement
  return .exportNames (entries.map Entry.toExport) from?.head? typeOnly

/-- Everything another module exports, perhaps under one name. -/
def exportAll (typeOnly : Bool) : Rule Node := do
  expectPunct "*"
  let name? ← listIf (← acceptWord "as") listName
  let origin ← source
  endStatement
  return .exportNames (name?.map ExportSpecifier.everything) (some origin) typeOnly

/-- The value of the default export. -/
def defaultValue (call : Calls) : Rule Node := do
  let start ← nextStart
  let c ← surroundings
  let marks ← decorators call
  if let some d ← class? call start false marks then return d
  require marks.isEmpty
  if let some d ← function? call start false then return d
  if c.typed && (← atWordThen "interface" Token.isName) then return ← interfaceRule call start
  let e ← call (.assignment true)
  endStatement
  return e.node

/-- An exported declaration. -/
def exportedDeclaration (call : Calls) : Rule Node := do
  let start ← nextStart
  let marks ← decorators call
  if !marks.isEmpty then
    match ← class? call start true marks with
    | some d => return .exportDeclaration d false
    | none => refuse
  let typeOnly ← atAmbient
  match ← declaration? call start with
  | some d => return .exportDeclaration d typeOnly
  | none =>
    require (← surroundings).typed
    expectWord "import"
    return .exportDeclaration (← importAlias start) false

/-- `type` after `export` in front of a list or of everything. -/
def atExportType : Rule Bool := do
  let c ← surroundings
  ahead do
    require c.typed
    expectWord "type"
    return (← atPunct r"{") || (← atPunct "*")

/-- An export statement, from its keyword. -/
def exportStatement (call : Calls) (start : Nat) : Rule Node := do
  expectWord "export"
  if ← acceptWord "default" then return .exportDefault (← defaultValue call)
  if ← atPunct "*" then return ← exportAll false
  if ← atPunct r"{" then return ← exportList false
  if ← atExportType then
    let _ ← advance
    if ← atPunct "*" then return ← exportAll true
    return ← exportList true
  if ← acceptTypedPunct "=" then
    let e ← expression call
    endStatement
    return .exportAssign e.node
  if ← acceptTypedWord "as" then
    expectWord "namespace"
    let _ ← nameRule
    endStatement
    return .group [] (← spanFrom start)
  exportedDeclaration call

end BuildMacros.Script.Grammar
