import BuildMacros.Script.Grammar.Chains

/-! # Markup in scripts

    Elements with attributes and children. The name of a tag refers to a component
    unless it begins with a small letter or has a hyphen; the first name of a
    dotted tag always does. A closing tag refers to it once more. The text between
    tags is no script: it is read character by character up to a brace or tag.
-/

namespace BuildMacros.Script.Grammar

open BuildMacros.Text

/-! ## Section 1: Names of tags -/

/-- The name of a tag or attribute: a word that may have hyphens, and what it spans. -/
def markupName : Rule Ident := do
  let t ← peek
  match t.kind with
  | .word _ _ =>
    let name := t.text.takeWhile (fun c => isIdContinue c || c == '-')
    jumpTo (t.text.drop name.length)
    return ⟨String.ofList name, ← spanFrom t.span.start⟩
  | _ => refuse

/-- A tag whose name refers to a component. -/
def isComponentName (name : String) : Bool :=
  match name.toList with
  | c :: cs => !('a' ≤ c && c ≤ 'z') && !(c :: cs).contains '-'
  | [] => false

/-- What a tag is called. Two tags match when this is equal. -/
structure TagName where
  pieces : List String
  dotted : Bool
deriving DecidableEq

/-- Names after the first in a dotted tag. -/
def dottedNames : Rule (List String) :=
  many do
    if ← acceptPunct "." then
      let id ← markupName
      return some id.name
    else return none

/-- The name of a tag and the references in it. -/
def tagName : Rule (TagName × List Node) := do
  let id ← markupName
  if ← acceptPunct ":" then
    let second ← markupName
    return (⟨[id.name, second.name], false⟩, [])
  let more ← dottedNames
  let refers := if more.isEmpty then isComponentName id.name else id.name != "this"
  let uses := if refers && id.name != "this" then [Node.use id] else []
  return (⟨id.name :: more, true⟩, uses)

/-! ## Section 2: Attributes -/

/-- A quoted attribute value; it has no escapes and may span lines. -/
def quotedValue : Rule Unit := do
  let t ← peek
  match t.text with
  | q :: rest =>
    require (q == '"' || q == '\'')
    match rest.dropWhile (· != q) with
    | _ :: rest => jumpTo rest
    | [] => refuse
  | [] => refuse

/-- An expression in braces. -/
def bracedValue (call : Calls) : Rule (List Node) := do
  expectPunct r"{"
  let e ← inner call
  expectPunct r"}"
  return [e.node]

/-- The value of an attribute. -/
def attributeValue (call : Calls) : Rule (List Node) := do
  if ← atPunct r"{" then return ← bracedValue call
  if ← atPunct "<" then return [← call .element]
  quotedValue
  return []

/-- An attribute, or an object whose fields are attributes. -/
def attributeRule (call : Calls) : Rule (List Node) := do
  if ← acceptPunct r"{" then
    expectPunct "..."
    let e ← inner call
    expectPunct r"}"
    return [e.node]
  let _ ← markupName
  if ← acceptPunct ":" then
    let _ ← markupName
  if ← acceptPunct "=" then attributeValue call else return []

/-- Attributes up to the end of the tag. -/
def attributes (call : Calls) : Rule (List Node) := do
  let found ← many do
    if (← atPunct ">") || (← atPunct "/") then return none
    return some (← attributeRule call)
  return found.flatten

/-! ## Section 3: Children -/

/-- Text between tags ends here; a closing brace or angle bracket may not stand in it. -/
def endsText (c : Char) : Bool := c == '{' || c == '<' || c == '>' || c == '}'

/-- Skips text between tags. -/
def skipText : Rule Unit := fun c s => jumpTo (s.here.dropWhile fun ch => !endsText ch) c s

/-- An expression among children; it may be missing. -/
def childExpression (call : Calls) : Rule (List Node) := do
  expectPunct r"{"
  if ← acceptPunct r"}" then return []
  let _ ← acceptPunct "..."
  let e ← inner call
  expectPunct r"}"
  return [e.node]

/-- A closing tag begins here. -/
def atClosingTag : Rule Bool := ahead do
  expectPunct "<"
  let t ← peek
  return Token.isPunct t "/" || Token.isPunct t "/="

/-- Children up to the closing tag. -/
def children (call : Calls) : Rule (List Node) := do
  let found ← many do
    skipText
    if ← atPunct r"{" then return some (← childExpression call)
    require (← atPunct "<")
    if ← atClosingTag then return none
    return some [← call .element]
  return found.flatten

/-! ## Section 4: Elements -/

/-- The closing angle bracket of a tag. -/
def closeTag : Rule Unit := expectPunct ">"

/-- A closing tag, or the end of a fragment. -/
def closingTag : Rule (Option TagName × List Node) := do
  expectPunct "<"
  expectPunct "/"
  if ← acceptPunct ">" then return (none, [])
  let (name, uses) ← tagName
  closeTag
  return (some name, uses)

/-- An element or fragment from its opening angle bracket. -/
def elementRule (call : Calls) : Rule Node := do
  let start ← nextStart
  expectPunct "<"
  if ← acceptPunct ">" then
    let inner ← children call
    let (name, _) ← closingTag
    require name.isNone
    return .group inner (← spanFrom start)
  let (name, uses) ← tagName
  let c ← surroundings
  let args ← if c.typed then optionalTypeArguments call else pure []
  let attrs ← attributes call
  if ← acceptPunct "/" then
    closeTag
    return .group (uses ++ args ++ attrs) (← spanFrom start)
  closeTag
  let inner ← children call
  let (closing, again) ← closingTag
  require (closing = some name)
  return .group (uses ++ args ++ attrs ++ inner ++ again) (← spanFrom start)

end BuildMacros.Script.Grammar
