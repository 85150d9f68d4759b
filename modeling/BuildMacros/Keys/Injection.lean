import BuildMacros.Keys.Site
import BuildMacros.Script.Module
import BuildMacros.Splice

/-! # Giving keys

    The calls of a module that take a key are numbered from one in the order in
    which they are met, a call before the calls inside it. Each gets its key as a
    further argument right before its closing parenthesis. Calls that are passed
    over use up no number.
-/

namespace BuildMacros.Keys

open BuildMacros.Script

/-- What a parsed module contributes. -/
def siteOf (registry : KeyedRegistry) (options : TransformOptions) (id : String) (m : Module) :
    Site :=
  .new registry options id m.block.content (m.program.body.flatMap Node.exportPairs)

/-- The calls of a module that take a key, in the order in which they are met. -/
def keyedCalls (s : Site) (m : Module) : List StaticCall :=
  m.moments.filterMap fun x =>
    match x.event with
    | .call node =>
      (node.staticCall? s.filter).filter fun c =>
        s.takesKey c (m.scopes.getFrom? x.scope c.binding)
    | _ => none

/-- What stands between the arguments of a call and its key: a comma, unless there are no arguments
    or one stands there already. -/
def separator (m : Module) (c : StaticCall) : String :=
  let inside := Text.slice m.block.content.toList c.span.start (c.span.stop - 1)
  let comma := (inside.reverse.dropWhile Text.isAsciiBlank).head? == some ','
  if 0 < c.args.length && !comma then ", " else ""

/-- The key with what stands before it, and where they are inserted. -/
def insertion (m : Module) (path : String) (count : Nat) (c : StaticCall) : Nat × String :=
  (m.inFile (c.span.stop - 1), separator m c ++ "'" ++ generate path count ++ "'")

/-- All insertions of a module. -/
def insertions (s : Site) (path : String) (m : Module) : List (Nat × String) :=
  ((keyedCalls s m).zipIdx 1).map fun (c, count) => insertion m path count c

/-- The text with keys given to the calls that take them. A text that names no registered function
    is not parsed. -/
def inject (registry : KeyedRegistry) (options : TransformOptions) (code id : String) :
    Except Failure Output := do
  if registry.isEmpty || !registry.isMentionedIn code then return .unchanged
  let m ← Module.parse code id
  let path := Path.relativeTo options.rootDir (Path.clean id)
  let s ← (insertions (siteOf registry options id m) path m).foldlM
    (fun s (pos, text) => s.insert pos text) (Splicer.new code)
  return s.output id options.sourcemap

end BuildMacros.Keys
