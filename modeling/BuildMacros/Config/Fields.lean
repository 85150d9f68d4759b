import BuildMacros.Dictionary
import BuildMacros.Error
import BuildMacros.Json.Reader
import BuildMacros.Text.Class

/-! # Reading configuration values

    A reader takes a JSON value and answers a value of the domain or the first
    fault in the order of the text. Structures are read from objects, whose fields
    may stand in any order, or from arrays, whose items are the fields in the order
    of their declaration.
-/

namespace BuildMacros.Config

/-- What reading a value answers. -/
abbrev Result (α : Type) := Except ConfigFault α

/-- A reader of values. -/
abbrev Reader (α : Type) := Json → Result α

/-! ## Section 1: Wording of values -/

/-- A character as a quoted text shows it: visible characters as they are, the common control
    characters by their letter, other invisible ones by their code point. -/
def shownChar (c : Char) : List Char :=
  if c = '"' then ['\\', '"']
  else if c = '\\' then ['\\', '\\']
  else if c = '\n' then ['\\', 'n']
  else if c = '\r' then ['\\', 'r']
  else if c = '\t' then ['\\', 't']
  else if c.toNat = 0 then ['\\', '0']
  else if Text.isInvisible c then
    r"\u{".toList ++ Nat.toDigits 16 c.toNat ++ ['}']
  else [c]

/-- A text in quotes as a message shows it. -/
def shown (s : String) : String := "\"" ++ String.ofList (s.toList.flatMap shownChar) ++ "\""

/-- A value as a message names it. -/
def describe : Json → String
  | .null => "null"
  | .bool b => "boolean " ++ quoted (if b then "true" else "false")
  | .int n => "integer " ++ quoted (toString n)
  | .double d => "floating point " ++ quoted d.render
  | .string s => "string " ++ shown s
  | .array _ => "sequence"
  | .object _ => "map"

/-- A value of the wrong kind. -/
def mismatch {α : Type} (want : String) (j : Json) : Result α :=
  .error (.invalidType (describe j) want)

/-! ## Section 2: Simple values -/

/-- A text. -/
def text : Reader String
  | .string s => .ok s
  | j => mismatch "a string" j

/-- A truth value. -/
def boolean : Reader Bool
  | .bool b => .ok b
  | j => mismatch "a boolean" j

/-- A number of things, of 64 bits. -/
def size : Reader UInt64
  | .int n =>
    if 0 ≤ n && n < Int.ofNat UInt64.size then .ok (.ofNat n.toNat)
    else .error (.invalidValue (describe (.int n)) "usize")
  | j => mismatch "usize" j

/-- A signed number of 32 bits. -/
def signed32 : Reader Int32
  | .int n =>
    if Int32.minValue.toInt ≤ n && n ≤ Int32.maxValue.toInt then .ok (.ofInt n)
    else .error (.invalidValue (describe (.int n)) "i32")
  | j => mismatch "i32" j

/-- A value or `null`. -/
def optional {α : Type} (read : Reader α) : Reader (Option α)
  | .null => .ok none
  | j => (read j).map some

/-- A list. -/
def list {α : Type} (read : Reader α) : Reader (List α)
  | .array items => items.mapM read
  | j => mismatch "a sequence" j

/-- A map from texts to texts; of fields with one name the last counts. -/
def dictionary : Reader Dictionary
  | .object fields => do
    let entries ← fields.mapM fun (k, v) => do
      let v ← text v
      return (k, v)
    return .ofList entries
  | j => mismatch "a map" j

/-- The value that a word stands for. -/
def word {α : Type} (words : List (String × α)) (w : String) : Result α :=
  match words.lookup w with
  | some a => .ok a
  | none => .error (.unknownVariant w (words.map Prod.fst))

/-- One of several words, or an object with such a word for its only field, which is `null`. -/
def oneOf {α : Type} (words : List (String × α)) : Reader α
  | .string w => word words w
  | .object ((w, v) :: more) => do
    let a ← word words w
    match v, more with
    | .null, [] => return a
    | .null, _ => throw .expectedValue
    | v, _ => mismatch "unit" v
  | _ => .error .expectedValue

/-! ## Section 3: Structures -/

/-- A field of a structure: its name, and a check of its value. -/
structure Field where
  name : String
  check : Json → Result Unit

/-- A field that a reader reads. -/
def field {α : Type} (name : String) (read : Reader α) : Field :=
  ⟨name, fun j => (read j).map fun _ => ()⟩

/-- The fields of a structure as they were written. -/
structure Fields where
  values : List (String × Json)
  /-- What a field that has to be there and is not there means. -/
  missing : String → ConfigFault

/-- Checks the written fields in the order of the text. Unknown fields are skipped, known ones may
    not be repeated. -/
def checkFields (shape : List Field) : List String → List (String × Json) → Result Unit
  | _, [] => .ok ()
  | seen, (k, v) :: rest =>
    match shape.find? (·.name == k) with
    | none => checkFields shape seen rest
    | some f =>
      if seen.contains k then .error (.duplicateField k)
      else do
        f.check v
        checkFields shape (k :: seen) rest

/-- Number of fields as a message names it. -/
def countText (n : Nat) : String :=
  toString n ++ (if n == 1 then " element" else " elements")

/-- The fault of an array that ends before a field that has to be there. -/
def tooShort (name : String) (shape : List Field) (missing : String) : ConfigFault :=
  .invalidLength (shape.findIdx (·.name == missing))
    ("struct " ++ name ++ " with " ++ countText shape.length)

/-- The fields of a structure that is written as an object or as an array of its fields. Items
    beyond the last field are an error, but one that comes after all others. -/
def readFields (name : String) (shape : List Field) : Json → Result (Fields × Result Unit)
  | .object fields => do
    checkFields shape [] fields
    return (⟨fields, .missingField⟩, .ok ())
  | .array items => do
    let fields := (shape.map Field.name).zip items
    checkFields shape [] fields
    return (⟨fields, tooShort name shape⟩,
      if shape.length < items.length then .error .trailingItems else .ok ())
  | j => mismatch ("struct " ++ name) j

/-- The value of a field that has to be there. -/
def Fields.required {α : Type} (fs : Fields) (name : String) (read : Reader α) : Result α :=
  match fs.values.lookup name with
  | some j => read j
  | none => .error (fs.missing name)

/-- The value of a field that may be left out. -/
def Fields.withDefault {α : Type} (fs : Fields) (name : String) (read : Reader α) (preset : α) :
    Result α :=
  match fs.values.lookup name with
  | some j => read j
  | none => .ok preset

/-- A structure: its fields are checked, put together, and nothing may be left over. -/
def structured {α : Type} (name : String) (shape : List Field) (build : Fields → Result α) :
    Reader α := fun j => do
  let (fs, rest) ← readFields name shape j
  let a ← build fs
  rest
  return a

end BuildMacros.Config
