import BuildMacros.Json.Double

/-! # JSON values and their text

    Values keep the order in which the fields of an object were written, and keep
    repeated fields, because a reader of configuration reports the first bad
    field in that order. Integers and other numbers are told apart.
-/

namespace BuildMacros

/-- A JSON value. -/
inductive Json where
  | null
  | bool (b : Bool)
  /-- An integer of 64 bits, signed or unsigned. -/
  | int (n : Int)
  /-- Any other number. -/
  | double (d : Double)
  | string (s : String)
  | array (items : List Json)
  | object (fields : List (String × Json))
deriving Repr, Inhabited

namespace Json

/-! ## Section 1: Building and taking apart -/

/-- A natural number. -/
def nat (n : Nat) : Json := .int (Int.ofNat n)

/-- An optional value, `null` when absent. -/
def ofOption {α : Type} (f : α → Json) : Option α → Json
  | some a => f a
  | none => .null

/-- A list of values. -/
def ofList {α : Type} (f : α → Json) (xs : List α) : Json := .array (xs.map f)

/-- Value of the last field with the given name. -/
def get? (name : String) : Json → Option Json
  | .object fields => (fields.reverse.find? (fun f => f.1 == name)).map Prod.snd
  | _ => none

/-! ## Section 2: Writing -/

/-- Hexadecimal digit in lower case. -/
def hexDigit (n : Nat) : Char := Nat.digitChar (n % 16)

/-- One character inside a quoted string. Quotes, backslashes and control characters are escaped,
    the common control characters by their letter; all else stands for itself. -/
def quoteChar (c : Char) : List Char :=
  if c = '"' then ['\\', '"']
  else if c = '\\' then ['\\', '\\']
  else if c.toNat = 8 then ['\\', 'b']
  else if c.toNat = 9 then ['\\', 't']
  else if c.toNat = 10 then ['\\', 'n']
  else if c.toNat = 12 then ['\\', 'f']
  else if c.toNat = 13 then ['\\', 'r']
  else if c.toNat < 32 then ['\\', 'u', '0', '0', hexDigit (c.toNat / 16), hexDigit c.toNat]
  else [c]

/-- A quoted string. -/
def quoteChars (cs : List Char) : List Char := '"' :: cs.flatMap quoteChar ++ ['"']

/-- A quoted string. -/
def quote (s : String) : String := String.ofList (quoteChars s.toList)

mutual

/-- Text of a value, without blanks. -/
def render : Json → String
  | .null => "null"
  | .bool b => if b then "true" else "false"
  | .int n => toString n
  | .double d => d.render
  | .string s => quote s
  | .array items => "[" ++ renderItems items ++ "]"
  | .object fields => r"{" ++ renderFields fields ++ r"}"

/-- The items of an array, separated by commas. -/
def renderItems : List Json → String
  | [] => ""
  | [v] => render v
  | v :: w :: vs => render v ++ "," ++ renderItems (w :: vs)

/-- The fields of an object, separated by commas. -/
def renderFields : List (String × Json) → String
  | [] => ""
  | [(k, v)] => quote k ++ ":" ++ render v
  | (k, v) :: f :: fs => quote k ++ ":" ++ render v ++ "," ++ renderFields (f :: fs)

end

end Json

end BuildMacros
