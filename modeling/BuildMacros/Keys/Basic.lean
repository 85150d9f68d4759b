import BuildMacros.Digest
import BuildMacros.Text.Basic

/-! # Keys

    A key is a dollar sign and the first ten hexadecimal digits of the digest of a
    file's path and a number, so it depends on nothing but the path in the project
    and the count of keyed calls before it in the file.
-/

namespace BuildMacros.Keys

/-- Number of digits in a key. -/
def digitCount : Nat := 10

/-- The key of the call with a number in a file. -/
def generate (path : String) (count : Nat) : String :=
  String.ofList ('$' :: (Digest.sha256 (path ++ "-" ++ toString count)).take digitCount)

/-- A hexadecimal digit of either case. -/
def isHexDigit (c : Char) : Bool :=
  c.isDigit || ('a' ≤ c && c ≤ 'f') || ('A' ≤ c && c ≤ 'F')

/-- The text has the form of a key. -/
def isKey (text : String) : Bool :=
  match text.toList with
  | '$' :: digits => digits.length == digitCount && digits.all isHexDigit
  | _ => false

/-- Where a function takes a key that the author states. -/
inductive Place where
  | first
  | second
  | last
deriving DecidableEq, Repr

/-- Index of a place among a number of arguments. -/
def Place.index? (count : Nat) : Place → Option Nat
  | first => some 0
  | second => some 1
  | last => if count = 0 then none else some (count - 1)

/-- Places at which a text among the arguments is a stated key, for the framework's own
    functions. -/
def places (name : String) : List Place :=
  if name = "useState" then [.first]
  else if name = "useFetch" || name = "useLazyFetch" then [.second]
  else if name = "useAsyncData" || name = "useLazyAsyncData" then [.first, .last]
  else []

end BuildMacros.Keys
