/-! # Failures and reports

    A `Failure` is a cause; its wording is in `Failure.message` alone. A `Report`
    is what the host is handed: the failure's code, a class of errors that
    depends on the code only, the wording, the file, and hints for the author of
    the module.
-/

namespace BuildMacros

/-! ## Section 1: Causes -/

/-- What is wrong with configuration data. -/
inductive ConfigFault where
  /-- The text is not JSON. -/
  | malformed
  | missingField (name : String)
  | duplicateField (name : String)
  /-- A word that is none of the expected ones. -/
  | unknownVariant (got : String) (expected : List String)
  | invalidType (got want : String)
  | invalidValue (got want : String)
  /-- A list of fields that is too short. -/
  | invalidLength (got : Nat) (want : String)
  /-- A source that is neither a path nor a pattern. -/
  | noSourceForm
  /-- A value of the wrong kind where a word was expected. -/
  | expectedValue
  /-- A list of fields that is too long. -/
  | trailingItems
  /-- The source pattern of an entry does not compile. What the compiler of patterns says about it
      is handed on. -/
  | invalidPattern (entry : String) (reason : Option String := none)
  | unreadable (path reason : String)
  | other (text : String)
deriving DecidableEq, Repr

/-- Why an operation on a module failed. -/
inductive Failure where
  /-- The script does not parse. Hosts treat the file as unchanged. -/
  | unparsable (file : String) (detail : Option String)
  /-- A factory call was recognised but no factory of that name is registered. -/
  | missingFactory (name file : String)
  /-- A call that may occur once occurs more often. -/
  | repeatedCall (callee file : String)
  /-- The argument of a build-time call would have to wait for a value. -/
  | awaitInCall (callee file : String)
  | overlappingEdit (start stop otherStart otherStop : Nat)
  | invalidEdit (start stop length : Nat)
  | config (fault : ConfigFault)
deriving DecidableEq, Repr

/-! ## Section 2: Wording -/

/-- A name between back quotes. -/
def quoted (name : String) : String := "\x60" ++ name ++ "\x60"

/-- Alternatives in the wording of an unknown word: two are joined by `or`, more are listed. -/
def alternatives : List String → String
  | [a] => quoted a
  | [a, b] => quoted a ++ " or " ++ quoted b
  | names => "one of " ++ ", ".intercalate (names.map quoted)

namespace ConfigFault

/-- Wording of a configuration fault. -/
def message : ConfigFault → String
  | malformed => "malformed JSON"
  | missingField name => "missing field " ++ quoted name
  | duplicateField name => "duplicate field " ++ quoted name
  | unknownVariant got expected =>
    "unknown variant " ++ quoted got ++ ", expected " ++ alternatives expected
  | invalidType got want => "invalid type: " ++ got ++ ", expected " ++ want
  | invalidValue got want => "invalid value: " ++ got ++ ", expected " ++ want
  | invalidLength got want => "invalid length " ++ toString got ++ ", expected " ++ want
  | noSourceForm => "data did not match any variant of untagged enum SourceSpec"
  | expectedValue => "expected value"
  | trailingItems => "trailing characters"
  | invalidPattern entry none => "invalid source pattern for " ++ quoted entry
  | invalidPattern entry (some reason) =>
    "invalid source pattern for " ++ quoted entry ++ ": " ++ reason
  | unreadable path reason => path ++ ": " ++ reason
  | other text => text

end ConfigFault

namespace Failure

/-- Wording of a failure. -/
def message : Failure → String
  | unparsable file none => "failed to parse " ++ file
  | unparsable file (some detail) => "failed to parse " ++ file ++ ": " ++ detail
  | missingFactory name file =>
    "[nuxt] No factory function found for " ++ quoted name ++ " in file " ++ quoted file
      ++ ". This is a bug."
  | repeatedCall callee file =>
    "multiple " ++ quoted callee ++ " calls are not supported in " ++ quoted file
  | awaitInCall callee file =>
    "await in " ++ quoted callee ++ " is not supported in " ++ quoted file
  | overlappingEdit start stop otherStart otherStop =>
    "edit " ++ toString start ++ ".." ++ toString stop ++ " overlaps an existing edit "
      ++ toString otherStart ++ ".." ++ toString otherStop
  | invalidEdit start stop length =>
    "edit " ++ toString start ++ ".." ++ toString stop
      ++ " is outside the source or splits a character (len " ++ toString length ++ ")"
  | config fault => "invalid configuration: " ++ fault.message

/-- Stable code of a failure. -/
def code : Failure → String
  | unparsable .. => "MACRO001"
  | missingFactory .. => "MACRO002"
  | repeatedCall .. => "MACRO003"
  | awaitInCall .. => "MACRO004"
  | overlappingEdit .. => "MACRO005"
  | invalidEdit .. => "MACRO006"
  | config _ => "MACRO007"

/-- The module a failure is about. -/
def file? : Failure → Option String
  | unparsable file _ => some file
  | missingFactory _ file => some file
  | repeatedCall _ file => some file
  | awaitInCall _ file => some file
  | _ => none

/-- Failures to parse are skipped; every other failure must reach the host. -/
def isRecoverable : Failure → Bool
  | unparsable .. => true
  | _ => false

/-- Advice for the author of the module. -/
def hints : Failure → List String
  | repeatedCall callee _ => ["Merge all " ++ quoted callee ++ " calls into a single call."]
  | awaitInCall .. => ["Move the awaited value into the page component instead."]
  | _ => []

end Failure

/-- Results are compared by value or by failure. -/
instance decidableEqResult {α : Type} [DecidableEq α] : DecidableEq (Except Failure α)
  | .ok a, .ok b => decidable_of_iff (a = b) ⟨congrArg Except.ok, Except.ok.inj⟩
  | .error f, .error g => decidable_of_iff (f = g) ⟨congrArg Except.error, Except.error.inj⟩
  | .ok _, .error _ => isFalse nofun
  | .error _, .ok _ => isFalse nofun

/-- A result with a value is no failure. -/
theorem eq_ok_of_toOption {α : Type} {x : Except Failure α} {a : α} (h : x.toOption = some a) :
    x = .ok a := by
  cases x with
  | error f => cases h
  | ok a' =>
    cases h
    rfl

/-- What passes a test with its value is no failure. -/
theorem exists_ok_of_any {α : Type} {x : Except Failure α} {p : α → Bool}
    (h : x.toOption.any p = true) : ∃ a, x = .ok a ∧ p a = true := by
  obtain ⟨a, ha, hp⟩ := (Option.any_eq_true _ _).mp h
  exact ⟨a, eq_ok_of_toOption ha, hp⟩

/-- A computation that succeeds has succeeded in its first step, and in the rest on what came out
    of it. -/
theorem exists_of_bind_eq_ok {α β : Type} {x : Except Failure α} {next : α → Except Failure β}
    {b : β} (h : x >>= next = .ok b) : ∃ a, x = .ok a ∧ next a = .ok b := by
  cases x with
  | error f => cases h
  | ok a => exact ⟨a, rfl, h⟩

/-! ## Section 3: Reports -/

/-- A failure as the host sees it. -/
structure Report where
  code : String
  errorType : String
  message : String
  file : Option String
  hints : List String
deriving DecidableEq, Repr

/-- Class of errors a code belongs to. -/
def errorType (code : String) : String :=
  if code = "MACRO001" then "PARSE_FAILURE"
  else if code = "MACRO002" || code = "MACRO005" || code = "MACRO006" then
    "INTERNAL_INVARIANT_VIOLATION"
  else if code = "MACRO003" || code = "MACRO004" then "MACRO_USAGE"
  else if code = "MACRO007" then "CONFIGURATION"
  else "UNKNOWN"

/-- A report with hints. -/
def Report.withHints (code message : String) (file : Option String) (hints : List String) :
    Report :=
  ⟨code, BuildMacros.errorType code, message, file, hints⟩

/-- A report without hints. -/
def Report.new (code message : String) (file : Option String) : Report :=
  .withHints code message file []

/-- Report of a failure. -/
def Failure.report (f : Failure) : Report := .withHints f.code f.message f.file? f.hints

end BuildMacros
