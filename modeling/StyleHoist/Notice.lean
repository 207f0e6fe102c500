import StyleHoist.Text.Basic

/-!
# Notices

What a host is told when a text is left as it is. A notice is an expected outcome: it has a rule by which hosts know it,
a severity, and a message.

- `retryable_iff`: another name helps exactly where a name was refused.
-/

namespace StyleHoist

/-- How much a notice matters. -/
inductive Severity
  | info
  | warning
  | error
deriving DecidableEq, Repr

/-- The word for a severity. -/
def Severity.name : Severity → String
  | .info => "info"
  | .warning => "warning"
  | .error => "error"

/-- Why nothing was extracted. -/
inductive Notice
  /-- Neither a style literal nor a reference stands at the cursor. -/
  | notFound
  /-- The cursor is on a reference to an entry. -/
  | aliasDetected
  | emptyBody
  /-- The properties cannot be read. -/
  | parseFailed
  /-- No property is static. -/
  | allDynamic
  | nameInvalid (name : Text)
  | nameCollision (name : Text)
  | duplicateRegistryName (name : Text)
  | noTargets
  /-- The file cannot be read as a script. -/
  | fileParseFailed (reason : Text)
deriving DecidableEq, Repr

namespace Notice

/-- The rule by which hosts know a notice. -/
def rule : Notice → String
  | .notFound => "not-found"
  | .aliasDetected => "alias-detected"
  | .emptyBody => "empty-body"
  | .parseFailed => "parse-failed"
  | .allDynamic => "all-dynamic"
  | .nameInvalid _ => "name-invalid"
  | .nameCollision _ => "name-collision"
  | .duplicateRegistryName _ => "duplicate-registry-name"
  | .noTargets => "no-targets"
  | .fileParseFailed _ => "file-parse-failed"

/-- How much a notice matters. -/
def severity : Notice → Severity
  | .nameInvalid _ | .nameCollision _ | .fileParseFailed _ => .error
  | .duplicateRegistryName _ => .warning
  | .notFound | .aliasDetected | .emptyBody | .parseFailed | .allDynamic | .noTargets => .info

/-- What a user is told. -/
def message : Notice → Text
  | .notFound => "No style block found in the JSX element containing the cursor.".toList
  | .aliasDetected =>
    ("This style is already extracted to a StyleSheet. "
      ++ "Select an inline style object to extract instead.").toList
  | .emptyBody => "Style object is empty. Nothing to extract.".toList
  | .parseFailed => "Failed to parse style for dynamic props.".toList
  | .allDynamic => "All style properties are dynamic. No static styles to extract.".toList
  | .nameInvalid name =>
    "Style name '".toList ++ name
      ++ ("' is invalid. Use only letters, numbers, and underscores, "
        ++ "and do not start with a number.").toList
  | .nameCollision name => "Style '".toList ++ name ++ "' already exists. Please choose a different name.".toList
  | .duplicateRegistryName name =>
    "There are multiple StyleSheets named '".toList ++ name ++ "'. Please ensure StyleSheet names are unique.".toList
  | .noTargets => "No style objects found to extract.".toList
  | .fileParseFailed _ => "Failed to parse file for extraction.".toList

/-- What is shown after the message. -/
def details? : Notice → Option Text
  | .fileParseFailed reason => some reason
  | _ => none

/-- Whether the host should ask for another name. -/
def retryable : Notice → Bool
  | .nameInvalid _ | .nameCollision _ => true
  | _ => false

theorem retryable_iff (n : Notice) : n.retryable = true ↔ ∃ name, n = .nameInvalid name ∨ n = .nameCollision name := by
  cases n <;> simp [retryable]

end Notice

end StyleHoist
