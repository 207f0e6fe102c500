import StyleHoist.Inspection

/-!
# Reports

What commands print.

- `pluralText_one`: one thing is told in the singular.
-/

namespace StyleHoist.Command

/-- A number as text. -/
def numberText (n : Nat) : Text :=
  Nat.toDigits 10 n

/-- A count and a noun, in the plural unless the count is one. -/
def pluralText (count : Nat) (noun : Text) : Text :=
  numberText count ++ ' ' :: noun ++ if count = 1 then [] else ['s']

theorem pluralText_one (noun : Text) : pluralText 1 noun = '1' :: ' ' :: noun := by
  simp [pluralText, numberText, Nat.toDigits, Nat.toDigitsCore, Nat.digitChar]

/-- The mark of success. -/
def successMark : Text := ['\u2713']

/-- The mark of failure. -/
def failureMark : Text := ['\u2718']

/-- A line with its newline. -/
def line (t : Text) : Text :=
  t ++ ['\n']

/-- The line that names the file. -/
def fileLine (file : Text) : Text :=
  line ("  --> ".toList ++ file)

/-- The line that gives a reason. -/
def noteLine (reason : Text) : Text :=
  line ("  = note: ".toList ++ reason)

/-- A notice and the file that it is about. -/
def noticeReport (n : Notice) (file : Text) : Text :=
  line (n.severity.name.toList ++ ": ".toList ++ n.message ++ "  ".toList ++ n.rule.toList)
    ++ fileLine file
    ++ match n.details? with
      | some reason => noteLine reason
      | none => []

/-- The summary of an extraction, with the file if it has been changed. -/
def extractionReport (e : Extraction) (file : Text) (applied : Bool) : Text :=
  line (successMark ++ (if applied then " Extracted " else " Would extract ").toList
      ++ pluralText e.names.length "style".toList ++ " into ".toList ++ e.registry
      ++ " (".toList ++ Text.joinWith ", ".toList e.names ++ [')'])
    ++ if applied then fileLine file else []

/-! ## Inspections -/

/-- A finding with its mark. -/
def marked (holds : Bool) (yes no : String) : Text :=
  (if holds then successMark else failureMark) ++ ' ' :: (if holds then yes else no).toList

/-- A text with blanks in front up to a width. -/
def padLeft (width : Nat) (t : Text) : Text :=
  List.replicate (width - t.length) ' ' ++ t

/-- A text with blanks behind up to a width. -/
def padRight (width : Nat) (t : Text) : Text :=
  t ++ List.replicate (width - t.length) ' '

/-- The greatest length of a list of texts. -/
def widthOf (ts : List Text) : Nat :=
  (ts.map List.length).foldl max 0

/-- A registry and its entries. -/
def registryLine (width : Nat) (r : RegistrySummary) : Text :=
  line ("  ".toList ++ padLeft width (numberText r.line) ++ " | ".toList ++ r.name ++ ": ".toList
    ++ if r.entries.isEmpty then "(empty)".toList else Text.joinWith ", ".toList r.entries)

/-- The place of a style literal. -/
def placeText (t : TargetSummary) : Text :=
  numberText t.line ++ ':' :: numberText t.column

/-- The words for what an edit would replace. -/
def kindText : TargetKind → Text
  | .wholeAttribute => "attribute".toList
  | .arrayElement => "array element".toList

/-- A style literal and its counts of properties. -/
def targetLine (width : Nat) (t : TargetSummary) : Text :=
  line ("  ".toList ++ padRight width (placeText t) ++ " | ".toList ++ kindText t.kind ++ ", ".toList
    ++ numberText t.staticCount ++ " static, ".toList ++ numberText t.dynamicCount ++ " dynamic".toList)

/-- The count of registries. -/
def registryCount (n : Nat) : Text :=
  if n = 1 then "1 registry".toList else numberText n ++ " registries".toList

/-- The head of an inspection. -/
def adviceReport (i : Inspection) : Text :=
  line ("  language: ".toList ++ (i.language.getD "unknown").toList
      ++ " (".toList ++ marked i.advice.languageSupported "supported" "unsupported" ++ [')'])
    ++ line ("  dialect:  ".toList ++ marked i.advice.looksLikeDialect "react-native" "not detected")
    ++ match i.advice.lineHasInlineStyle with
      | some holds => line ("  line:     ".toList ++ marked holds "inline style" "no inline style")
      | none => []

/-- An inspection. -/
def inspectionReport (i : Inspection) (file : Text) : Text :=
  line file ++ adviceReport i
    ++ (match i.syntaxFault with
      | some reason => noteLine reason.toList
      | none => [])
    ++ line [] ++ line (registryCount i.registries.length)
    ++ i.registries.flatMap (registryLine (widthOf (i.registries.map fun r => numberText r.line)))
    ++ line [] ++ line (pluralText i.targets.length "inline style".toList)
    ++ i.targets.flatMap (targetLine (widthOf (i.targets.map placeText)))
    ++ line [] ++ line ("next name: ".toList ++ i.suggestedName)

end StyleHoist.Command
