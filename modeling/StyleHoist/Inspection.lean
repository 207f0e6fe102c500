import StyleHoist.Advice
import StyleHoist.Extraction

/-!
# Inspection

A summary of a file: advice, its registries, and the style literals that extraction would take.
-/

namespace StyleHoist

/-- A registry in a summary. -/
structure RegistrySummary where
  name : Text
  /-- The line of the declaration, counted from 1. -/
  line : Nat
  entries : List Text
deriving DecidableEq, Repr

/-- A style literal in a summary. -/
structure TargetSummary where
  /-- The place of what would be replaced, counted from 1. -/
  line : Nat
  column : Nat
  kind : TargetKind
  staticCount : Nat
  dynamicCount : Nat
deriving DecidableEq, Repr

/-- The summary of a file. -/
structure Inspection where
  language : Option String
  advice : Advice
  registries : List RegistrySummary
  targets : List TargetSummary
  suggestedName : Text
  /-- Why the file cannot be read; there are no targets then. -/
  syntaxFault : Option String
deriving DecidableEq, Repr

/-- Summarises a registry. -/
def Registry.summary (t : Text) (r : Registry) : RegistrySummary :=
  ⟨r.name, Text.lineAt t r.range.start + 1, takenNames [r]⟩

/-- Summarises a style literal. -/
def StyleTarget.summary (t : Text) (target : StyleTarget) : TargetSummary :=
  let place := Text.positionAt t target.range.start
  let properties := propertiesOf (Text.trim (stripComments target.body).cleaned)
  ⟨place.line + 1, place.column + 1, target.kind, (staticTexts properties).length, (dynamicTexts properties).length⟩

/-- Summarises a file. The line to advise on is counted from 1. -/
def inspect (t : Text) (path : String) (line : Option Nat) (settings : Settings) : Inspection :=
  let language := languageOf? path
  let (targets, fault) :=
    match Script.itemsOfFile path t with
    | .ok items => ((findAll (Sites.of items) t).map (StyleTarget.summary t), none)
    | .error fault => ([], some fault.message)
  { language
    advice := advise (language.getD "") t (line.map fun n => Text.lineText t (n - 1))
    registries := (registriesIn t).map (Registry.summary t)
    targets
    suggestedName := suggestName t settings
    syntaxFault := fault }

end StyleHoist
