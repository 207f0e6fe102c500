import StyleHoist.Inspection
import StyleHoist.Json.Basic

/-!
# Answers as JSON

The values in which hosts get notices, edits, extractions and inspections.

- `Notice.json_retryable`: a notice tells whether another name helps.
-/

namespace StyleHoist

/-- Members that are there only if they have a value. -/
def optionalMember (name : String) (value : Option Json) : List (String × Json) :=
  (value.map fun v => (name, v)).toList

/-- A list of texts. -/
def textsJson (ts : List Text) : Json :=
  .array (ts.map .string)

/-- The members of a notice. -/
def Notice.members (n : Notice) : List (String × Json) :=
  [("rule", .ofString n.rule), ("severity", .ofString n.severity.name), ("message", .string n.message),
    ("retryable", .bool n.retryable)] ++ optionalMember "details" (n.details?.map .string)

/-- A notice. -/
def Notice.json (n : Notice) : Json :=
  .ofMembers n.members

theorem Notice.json_retryable (n : Notice) : ("retryable", Json.bool n.retryable) ∈ n.members := by
  simp [Notice.members]

/-- An edit. -/
def Edit.json (e : Edit) : Json :=
  .ofMembers [("start", .ofNat e.range.start), ("end", .ofNat e.range.stop), ("replacement", .string e.replacement)]

/-- What an extraction answers: the new text is left out once it has been written. -/
def Extraction.answer (e : Extraction) (path : Text) (applied : Bool) : Json :=
  .ofMembers ([("status", .ofString "extracted"), ("filePath", .string path), ("applied", .bool applied),
      ("registryName", .string e.registry), ("createdRegistry", .bool e.createdRegistry),
      ("styleNames", textsJson e.names), ("edits", .array (e.edits.map Edit.json))]
    ++ optionalMember "text" (if applied then none else some (.string e.text)))

/-- What an outcome answers. -/
def Outcome.answer (o : Outcome) (path : Text) (apply : Bool) : Json :=
  match o with
  | .extracted e => e.answer path apply
  | .skipped n =>
    .ofMembers
      [("status", .ofString "notice"), ("filePath", .string path), ("applied", .bool false), ("notice", n.json)]

/-! ## Inspections -/

/-- Advice. -/
def Advice.json (a : Advice) : Json :=
  .ofMembers [("languageSupported", .bool a.languageSupported), ("looksLikeDialect", .bool a.looksLikeDialect),
    ("lineHasInlineStyle", .ofOption (a.lineHasInlineStyle.map .bool))]

/-- The word for what an edit would replace. -/
def TargetKind.name : TargetKind → String
  | .wholeAttribute => "attribute"
  | .arrayElement => "arrayElement"

/-- A registry. -/
def RegistrySummary.json (r : RegistrySummary) : Json :=
  .ofMembers [("name", .string r.name), ("line", .ofNat r.line), ("entries", textsJson r.entries)]

/-- A style literal. -/
def TargetSummary.json (t : TargetSummary) : Json :=
  .ofMembers [("line", .ofNat t.line), ("column", .ofNat t.column), ("kind", .ofString t.kind.name),
    ("staticCount", .ofNat t.staticCount), ("dynamicCount", .ofNat t.dynamicCount)]

/-- The members of an inspection. -/
def Inspection.members (i : Inspection) : List (String × Json) :=
  [("languageId", .ofOption (i.language.map .ofString)), ("advice", i.advice.json),
    ("registries", .array (i.registries.map RegistrySummary.json)),
    ("targets", .array (i.targets.map TargetSummary.json)), ("suggestedName", .string i.suggestedName),
    ("parseError", .ofOption (i.syntaxFault.map .ofString))]

/-- An inspection. -/
def Inspection.json (i : Inspection) : Json :=
  .ofMembers i.members

end StyleHoist
