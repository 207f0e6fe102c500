import StyleHoist.Comment.Strip
import StyleHoist.Import.Patch
import StyleHoist.Notice
import StyleHoist.Registry.Entry
import StyleHoist.Registry.Scan
import StyleHoist.Settings.Basic
import StyleHoist.Style.Body

/-!
# Extraction

A style literal is moved to a registry: its static properties become an entry, its dynamic ones stay. All edits of an
extraction are computed on the text as it was and applied as one batch, so a text is either changed in full or left
alone.

- `prepare_emptyBody`: a literal without properties is not prepared.
-/

namespace StyleHoist

/-! ## Results -/

/-- A successful extraction. -/
structure Extraction where
  edits : List Edit
  text : Text
  /-- The names of the new entries, in the order of the targets. -/
  names : List Text
  registry : Text
  /-- Whether the registry is new. -/
  createdRegistry : Bool
deriving DecidableEq, Repr

/-- What an extraction comes to. -/
inductive Outcome
  | extracted (e : Extraction)
  | skipped (n : Notice)
deriving DecidableEq, Repr

/-- Why an extraction breaks off. -/
inductive ExtractionFault
  | refusedEdits (fault : EditError)
  | refusedImport (fault : ImportFault)
deriving DecidableEq, Repr

/-! ## One target -/

/-- A target whose body has been split, with a static part that is not empty. -/
structure PreparedStyle where
  target : StyleTarget
  staticProperties : List Text
  remaining : List InlineLine
  comments : List Comment

/-- A comment whose property is none of the given names belongs to no property of the style. -/
def Comment.settle (names : List Text) (c : Comment) : Comment :=
  match c.property with
  | some name => if names.contains name then c else c.orphan
  | none => c

/-- The names with which first-level properties begin. -/
def propertyNames (properties : List Property) : List Text :=
  properties.filterMap fun p => leadingKey? p.text

/-- The comments of a style that are carried along. -/
def carriedComments (settings : Settings) (properties : List Property) (comments : List Comment) : List Comment :=
  if settings.keepComments then comments.map (·.settle (propertyNames properties)) else []

/-- Whether the text of a body is free of properties. -/
def isEmptyBody (body : Text) : Bool :=
  body.isEmpty || body == "\x7b\x7d".toList

/-- Splits the body of a target, or tells why there is nothing to move. -/
def prepare (target : StyleTarget) (settings : Settings) : Except Notice PreparedStyle :=
  let stripped := stripComments target.body
  let body := Text.trim stripped.cleaned
  if isEmptyBody body then .error .emptyBody
  else
    let properties := propertiesOf body
    if properties.isEmpty then .error .parseFailed
    else
      let moved := formatStatic settings.sortProperties (staticTexts properties)
      if moved.isEmpty then .error .allDynamic
      else
        let comments := carriedComments settings properties stripped.comments
        .ok ⟨target, moved, restoreInline (dynamicTexts properties) comments, comments⟩

theorem prepare_emptyBody {target : StyleTarget} (settings : Settings)
    (h : isEmptyBody (Text.trim (stripComments target.body).cleaned) = true) :
    prepare target settings = .error .emptyBody := by
  simp [prepare, h]

/-! ## Edits -/

/-- A prepared style and the name of its entry. -/
abbrev NamedStyle := PreparedStyle × Text

/-- The entry of a style. -/
def NamedStyle.entry (settings : Settings) (s : NamedStyle) : Text :=
  entryText s.2 s.1.staticProperties s.1.comments settings.keepComments

/-- The edit at the place of use. -/
def NamedStyle.use (registry : Text) (s : NamedStyle) : Edit :=
  ⟨s.1.target.range, useText registry s.2 s.1.remaining s.1.target.indent s.1.target.kind⟩

/-- The edit that imports the factory, if the settings want it and it is needed. -/
def importEdits (t : Text) (settings : Settings) : Except ImportFault (List Edit) :=
  if settings.autoImport then (importEdit t).map Option.toList else .ok []

/-- Edits a text: the import first, then the entries, then the places of use. -/
def synthesize (t : Text) (styles : List NamedStyle) (settings : Settings) : Except ExtractionFault Extraction := do
  let place := destination? settings.registryName (registriesIn t)
  let registry := (place.map (·.name)).getD settings.registryName
  let entries := styles.map (·.entry settings)
  let entryEdit :=
    match place with
    | some r => r.insertEntries entries
    | none => createRegistry t registry entries settings.policy
  let imports ← (importEdits t settings).mapError .refusedImport
  let edits := imports ++ entryEdit :: styles.map (·.use registry)
  let edited ← (applyEdits t edits).mapError .refusedEdits
  return ⟨edits, edited, styles.map (·.2), registry, place.isNone⟩

/-! ## From a cursor -/

/-- The name that an entry gets if none is chosen. -/
def suggestName (t : Text) (settings : Settings) : Text :=
  freshName settings.namePrefix (takenNames (registriesIn t))

/-- Extracts the style literal under a cursor. -/
def extractOne (t : Text) (path : String) (offset : Nat) (name : Option Text) (settings : Settings) :
    Except ExtractionFault Outcome :=
  match Script.itemsOfFile path t with
  | .error fault => .ok (.skipped (.fileParseFailed fault.message.toList))
  | .ok items =>
    match findAt (Sites.of items) t offset with
    | .reference => .ok (.skipped .aliasDetected)
    | .nothing => .ok (.skipped .notFound)
    | .target target =>
      let name := name.getD (suggestName t settings)
      if target.isEmpty then .ok (.skipped .emptyBody)
      else if !isEntryName name then .ok (.skipped (.nameInvalid name))
      else if (takenNames (registriesIn t)).contains name then .ok (.skipped (.nameCollision name))
      else
        match prepare target settings with
        | .error notice => .ok (.skipped notice)
        | .ok style => (synthesize t [(style, name)] settings).map .extracted

/-! ## In bulk -/

/-- Prepares targets and names those that can be extracted, `taken` being the names that are in use. -/
def prepareAll (settings : Settings) : (taken : List Text) → List StyleTarget → List NamedStyle
  | _, [] => []
  | taken, target :: targets =>
    match prepare target settings with
    | .ok style =>
      let name := freshName settings.namePrefix taken
      (style, name) :: prepareAll settings (taken ++ [name]) targets
    | .error _ => prepareAll settings taken targets

/-- Extracts every style literal of a file that can be extracted. -/
def extractAll (t : Text) (path : String) (settings : Settings) : Except ExtractionFault Outcome :=
  let registries := registriesIn t
  match repeatedName? registries with
  | some name => .ok (.skipped (.duplicateRegistryName name))
  | none =>
    match Script.itemsOfFile path t with
    | .error fault => .ok (.skipped (.fileParseFailed fault.message.toList))
    | .ok items =>
      match findAll (Sites.of items) t with
      | [] => .ok (.skipped .noTargets)
      | targets =>
        match prepareAll settings (takenNames registries) targets with
        | [] => .ok (.skipped .allDynamic)
        | styles => (synthesize t styles settings).map .extracted

end StyleHoist
