import StyleHoist.Project.SettingsFile
import StyleHoist.Tool.Answer

/-!
# Tools

Extraction and inspection as tools for agents: parameters come as JSON and answers go as JSON.

- `Tool.ofText?_name`: a tool is found by its name.
-/

namespace StyleHoist

/-- The tools. -/
inductive Tool
  | extractStyle
  | extractAllStyles
  | inspectFile
  | getConfig
deriving DecidableEq, Repr

/-- The name by which a tool is called. -/
def Tool.name : Tool → String
  | .extractStyle => "extract_style"
  | .extractAllStyles => "extract_all_styles"
  | .inspectFile => "inspect_file"
  | .getConfig => "get_config"

/-- The tool of a name. -/
def Tool.ofText? (t : Text) : Option Tool :=
  [extractStyle, extractAllStyles, inspectFile, getConfig].find? fun tool => tool.name.toList == t

theorem Tool.ofText?_name (tool : Tool) : Tool.ofText? tool.name.toList = some tool := by
  cases tool <;> decide

/-- What an agent is told of the tools. -/
def toolInstructions : String :=
  "Sheetlift MCP moves inline React Native styles into StyleSheet.create registries.\n\n"
    ++ "Available tools:\n"
    ++ "1. get_config - Get project configuration\n"
    ++ "2. inspect_file - List registries, entry names and extractable inline styles\n"
    ++ "3. extract_style - Extract the inline style at a line/column\n"
    ++ "4. extract_all_styles - Extract every inline style in a file\n\n"
    ++ "Recommended Workflow:\n"
    ++ "1. Use inspect_file to find inline styles and the next free name\n"
    ++ "2. Call an extract tool without apply to review the rewritten text\n"
    ++ "3. Call it again with apply: true to write the file\n\n"
    ++ "A result with status \"notice\" means the file was not changed. If the notice is\n"
    ++ "retryable, call again with a different name."

/-! ## Parameters -/

/-- Why a call is not answered. -/
inductive CallFault
  /-- The parameters are not those of the tool. -/
  | parameters
  | unreadable (path : Text) (fault : FileFault)
  | unwritable (path : Text) (fault : FileFault)
  | settings (fault : LoadFault)
  | extraction (fault : ExtractionFault)
deriving DecidableEq, Repr

/-- What an agent is told. -/
def CallFault.message : CallFault → String
  | .parameters => "Invalid parameters"
  | .unreadable path fault => s!"Failed to read {String.ofList path}: {fault.message}"
  | .unwritable path fault => s!"Failed to write {String.ofList path}: {fault.message}"
  | .settings fault => s!"Failed to load config: {fault.message}"
  | .extraction (.refusedEdits fault) => s!"Extraction failed: {fault.message}"
  | .extraction (.refusedImport .crossedBraces) => "Extraction failed: the braces of an import clause are crossed"

/-- Parameters by name. A list gives them in the order of `names`, the last ones being left out at will. -/
def parametersOf (names : List String) : Json → Except CallFault (List (Text × Json))
  | .object members => .ok members
  | .array items =>
    if items.length ≤ names.length then .ok ((names.map String.toList).zip items) else .error .parameters
  | _ => .error .parameters

/-- A parameter that has to be there. -/
def needed {α : Type} (decode : Json → Option α) (parameters : List (Text × Json)) (name : String) :
    Except CallFault α :=
  match (Json.get? name.toList parameters).bind decode with
  | some a => .ok a
  | none => .error .parameters

/-- A parameter that may be missing or null. -/
def optional {α : Type} (decode : Json → Option α) (parameters : List (Text × Json)) (name : String) :
    Except CallFault (Option α) :=
  match Json.get? name.toList parameters with
  | none | some .null => .ok none
  | some v =>
    match decode v with
    | some a => .ok (some a)
    | none => .error .parameters

/-- Decodes a text. -/
def Json.text? : Json → Option Text
  | .string t => some t
  | _ => none

/-- Decodes a Boolean. -/
def Json.flag? : Json → Option Bool
  | .bool b => some b
  | _ => none

/-- Decodes a whole number of at most 32 bits. -/
def Json.number32? : Json → Option Nat
  | .number (.natural n) => if n < UInt32.size then some n else none
  | _ => none

/-! ## Calls -/

section

variable {m : Type → Type} [Monad m]

/-- A step of a call. -/
abbrev CallStep (m : Type → Type) := ExceptT CallFault m

/-- Takes over what a step comes to. -/
def callStep {ε α : Type} (fault : ε → CallFault) (action : m (Except ε α)) : CallStep m α :=
  ExceptT.mk do return (← action).mapError fault

/-- The text of a file. -/
def readSource (files : Files m) (path : Text) : CallStep m Text :=
  callStep (.unreadable path) (files.read (String.ofList path))

/-- The directory from which the settings for a file are looked for. -/
def settingsDirectory (path : Text) : String :=
  match Path.parent? (String.ofList path) with
  | some directory => if directory.isEmpty then "." else directory
  | none => "."

/-- The settings for a file. -/
def settingsFor (files : Files m) (path : Text) : CallStep m Settings := do
  return (← callStep .settings (loadSettings files (settingsDirectory path))).1

/-- Answers an outcome, writing the new text if asked. -/
def finishCall (files : Files m) (path : Text) (apply : Bool) (outcome : Outcome) : CallStep m Json := do
  match outcome with
  | .extracted e => if apply then callStep (.unwritable path) (files.write (String.ofList path) e.text)
  | .skipped _ => pure ()
  return outcome.answer path apply

/-- Extracts the style at a line and column, counted from 1. -/
def callExtractStyle (files : Files m) (parameters : Json) : CallStep m Json := do
  let ps ← parametersOf ["filePath", "line", "column", "name", "apply"] parameters
  let path ← needed Json.text? ps "filePath"
  let line ← needed Json.number32? ps "line"
  let column ← needed Json.number32? ps "column"
  let name ← optional Json.text? ps "name"
  let apply ← optional Json.flag? ps "apply"
  let t ← readSource files path
  let settings ← settingsFor files path
  let offset := Text.offsetAt t ⟨line - 1, column - 1⟩
  let outcome ← callStep .extraction (pure (extractOne t (String.ofList path) offset name settings))
  finishCall files path (apply.getD false) outcome

/-- Extracts all styles of a file. -/
def callExtractAllStyles (files : Files m) (parameters : Json) : CallStep m Json := do
  let ps ← parametersOf ["filePath", "apply"] parameters
  let path ← needed Json.text? ps "filePath"
  let apply ← optional Json.flag? ps "apply"
  let t ← readSource files path
  let settings ← settingsFor files path
  let outcome ← callStep .extraction (pure (extractAll t (String.ofList path) settings))
  finishCall files path (apply.getD false) outcome

/-- Inspects a file. -/
def callInspectFile (files : Files m) (parameters : Json) : CallStep m Json := do
  let ps ← parametersOf ["filePath", "line"] parameters
  let path ← needed Json.text? ps "filePath"
  let line ← optional Json.number32? ps "line"
  let t ← readSource files path
  let settings ← settingsFor files path
  return (inspect t (String.ofList path) line settings).json

/-- Tells the settings in effect in a directory. -/
def callGetConfig (files : Files m) (parameters : Json) : CallStep m Json := do
  let ps ← parametersOf ["projectRootPath"] parameters
  let path ← needed Json.text? ps "projectRootPath"
  let (settings, fromFile) ← callStep .settings (loadSettings files (String.ofList path))
  return .ofMembers [("fromFile", .bool fromFile), ("config", settings.json)]

/-- Calls a tool. -/
def Tool.call (files : Files m) (tool : Tool) (parameters : Json) : m (Except CallFault Json) :=
  match tool with
  | .extractStyle => callExtractStyle files parameters
  | .extractAllStyles => callExtractAllStyles files parameters
  | .inspectFile => callInspectFile files parameters
  | .getConfig => callGetConfig files parameters

end

end StyleHoist
