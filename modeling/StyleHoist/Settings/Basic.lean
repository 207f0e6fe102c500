import StyleHoist.Json.Print
import StyleHoist.Registry.Insertion
import StyleHoist.Text.Identifier

/-!
# Settings

What a project decides about extraction. Names that settings give must be fit to stand in code.

- `fault?_default`: the settings of a project that decides nothing are valid.
-/

namespace StyleHoist

/-- The settings of an extraction. -/
structure Settings where
  /-- What generated entry names begin with. -/
  namePrefix : Text := "myStyle".toList
  /-- The registry that takes new entries where there is a choice. -/
  registryName : Text := "styles".toList
  /-- Whether the factory is imported where a text does not mention it. -/
  autoImport : Bool := true
  /-- Whether static properties are sorted by name. -/
  sortProperties : Bool := false
  /-- Whether comments are carried along. -/
  keepComments : Bool := true
  /-- Where a new registry is declared. -/
  policy : InsertionPolicy := .bottom
deriving DecidableEq, Repr

/-! ## Names in files -/

/-- What a settings file can decide. -/
inductive SettingKey
  | namePrefix
  | registryName
  | autoImport
  | sortProperties
  | keepComments
  | policy
deriving DecidableEq, Repr

namespace SettingKey

/-- All settings, in the order in which they are listed. -/
def all : List SettingKey :=
  [.namePrefix, .registryName, .autoImport, .sortProperties, .keepComments, .policy]

/-- The name of a setting in a file. -/
def name : SettingKey → String
  | .namePrefix => "defaultNamePrefix"
  | .registryName => "preferredRegistryName"
  | .autoImport => "autoImport"
  | .sortProperties => "sortStaticProperties"
  | .keepComments => "preserveComments"
  | .policy => "insertionPolicy"

/-- The name that editors have for a setting. -/
def editorName? : SettingKey → Option String
  | .namePrefix => some "defaultStyleName"
  | .registryName => some "preferredStyleSheetName"
  | .autoImport => some "autoImportStyleSheet"
  | .sortProperties => some "sortStyleProperties"
  | .keepComments => none
  | .policy => some "extractionLocation"

/-- Whether a text names the setting. -/
def isNamed (t : Text) (k : SettingKey) : Bool :=
  t == k.name.toList || k.editorName?.any fun n => t == n.toList

/-- The setting that a text names. -/
def ofText? (t : Text) : Option SettingKey :=
  all.find? (isNamed t)

end SettingKey

/-- The spellings of a policy. -/
def InsertionPolicy.spellings : List (String × InsertionPolicy) :=
  [("Top", .top), ("top", .top), ("Bottom", .bottom), ("bottom", .bottom), ("After imports", .afterImports),
    ("AfterImports", .afterImports), ("afterImports", .afterImports)]

/-- The policy that a text spells. -/
def InsertionPolicy.ofText? (t : Text) : Option InsertionPolicy :=
  (spellings.find? fun s => t == s.1.toList).map (·.2)

/-- The spelling in which a policy is written. -/
def InsertionPolicy.name : InsertionPolicy → String
  | .top => "top"
  | .bottom => "bottom"
  | .afterImports => "afterImports"

theorem InsertionPolicy.ofText?_name (p : InsertionPolicy) : ofText? p.name.toList = some p := by
  cases p <;> decide

/-! ## Writing -/

/-- Settings as a JSON value. -/
def Settings.json (s : Settings) : Json :=
  .ofMembers [
    (SettingKey.namePrefix.name, .string s.namePrefix),
    (SettingKey.registryName.name, .string s.registryName),
    (SettingKey.autoImport.name, .bool s.autoImport),
    (SettingKey.sortProperties.name, .bool s.sortProperties),
    (SettingKey.keepComments.name, .bool s.keepComments),
    (SettingKey.policy.name, .ofString s.policy.name)]

/-- The text of a new settings file. -/
def defaultSettingsText : Text :=
  Json.pretty ({} : Settings).json

/-! ## Validity -/

/-- Why settings are refused: a setting holds a name that cannot stand in code. -/
structure SettingsFault where
  key : SettingKey
  value : Text
deriving DecidableEq, Repr

/-- What a user is told. -/
def SettingsFault.message (f : SettingsFault) : String :=
  s!"Invalid '{f.key.name}': \"{String.ofList f.value}\" is not a valid identifier"

/-- The first setting that holds an unfit name. -/
def Settings.fault? (s : Settings) : Option SettingsFault :=
  if !isEntryName s.namePrefix then some ⟨.namePrefix, s.namePrefix⟩
  else if !isEntryName s.registryName then some ⟨.registryName, s.registryName⟩
  else none

theorem Settings.fault?_default : ({} : Settings).fault? = none := by decide

end StyleHoist
