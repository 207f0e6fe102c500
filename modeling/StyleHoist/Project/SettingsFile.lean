import StyleHoist.Path
import StyleHoist.Project.Files
import StyleHoist.Settings.Decode

/-!
# Settings files

The settings of a project stand in a file, which is looked for upward from a directory. The search ends at the first
file, or at a directory that holds a repository.
-/

namespace StyleHoist

/-- The name of a settings file. -/
def settingsFileName : String := ".sheetliftrc.json"

/-- The name of what makes a directory the top of a repository. -/
def repositoryName : String := ".git"

/-- Why the settings of a project cannot be had. -/
inductive LoadFault
  | unreadable (path : String) (fault : FileFault)
  | undecodable (path : String) (fault : DecodeFault)
  | invalid (fault : SettingsFault)
deriving DecidableEq, Repr

/-- What a user is told, without the cause. -/
def LoadFault.message : LoadFault → String
  | .unreadable path _ => s!"Failed to read config file: {shownPath path}"
  | .undecodable path _ => s!"Failed to parse config file: {shownPath path}"
  | .invalid fault => fault.message

/-- What a user is told, with the cause. -/
def LoadFault.fullMessage (f : LoadFault) : String :=
  match f with
  | .unreadable _ fault => f.message ++ ": " ++ fault.message
  | .undecodable _ fault => f.message ++ ": " ++ fault.message
  | .invalid _ => f.message

section

variable {m : Type → Type} [Monad m]

/-- Looks for a settings file upward from a directory. Each step shortens the path, so one more than its length is fuel
enough. -/
def findSettingsFile (files : Files m) : (fuel : Nat) → (directory : String) → m (Option String)
  | 0, _ => return none
  | fuel + 1, directory => do
    let path := Path.join directory settingsFileName
    if ← files.isThere path then return some path
    if ← files.isThere (Path.join directory repositoryName) then return none
    match Path.parent? directory with
    | some parent => findSettingsFile files fuel parent
    | none => return none

/-- Reads a settings file. -/
def readSettingsFile (files : Files m) (path : String) : m (Except LoadFault Settings) := do
  match ← files.read path with
  | .error fault => return .error (.unreadable path fault)
  | .ok content =>
    match Settings.ofText content with
    | .error fault => return .error (.undecodable path fault)
    | .ok settings =>
      match settings.fault? with
      | some fault => return .error (.invalid fault)
      | none => return .ok settings

/-- The settings in effect in a directory, and whether they come from a file. -/
def loadSettings (files : Files m) (directory : String) : m (Except LoadFault (Settings × Bool)) := do
  match ← findSettingsFile files (directory.length + 1) directory with
  | some path => return (← readSettingsFile files path).map fun s => (s, true)
  | none => return .ok ({}, false)

end

end StyleHoist
