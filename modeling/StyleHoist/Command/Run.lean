import StyleHoist.Command.Arguments
import StyleHoist.Command.Report
import StyleHoist.Project.SettingsFile

/-!
# Running commands

A command reads settings and a file, and prints a report; asked to apply, it writes the file. It ends with a status:
done, nothing to do for a reason that is reported, or broken off by a fault.
-/

namespace StyleHoist.Command

/-! ## Results -/

/-- How a command ends. -/
inductive Status
  | done
  /-- A notice was reported and the file is as it was. -/
  | refused
  | faulted
deriving DecidableEq, Repr

/-- The exit code of a status. -/
def Status.code : Status → Nat
  | .done => 0
  | .refused => 1
  | .faulted => 2

/-- What a run leaves. -/
structure RunResult where
  status : Status
  output : Text := []
  errors : Text := []
deriving DecidableEq, Repr

/-- Why a command breaks off. -/
inductive CommandFault
  | settings (fault : LoadFault)
  | invalid (fault : SettingsFault)
  | unreadable (file : Text) (fault : FileFault)
  | unwritable (file : Text) (fault : FileFault)
  | extraction (fault : ExtractionFault)
deriving DecidableEq, Repr

/-- What a user is told of an extraction that broke off. -/
def extractionFaultMessage : ExtractionFault → String
  | .refusedEdits fault => fault.message
  | .refusedImport .crossedBraces => "The braces of an import clause are crossed"

/-- What a user is told. -/
def CommandFault.message : CommandFault → String
  | .settings fault => fault.fullMessage
  | .invalid fault => fault.message
  | .unreadable file fault => s!"Failed to read source file: {shownPath (String.ofList file)}: {fault.message}"
  | .unwritable file fault => s!"Failed to write source file: {shownPath (String.ofList file)}: {fault.message}"
  | .extraction fault => extractionFaultMessage fault

/-- The result of a run that breaks off. -/
def CommandFault.result (f : CommandFault) : RunResult :=
  ⟨.faulted, [], line ("Error: " ++ f.message).toList⟩

/-! ## Commands -/

section

variable {m : Type → Type} [Monad m]

/-- A step of a command. -/
abbrev Step (m : Type → Type) := ExceptT CommandFault m

/-- Takes over what a step comes to. -/
def attempt {ε α : Type} (fault : ε → CommandFault) (action : m (Except ε α)) : Step m α :=
  ExceptT.mk do return (← action).mapError fault

/-- The settings of a run. -/
def effectiveSettings (files : Files m) (common : CommonArguments) (overrides : Overrides) : Step m Settings := do
  let directory := (common.path.map String.ofList).getD files.workingDirectory
  let (settings, _) ← attempt .settings (loadSettings files directory)
  let settings := overrides.apply settings
  match settings.fault? with
  | some fault => throw (.invalid fault)
  | none => return settings

/-- The text of the file to work on. -/
def source (files : Files m) (file : Text) : Step m Text :=
  attempt (.unreadable file) (files.read (String.ofList file))

/-- The byte offset of a cursor. -/
def Cursor.offsetIn (t : Text) : Cursor → Nat
  | .offset n => min n (Text.size t)
  | .lineColumn line column => Text.offsetAt t ⟨line - 1, column - 1⟩

/-- Reports an outcome. A new text is written back if asked, and printed otherwise. -/
def finish (files : Files m) (file : Text) (apply : Bool) : Outcome → Step m RunResult
  | .skipped notice => return ⟨.refused, noticeReport notice file, []⟩
  | .extracted e =>
    if apply then do
      attempt (.unwritable file) (files.write (String.ofList file) e.text)
      return ⟨.done, extractionReport e file true, []⟩
    else return ⟨.done, e.text, extractionReport e file false⟩

/-- Extracts one style. -/
def extract (files : Files m) (c : ExtractCommand) : Step m RunResult := do
  let settings ← effectiveSettings files c.common c.overrides
  let t ← source files c.file
  let outcome ← attempt .extraction (pure (extractOne t (String.ofList c.file) (c.cursor.offsetIn t) c.name settings))
  finish files c.file c.apply outcome

/-- Extracts all styles of a file. -/
def extractAll (files : Files m) (c : ExtractAllCommand) : Step m RunResult := do
  let settings ← effectiveSettings files c.common c.overrides
  let t ← source files c.file
  let outcome ← attempt .extraction (pure (StyleHoist.extractAll t (String.ofList c.file) settings))
  finish files c.file c.apply outcome

/-- Inspects a file. -/
def inspect (files : Files m) (c : InspectCommand) : Step m RunResult := do
  let settings ← effectiveSettings files c.common {}
  let t ← source files c.file
  return ⟨.done, inspectionReport (StyleHoist.inspect t (String.ofList c.file) c.line settings) c.file, []⟩

/-- Writes a settings file with the defaults. -/
def init (files : Files m) : Step m RunResult := do
  if ← files.isThere settingsFileName then
    return ⟨.refused, [], line ("Error: " ++ settingsFileName ++ " already exists").toList⟩
  attempt (.unwritable settingsFileName.toList) (files.write settingsFileName (line defaultSettingsText))
  return ⟨.done, line (successMark ++ " Created ".toList ++ settingsFileName.toList), []⟩

/-- Runs a command, unless it is to serve. -/
def run (files : Files m) : Invocation → m (Except CommandFault RunResult)
  | .extract c => extract files c
  | .extractAll c => extractAll files c
  | .inspect c => inspect files c
  | .init => init files
  | .serve => return .ok ⟨.faulted, [], line "Error: Serving is left to the host".toList⟩

end

end StyleHoist.Command
