import StyleHoist.Command.Run
import StyleHoist.Tool.Call

/-!
# The program

Runs the command that the command line gives on the files of the disk.
-/

namespace StyleHoist

/-- The reason for which a file of the disk cannot be had. -/
def diskFault : IO.Error → FileFault
  | .noFileOrDirectory _ _ _ => .missing
  | e => .other (toString e)

/-- Access to the files of the disk. -/
def diskFiles (workingDirectory : String) : Files IO where
  workingDirectory
  read path := do
    try
      return .ok (← IO.FS.readFile path).toList
    catch e => return .error (diskFault e)
  isThere path := do
    try
      discard (IO.FS.Handle.mk path .read)
      return true
    catch _ => return false
  write path content := do
    try
      IO.FS.writeFile path (String.ofList content)
      return .ok ()
    catch e => return .error (diskFault e)

/-- What is shown where no command is given. -/
def usageText : String :=
  "Usage: sheetlift <extract|extract-all|inspect|init> [options] <file>\n"

/-- Runs a command and prints what it leaves. -/
def runOnDisk (command : Command.Invocation) : IO UInt32 := do
  let files := diskFiles (← IO.currentDir).toString
  let result :=
    match ← Command.run files command with
    | .ok result => result
    | .error fault => fault.result
  IO.print (String.ofList result.output)
  IO.eprint (String.ofList result.errors)
  return result.status.code.toUInt32

end StyleHoist

/-- Reads the command line and runs its command. -/
def main (args : List String) : IO UInt32 := do
  match StyleHoist.Command.parse (args.map String.toList) with
  | .ok (some command) => StyleHoist.runOnDisk command
  | .ok none | .error .displayHelp =>
    IO.print StyleHoist.usageText
    return 0
  | .error .displayVersion =>
    IO.print "sheetlift 0.1.0\n"
    return 0
  | .error _ =>
    IO.eprint StyleHoist.usageText
    return 2
