import StyleHoist.Text.Quoted

/-!
# Files

What commands and tools need of the files around them. They are written against this interface, so that they run on a
tree of files in memory as well as on a disk.
-/

namespace StyleHoist

/-- Why a file cannot be read or written. -/
inductive FileFault
  | missing
  | notDirectory
  | isDirectory
  | nameTooLong
  | nulInName
  /-- Any other reason, in the words of the system. -/
  | other (reason : String)
deriving DecidableEq, Repr

/-- What a user is told. -/
def FileFault.message : FileFault → String
  | .missing => "No such file or directory (os error 2)"
  | .notDirectory => "Not a directory (os error 20)"
  | .isDirectory => "Is a directory (os error 21)"
  | .nameTooLong => "File name too long (os error 36)"
  | .nulInName => "file name contained an unexpected NUL byte"
  | .other reason => reason

/-- Access to files. -/
structure Files (m : Type → Type) where
  /-- The absolute path of the working directory. -/
  workingDirectory : String
  read : String → m (Except FileFault Text)
  /-- Whether a file or directory is there. -/
  isThere : String → m Bool
  write : String → Text → m (Except FileFault Unit)

/-- A path in a message. -/
def shownPath (path : String) : String :=
  String.ofList (quotedText true path.toList)

end StyleHoist
