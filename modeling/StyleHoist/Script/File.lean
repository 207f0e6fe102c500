import StyleHoist.Path
import StyleHoist.Script.Source

/-!
# Script files

A file is read as a whole, and lesser faults in it are passed over. Whether it may hold markup is told by its name.
-/

namespace StyleHoist.Script

/-- Why a script is not accepted. -/
inductive SyntaxFault
  /-- The script of this name cannot be read. -/
  | unreadable (path : String)
  /-- A style body reads as something else than one object literal. -/
  | notObject
deriving DecidableEq, Repr

/-- What a host is told; a star stands for the place and reason of the fault. -/
def SyntaxFault.message : SyntaxFault → String
  | .unreadable path => s!"Failed to parse {path}: *"
  | .notObject => "Style body is not a single object literal"

/-- Files with these extensions hold no markup; an angle bracket before a value asserts a type there. -/
def holdsMarkup (path : String) : Bool :=
  match Path.extension? path with
  | some e => !(["ts".toList, "mts".toList, "cts".toList].contains e)
  | none => true

/-- The text without a byte-order mark at its start. -/
def dropMark : Text → Text
  | '\ufeff' :: t => t
  | t => t

/-- The items of a file. Offsets count from the end of a byte-order mark. -/
def itemsOfFile (path : String) (t : Text) : Except SyntaxFault (List Node) :=
  match readScript (holdsMarkup path) (dropMark t) with
  | .ok (items, _) => .ok items
  | .error _ => .error (.unreadable path)

end StyleHoist.Script
