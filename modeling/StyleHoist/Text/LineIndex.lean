import StyleHoist.Text.Basic

/-!
# Lines and columns

Hosts speak of lines and columns, the engine of byte offsets. Lines and columns start at 0 and columns count characters.
Positions outside the text clamp.

- `offsetAt_of_lineCount_le`: lines past the last lead to the end of the text.
-/

namespace StyleHoist

/-- A place in a text as hosts give it. -/
structure Position where
  line : Nat
  column : Nat
deriving DecidableEq, Repr, Inhabited

namespace Text

/-- The number of lines. -/
def lineCount (t : Text) : Nat :=
  (splitLines t).length

/-- A line without its newline and the carriage returns before it; nothing past the last line. -/
def lineText (t : Text) (line : Nat) : Text :=
  dropEndWhile (· == '\r') ((splitLines t)[line]?.getD [])

/-- The byte offset at which a line starts, when the lines are given. -/
def lineStart : List Text → Nat → Nat
  | [], _ => 0
  | _, 0 => 0
  | l :: ls, n + 1 => size l + 1 + lineStart ls n

/-- The byte offset of a position. A column past the end of its line leads to that end, a line past the last to the end
of the text. -/
def offsetAt (t : Text) (p : Position) : Nat :=
  if p.line < lineCount t then lineStart (splitLines t) p.line + size ((lineText t p.line).take p.column) else size t

/-- The position reached from `p` after as many of the characters as `bytes` bytes hold in full. -/
def positionFrom (p : Position) : Text → Nat → Position
  | [], _ => p
  | c :: t, bytes =>
    if bytes = 0 then p
    else if c.utf8Size ≤ bytes then
      positionFrom (if c == '\n' then ⟨p.line + 1, 0⟩ else ⟨p.line, p.column + 1⟩) t (bytes - c.utf8Size)
    else p

/-- The position of a byte offset. An offset inside a character means its start, one past the end means the end. -/
def positionAt (t : Text) (offset : Nat) : Position :=
  positionFrom ⟨0, 0⟩ t offset

/-- The line that holds a byte offset. -/
def lineAt (t : Text) (offset : Nat) : Nat :=
  (positionAt t offset).line

/-- The spaces and tabs that begin the line of a byte offset. -/
def indentAt (t : Text) (offset : Nat) : Text :=
  (lineText t (lineAt t offset)).takeWhile isIndentChar

theorem offsetAt_of_lineCount_le {t : Text} {p : Position} (h : lineCount t ≤ p.line) : offsetAt t p = size t := by
  simp [offsetAt, Nat.not_lt.mpr h]

end Text

end StyleHoist
