import StyleHoist.Text.Basic
import StyleHoist.Text.Word

/-!
# Import statements

Import statements are recognised at the start of lines in the text alone, also in one that does not parse. A clause runs
from the keyword to the first place where a module name can follow.
-/

namespace StyleHoist

/-- What an import statement binds, and the offset at which that stands. -/
structure ImportClause where
  start : Nat
  text : Text
deriving DecidableEq, Repr

/-- An import statement. -/
structure ImportStatement where
  /-- Nothing if the statement imports for its effects only. -/
  clause : Option ImportClause
  source : Text
  /-- The offset just past the statement. -/
  stop : Nat
deriving DecidableEq, Repr

/-! ## Parts -/

/-- Quotes around a module name; they need not agree. -/
def quotesSource (c : Char) : Bool :=
  c == '\x27' || c == '\x22'

/-- The quoted name that begins a text, and what follows it. -/
def sourcePart? : Text → Option (Text × Text)
  | [] => none
  | c :: t =>
    let name := t.takeWhile fun d => !quotesSource d
    match t.dropWhile fun d => !quotesSource d with
    | _ :: rest => if quotesSource c && !name.isEmpty then some (name, rest) else none
    | [] => none

/-- The module name behind the keyword that ends a clause, and what follows the name. -/
def fromPart? (t : Text) : Option (Text × Text) :=
  (Text.dropPart? "from".toList (Text.trimStart t)).bind fun rest => sourcePart? (Text.trimStart rest)

/-- Characters that may stand in a clause. -/
def isClauseChar (c : Char) : Bool :=
  isWordChar c || Text.isBlankChar c || ['$', '*', '\x7b', '\x7d', ','].contains c

/-- The shortest clause that begins a text, the module name behind it, and what follows the name. -/
def clausePart? : Text → Option (Text × Text × Text)
  | [] => none
  | c :: t =>
    if isClauseChar c then
      match fromPart? t with
      | some found => some ([c], found)
      | none => (clausePart? t).map fun p => (c :: p.1, p.2)
    else none

/-- An import statement as it is read: the blanks before its clause, the clause, the module name, and what follows. -/
structure ImportPart where
  gap : Text
  clause : Option Text
  source : Text
  rest : Text

/-- Reads on after the keyword. A clause may be a lone blank, if another blank stands before it. -/
def importBody? (t : Text) : Option ImportPart :=
  let gap := t.takeWhile Text.isBlankChar
  let rest := Text.trimStart t
  if gap.isEmpty then none
  else
    match clausePart? rest, sourcePart? rest, fromPart? rest with
    | some (clause, source, rest), _, _ => some ⟨gap, some clause, source, rest⟩
    | none, some (source, rest), _ => some ⟨gap, none, source, rest⟩
    | none, none, some (source, rest) =>
      if 2 ≤ gap.length then some ⟨gap.dropLast, gap.getLast?.map ([·]), source, rest⟩ else none
    | none, none, none => none

/-- Blanks and one semicolon behind a statement are taken off. -/
def dropTerminator (t : Text) : Text :=
  match t.dropWhile Text.isIndentChar with
  | ';' :: rest => rest
  | rest => rest

/-- The import statement that begins a line which stands at `offset`, and what follows it. -/
def importAt? (offset : Nat) (line : Text) : Option (ImportStatement × Text) := do
  let rest ← Text.dropPart? "import".toList (line.dropWhile Text.isIndentChar)
  let part ← importBody? rest
  let ending := dropTerminator part.rest
  let clauseStart := offset + (Text.size line - Text.size rest) + Text.size part.gap
  let finish := offset + (Text.size line - Text.size ending)
  return (⟨part.clause.map fun c => ⟨clauseStart, c⟩, part.source, finish⟩, ending)

/-! ## Texts -/

/-- The import statements of a text that stands at `offset`, after the first `skip` characters. A statement begins only
where `lineStart` holds. -/
def importsFrom : (skip : Nat) → (lineStart : Bool) → (offset : Nat) → Text → List ImportStatement
  | _, _, _, [] => []
  | skip + 1, _, offset, c :: t => importsFrom skip (c == '\n') (offset + c.utf8Size) t
  | 0, lineStart, offset, c :: t =>
    match if lineStart then importAt? offset (c :: t) else none with
    | some (statement, rest) =>
      statement :: importsFrom (t.length - rest.length) (c == '\n') (offset + c.utf8Size) t
    | none => importsFrom 0 (c == '\n') (offset + c.utf8Size) t

/-- Every import statement of a text, in order. -/
def importsIn (t : Text) : List ImportStatement :=
  importsFrom 0 true 0 t

/-- The offset just past the last import statement. -/
def endOfImports? (t : Text) : Option Nat :=
  (importsIn t).getLast?.map (·.stop)

end StyleHoist
