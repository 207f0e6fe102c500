import StyleHoist.Import.Basic
import StyleHoist.Registry.Basic
import StyleHoist.Text.Edit

/-!
# Importing the factory

A text that declares a registry has to import the factory. If it does not mention it yet, an import of the components
gains it, or a new import is added.

- `importEdit_of_mentions`: a text that mentions the factory is left alone.
-/

namespace StyleHoist

/-- The module that the factory and the components come from. -/
def componentModule : Text := "react-native".toList

/-- The named list of a clause. -/
inductive NamedList
  | absent
  /-- The braces stand after `before` and around `inner`. -/
  | braces (before inner : Text)
  /-- All closing braces stand before the first opening one. -/
  | crossed
deriving DecidableEq, Repr

/-- Finds the named list of a clause, from its first opening brace to its last closing one. -/
def NamedList.of (clause : Text) : NamedList :=
  let before := clause.takeWhile (· != '\x7b')
  match clause.dropWhile (· != '\x7b') with
  | [] => .absent
  | _ :: behind =>
    if behind.contains '\x7d' then .braces before (Text.dropEndWhile (· != '\x7d') behind).dropLast
    else if before.contains '\x7d' then .crossed
    else .absent

/-- Whether a clause binds values by name, so that the factory can join them. -/
def bindsValues (clause : Text) : Bool :=
  !Text.beginsWith "type ".toList clause && !clause.contains '*'

/-- The clause that the factory can join: the first of the component module that binds values. -/
def joinableClause? (statements : List ImportStatement) : Option ImportClause :=
  ((statements.filter (·.source == componentModule)).filterMap (·.clause)).find? (bindsValues ·.text)

/-- What is written behind the last name of a list to add the factory. A list over several lines with a comma at its end
gets a line more. -/
def joiningText (inner : Text) : Text :=
  let names := Text.trimEnd inner
  if Text.endsWith [','] names then
    if inner.contains '\n' then
      let lastLine := names.reverse.takeWhile (· != '\n') |>.reverse
      '\n' :: lastLine.takeWhile Text.isBlankChar ++ registryFactory ++ [',']
    else ' ' :: registryFactory
  else ", ".toList ++ registryFactory

/-- The factory alone in braces. -/
def soleList : Text :=
  "\x7b ".toList ++ registryFactory ++ " \x7d".toList

/-- Why a text cannot be given the import. -/
inductive ImportFault
  /-- The braces of the clause to be joined are crossed. -/
  | crossedBraces
deriving DecidableEq, Repr

/-- The edit that adds the factory to a clause. -/
def ImportClause.join (c : ImportClause) : Except ImportFault Edit :=
  match NamedList.of c.text with
  | .absent => .ok (.insertion (c.start + Text.size c.text) (", ".toList ++ soleList))
  | .braces before inner =>
    let opening := c.start + Text.size before
    if Text.isBlank inner then .ok ⟨⟨opening, opening + Text.size inner + 2⟩, soleList⟩
    else .ok (.insertion (opening + 1 + Text.size (Text.trimEnd inner)) (joiningText inner))
  | .crossed => .error .crossedBraces

/-- A statement that imports the factory alone. -/
def importText : Text :=
  "import ".toList ++ soleList ++ " from '".toList ++ componentModule ++ "';".toList

/-- The edit that makes a text import the factory, unless it mentions it already. -/
def importEdit (t : Text) : Except ImportFault (Option Edit) :=
  if Text.mentions registryFactory t then .ok none
  else
    match joinableClause? (importsIn t) with
    | some clause => clause.join.map some
    | none =>
      match endOfImports? t with
      | some offset => .ok (some (.insertion offset ('\n' :: importText)))
      | none => .ok (some (.insertion 0 (importText ++ ['\n'])))

theorem importEdit_of_mentions {t : Text} (h : Text.mentions registryFactory t = true) : importEdit t = .ok none := by
  simp [importEdit, h]

end StyleHoist
