import StyleHoist.Import.Basic
import StyleHoist.Registry.Basic
import StyleHoist.Text.Edit

/-!
# Adding entries

Entries are added at the end of a registry, or a new registry is declared for them.

- `insertEntries_isInsertion`: entries are added by an insertion.
- `range_createRegistry`: so is a registry.
-/

namespace StyleHoist

/-! ## Into a registry -/

/-- The entries of a registry without the white space behind them. -/
def Registry.content (r : Registry) : Text :=
  Text.trimEnd r.body

/-- Whether a comma has to be written before new entries: the body is not blank and does not end in one. -/
def Registry.needsComma (r : Registry) : Bool :=
  !Text.isBlank r.content && !Text.endsWith [','] r.content

/-- The white space behind the entries. -/
def Registry.margin (r : Registry) : Text :=
  r.body.drop r.content.length

/-- The edit that adds entries behind the last one of a registry. -/
def Registry.insertEntries (r : Registry) (entries : List Text) : Edit :=
  .insertion (r.closeBrace - Text.size r.margin)
    ((if r.needsComma then [','] else []) ++ '\n' :: Text.joinLines entries
      ++ if r.margin.contains '\n' then [] else ['\n'])

/-! ## A new registry -/

/-- Where a new registry is declared. -/
inductive InsertionPolicy
  | top
  | bottom
  | afterImports
deriving DecidableEq, Repr

/-- The declaration of a registry. -/
def declarationText (name : Text) (entries : List Text) : Text :=
  "const ".toList ++ name ++ " = ".toList ++ registryFactory ++ ".create(\x7b\n".toList ++ Text.joinLines entries
    ++ "\n\x7d);".toList

/-- The edit that declares a registry. Where there are no imports to stand after it goes to the top. -/
def createRegistry (text name : Text) (entries : List Text) (policy : InsertionPolicy) : Edit :=
  let declaration := declarationText name entries
  let atTop := Edit.insertion 0 (declaration ++ "\n\n".toList)
  match policy with
  | .top => atTop
  | .bottom =>
    let gap := if text.isEmpty || Text.endsWith ['\n'] text then ['\n'] else "\n\n".toList
    .insertion (Text.size text) (gap ++ declaration ++ ['\n'])
  | .afterImports =>
    match endOfImports? text with
    | some offset => .insertion offset ("\n\n".toList ++ declaration)
    | none => atTop

theorem insertEntries_isInsertion (r : Registry) (entries : List Text) :
    (r.insertEntries entries).range.start = (r.insertEntries entries).range.stop := rfl

theorem range_createRegistry (text name : Text) (entries : List Text) (policy : InsertionPolicy) :
    (createRegistry text name entries policy).range.start = (createRegistry text name entries policy).range.stop := by
  simp only [createRegistry]
  split
  · rfl
  · rfl
  · split <;> rfl

end StyleHoist
