import StyleHoist.Comment.Restore
import StyleHoist.Style.Target

/-!
# Entries and what replaces a style

A style that is moved leaves two texts: the entry in the registry, which holds its static properties, and the expression
at the place of use, which refers to the entry and keeps the dynamic properties.

- `entryText_of_no_comments`: an entry without comments does not depend on whether comments are kept.
- `useText_static`: with nothing dynamic a plain reference is left.
-/

namespace StyleHoist

/-! ## Properties -/

/-- Whether a line begins with a comment. -/
def isCommentLine (line : Text) : Bool :=
  let t := Text.trimStart line
  Text.beginsWith "//".toList t || Text.beginsWith "/*".toList t || Text.beginsWith "*".toList t

/-- Appends to the last line of a text. -/
def appendToLast (ending : Text) : List Text → List Text
  | [] => []
  | [l] => [l ++ ending]
  | l :: ls => l :: appendToLast ending ls

/-- A property on lines of its own, with a comma and the comment behind it. A lone comment line gets no comma. -/
def propertyText (indent code : Text) (trailing : Option Text) : Text :=
  match Text.splitLines code with
  | [line] =>
    if isCommentLine line then indent ++ Text.trim line
    else Text.trimEnd (indent ++ line) ++ ending
  | lines => Text.joinLines (appendToLast ending (lines.map fun l => Text.trimEnd (indent ++ l)))
where
  /-- The comma and the comment behind it. -/
  ending : Text :=
    match trailing with
    | some comment => ", ".toList ++ comment
    | none => [',']

/-! ## Entries -/

/-- The indentation of the properties of an entry. -/
def entryIndent : Text := "\t\t".toList

/-- An entry of a registry without comments. -/
def bareEntryText (name : Text) (properties : List Text) : Text :=
  '\t' :: name ++ ": \x7b\n".toList
    ++ Text.joinLines (properties.map fun p => propertyText entryIndent p none)
    ++ "\n\t\x7d,".toList

/-- An entry of a registry, with its comments if they are kept. -/
def entryText (name : Text) (properties : List Text) (comments : List Comment) (keepComments : Bool) : Text :=
  let entry := bareEntryText name properties
  if keepComments && !comments.isEmpty then restoreEntry entry comments else entry

theorem entryText_of_no_comments (name : Text) (properties : List Text) (keepComments : Bool) :
    entryText name properties [] keepComments = bareEntryText name properties := by
  simp [entryText]

/-! ## Places of use -/

/-- A line of what stays at the place of use. -/
def InlineLine.render (indent : Text) : InlineLine → Text
  | .comment text => indent ++ text
  | .property code trailing => propertyText indent code trailing

/-- An array of a reference and an object with the lines that stay. -/
def composedText (reference : Text) (lines : List InlineLine) (indent : Indentation) : Text :=
  "[\n".toList ++ indent.array ++ reference ++ ",\n".toList
    ++ indent.array ++ "\x7b\n".toList
    ++ Text.joinLines (lines.map (·.render indent.object))
    ++ '\n' :: indent.array ++ "\x7d,\n".toList
    ++ indent.base ++ [']']

/-- The expression that takes the place of a style: a reference, composed with what stays if anything does. -/
def useExpression (reference : Text) (lines : List InlineLine) (indent : Indentation) : Text :=
  if lines.isEmpty then reference else composedText reference lines indent

/-- A reference to an entry. -/
def referenceText (registry entry : Text) : Text :=
  registry ++ '.' :: entry

/-- What replaces a style target. -/
def useText (registry entry : Text) (lines : List InlineLine) (indent : Indentation) : TargetKind → Text
  | .wholeAttribute => "style=\x7b".toList ++ useExpression (referenceText registry entry) lines indent ++ ['\x7d']
  | .arrayElement => useExpression (referenceText registry entry) lines indent

theorem useText_static (registry entry : Text) (indent : Indentation) :
    useText registry entry [] indent .arrayElement = referenceText registry entry := rfl

end StyleHoist
