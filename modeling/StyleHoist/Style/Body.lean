import StyleHoist.Script.File
import StyleHoist.Style.Shape
import StyleHoist.Text.Lowercase
import StyleHoist.Text.Order

/-!
# Style bodies

The property list of a style, read on its own between braces. Every first-level property is either static, a key with a
literal value that can move to a registry, or dynamic, anything that has to be computed where the style is used.

- `staticTexts_append`, `dynamicTexts_append`: both parts of a list of properties keep its order.
- `dedent_of_no_newline`: a text of one line has no indentation to lose.
-/

namespace StyleHoist

open Script

/-! ## Reading -/

/-- A style body between the brackets in which it is read, and its properties. -/
structure StyleBody where
  wrapped : Text
  object : Span
  properties : List Node

/-- The text in which a body is read: an object literal in parentheses. -/
def wrapBody (body : Text) : Text :=
  "(\x7b".toList ++ body ++ "\x7d)".toList

/-- Reads a style body. Unlike a file it must be free of lesser faults, and it must be one object literal. -/
def StyleBody.read (body : Text) : Except SyntaxFault StyleBody :=
  let wrapped := wrapBody body
  match readScript true wrapped with
  | .error _ => .error (.unreadable "style.tsx")
  | .ok (_, true) => .error (.unreadable "style.tsx")
  | .ok (items, false) =>
    match items with
    | [.mk .expressionStatement _ [.mk .paren _ [.mk .object span properties]]] => .ok ⟨wrapped, span, properties⟩
    | _ => .error .notObject

/-- The source of a range of the body. -/
def StyleBody.slice (b : StyleBody) (s : Span) : Text :=
  (Text.slice? b.wrapped s.start s.stop).getD []

/-! ## Properties -/

/-- Whether a property can move to a registry. -/
inductive PropertyClass
  /-- A literal value under a key that is not computed. -/
  | static
  /-- Anything computed. -/
  | dynamic
deriving DecidableEq, Repr

/-- A first-level property as written, without the comma after it. -/
structure Property where
  text : Text
  kind : PropertyClass
deriving DecidableEq, Repr

/-- The class of a property. -/
def PropertyClass.of : Node → PropertyClass
  | .mk (.property (.keyed false)) _ [_, value] => if Shape.of value = .literal then .static else .dynamic
  | _ => .dynamic

/-- The indentation that all given lines share, blank lines aside. -/
def commonIndent (lines : List Text) : Nat :=
  match (lines.filter fun l => !Text.isBlank l).map fun l => (l.takeWhile Text.isIndentChar).length with
  | [] => 0
  | n :: ns => ns.foldl min n

/-- A line without at most `n` characters of its indentation. -/
def dropIndent (n : Nat) (line : Text) : Text :=
  line.drop (min (line.takeWhile Text.isIndentChar).length n)

/-- Takes the indentation that the lines after the first share off them. -/
def dedent (t : Text) : Text :=
  match Text.splitLines t with
  | [] => []
  | first :: rest => Text.joinLines (first :: rest.map (dropIndent (commonIndent rest)))

theorem dedent_of_no_newline {t : Text} (h : Text.splitLines t = [t]) : dedent t = t := by
  simp [dedent, h, Text.joinLines, Text.joinWith]

/-- A property of a body with its text dedented. -/
def StyleBody.property (b : StyleBody) (n : Node) : Property :=
  ⟨dedent (b.slice n.span), .of n⟩

/-- The first-level properties of a body, in order. A body that cannot be read has none. -/
def propertiesOf (body : Text) : List Property :=
  match StyleBody.read body with
  | .ok b => b.properties.map b.property
  | .error _ => []

/-- The texts of the static properties. -/
def staticTexts (ps : List Property) : List Text :=
  (ps.filter (·.kind = .static)).map (·.text)

/-- The texts of the dynamic properties. -/
def dynamicTexts (ps : List Property) : List Text :=
  (ps.filter (·.kind = .dynamic)).map (·.text)

theorem staticTexts_append (ps qs : List Property) : staticTexts (ps ++ qs) = staticTexts ps ++ staticTexts qs := by
  simp [staticTexts]

theorem dynamicTexts_append (ps qs : List Property) : dynamicTexts (ps ++ qs) = dynamicTexts ps ++ dynamicTexts qs := by
  simp [dynamicTexts]

/-! ## Order of static properties -/

/-- Characters that quote a key. -/
def isQuote (c : Char) : Bool :=
  c == '\x27' || c == '\x22'

/-- The key of a property in lower case and without quotes, by which properties are sorted. -/
def sortKey (property : Text) : Text :=
  lowercase (Text.dropEndWhile isQuote ((Text.trim (property.takeWhile (· != ':'))).dropWhile isQuote))

/-- Properties are ordered by key, and by their whole text where keys agree. -/
def propertyLe (a b : Text) : Bool :=
  if sortKey a == sortKey b then textLe a b else textLe (sortKey a) (sortKey b)

/-- A property without blanks around it and without commas at its end. -/
def trimProperty (property : Text) : Text :=
  Text.trimEnd (Text.dropEndWhile (· == ',') (Text.trim property))

/-- The texts of static properties as a registry takes them, sorted by name if asked. -/
def formatStatic (sorted : Bool) (properties : List Text) : List Text :=
  let kept := (properties.map trimProperty).filter fun p => !p.isEmpty
  if sorted then sortBy propertyLe kept else kept

end StyleHoist
