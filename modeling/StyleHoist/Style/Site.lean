import StyleHoist.Style.Shape

/-!
# Style sites

The places of a script where a style is given: the attributes named `style` whose value is an expression. One visit of
the script collects them together with the elements, in the order in which a reader meets them.

- `visitAll_append`: a list of nodes is visited one after the other.
-/

namespace StyleHoist

open Script

/-- The value of a style attribute, as far as it matters for finding styles. -/
inductive SiteValue
  | object (range : Span)
  /-- The object literals among the elements of an array. -/
  | array (objects : List Span)
  | member
  | other
deriving DecidableEq, Repr

/-- A style attribute. -/
structure Site where
  attr : Span
  /-- The range of the expression in braces. -/
  value : Span
  content : SiteValue
  /-- The number of the innermost element around it, in the order of elements. -/
  element : Option Nat
deriving DecidableEq, Repr

/-- An element and how many elements are around it. -/
structure ElementRange where
  range : Span
  depth : Nat
deriving DecidableEq, Repr

/-- What a visit of a script collects. -/
structure Sites where
  sites : List Site := []
  elements : List ElementRange := []
deriving DecidableEq, Repr

/-- The range of an object literal among array elements. -/
def objectElement? (n : Node) : Option Span :=
  if Shape.of n = .object then some n.look.span else none

/-- What matters of the value of a style attribute. -/
def SiteValue.of (n : Node) : SiteValue :=
  match Shape.of n with
  | .object => .object n.look.span
  | .array => .array (n.look.parts.filterMap objectElement?)
  | .member => .member
  | .literal | .other => .other

/-- The style site that a node is, if it is one. -/
def siteOf? (owner : Option Nat) : Node → Option Site
  | .mk (.tagAttribute (some name)) span [.mk .container _ [value]] =>
    if name == "style".toList then some ⟨span, value.span, .of value, owner⟩ else none
  | _ => none

mutual

/-- Visits a node inside the element `owner`, which is `depth` elements deep. -/
def visit (owner : Option Nat) (depth : Nat) (found : Sites) : Node → Sites
  | .mk .element span parts =>
    visitAll (some found.elements.length) (depth + 1) { found with elements := found.elements ++ [⟨span, depth⟩] } parts
  | .mk kind span parts =>
    visitAll owner depth
      { found with sites := found.sites ++ (siteOf? owner (.mk kind span parts)).toList } parts

/-- Visits nodes one after the other. -/
def visitAll (owner : Option Nat) (depth : Nat) (found : Sites) : List Node → Sites
  | [] => found
  | n :: ns => visitAll owner depth (visit owner depth found n) ns

end

theorem visitAll_append (owner : Option Nat) (depth : Nat) (ms ns : List Node) : ∀ found : Sites,
    visitAll owner depth found (ms ++ ns) = visitAll owner depth (visitAll owner depth found ms) ns := by
  induction ms with
  | nil => intro found; simp [visitAll]
  | cons m ms ih => intro found; simp [visitAll, ih]

/-- The style sites and elements of a script. -/
def Sites.of (items : List Node) : Sites :=
  visitAll none 0 {} items

end StyleHoist
