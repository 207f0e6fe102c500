import StyleHoist.Style.Site
import StyleHoist.Text.LineIndex
import StyleHoist.Text.Order

/-!
# Style targets

The style literals that can be extracted: objects given as a whole style attribute and objects in an array given as one.
They are found in bulk or from a cursor.

- `not_isEmpty_of_mem_findAll`: a bulk search lists no empty literal.
-/

namespace StyleHoist

/-- What an edit replaces: a whole attribute, or one object of an array. -/
inductive TargetKind
  | wholeAttribute
  | arrayElement
deriving DecidableEq, Repr

/-- The indentation of the line on which a target starts; two deeper levels are used below it. -/
structure Indentation where
  base : Text
deriving DecidableEq, Repr

/-- The indentation of the elements of an array. -/
def Indentation.array (i : Indentation) : Text := i.base ++ ['\t']

/-- The indentation of the properties of an object in an array. -/
def Indentation.object (i : Indentation) : Text := i.base ++ ['\t', '\t']

/-- A style literal that can be extracted. -/
structure StyleTarget where
  /-- What the edit replaces. -/
  range : Span
  kind : TargetKind
  /-- The property list between the braces, without blanks around it. -/
  body : Text
  indent : Indentation
deriving DecidableEq, Repr

/-- Whether there is nothing to extract. -/
def StyleTarget.isEmpty (t : StyleTarget) : Bool :=
  t.body.isEmpty || t.body == "\x7b\x7d".toList

/-- The target that replaces `range` and takes its properties from the object literal at `object`. -/
def StyleTarget.make (text : Text) (range object : Span) (kind : TargetKind) : StyleTarget where
  range
  kind
  body := Text.trim ((Text.slice? text (object.start + 1) (object.stop - 1)).getD [])
  indent := ⟨Text.indentAt text range.start⟩

/-! ## In bulk -/

/-- The targets of a site, in order. -/
def Site.targets (text : Text) (s : Site) : List StyleTarget :=
  match s.content with
  | .object object => [.make text s.attr object .wholeAttribute]
  | .array objects => objects.map fun object => .make text object object .arrayElement
  | .member | .other => []

/-- Every style literal that is not empty, in order. -/
def findAll (sites : Sites) (text : Text) : List StyleTarget :=
  (sites.sites.flatMap (Site.targets text)).filter fun t => !t.isEmpty

theorem not_isEmpty_of_mem_findAll {sites : Sites} {text : Text} {t : StyleTarget} (h : t ∈ findAll sites text) :
    t.isEmpty = false := by
  simpa using (List.mem_filter.1 h).2

/-! ## From a cursor -/

/-- What a cursor points at. -/
inductive Located
  | target (t : StyleTarget)
  /-- A reference to a style that has been extracted already. -/
  | reference
  | nothing
deriving DecidableEq, Repr

/-- What a site says about a cursor inside its value. -/
def Site.locate? (text : Text) (offset : Nat) (s : Site) : Option Located :=
  if s.value.touches offset then
    match s.content with
    | .member => some .reference
    | .object object => some (.target (.make text s.attr object .wholeAttribute))
    | .array objects =>
      (objects.find? (·.touches offset)).map fun object => .target (.make text object object .arrayElement)
    | .other => none
  else none

/-- The first target of a site. -/
def Site.firstTarget? (text : Text) (s : Site) : Option StyleTarget :=
  (s.targets text).head?

/-- Deeper elements come first, and of equally deep ones those that start later. -/
def elementLe (a b : Nat × ElementRange) : Bool :=
  b.2.depth < a.2.depth || (a.2.depth == b.2.depth && b.2.range.start ≤ a.2.range.start)

/-- The elements around a cursor with their numbers, in the order in which they are tried. -/
def elementsAround (sites : Sites) (offset : Nat) : List (Nat × ElementRange) :=
  sortBy elementLe
    (((List.range sites.elements.length).zip sites.elements).filter fun e => e.2.range.touches offset)

/-- The style literal under a cursor. A site whose value holds the cursor decides. Otherwise the elements around the
cursor are tried, and the first object literal among their own style attributes is taken. -/
def findAt (sites : Sites) (text : Text) (offset : Nat) : Located :=
  match sites.sites.findSome? (Site.locate? text offset) with
  | some found => found
  | none =>
    let own := fun (e : Nat × ElementRange) =>
      (sites.sites.filter fun s => s.element == some e.1).findSome? (Site.firstTarget? text)
    match (elementsAround sites offset).findSome? own with
    | some t => .target t
    | none => .nothing

end StyleHoist
