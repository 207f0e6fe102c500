import StyleHoist.Text.Key

/-!
# Comments

Comments are taken out of a style body before it is read and put back afterwards. A comment remembers the property that
it belongs to and where it stands relative to it; one that belongs to none is an orphan.

- `isOrphan_orphan`: an orphaned comment is an orphan.
-/

namespace StyleHoist

/-- The two notations for comments. -/
inductive CommentKind
  | line
  | block
deriving DecidableEq, Repr

/-- Where a comment stands relative to its property. -/
inductive Placement
  | before
  | after
  /-- On the line of the property. -/
  | sameLine
deriving DecidableEq, Repr

/-- A comment that has been taken out of a style body. -/
structure Comment where
  kind : CommentKind
  /-- What the comment says: trimmed for a line comment, verbatim for a block. -/
  text : Text
  /-- The line of its marker in the body, counted from 1. -/
  line : Nat
  /-- The column of its marker, in characters counted from 1. -/
  column : Nat
  /-- The line and column where a block ends that is not closed on its first line. -/
  ending : Option (Nat × Nat)
  /-- The property that the comment belongs to. -/
  property : Option Text
  placement : Placement
deriving DecidableEq, Repr

namespace Comment

/-- Whether the comment belongs to no property. -/
def isOrphan (c : Comment) : Bool :=
  c.property.isNone

/-- Whether the comment spans lines. -/
def isMultiLine (c : Comment) : Bool :=
  c.kind == .block && c.text.contains '\n'

/-- Whether the comment belongs to the property of this name and stands there relative to it. -/
def belongsTo (c : Comment) (name : Text) (placement : Placement) : Bool :=
  c.placement == placement && c.property == some name

/-- The comment without its property; it is kept at the top of what the property belongs to. -/
def orphan (c : Comment) : Comment :=
  { c with property := none, placement := .before }

theorem isOrphan_orphan (c : Comment) : c.orphan.isOrphan = true := rfl

end Comment

end StyleHoist
