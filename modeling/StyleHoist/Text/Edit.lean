import StyleHoist.Text.Basic
import StyleHoist.Text.Order

/-!
# Edits

An edit replaces a range of a text. A batch of edits speaks of one text and is applied as a whole: if any edit is out of
bounds, splits a character or overlaps another, nothing is applied.
-/

namespace StyleHoist

/-- Replace `range` by `replacement`; an empty range inserts. -/
structure Edit where
  range : Span
  replacement : Text
deriving DecidableEq, Repr

/-- The edit that inserts at one offset. -/
def Edit.insertion (offset : Nat) (inserted : Text) : Edit :=
  ⟨⟨offset, offset⟩, inserted⟩

/-- Why a batch of edits is refused. -/
inductive EditError
  | outOfBounds (range : Span) (size : Nat)
  | splitsCharacter (range : Span)
  | overlaps (start : Nat)
deriving DecidableEq, Repr

/-- What a host is told. -/
def EditError.message : EditError → String
  | .outOfBounds r n => s!"Edit range {r.start}..{r.stop} is out of bounds for text of length {n}"
  | .splitsCharacter r => s!"Edit range {r.start}..{r.stop} splits a character"
  | .overlaps n => s!"Edit at {n} overlaps a previous edit"

/-- Edits apply by start, then by end; edits of one range keep their order in the batch. -/
def Edit.le (a b : Edit) : Bool :=
  a.range.start < b.range.start || (a.range.start == b.range.start && a.range.stop ≤ b.range.stop)

/-- The first fault of a batch in the order in which it applies, `done` being the end of the edit before. -/
def findEditError (t : Text) : Nat → List Edit → Option EditError
  | _, [] => none
  | done, e :: es =>
    if e.range.stop < e.range.start || Text.size t < e.range.stop then some (.outOfBounds e.range (Text.size t))
    else if !Text.isBoundary t e.range.start || !Text.isBoundary t e.range.stop then some (.splitsCharacter e.range)
    else if e.range.start < done then some (.overlaps e.range.start)
    else findEditError t e.range.stop es

/-- Carries out ordered edits on the text that starts at offset `done`. -/
def spliceEdits : Text → Nat → List Edit → Text
  | t, _, [] => t
  | t, done, e :: es =>
    Text.before t (e.range.start - done) ++ e.replacement
      ++ spliceEdits (Text.after t (e.range.stop - done)) e.range.stop es

/-- Applies a batch at once, or tells why it cannot be applied. -/
def applyEdits (t : Text) (edits : List Edit) : Except EditError Text :=
  let ordered := sortBy Edit.le edits
  match findEditError t 0 ordered with
  | some fault => .error fault
  | none => .ok (spliceEdits t 0 ordered)

end StyleHoist
