import StyleHoist.Script.Node

/-!
# Shapes of values

The few shapes of values that matter for styles. Parentheses are looked through. A literal is a string, a number, a
Boolean or null, or a number with a sign.

- `Shape.of_paren`: parentheses do not change a shape.
-/

namespace StyleHoist

open Script

/-- The shapes of values that styles tell apart. -/
inductive Shape
  | object
  | array
  | member
  | literal
  | other
deriving DecidableEq, Repr

/-- The shape of a value that is not in parentheses. -/
def Shape.ofBare : Node → Shape
  | .mk .object _ _ => .object
  | .mk .array _ _ => .array
  | .mk .member _ _ => .member
  | .mk .string _ _ | .mk .number _ _ | .mk .boolean _ _ | .mk .null _ _ => .literal
  | .mk .signed _ [.mk .number _ _] => .literal
  | _ => .other

/-- The shape of a value. -/
def Shape.of (n : Node) : Shape :=
  .ofBare n.look

theorem Shape.of_paren (s : Span) (n : Node) : Shape.of (.mk .paren s [n]) = Shape.of n := by
  simp [Shape.of, Node.look_paren]

end StyleHoist
