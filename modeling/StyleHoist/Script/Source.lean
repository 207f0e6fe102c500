import StyleHoist.Script.Grammar.Module

/-!
# Sources

The knot of the grammar, and the two ways in which the engine reads a script: a whole file, whose lesser faults are
passed over, and the property list of a style, which has to be free of any fault.
-/

namespace StyleHoist.Script

/-! ## The knot -/

/-- Reads what a rule asks for, with rules nested at most `depth` deep. -/
def read : (depth : Nat) → Knot
  | 0, _ => fail
  | depth + 1, goal =>
    let g := read depth
    match goal with
    | .moduleItem => moduleItem g
    | .item => statement g true
    | .statement => statement g false
    | .expression => expression g
    | .assignment => assignment g
    | .unary => unary g
    | .leftHand => leftHand g
    | .binaryRest left power => binaryRest g left power
    | .construct => construct g
    | .type => anyType g
    | .plainType => plainType g
    | .operatorType => operatorType g
    | .binding letAllowed => binding g letAllowed
    | .markup nested => markup g nested

/-- The items of a module up to the end of its text. -/
def moduleItems (g : Knot) : Read (List Node) :=
  collect do
    if (← token) == .endOfText then return none
    some <$> g .moduleItem

/-- A depth that no script with a text of this length exceeds. -/
def depthFor (t : Text) : Nat :=
  16 * t.length + 64

/-- Skips the line that names an interpreter, keeping its place in the text. -/
def afterInterpreter (t : Text) : Nat × Text :=
  match t with
  | '#' :: '!' :: _ => takeBytes (fun c => !isLineEnd c) 0 t
  | _ => (0, t)

/-- The items of a script, and whether it has lesser faults. -/
def readScript (markup : Bool) (t : Text) : Except Fault (List Node × Bool) :=
  let (skipped, rest) := afterInterpreter t
  match moduleItems (read (depthFor t)) (.startingAt skipped rest { markup }) with
  | .ok items s => .ok (items, s.flawed)
  | .error fault _ => .error fault

end StyleHoist.Script
