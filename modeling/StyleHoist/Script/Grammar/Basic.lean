import StyleHoist.Script.Read

/-!
# The frame of the grammar

The rules of the grammar call each other in circles. Each rule is therefore written over a `Knot`, which reads what
other rules would read; `Script.Source` ties the knot. This module also reads names and the keys of properties.

- `Verdict.and_refused`: one refused part refuses the whole.
-/

namespace StyleHoist.Script

/-- What a rule may ask the rest of the grammar for. -/
inductive Goal
  /-- A statement, import or export of a module. -/
  | moduleItem
  /-- A statement or declaration. -/
  | item
  /-- A statement where a declaration does not belong. -/
  | statement
  /-- Values separated by commas. -/
  | expression
  /-- One value. -/
  | assignment
  | unary
  /-- A value to which calls and members may be attached. -/
  | leftHand
  /-- What binary operators that bind tighter than `power` add to `left`. -/
  | binaryRest (left : Node) (power : Nat)
  /-- What stands after `new`. -/
  | construct
  | type
  /-- A type that is no conditional type. -/
  | plainType
  /-- A type with the operators before it. -/
  | operatorType
  /-- A name or pattern that is bound. -/
  | binding (letAllowed : Bool)
  /-- Markup, which may stand inside other markup. -/
  | markup (nested : Bool)

/-- The rest of the grammar. -/
abbrev Knot := Goal → Read Node

/-! ## Verdicts -/

/-- How a finished node fares where it has to be something else than it was read as. -/
inductive Verdict
  | fine
  | flawed
  | refused
deriving DecidableEq

/-- The worse of two verdicts. -/
def Verdict.and : Verdict → Verdict → Verdict
  | .refused, _ => .refused
  | _, .refused => .refused
  | .flawed, _ => .flawed
  | _, .flawed => .flawed
  | .fine, .fine => .fine

theorem Verdict.and_refused (v : Verdict) : v.and .refused = .refused := by
  cases v <;> rfl

/-- A flaw unless the condition holds. -/
def Verdict.flawedUnless (b : Bool) : Verdict :=
  if b then .fine else .flawed

/-- Acts on a verdict. -/
def Verdict.enforce : Verdict → Read Unit
  | .fine => pure ()
  | .flawed => flaw
  | .refused => fail

/-! ## Lists -/

/-- Reads parts between commas up to a closing punctuator, which is passed. A comma may stand before it. -/
def listUntil (close : Punct) (part : Read Node) : Read (List Node) :=
  collect do
    if ← eat close then return none
    let n ← part
    unless ← atPunct close do expect .comma
    return some n

/-! ## Names -/

/-- Any word. -/
def anyWord : Read Node := do
  let start ← offset
  match ← token with
  | .word _ name =>
    bump
    finish start (.ident name) []
  | _ => fail

/-- A word that can name something. Strict code forbids some of them, and `await` is none. -/
def name : Read Node := do
  match ← token with
  | .word r _ =>
    if r == .kwAwait then
      unless (← around).inDeclaration do fail
      anyWord
    else if r.isReserved && r != .kwThis then fail
    else
      flawIf r.isStrictReserved
      anyWord
  | _ => fail

/-- Names that strict code may neither bind nor assign to. -/
def isSpecialName (n : Node) : Bool :=
  n.isIdent "eval".toList || n.isIdent "arguments".toList

/-- A name that is bound. -/
def boundName (letAllowed : Bool) : Read Node := do
  if !letAllowed && (← atRole .kwLet) then fail
  let n ← name
  flawIf (isSpecialName n)
  return n

/-- Whether the current token can name something. -/
def atName : Read Bool := return (← token).isName

/-- A private name after its mark. -/
def privateName : Read Node := do
  let start ← offset
  expect .hash
  flawIf ((← offset) != start + 1)
  let w ← anyWord
  flawIf (w.isIdent "constructor".toList)
  finish start .privateName []

/-! ## Keys -/

/-- The key of a property: a word, a string, a number, or a value between brackets. -/
def propertyKey (g : Knot) : Read Node := do
  let start ← offset
  match ← token with
  | .word _ _ => anyWord
  | .string =>
    bump
    finish start .string []
  | .number =>
    bump
    finish start .number []
  | .bigint =>
    bump
    finish start .bigint []
  | .punct .lbracket =>
    bump
    let key ← inside (fun a => { a with allowIn := true }) (g .assignment)
    let more ← collect do
      if ← eat .comma then some <$> inside (fun a => { a with allowIn := true }) (g .assignment) else return none
    flawIf (!more.isEmpty)
    expect .rbracket
    finish start .computedKey (key :: more)
  | _ => fail

/-- The key of a class member, which may be private. -/
def memberKey (g : Knot) : Read Node := do
  if ← atPunct .hash then privateName else propertyKey g

/-! ## Modifiers -/

/-- Whether the token after the current one lets the current word be a modifier. -/
def canFollowModifier : Read Bool := do
  let next ← peek
  if next.newline then return false
  match next.token with
  | .punct .lbracket | .punct .lbrace | .punct .star | .punct .ellipsis | .punct .hash | .string | .number | .bigint
  | .word _ _ => return true
  | _ => return false

/-- Passes one of the given modifiers if it is used as one. -/
def eatModifier (roles : List Role) : Read (Option Role) := do
  let r ← role
  if roles.contains r && r != .plain then
    if r == .kwStatic && (← peekPunct .lbrace) then return none
    if ← canFollowModifier then
      bump
      return some r
  return none

/-- Passes the modifier of a parameter or property if there is one. -/
def eatAccess : Read Bool := do
  match ← role with
  | .kwPublic | .kwProtected | .kwPrivate | .kwReadonly =>
    match (← peek).token with
    | .word _ _ | .punct .lbrace | .punct .lbracket =>
      let _ ← eatModifier [.kwPublic, .kwProtected, .kwPrivate, .kwReadonly]
      return true
    | _ => return false
  | _ => return false

end StyleHoist.Script
