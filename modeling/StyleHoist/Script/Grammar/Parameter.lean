import StyleHoist.Script.Grammar.Pattern

/-!
# Parameters

The parameters of functions, methods and function types.
-/

namespace StyleHoist.Script

/-- A type after a colon, if there is one. -/
def typeAnnotation (g : Knot) : Read (List Node) := do
  if ← eat .colon then return [← g .type] else return []

/-- Passes the modifiers by which a parameter of a constructor declares a member; they are never misplaced. -/
def eatMemberModifiers : Read Bool := do
  let _ ← eatModifier [.kwPublic, .kwPrivate, .kwProtected, .kwOverride, .kwReadonly]
  let _ ← eatModifier [.kwOverride, .kwReadonly]
  let _ ← eatModifier [.kwOverride, .kwReadonly]
  return false

/-- One parameter. Those of a constructor may declare members. -/
def parameter (g : Knot) (ofConstructor : Bool) : Read Node := do
  let misplaced ← if ofConstructor then eatMemberModifiers else eatAccess
  let at_ ← offset
  if ← eat .ellipsis then
    let inner ← g (.binding true)
    let default ←
      if ← eat .assign then
        flaw
        List.singleton <$> g .assignment
      else pure []
    let annotation ← typeAnnotation g
    flawIf (← eat .question)
    finish at_ .restPattern (inner :: default ++ annotation)
  else
    let inner ← g (.binding true)
    let optional ← eat .question
    let annotation ← typeAnnotation g
    let plain ←
      if annotation.isEmpty then pure inner
      else
        match inner.kind with
        | .ident _ => pure inner
        | _ => finish at_ .pattern (inner :: annotation)
    let n ←
      if ← eat .assign then do
        flawIf optional
        let right ← g .assignment
        flawIf (← around).inDeclaration
        finish at_ .defaultPattern [inner, right]
      else pure plain
    flawIf misplaced
    return n

/-- Whether a parameter is named `this`. -/
def isThis (n : Node) : Bool :=
  n.isIdent "this".toList

/-- The parameters between parentheses. A rest parameter has to be the last, without a comma. -/
def parameters (g : Knot) (ofConstructor : Bool := false) : Read (List Node) := do
  expect .lparen
  iterate
    (fun (found, restSeen) => do
      if ← eat .rparen then return .inr found.reverse
      flawIf restSeen
      let p ← parameter g ofConstructor
      let isRest := p.kind == .restPattern
      unless ← atPunct .rparen do
        expect .comma
        if isRest then flawIf (← atPunct .rparen)
      return .inl (p :: found, restSeen || isRest))
    (([] : List Node), false)

end StyleHoist.Script
