import StyleHoist.Script.Grammar.Basic

/-!
# Patterns

What may be bound or assigned to. A binding is read as a pattern at once. The target of an assignment and the parameters
of an arrow function are first read as values and judged afterwards, when the operator shows what they are.

- `judge_ident`: a plain word is a target in every form.
-/

namespace StyleHoist.Script

/-! ## Bindings -/

/-- A default after a pattern. -/
def withDefault (g : Knot) (start : Nat) (left : Node) : Read Node := do
  if ← eat .assign then
    let right ← inside (fun a => { a with allowIn := true }) (g .assignment)
    finish start .defaultPattern [left, right]
  else return left

/-- A pattern with an optional default. -/
def bindingElement (g : Knot) : Read Node := do
  let start ← offset
  let left ← g (.binding true)
  withDefault g start left

/-- The elements of an array pattern, whose bracket has been passed. -/
def arrayBinding (g : Knot) (start : Nat) : Read Node := do
  let elements ← iterate
    (fun (found, restSeen) => do
      if ← eat .rbracket then return .inr found.reverse
      if ← eat .comma then return .inl (found, restSeen)
      flawIf restSeen
      let at_ ← offset
      let isRest ← eat .ellipsis
      let element ←
        if isRest then do
          let inner ← g (.binding true)
          finish at_ .restPattern [inner]
        else bindingElement g
      unless ← atPunct .rbracket do
        expect .comma
        if isRest then flawIf (← atPunct .rbracket)
      return .inl (element :: found, isRest))
    (([] : List Node), false)
  finish start .pattern elements

/-- One property of an object pattern. -/
def propertyBinding (g : Knot) : Read Node := do
  let start ← offset
  if ← eat .ellipsis then
    let inner ← g (.binding true)
    finish start .restPattern [inner]
  else
    let key ← propertyKey g
    if ← eat .colon then
      let value ← bindingElement g
      finish start .form [key, value]
    else
      match key.kind with
      | .ident w =>
        if ← atPunct .assign then withDefault g start key
        else
          flawIf (Role.ofWord w).isReserved
          return key
      | _ => fail

/-- The properties of an object pattern, whose brace has been passed. -/
def objectBinding (g : Knot) (start : Nat) : Read Node := do
  let props ← listUntil .rbrace (propertyBinding g)
  let isRest := fun n : Node => n.kind == .restPattern
  flawIf (props.dropLast.any isRest)
  match props.getLast? with
  | some (.mk .restPattern _ [.mk (.ident _) _ _]) => pure ()
  | some (.mk .restPattern _ _) => fail
  | _ => pure ()
  finish start .pattern props

/-- A name or pattern that is bound. -/
def binding (g : Knot) (letAllowed : Bool) : Read Node := do
  let start ← offset
  match ← token with
  | .word _ _ => boundName letAllowed
  | .punct .lbracket =>
    bump
    let n ← arrayBinding g start
    if (← around).inDeclaration then let _ ← eat .question
    return n
  | .punct .lbrace =>
    bump
    let n ← objectBinding g start
    if (← around).inDeclaration then let _ ← eat .question
    return n
  | _ => fail

/-! ## Values as targets -/

/-- The places in which a value is judged as a target. -/
inductive TargetForm
  /-- Parameters of an arrow function. -/
  | parameter
  | parameterElement
  /-- The left side of an assignment. -/
  | assigned
  | assignedElement
deriving DecidableEq

/-- The form of the parts of a pattern. -/
def TargetForm.element : TargetForm → TargetForm
  | .parameter | .parameterElement => .parameterElement
  | .assigned | .assignedElement => .assignedElement

/-- Whether strict code may assign to a node that is no pattern. -/
def isSimpleTarget (n : Node) : Bool :=
  match n.look.kind with
  | .ident _ => !isSpecialName n.look
  | .member | .superMember | .typedAs | .nonNull | .assertion | .instantiation => true
  | _ => false

/-- Whether a node that is no pattern can stand left of an assignment at all. -/
def canBeAssigned (n : Node) : Bool :=
  match n.kind with
  | .ident _ | .member | .superMember | .paren | .optionalChain | .typedAs | .nonNull | .assertion | .instantiation
  | .pattern | .object | .array | .invalid => true
  | _ => false

mutual

/-- How a node fares as a target. -/
def judge (form : TargetForm) : Node → Verdict
  | .mk kind span parts =>
    match kind with
    | .hole | .assignment => .fine
    | .spread => judgeLast form parts
    | .object => judgeProperties form.element parts
    | .array => judgeElements form.element parts
    | .ident _ =>
      if form = .assigned ∨ form = .assignedElement then .flawedUnless (!isSpecialName (.mk kind span parts)) else .fine
    | _ =>
      if form = .assigned ∨ form = .assignedElement then
        .flawedUnless (isSimpleTarget (.mk kind span parts))
      else .flawed

/-- How the last part fares. -/
def judgeLast (form : TargetForm) : List Node → Verdict
  | [] => .fine
  | [p] => judge form p
  | _ :: p :: ps => judgeLast form (p :: ps)

/-- How the properties of an object literal fare as a pattern; a spread has to be the last. -/
def judgeProperties (form : TargetForm) : List Node → Verdict
  | [] => .fine
  | p :: ps => (judgeProperty form ps.isEmpty p).and (judgeProperties form ps)

/-- How one property fares. The parameters of a function spread into a name only. -/
def judgeProperty (form : TargetForm) (isLast : Bool) : Node → Verdict
  | .mk kind _ parts =>
    match kind with
    | .property .shorthand | .property .defaulted => .fine
    | .property (.keyed _) => judgeLast form parts
    | .spread =>
      (Verdict.flawedUnless isLast).and
        (if form = .parameterElement then .flawedUnless (parts.all fun p => p.kind matches .ident _)
        else judgeLast form parts)
    | _ => .refused

/-- How the elements of an array literal fare as a pattern; a spread has to be the last. -/
def judgeElements (form : TargetForm) : List Node → Verdict
  | [] => .fine
  | p :: ps =>
    ((Verdict.flawedUnless (p.kind != .spread || ps.isEmpty)).and (judge form p)).and (judgeElements form ps)

end

theorem judge_ident (form : TargetForm) (s : Span) : judge form (.mk (.ident []) s []) = .fine := by
  cases form <;> simp [judge, isSpecialName, Node.isIdent, Node.kind, Verdict.flawedUnless]

end StyleHoist.Script
