import StyleHoist.Script.Grammar.Declaration

/-!
# Statements

Statements and the declarations that may stand among them.
-/

namespace StyleHoist.Script

/-- What a loop changes in the surroundings of its body. -/
def Surroundings.loopBody (a : Surroundings) : Surroundings :=
  { a with breakAllowed := true, continueAllowed := true }

/-- A value between parentheses after a word. -/
def headValue (g : Knot) : Read Node := do
  expect .lparen
  let n ← inside (fun a => { a with allowIn := true }) (g .expression)
  expect .rparen
  return n

/-- A statement that leaves a loop, a switch or a labelled statement, or goes on with a loop. -/
def jump (isBreak : Bool) : Read Node := do
  let start ← offset
  bump
  let a ← around
  let allowed := if isBreak then a.breakAllowed else a.continueAllowed
  if ← eatStatementEnd then
    flawIf (!allowed)
    finish start .form []
  else
    match ← token with
    | .word _ w =>
      let n ← name
      expectStatementEnd
      flawIf (!allowed || !a.labels.contains w)
      finish start .form [n]
    | _ => fail

/-- A conditional statement. -/
def ifStatement (g : Knot) : Read Node := do
  let start ← offset
  bump
  let test ← headValue g
  let yes ← g .statement
  let no ← if ← eatRole .kwElse then List.singleton <$> g .statement else pure []
  finish start .form (test :: yes :: no)

/-- A loop that tests before each turn. -/
def whileStatement (g : Knot) : Read Node := do
  let start ← offset
  bump
  let test ← headValue g
  let body ← inside Surroundings.loopBody (g .statement)
  finish start .form [test, body]

/-- A loop that tests after each turn. Readers visit the test first. -/
def doStatement (g : Knot) : Read Node := do
  let start ← offset
  bump
  let body ← inside Surroundings.loopBody (g .statement)
  expectRole .kwWhile
  let test ← headValue g
  let _ ← eat .semi
  finish start .form [test, body]

/-- The rest of the head of a loop over elements or keys, from `of` or `in` on. -/
def eachHead (g : Knot) (target : Node) : Read (List Node) := do
  let isOf ← atRole .kwOf
  bump
  let value ← inside (fun a => { a with allowIn := true }) (g (if isOf then .assignment else .expression))
  return [target, value]

/-- The test and step of a loop head after its first semicolon. -/
def stepHead (g : Knot) (first : List Node) : Read (List Node) := do
  let inner (p : Punct) : Read (List Node) := do
    if ← atPunct p then return []
    List.singleton <$> inside (fun a => { a with allowIn := true }) (g .expression)
  let test ← inner .semi
  expect .semi
  let step ← inner .rparen
  return first ++ test ++ step

/-- Whether a value that begins the head of a loop is the word `using`, possibly after `await`. -/
def isUsing : Node → Bool
  | .mk (.ident w) _ _ => Role.ofWord w == .kwUsing
  | .mk .awaited _ [.mk (.ident w) _ _] => Role.ofWord w == .kwUsing
  | _ => false

/-- The head of a loop between its parentheses, and whether it is one over elements. -/
def forHead (g : Knot) : Read (List Node × Bool) := do
  let r ← role
  let atEach : Read Bool := return (← atRole .kwOf) || (← atRole .kwIn)
  if r == .kwVar || r == .kwConst || (r == .kwLet && startsLetBinding (← peek).token) then
    let vars ← loopVariables g
    if ← atEach then
      -- One variable, without a value or a type.
      flawIf (match vars.parts with
        | [n] => n.parts.length != 1
        | _ => true)
      let isOf ← atRole .kwOf
      return (← eachHead g vars, isOf)
    else
      expect .semi
      return (← stepHead g [vars], false)
  else if ← eat .semi then return (← stepHead g [], false)
  else
    let first ← inside (fun a => { a with allowIn := false, inLoopHead := true }) (g .expression)
    let isOf ← atRole .kwOf
    let next ← peekRole
    if isUsing first && !isOf && (next == .kwOf || next == .kwIn) then
      let n ← boundName true
      let isOf ← atRole .kwOf
      flawIf (!isOf)
      return (← eachHead g n, isOf)
    else if ← atEach then
      (judge .assigned first).enforce
      flawIf (!isOf && (first.kind == .object || first.kind == .array))
      return (← eachHead g first, isOf)
    else
      expect .semi
      return (← stepHead g [first], false)

/-- A loop with a head. Only one over elements can wait for them. -/
def forStatement (g : Knot) : Read Node := do
  let start ← offset
  bump
  let waits ← eatRole .kwAwait
  expect .lparen
  let (head, isOf) ← forHead g
  expect .rparen
  let body ← inside Surroundings.loopBody (g .statement)
  if waits && !isOf then fail
  finish start .form (head ++ [body])

/-- A choice among cases, of which at most one may be the default. -/
def switchStatement (g : Knot) : Read Node := do
  let start ← offset
  bump
  let subject ← headValue g
  expect .lbrace
  let cases ← inside (fun a => { a with breakAllowed := true }) <| iterate
    (fun (found, defaultSeen) => do
      if ← eat .rbrace then return .inr found.reverse
      let at_ ← offset
      let isDefault ← atRole .kwDefault
      unless isDefault || (← atRole .kwCase) do fail
      if isDefault && defaultSeen then fail
      bump
      let test ←
        if isDefault then pure []
        else List.singleton <$> inside (fun a => { a with allowIn := true }) (g .expression)
      expect .colon
      let items ← collect do
        let r ← role
        if r == .kwCase || r == .kwDefault || (← atPunct .rbrace) then return none
        some <$> g .item
      return .inl ((← finish at_ .form (test ++ items)) :: found, defaultSeen || isDefault))
    (([] : List Node), false)
  finish start .form (subject :: cases)

/-- What is done about a fault, with the name of the fault. -/
def catchClause (g : Knot) : Read (List Node) := do
  if ← eatRole .kwCatch then
    let parameter ←
      if ← eat .lparen then do
        let n ← g (.binding true)
        let annotation ← typeAnnotation g
        expect .rparen
        pure (n :: annotation)
      else pure []
    let body ← block g
    return parameter ++ [body]
  else return []

/-- What is done in any case. -/
def finallyClause (g : Knot) : Read (List Node) := do
  if ← eatRole .kwFinally then return [← block g] else return []

/-- A block whose faults are handled. -/
def tryStatement (g : Knot) : Read Node := do
  let start ← offset
  bump
  let body ← block g
  let caught ← catchClause g
  let always ← finallyClause g
  flawIf (caught.isEmpty && always.isEmpty)
  finish start .form (body :: caught ++ always)

/-- A statement that begins with a value: the value, a labelled statement, or a declaration after its first word. -/
def valueStatement (g : Knot) : Read Node := do
  let start ← offset
  let value ← inside (fun a => { a with allowIn := true }) (g .expression)
  match value.kind with
  | .ident w =>
    if ← eat .colon then
      flawIf ((← around).labels.contains w)
      let body ← inside (fun a => { a with labels := w :: a.labels, breakAllowed := true }) (g .statement)
      return ← finish start .form [value, body]
    let r := Role.ofWord w
    if r == .kwInterface && (← afterNewline) then
      flaw
      return ← finish start .expressionStatement [value]
    let found ←
      match r with
      | .kwDeclare => declared g start
      | .kwGlobal => if ← atPunct .lbrace then some <$> namespaceBody g else pure none
      | r => wordDeclaration g start r false
    if let some n := found then return n
    if (r == .kwPublic || r == .kwStatic || r == .kwAbstract) && (← eatRole .kwInterface) then
      flaw
      return ← interfaceNode g start
  | _ => pure ()
  if ← eatStatementEnd then finish start .expressionStatement [value]
  else
    joinAngle
    match ← token with
    | .punct p =>
      if p.power = 0 then fail
      flaw
      let n ← g (.binaryRest value 0)
      finish start .expressionStatement [n]
    | _ => fail

/-- A statement; `declares` tells whether a declaration belongs here. -/
def statement (g : Knot) (declares : Bool) : Read Node := do
  let start ← offset
  let next ← peek
  match ← token with
  | .punct .lbrace => block g
  | .punct .semi =>
    bump
    finish start .form []
  | .word r _ =>
    match r with
    | .kwBreak => jump true
    | .kwContinue => jump false
    | .kwDebugger =>
      bump
      expectStatementEnd
      finish start .form []
    | .kwDo => doStatement g
    | .kwFor => forStatement g
    | .kwFunction =>
      flawIf (!declares)
      functionNode g start false false true
    | .kwClass =>
      flawIf (!declares)
      classNode g start true
    | .kwIf => ifStatement g
    | .kwReturn =>
      bump
      flawIf (!(← around).inFunction)
      let value ← if ← atStatementEnd then pure [] else List.singleton <$> g .expression
      expectStatementEnd
      finish start .form value
    | .kwSwitch => switchStatement g
    | .kwThrow =>
      bump
      if ← afterNewline then fail
      let value ← g .expression
      expectStatementEnd
      finish start .form [value]
    | .kwTry => tryStatement g
    | .kwCatch =>
      flaw
      let _ ← tryCatch (catchClause g) fun _ => return []
      let _ ← tryCatch (finallyClause g) fun _ => return []
      finish start .form []
    | .kwFinally =>
      flaw
      let _ ← tryCatch (finallyClause g) fun _ => return []
      finish start .form []
    | .kwWhile => whileStatement g
    | .kwWith =>
      bump
      flaw
      let subject ← headValue g
      let body ← g .statement
      finish start .form [subject, body]
    | .kwVar => variableList g
    | .kwConst =>
      if next.token matches .word .kwEnum _ then
        bump
        bump
        enumeration g start
      else if declares then variableList g
      else valueStatement g
    | .kwLet => if declares && startsLetBinding next.token then variableList g else valueStatement g
    | .kwUsing => if declares && next.token.isName && !next.newline then disposables g else valueStatement g
    | .kwAwait =>
      let disposes ← lookAhead do
        bump
        unless ← atRole .kwUsing do fail
        let next ← peek
        return next.token.isName && !next.newline
      if declares && disposes then
        bump
        disposables g
      else valueStatement g
    | .kwImport =>
      -- No statement end is due after such a value.
      let value ← inside (fun a => { a with allowIn := true }) (g .expression)
      let _ ← eatStatementEnd
      finish start .expressionStatement [value]
    | .kwEnum =>
      if next.token.isName && !next.newline then
        bump
        enumeration g start
      else valueStatement g
    | .kwAsync =>
      if (next.token matches .word .kwFunction _) && !next.newline then
        bump
        functionNode g start true false true
      else valueStatement g
    | _ => valueStatement g
  | _ => valueStatement g

end StyleHoist.Script
