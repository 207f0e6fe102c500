import StyleHoist.Script.Grammar.Markup

/-!
# Values

Expressions, from literals and names up to assignments. A reader gets over two kinds of missing values, an operand of a
unary operator and a left operand, and notes a lesser fault instead.
-/

namespace StyleHoist.Script

/-! ## Parts of values -/

/-- Values with commas between them. -/
def expression (g : Knot) : Read Node := do
  let start ← offset
  let first ← g .assignment
  let more ← collect do
    if ← eat .comma then some <$> g .assignment else return none
  if more.isEmpty then return first else finish start .sequence (first :: more)

/-- A value or a spread of one. -/
def valueOrSpread (g : Knot) : Read Node := do
  let start ← offset
  if ← eat .ellipsis then
    let value ← g .assignment
    finish start .spread [value]
  else g .assignment

/-- The arguments of a call. -/
def arguments (g : Knot) : Read (List Node) := do
  expect .lparen
  inside (fun a => { a with colonDue := false, allowIn := true }) (listUntil .rparen (valueOrSpread g))

/-- An array literal. -/
def arrayLiteral (g : Knot) : Read Node := do
  let start ← offset
  expect .lbracket
  let elements ← inside (fun a => { a with allowIn := true, colonDue := false }) <| collect do
    if ← eat .rbracket then return none
    if ← atPunct .comma then
      let hole ← offset
      bump
      return some (.mk .hole ⟨hole, hole⟩ [])
    let n ← valueOrSpread g
    unless ← atPunct .rbracket do expect .comma
    return some n
  finish start .array elements

/-- The substitutions of a template literal from its opening backtick on. -/
def templateParts (g : Knot) (isTagged : Bool) : Read (List Node) := do
  unless ← atPunct .backtick do fail
  bump .templatePiece
  iterate
    (fun found => do
      match ← token with
      | .templatePiece last wellFormed =>
        if !wellFormed && !isTagged then fail
        bump
        if last then return .inr found.reverse
        let value ← inside (fun a => { a with allowIn := true, colonDue := false }) (g .expression)
        expect .rbrace .templatePiece
        return .inl (value :: found)
      | _ => fail)
    ([] : List Node)

/-- The body of an arrow function. -/
def arrowBody (g : Knot) (isAsync : Bool) : Read Node := do
  if ← atPunct .lbrace then
    match ← functionBody g isAsync false with
    | some n => return n
    | none => fail
  else
    inside
      (fun a => { a with inFunction := true, inAsync := isAsync, inGenerator := false
                         inParameters := false, inStaticBlock := false })
      (g .assignment)

/-! ## Parentheses -/

/-- Something between parentheses that may be an argument or a parameter. -/
structure ParenItem where
  node : Node
  isParameter : Bool

/-- The rest of a conditional after its question mark. -/
def conditionalTail (g : Knot) (start : Nat) (test : Node) : Read Node := do
  let yes ← inside (fun a => { a with inConditional := true, colonDue := true, allowIn := true }) (g .assignment)
  expect .colon
  let no ← inside (fun a => { a with inConditional := true, colonDue := false }) (g .assignment)
  finish start .conditional [test, yes, no]

/-- Makes the current closing angle bracket the operator that it begins. -/
def joinAngle : Read Unit := do
  if ← atPunct .gt then
    rescan fun t =>
      match Punct.ofText gtTable t with
      | some (p, n, rest) => ⟨.punct p, n, rest, false⟩
      | none => ⟨.punct .gt, 1, t.tail, false⟩

/-- The assignment that `left` begins, or `left` itself. -/
def assignmentTail (g : Knot) (start : Nat) (left : Node) : Read Node := do
  joinAngle
  match ← token with
  | .punct .assign =>
    match left.kind with
    | .object | .array => (judge .assigned left).enforce
    | _ =>
      unless canBeAssigned left do fail
      flawIf (!isSimpleTarget left)
    bump
    let right ← g .assignment
    finish start .assignment [left, right]
  | .punct p =>
    if p.isCompoundAssign then
      if !canBeAssigned left || left.kind == .object || left.kind == .array then fail
      flawIf (!isSimpleTarget left)
      bump
      let right ← g .assignment
      finish start .assignment [left, right]
    else return left
  | _ => return left

/-- A value that stops before a question mark. -/
def binary (g : Knot) : Read Node := do
  let left ← tryCatch (g .unary) fun fault => do
    joinAngle
    let recovers ←
      match ← token with
      | .punct p => pure (p.power != 0)
      | .word .kwIn _ => pure (← around).allowIn
      | .word .kwInstanceof _ => pure true
      | _ => pure false
    unless recovers do throw fault
    flaw
    return .mk .invalid ⟨fault.offset, fault.offset⟩ []
  if left.kind == .arrow then return left
  g (.binaryRest left 0)

/-- One item between parentheses. A question mark after a word may make it an optional parameter. -/
def parenItem (g : Knot) : Read ParenItem := do
  let start ← offset
  modify fun s => { s with arrowStart := some start }
  let modified ← eatAccess
  let valueStart ← offset
  let handsOut := (← around).inGenerator && (← atRole .kwYield)
  let value ←
    if !handsOut && ((← atName) || (← atRole .kwThis)) then do
      let left ← binary g
      assignmentTail g valueStart left
    else inside (fun a => { a with allowIn := true }) (valueOrSpread g)
  let (value, optional) ←
    if ← atPunct .question then
      match (← peek).token with
      | .punct .comma | .punct .assign | .punct .rparen | .punct .colon =>
        bump
        if value.kind == .spread then
          flaw
        else unless value.kind matches .ident _ | .object | .array do fail
        pure (value, true)
      | _ =>
        if value.kind == .spread then pure (value, false)
        else
          bump
          pure (← conditionalTail g valueStart value, false)
    else pure (value, false)
  flawIf modified
  if optional || (← atPunct .colon) then
    match value.kind with
    | .ident _ | .object | .array | .spread => (judge .parameter value).enforce
    | _ => fail
    let annotation ← typeAnnotation g
    let default ← if ← eat .assign then List.singleton <$> g .assignment else pure []
    return ⟨← finish valueStart (if value.kind == .spread then .restPattern else .pattern)
      (value :: default ++ annotation), true⟩
  else return ⟨value, false⟩

/-- The items between parentheses, and whether a comma stands after the last. -/
def parenItems (g : Knot) : Read (List ParenItem × Bool) := do
  expect .lparen
  inside (fun a => { a with colonDue := false }) <| iterate
    (fun (found, comma) => do
      if ← eat .rparen then return .inr (found.reverse, comma)
      let item ← parenItem g
      let comma ← if ← atPunct .rparen then pure false else do
        expect .comma
        pure true
      return .inl (item :: found, comma))
    (([] : List ParenItem), false)

/-- Judges items between parentheses as parameters. -/
def judgeParameters (items : List ParenItem) (comma : Bool) : Verdict :=
  match items with
  | [] => .fine
  | [last] =>
    let isRest := last.node.kind == .spread || last.node.kind == .restPattern
    (Verdict.flawedUnless (!(isRest && comma))).and (judgeItem last)
  | item :: items =>
    let isRest := item.node.kind == .spread || item.node.kind == .restPattern
    ((Verdict.flawedUnless (!isRest)).and (judgeItem item)).and (judgeParameters items comma)
where
  /-- Judges one item. -/
  judgeItem (item : ParenItem) : Verdict :=
    if item.isParameter then .fine
    else (Verdict.flawedUnless (!isSpecialName item.node)).and (judge .parameter item.node)

/-- The arrow function whose parameters have been read, from its arrow on. -/
def arrowTail (g : Knot) (start : Nat) (isAsync : Bool) (items : List ParenItem) (comma : Bool) : Read Node := do
  expect .arrow
  (judgeParameters items comma).enforce
  let body ← arrowBody g isAsync
  finish start .arrow (items.map (·.node) ++ [body])

/-- A value in parentheses or an arrow function. After the word `async`, whose offset is then given, it can
be a call. -/
def parenOrArrow (g : Knot) (start : Nat) (canBeArrow : Bool) (asyncAt : Option Node) : Read Node := do
  let isAsync := asyncAt.isSome
  let (items, comma) ← parenItems g
  let a ← around
  let colonDue := a.colonDue
  let inBranch ←
    if a.inConditional && (← atPunct .colon) then
      attempt do
        let _ ← resultAnnotation g
        let n ← arrowTail g start isAsync items comma
        if colonDue && !(← atPunct .colon) then fail
        return n
    else pure none
  match inBranch with
  | some n => return n
  | none =>
    let result ←
      if !colonDue && (← atPunct .colon) then
        attempt do
          let ts ← resultAnnotation g
          unless ← atPunct .arrow do fail
          return ts
      else pure none
    if result.isSome || items.any (·.isParameter) || (← atPunct .arrow) then
      if (← afterNewline) || !canBeArrow then fail
      arrowTail g start isAsync items comma
    else
      let nodes := items.map (·.node)
      match asyncAt with
      | some callee => finish start .call (callee :: nodes)
      | none =>
        flawIf (nodes.any fun n =>
          n.kind == .object && n.parts.any fun p => p.kind == .property .defaulted)
        flawIf comma
        match nodes with
        | [] => fail
        | [n] => if n.kind == .spread then fail else finish start .paren [n]
        | n :: more =>
          if nodes.any (·.kind == .spread) then fail
          let last := (more.getLast?.getD n).span.stop
          finish start .paren [.mk .sequence ⟨n.span.start, last⟩ nodes]

/-! ## Values by themselves -/

/-- An arrow function with one parameter that is a word. -/
def wordArrow (g : Knot) (start : Nat) (isAsync : Bool) (parameter : Node) : Read Node := do
  expect .arrow
  flawIf (isSpecialName parameter)
  let body ← arrowBody g isAsync
  finish start .arrow [parameter, body]

/-- A value that begins with a word that names something. -/
def wordValue (g : Knot) (start : Nat) (canBeArrow : Bool) : Read Node := do
  let n ← name
  if canBeArrow && !(← afterNewline) then
    if n.isIdent "async".toList && (← atName) then
      if (← around).inLoopHead && (← atRole .kwOf) && !(← peekPunct .arrow) then
        flaw
        return n
      let parameter ← name
      if parameter.isIdent "as".toList && !(← atPunct .arrow) then
        let t ← g .type
        return ← finish start .typedAs [n, t]
      return ← wordArrow g start true parameter
    if ← atPunct .arrow then return ← wordArrow g start false n
  return n

/-- A value that begins with the word `async`. -/
def asyncValue (g : Knot) (start : Nat) (canBeArrow : Bool) : Read Node := do
  let next ← peek
  if next.newline then wordValue g start canBeArrow
  else
    match next.token with
    | .word .kwFunction _ =>
      bump
      functionNode g start true true false
    | .punct .lparen =>
      if canBeArrow then
        let callee ← anyWord
        parenOrArrow g start true (some callee)
      else wordValue g start canBeArrow
    | .punct .lt =>
      if canBeArrow then
        let generic ← attempt do
          bump
          let ts ← typeParameters? g
          let (items, comma) ← parenItems g
          let result ← resultAnnotation g
          if ← afterNewline then fail
          let n ← arrowTail g start true items comma
          return Node.mk .arrow n.span (ts ++ result ++ n.parts)
        match generic with
        | some n => return n
        | none => wordValue g start canBeArrow
      else wordValue g start canBeArrow
    | _ => wordValue g start canBeArrow

/-- A value without anything attached to it. -/
def primary (g : Knot) : Read Node := do
  let start ← offset
  let canBeArrow := (← get).arrowStart == some start
  let simple (kind : Kind) : Read Node := do
    bump
    finish start kind []
  match ← token with
  | .number => simple .number
  | .string => simple .string
  | .bigint => simple .bigint
  | .punct .slash | .punct .slashAssign =>
    rescan fun t => scanRegex false false 1 t.tail
    unless (← token) == .regex do fail
    simple .regex
  | .punct .lparen => parenOrArrow g start canBeArrow none
  | .punct .lbracket => arrayLiteral g
  | .punct .lbrace => objectLiteral g
  | .punct .backtick =>
    let parts ← templateParts g false
    finish start .template parts
  | .punct .hash => privateName
  | .word r _ =>
    match r with
    | .kwThis => simple .thisValue
    | .kwNull => simple .null
    | .kwTrue | .kwFalse => simple .boolean
    | .kwFunction => functionNode g start false true false
    | .kwClass => classNode g start false
    | .kwAsync => asyncValue g start canBeArrow
    | _ => wordValue g start canBeArrow
  | _ => fail

/-! ## Attached parts -/

/-- Whether a value goes on an optional chain. -/
def goesOnChain (n : Node) : Bool :=
  match n with
  | .mk .nonNull _ [.mk .optionalChain _ _] => true
  | .mk .optionalChain _ _ => true
  | _ => false

/-- Tokens that may begin a value. -/
def startsValue : Token → Bool
  | .word r _ =>
    !r.isReserved
      || (match r with
        | .kwThis | .kwNull | .kwTrue | .kwFalse | .kwFunction | .kwClass | .kwNew | .kwSuper | .kwImport | .kwTypeof
        | .kwVoid | .kwDelete => true
        | _ => false)
  | .number | .string | .bigint => true
  | .punct p =>
    match p with
    | .lparen | .lbracket | .lbrace | .backtick | .slash | .slashAssign | .plus | .minus | .bang | .tilde | .increment
    | .decrement | .lt | .hash | .at => true
    | _ => false
  | _ => false

/-- Whether type arguments can stand before the current token without a call. -/
def endsInstantiation : Read Bool := do
  let t ← token
  let newline ← afterNewline
  match t with
  | .punct .lparen | .punct .backtick | .punct .lt | .punct .gt | .punct .plus | .punct .minus => return false
  | .punct p => return newline || p.power != 0 || !startsValue t
  | .word .kwIn _ | .word .kwInstanceof _ | .word .kwAs _ | .word .kwSatisfies _ => return true
  | _ => return newline || !startsValue t

/-- The member that a value has after a dot. -/
def memberName : Read Node := do
  if ← atPunct .hash then privateName else anyWord

/-- Attaches one more part to a value, or ends. Where `calls` is not set, arguments are only taken behind `?.`. -/
def attach (g : Knot) (calls : Bool) (start : Nat) (callee : Node) : Read (Node ⊕ Node) := do
  let isSuper := callee.kind == .superValue
  let memberKind : Kind :=
    if isSuper then .superMember else if goesOnChain callee then .optionalChain else .member
  let callKind : Kind := if goesOnChain callee then .optionalChain else .call
  match ← token with
  | .punct .bang =>
    if ← afterNewline then return .inr callee
    bump
    return .inl (← finish start .nonNull [callee])
  | .punct .lt | .punct .shl =>
    if isSuper then return .inr callee
    let called ← attempt do
      let ts ← typeArguments g
      match ← token with
      | .punct .lparen => unless calls do fail
      | .punct .backtick => pure ()
      | _ => fail
      return ts
    match called with
    | some ts =>
      if ← atPunct .lparen then
        let ps ← arguments g
        return .inl (← finish start callKind (callee :: ps ++ ts))
      else
        let ps ← templateParts g true
        return .inl (← finish start .tagged (callee :: ts ++ ps))
    | none =>
      let applied ← attempt do
        let ts ← typeArguments g
        unless ← endsInstantiation do fail
        return ts
      match applied with
      | some ts => return .inl (← finish start .instantiation (callee :: ts))
      | none => return .inr callee
  | .punct .optional =>
    bump
    match ← token with
    | .punct .lbracket =>
      bump
      let key ← inside (fun a => { a with allowIn := true }) (g .expression)
      expect .rbracket
      return .inl (← finish start .optionalChain [callee, key])
    | .punct .lparen =>
      let ps ← arguments g
      return .inl (← finish start .optionalChain (callee :: ps))
    | .punct .lt | .punct .shl =>
      let ts ← typeArguments g
      let ps ← arguments g
      return .inl (← finish start .optionalChain (callee :: ps ++ ts))
    | .punct .backtick => fail
    | _ =>
      let key ← memberName
      return .inl (← finish start .optionalChain [callee, key])
  | .punct .dot =>
    bump
    if isSuper && (← atPunct .hash) then fail
    let key ← memberName
    return .inl (← finish start memberKind [callee, key])
  | .punct .lbracket =>
    bump
    let key ← inside (fun a => { a with allowIn := true, colonDue := false }) (g .expression)
    expect .rbracket
    return .inl (← finish start memberKind [callee, key])
  | .punct .lparen =>
    if !calls then return .inr callee
    let ps ← arguments g
    return .inl (← finish start callKind (callee :: ps))
  | .punct .backtick =>
    if isSuper then return .inr callee
    flawIf (goesOnChain callee)
    let ps ← templateParts g true
    return .inl (← finish start .tagged (callee :: ps))
  | _ => return .inr callee

/-- Attaches all parts that follow a value. -/
def attachAll (g : Knot) (calls : Bool) (start : Nat) (callee : Node) : Read Node := do
  let n ← iterate (attach g calls start) callee
  if n.kind == .superValue then fail
  return n

/-- A module imported in place, or what is known about the current one. -/
def importValue (g : Knot) (calls : Bool) : Read Node := do
  let start ← offset
  expectRole .kwImport
  if ← eat .dot then
    match ← token with
    | .word _ w =>
      if w == "meta".toList then
        bump
        attachAll g calls start (← finish start .metaProperty [])
      else if w == "defer".toList || w == "source".toList then
        bump
        let ps ← arguments g
        attachAll g calls start (← finish start .call ps)
      else fail
    | _ => fail
  else if calls then
    let ps ← arguments g
    flawIf (ps.isEmpty)
    attachAll g calls start (← finish start .call ps)
  else fail

/-- What stands after `new`: a value with members, or another `new`. What is constructed is no optional chain. -/
def construct (g : Knot) : Read Node := do
  let start ← offset
  match ← role with
  | .kwNew =>
    bump
    if ← eat .dot then
      match ← token with
      | .word _ w =>
        unless w == "target".toList do fail
        bump
        let a ← around
        flawIf (!a.inFunction && !a.inParameters && !a.inStaticBlock && !a.inClassField)
        attachAll g false start (← finish start .metaProperty [])
      | _ => fail
    else
      let callee ← g .construct
      if callee.kind == .arrow then return callee
      if goesOnChain callee then fail
      let ts ←
        if ← atAngle then
          (·.getD []) <$> attempt do
            let ts ← typeArguments g
            if !(← atPunct .lparen) && !(← endsInstantiation) then fail
            return ts
        else pure []
      if ← atPunct .lparen then
        let ps ← arguments g
        attachAll g false start (← finish start .construct (callee :: ps ++ ts))
      else finish start .construct (callee :: ts)
  | .kwSuper =>
    bump
    attachAll g false start (← finish start .superValue [])
  | .kwImport => importValue g false
  | _ =>
    let first ← primary g
    if first.kind == .arrow then return first
    attachAll g false start first

/-- A value with everything that is attached to it. -/
def leftHand (g : Knot) : Read Node := do
  let start ← offset
  if (← around).markup && (← atPunct .lt) then return ← g (.markup false)
  match ← role with
  | .kwSuper =>
    bump
    attachAll g true start (← finish start .superValue [])
  | .kwImport => importValue g true
  | .kwNew =>
    let n ← construct g
    attachAll g true start n
  | _ =>
    let first ← primary g
    if first.kind == .arrow then return first
    attachAll g true start first

/-! ## Operators -/

/-- Waits for a value. Outside functions a module may wait; where nothing follows, the word is a name. -/
def awaitValue (g : Knot) : Read Node := do
  let start ← offset
  expectRole .kwAwait
  if ← atPunct .star then fail
  let a ← around
  let isName ←
    if a.inAsync then pure false
    else
      match ← token with
      | .punct .rparen | .punct .rbracket | .punct .colon | .punct .comma => pure true
      | _ => atStatementEnd
  if isName then
    flaw
    finish start (.ident "await".toList) []
  else
    flawIf (a.inFunction && !a.inAsync)
    flawIf (a.inParameters && !a.inFunction)
    let value ← g .unary
    finish start .awaited [value]

/-- An operand after a unary operator; a missing one is noted. -/
def operand (g : Knot) : Read Node :=
  tryCatch (g .unary) fun fault => do
    flaw
    return .mk .invalid ⟨fault.offset, fault.offset⟩ []

/-- A value with the operators before and after it. -/
def unary (g : Knot) : Read Node := do
  let start ← offset
  match ← token with
  | .punct .lt =>
    if (← around).markup then leftHand g
    else
      bump
      if ← eatRole .kwConst then
        expect .gt
        let value ← g .unary
        finish start .assertion [value]
      else
        let t ← g .type
        expect .gt
        let value ← g .unary
        finish start .assertion [value, t]
  | .punct .increment | .punct .decrement =>
    bump
    let value ← g .unary
    flawIf (!isSimpleTarget value)
    finish start .update [value]
  | .punct .plus | .punct .minus =>
    bump
    let value ← operand g
    finish start .signed [value]
  | .punct .bang | .punct .tilde | .word .kwTypeof _ | .word .kwVoid _ | .word .kwDelete _ =>
    bump
    let value ← operand g
    finish start .unary [value]
  | .word .kwAwait _ => awaitValue g
  | _ =>
    let value ← leftHand g
    if value.kind == .arrow then return value
    if ← afterNewline then return value
    match ← token with
    | .punct .increment | .punct .decrement =>
      flawIf (!isSimpleTarget value)
      bump
      finish start .update [value]
    | _ => return value

/-- The kind of a binary operation. -/
def Punct.binaryKind : Punct → Kind
  | .orOr | .andAnd => .logical
  | .coalesce => .coalesce
  | _ => .binary

/-- What operators that bind tighter than `power` add to a value. -/
def binaryRest (g : Knot) (left : Node) (power : Nat) : Read Node := do
  let start := left.span.start
  let r ← role
  if (r == .kwAs || r == .kwSatisfies) && !(← afterNewline) then
    bump
    if r == .kwAs && (← eatRole .kwConst) then
      let n ← finish start .typedAs [left]
      g (.binaryRest n power)
    else
      let t ← g .type
      let n ← finish start .typedAs [left, t]
      g (.binaryRest n power)
  else
    joinAngle
    let (operatorPower, kind, rightPower) ←
      match ← token with
      | .punct p => pure (p.power, p.binaryKind, if p == .starStar then p.power - 1 else p.power)
      | .word .kwIn _ => pure (if (← around).allowIn then 8 else 0, Kind.binary, 8)
      | .word .kwInstanceof _ => pure (8, Kind.binary, 8)
      | _ => pure (0, Kind.binary, 0)
    if operatorPower ≤ power then return left
    -- An operand with an operator of its own has no power.
    let isPower ← atPunct .starStar
    if isPower && (left.kind == .signed || left.kind == .unary || left.kind == .awaited) then fail
    bump
    let first ← g .unary
    let right ← g (.binaryRest first rightPower)
    if kind == .coalesce then flawIf (left.kind == .logical || right.kind == .logical)
    let n ← finish start kind [left, right]
    g (.binaryRest n power)

/-- A conditional, or a value that no question mark follows. -/
def conditional (g : Knot) : Read Node := do
  let start ← offset
  let test ← binary g
  if test.kind == .arrow then return test
  if ← eat .question then conditionalTail g start test else return test

/-- A value that a generator hands out. -/
def yieldValue (g : Knot) : Read Node := do
  let start ← offset
  expectRole .kwYield
  let a ← around
  flawIf (a.inParameters && !a.inFunction)
  let t ← token
  if (← atStatementEnd) || !(startsValue t || t == .punct .star) then finish start .yielded []
  else
    let _ ← eat .star
    let value ← g .assignment
    finish start .yielded [value]

/-- One value, in which angle brackets open no type parameters. -/
def plainAssignment (g : Knot) : Read Node := do
  if (← around).inGenerator && (← atRole .kwYield) then yieldValue g
  else
    let start ← offset
    if (← atName) || (← atPunct .lparen) then modify fun s => { s with arrowStart := some start }
    let n ← conditional g
    match n.kind with
    | .arrow | .conditional | .binary | .logical | .coalesce | .unary | .signed | .update => return n
    | _ => assignmentTail g start n

/-- An arrow function with type parameters. -/
def genericArrow (g : Knot) : Read Node := do
  let start ← offset
  let ts ← typeParameters? g
  let n ← plainAssignment g
  unless n.kind == .arrow do fail
  finish start .arrow (n.parts ++ ts)

/-- One value. Where markup is allowed an angle bracket is first taken to open an element, then to open type
parameters. -/
def assignment (g : Knot) : Read Node := do
  if ← atPunct .lt then
    let asMarkup ← if (← around).markup then attempt (plainAssignment g) else pure none
    match asMarkup with
    | some n => return n
    | none =>
      match ← attempt (genericArrow g) with
      | some n => return n
      | none => plainAssignment g
  else plainAssignment g

end StyleHoist.Script
