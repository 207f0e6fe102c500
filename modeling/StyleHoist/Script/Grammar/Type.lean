import StyleHoist.Script.Grammar.Parameter

/-!
# Types

The types of a script. Readers of a script look through them, so a type is a form that holds its parts; only the values
in computed keys matter.
-/

namespace StyleHoist.Script

/-! ## Angle brackets -/

/-- Passes an opening angle bracket if there is one, also one that is doubled. -/
def eatAngle : Read Bool := do
  match ← token with
  | .punct .lt =>
    bump
    return true
  | .punct .shl =>
    rescan fun t => ⟨.punct .lt, 1, t.tail, false⟩
    bump
    return true
  | _ => return false

/-- Whether an angle bracket opens here. -/
def atAngle : Read Bool := do
  match ← token with
  | .punct .lt | .punct .shl => return true
  | _ => return false

/-- Type arguments between angle brackets. -/
def typeArguments (g : Knot) : Read (List Node) := do
  unless ← eatAngle do fail
  listUntil .gt (g .type)

/-- Type arguments on the same line, if there are any. -/
def typeArguments? (g : Knot) : Read (List Node) := do
  if !(← afterNewline) && (← atAngle) then typeArguments g else return []

/-- One type parameter. -/
def typeParameter (g : Knot) : Read Node := do
  let start ← offset
  let _ ← collect do
    match ← role with
    | .kwConst | .kwIn | .kwOut =>
      if (← peek).token.isWord then
        bump
        return some default
      else return none
    | _ => return none
  let n ← boundName true
  let bound ← if ← eatRole .kwExtends then List.singleton <$> g .type else pure []
  let default ← if ← eat .assign then List.singleton <$> g .type else pure []
  finish start .form (n :: bound ++ default)

/-- Type parameters between angle brackets, if there are any. -/
def typeParameters? (g : Knot) : Read (List Node) := do
  if ← atPunct .lt then
    bump
    listUntil .gt (typeParameter g)
  else return []

/-! ## Names -/

/-- Words with dots between them. -/
def dottedName : Read Node := do
  let start ← offset
  let first ← anyWord
  let more ← collect do
    if ← eat .dot then some <$> anyWord else return none
  finish start .form (first :: more)

/-- A named type with its arguments. -/
def typeReference (g : Knot) : Read Node := do
  let start ← offset
  let n ← dottedName
  let arguments ← typeArguments? g
  finish start .form (n :: arguments)

/-! ## Results of functions -/

/-- The type of a result, which may be a statement about a parameter. -/
def resultType (g : Knot) : Read Node := do
  let start ← offset
  let next ← peek
  if (← atRole .kwAsserts) && next.token.isWord && !next.newline then
    bump
    let subject ← anyWord
    let claim ← if ← eatRole .kwIs then List.singleton <$> g .type else pure []
    finish start .form (subject :: claim)
  else if (← token).isWord && (next.token matches .word .kwIs _) && !next.newline then
    let subject ← anyWord
    bump
    let claim ← g .type
    finish start .form [subject, claim]
  else g .type

/-- The type of a result after a colon, if there is one. -/
def resultAnnotation (g : Knot) : Read (List Node) := do
  if ← eat .colon then return [← resultType g] else return []

/-- A function type after any modifier: type parameters, parameters, an arrow and a result. -/
def functionType (g : Knot) (start : Nat) : Read Node := do
  let ts ← typeParameters? g
  let ps ← parameters g
  expect .arrow
  let result ← resultType g
  finish start .form (ts ++ ps ++ [result])

/-- Whether a function type starts at the current parenthesis. -/
def startsFunctionType (g : Knot) : Read Bool :=
  lookAhead do
    expect .lparen
    match ← token with
    | .punct .rparen | .punct .ellipsis => return true
    | _ =>
      let _ ← eatAccess
      match ← token with
      | .word _ _ => bump
      | .punct .lbrace | .punct .lbracket =>
        let _ ← g (.binding true)
      | _ => fail
      match ← token with
      | .punct .colon | .punct .comma | .punct .question | .punct .assign => return true
      | .punct .rparen =>
        bump
        atPunct .arrow
      | _ => return false

/-! ## Members -/

/-- Ends a member of a type. -/
def endTypeMember : Read Unit := do
  unless ← eat .comma do expectStatementEnd

/-- A signature of a call: type parameters, parameters and a result. -/
def callSignature (g : Knot) : Read (List Node) := do
  let ts ← typeParameters? g
  let ps ← parameters g
  let result ← resultAnnotation g
  return ts ++ ps ++ result

/-- Whether an index signature starts at the current bracket. -/
def startsIndexSignature : Read Bool :=
  lookAhead do
    expect .lbracket
    let _ ← eatAccess
    unless ← atName do fail
    bump
    match ← token with
    | .punct .colon => return true
    | _ => return false

/-- An index signature. -/
def indexSignature (g : Knot) (start : Nat) : Read Node := do
  expect .lbracket
  let key ← anyWord
  expect .colon
  let keyType ← g .type
  expect .rbracket
  let value ← typeAnnotation g
  endTypeMember
  finish start .form (key :: keyType :: value)

/-- An accessor in a type. -/
def typeAccessor (g : Knot) : Read Node := do
  let start ← offset
  let isGet ← atRole .kwGet
  unless isGet || (← atRole .kwSet) do fail
  bump
  let key ← propertyKey g
  let ps ← parameters g
  if isGet && !ps.isEmpty then fail
  let result ← typeAnnotation g
  endTypeMember
  finish start .form (key :: ps ++ result)

/-- One member of a type. -/
def typeMember (g : Knot) : Read Node := do
  let start ← offset
  match ← token with
  | .punct .lparen | .punct .lt =>
    let parts ← callSignature g
    endTypeMember
    finish start .form parts
  | t =>
    let next ← peek
    let constructs :=
      (t matches .word .kwNew _) && ((next.token matches .punct .lparen) || (next.token matches .punct .lt))
    if constructs then
      bump
      let parts ← callSignature g
      endTypeMember
      finish start .form parts
    else
      let readonly ← eatModifier [.kwReadonly]
      if ← startsIndexSignature then indexSignature g start
      else
        match ← if readonly.isNone then attempt (typeAccessor g) else pure none with
        | some n => return n
        | none =>
          let key ← propertyKey g
          let _ ← eat .question
          match ← token with
          | .punct .lparen | .punct .lt =>
            let parts ← callSignature g
            endTypeMember
            finish start .form (key :: parts)
          | _ =>
            let value ← typeAnnotation g
            if ← eat .assign then
              flaw
              let _ ← g .assignment
            endTypeMember
            finish start .form (key :: value)

/-- The members of a type between braces. -/
def typeMembers (g : Knot) : Read Node := do
  let start ← offset
  expect .lbrace
  let members ← collect do
    if ← eat .rbrace then return none
    some <$> typeMember g
  finish start .form members

/-- Whether a mapped type starts at the current brace. -/
def startsMappedType : Read Bool :=
  lookAhead do
    expect .lbrace
    match ← token with
    | .punct .plus | .punct .minus =>
      bump
      atRole .kwReadonly
    | _ =>
      let _ ← eatRole .kwReadonly
      expect .lbracket
      unless ← atName do fail
      bump
      atRole .kwIn

/-- A type with one member for each key. -/
def mappedType (g : Knot) : Read Node := do
  let start ← offset
  expect .lbrace
  if (← atPunct .plus) || (← atPunct .minus) then
    bump
    expectRole .kwReadonly
  else
    let _ ← eatRole .kwReadonly
  expect .lbracket
  let key ← anyWord
  expectRole .kwIn
  let keys ← g .type
  let renamed ← if ← eatRole .kwAs then List.singleton <$> g .type else pure []
  expect .rbracket
  if (← atPunct .plus) || (← atPunct .minus) then
    bump
    expect .question
  else
    let _ ← eat .question
  let value ← typeAnnotation g
  unless ← eat .comma do
    unless ← eatStatementEnd do fail
  expect .rbrace
  finish start .form (key :: keys :: renamed ++ value)

/-- One element of a tuple type. -/
def tupleElement (g : Knot) : Read Node := do
  let start ← offset
  let isRest ← eat .ellipsis
  let labelled ← lookAhead do
    unless (← token).isWord do fail
    bump
    let _ ← eat .question
    atPunct .colon
  if labelled then
    bump
    let _ ← eat .question
    expect .colon
  let t ← g .type
  if !isRest then
    let _ ← eat .question
  finish start .form [t]

/-! ## Single types -/

/-- Tokens that are types by themselves. -/
def isLiteralToken : Token → Bool
  | .string | .number | .bigint | .word .kwTrue _ | .word .kwFalse _ | .word .kwNull _ | .word .kwVoid _
  | .word .kwThis _ => true
  | _ => false

/-- A template of types, after its opening backtick. -/
def templateType (g : Knot) (start : Nat) : Read Node := do
  bump .templatePiece
  let parts ← iterate
    (fun found => do
      match ← token with
      | .templatePiece true _ =>
        bump
        return .inr found.reverse
      | .templatePiece false _ =>
        bump
        let t ← g .type
        expect .rbrace .templatePiece
        return .inl (t :: found)
      | _ => fail)
    ([] : List Node)
  finish start .form parts

/-- A type imported in place. -/
def importedType (g : Knot) : Read Node := do
  let start ← offset
  expectRole .kwImport
  expect .lparen
  let source ← offset
  unless (← token) == .string do fail
  bump
  let named ← finish source .string []
  let options ← if ← eat .comma then
      if ← atPunct .rparen then pure [] else List.singleton <$> g .assignment
    else pure []
  let _ ← eat .comma
  expect .rparen
  let qualifier ← if ← eat .dot then List.singleton <$> dottedName else pure []
  let arguments ← typeArguments? g
  finish start .form (named :: options ++ qualifier ++ arguments)

/-- A type without postfixes. -/
def singleType (g : Knot) : Read Node := do
  let start ← offset
  let t ← token
  if isLiteralToken t then
    bump
    if (t matches .word .kwThis _) && (← atRole .kwIs) && !(← afterNewline) then
      bump
      let claim ← g .type
      finish start .form [claim]
    else finish start .form []
  else
    match t with
    | .punct .minus =>
      bump
      match ← token with
      | .number | .bigint =>
        bump
        finish start .form []
      | _ => fail
    | .word .kwImport _ => importedType g
    | .word .kwTypeof _ =>
      bump
      let subject ← if ← atRole .kwImport then importedType g else dottedName
      let arguments ← typeArguments? g
      finish start .form (subject :: arguments)
    | .punct .lbrace => if ← startsMappedType then mappedType g else typeMembers g
    | .punct .lbracket =>
      bump
      let elements ← listUntil .rbracket (tupleElement g)
      finish start .form elements
    | .punct .lparen =>
      bump
      let inner ← g .type
      expect .rparen
      finish start .form [inner]
    | .punct .backtick => templateType g start
    | .word r _ => if r.isReserved then fail else typeReference g
    | _ => fail

/-- A type with the brackets after it. -/
def postfixType (g : Knot) : Read Node := do
  let start ← offset
  let first ← singleType g
  iterate
    (fun t => do
      if !(← afterNewline) && (← eat .lbracket) then
        if ← eat .rbracket then return .inl (← finish start .form [t])
        let key ← g .type
        expect .rbracket
        return .inl (← finish start .form [t, key])
      else return .inr t)
    first

/-- A type with the operators before it. -/
def operatorType (g : Knot) : Read Node := do
  let start ← offset
  match ← role with
  | .kwKeyof | .kwUnique | .kwReadonly =>
    let r ← role
    let next ← peek
    let isOperator :=
      r != .kwUnique
        || (match next.token with
          | .word _ _ => true
          | _ => false)
    if isOperator then
      bump
      let inner ← g .operatorType
      finish start .form [inner]
    else postfixType g
  | .kwInfer =>
    bump
    let n ← anyWord
    let bound ← attempt do
      expectRole .kwExtends
      let t ← inside (fun a => { a with plainTypes := true }) (g .plainType)
      if !(← around).plainTypes && (← atPunct .question) then fail
      return t
    finish start .form (n :: bound.toList)
  | _ => postfixType g

/-- Types with an operator between them, which may also stand before the first. -/
def typesBetween (p : Punct) (part : Read Node) : Read Node := do
  let start ← offset
  let leading ← eat p
  let first ← part
  let more ← collect do
    if ← eat p then some <$> part else return none
  if more.isEmpty && !leading then return first else finish start .form (first :: more)

/-- A type that is no conditional type. -/
def plainType (g : Knot) : Read Node := do
  let start ← offset
  let isFunction ←
    match ← token with
    | .punct .lt => pure true
    | .punct .lparen => startsFunctionType g
    | _ => pure false
  if isFunction then functionType g start
  else
    let next ← peek
    match ← role with
    | .kwNew =>
      bump
      functionType g start
    | .kwAbstract =>
      if next.token matches .word .kwNew _ then
        bump
        bump
        functionType g start
      else typesBetween .pipe (typesBetween .amp (g .operatorType))
    | _ => typesBetween .pipe (typesBetween .amp (g .operatorType))

/-- A type. -/
def anyType (g : Knot) : Read Node := do
  let start ← offset
  inside (fun a => { a with plainTypes := false }) do
    let checked ← g .plainType
    if !(← afterNewline) && (← eatRole .kwExtends) then
      let bound ← inside (fun a => { a with plainTypes := true }) (g .plainType)
      expect .question
      let yes ← g .type
      expect .colon
      let no ← g .type
      finish start .form [checked, bound, yes, no]
    else return checked

end StyleHoist.Script
