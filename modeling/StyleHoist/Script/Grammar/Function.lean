import StyleHoist.Script.Grammar.Type

/-!
# Functions and classes

Bodies of functions, what follows the name of a function, object literals with their methods, and classes.
-/

namespace StyleHoist.Script

/-! ## Bodies -/

/-- Ends a list of statements or members at its closing brace. If the text ends before it, that is noted. -/
def eatClosingBrace : Read Bool := do
  if ← eat .rbrace then return true
  if ← atEnd then
    flaw
    return true
  return false

/-- Statements between braces. -/
def block (g : Knot) : Read Node := do
  let start ← offset
  expect .lbrace
  let items ← collect do
    if ← eatClosingBrace then return none
    some <$> g .item
  finish start .form items

/-- What a function body changes in the surroundings. -/
def Surroundings.forBody (isAsync isGenerator : Bool) (a : Surroundings) : Surroundings :=
  { a with
    inFunction := true, inAsync := isAsync, inGenerator := isGenerator, inParameters := false
    inStaticBlock := false, inClassField := false, allowIn := true, inConditional := false, colonDue := false
    inLoopHead := false, breakAllowed := false, continueAllowed := false, labels := [] }

/-- What a parameter list changes in the surroundings. -/
def Surroundings.forParameters (isAsync isGenerator : Bool) (a : Surroundings) : Surroundings :=
  { a with
    inFunction := false, inAsync := isAsync, inGenerator := isGenerator, inParameters := true, inStaticBlock := false
    allowIn := true, inConditional := false, colonDue := false }

/-- The body of a function. A statement end may stand in its place. -/
def functionBody (g : Knot) (isAsync isGenerator : Bool) : Read (Option Node) := do
  if !(← atPunct .lbrace) && (← eatStatementEnd) then return none
  flawIf (← around).inDeclaration
  some <$> inside (Surroundings.forBody isAsync isGenerator) (block g)

/-- What follows the name of a function: its parts, and whether it has a body. -/
def functionTail (g : Knot) (isAsync isGenerator : Bool) (check : List Node → Read Unit := fun _ => pure ()) :
    Read (List Node × Bool) := do
  let ts ← typeParameters? g
  let ps ← inside (Surroundings.forParameters isAsync isGenerator) (parameters g)
  check ps
  let result ← resultAnnotation g
  let body ← functionBody g isAsync isGenerator
  if body.isNone then flawIf (ps.any fun p => p.kind == .defaultPattern)
  return (ts ++ ps ++ result ++ body.toList, body.isSome)

/-- A getter takes no parameter, a type for `this` aside. -/
def checkGetter (ps : List Node) : Read Unit :=
  flawIf (!(ps.filter fun p => !isThis p).isEmpty)

/-- A setter takes one parameter, a type for `this` aside. -/
def checkSetter (ps : List Node) : Read Unit := do
  flawIf ((ps.filter fun p => !isThis p).length != 1)
  flawIf ((ps.head?).any fun p => p.kind == .restPattern)

/-- A function from the word `function` on; `start` is where it begins, possibly before that word. -/
def functionNode (g : Knot) (start : Nat) (isAsync isValue nameRequired : Bool) : Read Node := do
  expectRole .kwFunction
  let isGenerator ← eat .star
  let n ←
    if nameRequired then List.singleton <$> boundName true
    else if ← atName then
      List.singleton <$> inside
        (fun a => if isValue then { a with inAsync := isAsync, inGenerator := isGenerator } else a) (boundName true)
    else pure []
  let (parts, hasBody) ← functionTail g isAsync isGenerator
  if isValue && !hasBody then fail
  finish start .function (n ++ parts)

/-! ## Object literals -/

/-- A method from its parameters on. -/
def methodTail (g : Knot) (start : Nat) (key : Node) (isAsync isGenerator : Bool) : Read Node := do
  let (parts, _) ← inside (fun a => { a with inClassField := false }) (functionTail g isAsync isGenerator)
  finish start (.property .method) (key :: parts)

/-- A getter or setter from its key on. -/
def accessorTail (g : Knot) (start : Nat) (isGet : Bool) : Read Node := do
  let key ← propertyKey g
  let (parts, _) ← inside (fun a => { a with inClassField := false })
    (functionTail g false false (if isGet then checkGetter else checkSetter))
  finish start (.property (if isGet then .getter else .setter)) (key :: parts)

/-- What follows a key that is neither a method nor before a colon. -/
def wordProperty (g : Knot) (start : Nat) (modified : Bool) (key : Node) (w : Text) : Read Node := do
  flawIf (← eat .question)
  match ← token with
  | .punct .assign =>
    bump
    let value ← g .assignment
    finish start (.property .defaulted) [key, value]
  | .punct .comma | .punct .rbrace => return .mk (.property .shorthand) key.span [key]
  | _ =>
    match Role.ofWord w with
    | .kwGet =>
      flawIf modified
      accessorTail g start true
    | .kwSet =>
      flawIf modified
      accessorTail g start false
    | .kwAsync =>
      flawIf modified
      let isGenerator ← eat .star
      let inner ← propertyKey g
      methodTail g start inner true isGenerator
    | _ => fail

/-- One property of an object literal. -/
def objectProperty (g : Knot) : Read Node := do
  let start ← offset
  if ← eat .ellipsis then
    let value ← g .assignment
    finish start .spread [value]
  else if ← eat .star then
    let key ← propertyKey g
    methodTail g start key false true
  else
    let modified ← eatAccess
    let keyStart ← offset
    let key ← propertyKey g
    if ← eat .colon then
      let value ← g .assignment
      finish keyStart (.property (.keyed (key.kind == .computedKey))) [key, value]
    else
      match ← token with
      | .punct .lparen | .punct .lt => methodTail g start key false false
      | _ =>
        match key.kind with
        | .ident w => wordProperty g start modified key w
        | _ =>
          -- A value that is missing after the last key is noted.
          unless ← atPunct .rbrace do fail
          flaw
          finish keyStart (.property (.keyed (key.kind == .computedKey))) [key, default]

/-- An object literal. -/
def objectLiteral (g : Knot) : Read Node := do
  let start ← offset
  expect .lbrace
  let props ← inside (fun a => { a with allowIn := true, colonDue := false, inConditional := false })
    (listUntil .rbrace (objectProperty g))
  finish start .object props

/-! ## Classes -/

/-- Whether a key, whose token begins the text, names the constructor of a class: as a word or as a plain string. -/
def namesConstructor (t : Token) (here : Text) : Bool :=
  match t with
  | .word _ w => w == "constructor".toList
  | .string => Text.beginsWith "\x27constructor\x27".toList here || Text.beginsWith "\x22constructor\x22".toList here
  | _ => false

/-- Whether the key of the constructor of a class is next. -/
def atConstructorName : Read Bool := return namesConstructor (← token) (← get).lexeme.here

/-- Whether a method of a class starts here, after its key. -/
def atMethod : Read Bool := do
  match ← token with
  | .punct .lparen | .punct .lt => return true
  | _ => return false

/-- Whether a field of a class goes on here, after its key. -/
def atField (newlineEnds : Bool) : Read Bool := do
  match ← token with
  | .punct .colon | .punct .bang | .punct .assign | .punct .rbrace | .punct .semi => return true
  | _ => if newlineEnds then atStatementEnd else return false

/-- A field of a class from its key on. -/
def fieldTail (g : Knot) (start : Nat) (key : Node) : Read Node := do
  let _ ← eat .bang
  let annotation ← typeAnnotation g
  let value ←
    if ← eat .assign then
      List.singleton <$> inside
        (fun a => { a with inClassField := true, inAsync := false, inGenerator := false
                           inFunction := true, allowIn := true })
        (g .assignment)
    else pure []
  unless ← eatStatementEnd do flaw
  finish start .form (key :: value ++ annotation)

/-- A method of a class from its parameters on. -/
def classMethodTail (g : Knot) (start : Nat) (key : Node) (isAsync isGenerator : Bool)
    (check : List Node → Read Unit := fun _ => pure ()) : Read Node := do
  let (parts, _) ← inside (fun a => { a with inClassField := false }) (functionTail g isAsync isGenerator check)
  finish start .form (key :: parts)

/-- The constructor of a class from its parameters on. -/
def constructorTail (g : Knot) (start : Nat) (key : Node) : Read Node := do
  let ts ← typeParameters? g
  flawIf (!ts.isEmpty)
  let ps ← inside (Surroundings.forParameters false false) (parameters g true)
  if ← eat .colon then
    flaw
    let _ ← g .type
  match ← functionBody g false false with
  | some body => finish start .constructorMember (key :: ps ++ [body])
  | none =>
    flawIf (ps.any fun p => p.kind == .defaultPattern)
    finish start .form (key :: ps)

/-- What a word that could be a modifier of a class member turns out to be. -/
inductive ModifierUse
  | modifier
  | member (n : Node)

/-- Passes a word that is a modifier unless it is itself the name of a member. -/
def modifierOrMember (g : Knot) (start : Nat) (newlineEnds : Bool) : Read ModifierUse := do
  let key ← anyWord
  if ← atMethod then return .member (← classMethodTail g start key false false)
  if (← atField newlineEnds) || (← atPunct .question) then
    let _ ← eat .question
    return .member (← fieldTail g start key)
  return .modifier

/-- A member of a class after its modifiers. Only a field or an index may be read-only. -/
def plainMember (g : Knot) (start : Nat) (isReadonly : Bool) : Read Node := do
  if ← eat .star then
    let isConstructor ← atConstructorName
    let key ← memberKey g
    flawIf (isReadonly || isConstructor)
    classMethodTail g start key false true
  else
    let isConstructor ← atConstructorName
    let key ← memberKey g
    let _ ← eat .question
    if ← atMethod then
      if isReadonly then fail
      if isConstructor then constructorTail g start key else classMethodTail g start key false false
    else
      let isAccessor := key.isIdent "get".toList || key.isIdent "set".toList
      let newline ← afterNewline
      if isAccessor && !(← atField false) && !(newline && (← atPunct .star)) then
        let isGet := key.isIdent "get".toList
        let isConstructor ← atConstructorName
        let inner ← memberKey g
        flawIf (isReadonly || isConstructor)
        classMethodTail g start inner false false (if isGet then checkGetter else checkSetter)
      else if ← atField true then
        if isConstructor then fail
        fieldTail g start key
      else if key.isIdent "async".toList && !newline then
        let _ ← eatModifier [.kwOverride]
        let isGenerator ← eat .star
        let isConstructor ← atConstructorName
        let inner ← memberKey g
        if isReadonly || isConstructor then fail
        let _ ← eat .question
        classMethodTail g start inner true isGenerator
      else fail

/-- A member of a class with its modifiers. -/
def classMember (g : Knot) : Read Node := do
  let start ← offset
  let declared ←
    if ← atRole .kwDeclare then modifierOrMember g start true else pure .modifier
  match declared with
  | .member n => return n
  | .modifier =>
    let _ ← eatModifier [.kwPublic, .kwProtected, .kwPrivate]
    if (← atRole .kwDeclare) && (← canFollowModifier) then bump
    let static ← if ← atRole .kwStatic then modifierOrMember g start false else pure .modifier
    match static with
    | .member n => return n
    | .modifier =>
      if ← atPunct .lbrace then
        inside
          (fun a => { a with inStaticBlock := true, inAsync := false, inGenerator := false, inFunction := false
                             inLoopHead := false, breakAllowed := false, continueAllowed := false, labels := [] })
          (block g)
      else
        let isReadonly ← iterate
          (fun isReadonly => do
            match ← eatModifier [.kwAbstract, .kwReadonly, .kwOverride, .kwStatic, .kwDeclare, .kwAccessor] with
            | some r => return .inl (isReadonly || r == .kwReadonly)
            | none => return .inr isReadonly)
          false
        if ← startsIndexSignature then indexSignature g start else plainMember g start isReadonly

/-- The types that a class or interface builds on, up to what follows them. There may be none, and a comma may stand
after the last. -/
def heritage (g : Knot) : Read (List Node) := do
  let ends : Read Bool := return (← atPunct .lbrace) || (← atRole .kwImplements) || (← atRole .kwExtends)
  collect do
    if ← ends then return none
    let start ← offset
    let n ← dottedName
    let arguments ← typeArguments? g
    unless (← eat .comma) || (← ends) do fail
    some <$> finish start .form (n :: arguments)

/-- A value that a class extends, with type arguments. -/
def parentClass (g : Knot) : Read (List Node) := do
  let value ← g .leftHand
  let arguments ← typeArguments? g
  return value :: arguments

/-- What a class extends and what it implements. A second clause of either sort is noted and passed over, save that a
class without a parent takes one after its other clauses. -/
def classHeritage (g : Knot) : Read (List Node × List Node) := do
  let parent ←
    if ← eatRole .kwExtends then do
      let parent ← parentClass g
      if ← eat .comma then
        let more ← heritage g
        flawIf (!more.isEmpty)
      pure parent
    else pure []
  if ← eatRole .kwExtends then
    flaw
    let _ ← parentClass g
  let promised ← if ← eatRole .kwImplements then heritage g else pure []
  if ← eatRole .kwImplements then
    flaw
    let _ ← heritage g
  if ← eatRole .kwExtends then
    flaw
    let late ← parentClass g
    return (if parent.isEmpty then late else parent, promised)
  return (parent, promised)

/-- The members of a class between braces. Outside declarations a second constructor with a body is noted. -/
def classMembers (g : Knot) : Read (List Node) := do
  expect .lbrace
  let inDeclaration := (← around).inDeclaration
  inside (fun a => { a with allowIn := true, colonDue := false, inConditional := false }) <| iterate
    (fun (found, constructorSeen) => do
      if ← eatClosingBrace then return .inr found.reverse
      if ← eat .semi then return .inl (found, constructorSeen)
      let n ← classMember g
      let isConstructor := n.kind == .constructorMember
      flawIf (isConstructor && constructorSeen && !inDeclaration)
      return .inl (n :: found, constructorSeen || isConstructor))
    (([] : List Node), false)

/-- A class from the word `class` on. Readers visit its members before what it extends. -/
def classNode (g : Knot) (start : Nat) (nameRequired : Bool) : Read Node := do
  expectRole .kwClass
  let n ←
    if nameRequired then List.singleton <$> boundName false
    else if (← atName) && !(← atRole .kwImplements) then List.singleton <$> boundName false
    else pure []
  let ts ← typeParameters? g
  let (parent, promised) ← classHeritage g
  let members ← classMembers g
  finish start .classValue (n ++ members ++ parent ++ ts ++ promised)

end StyleHoist.Script
