import StyleHoist.Script.Grammar.Value

/-!
# Declarations

Variables, and the declarations that only describe types: interfaces, aliases, enumerations, namespaces and what is
declared to exist elsewhere.
-/

namespace StyleHoist.Script

/-! ## Variables -/

/-- Tokens that make a `let` before them begin a declaration. -/
def startsLetBinding : Token → Bool
  | .punct .lbracket | .punct .lbrace => true
  | t => t.isName

/-- One variable. A pattern needs a value, a constant should have one. -/
def declarator (g : Knot) (inLoop isConst isVar : Bool) : Read Node := do
  let start ← offset
  let target ← g (.binding isVar)
  let isName := target.kind matches .ident _
  if isName then let _ ← eat .bang
  let annotation ← typeAnnotation g
  let r ← role
  if inLoop && (r == .kwIn || r == .kwOf) then finish start .form (target :: annotation)
  else if ← eat .assign then
    let value ← g .assignment
    finish start .form (target :: value :: annotation)
  else
    unless (← around).inDeclaration do
      if isConst then flaw else unless isName do fail
    finish start .form (target :: annotation)

/-- Passes tokens until a statement may end. -/
def skipToStatementEnd : Read Unit :=
  iterate
    (fun () => do
      if ← eatStatementEnd then return .inr ()
      bump
      if (← token) == .bad then return .inr ()
      return .inl ())
    ()

/-- Variables with commas between them. That none follows is noted. -/
def declarators (g : Knot) (inLoop isConst isVar : Bool) : Read (List Node) :=
  iterate
    (fun found => do
      if (← atPunct .semi) || (← atEnd) then
        flaw
        return .inr found.reverse
      let n ← declarator g inLoop isConst isVar
      if ← eat .comma then return .inl (n :: found) else return .inr (n :: found).reverse)
    ([] : List Node)

/-- Variables from the word that declares them on. A missing statement end after them is noted and skipped to. -/
def variableList (g : Knot) : Read Node := do
  let start ← offset
  let r ← role
  bump
  let found ← inside (fun a => { a with allowIn := true }) (declarators g false (r == .kwConst) (r == .kwVar))
  unless ← eatStatementEnd do
    flaw
    let _ ← tryCatch (g .expression) fun _ => return default
    skipToStatementEnd
  finish start .form found

/-- Variables in the head of a loop. There may be none before `of` or `in` if the head is complete without them, which
is noted. -/
def loopVariables (g : Knot) : Read Node := do
  let start ← offset
  let r ← role
  bump
  let none ← lookAhead do
    unless (← eatRole .kwOf) || (← eatRole .kwIn) do fail
    let _ ← g .assignment
    atPunct .rparen
  if none then
    flaw
    finish start .form []
  else
    let found ← inside (fun a => { a with allowIn := r != .kwVar }) (declarators g true (r == .kwConst) (r == .kwVar))
    finish start .form found

/-- Variables that are disposed of, from the word `using` on. No statement end is due after them. -/
def disposables (g : Knot) : Read Node := do
  let start ← offset
  expectRole .kwUsing
  let found ← declarators g false true false
  flawIf (found.any fun n => match n.parts with
    | target :: _ => !(target.kind matches .ident _)
    | [] => false)
  finish start .form found

/-! ## Types with names -/

/-- The key of a member of an enumeration. One that is no word or string is noted. -/
def enumerationKey (g : Knot) : Read Node := do
  let start ← offset
  match ← token with
  | .string | .word _ _ => propertyKey g
  | .number =>
    flaw
    propertyKey g
  | .punct .lbracket =>
    bump
    let inner ← g .expression
    flaw
    expect .rbracket
    finish start .computedKey [inner]
  | _ => fail

/-- An enumeration from its name on. Any one token may stand for the comma after a member without a value, and the comma
after a value may be missing, which is noted. -/
def enumeration (g : Knot) (start : Nat) : Read Node := do
  let n ← anyWord
  expect .lbrace
  let members ← collect do
    if ← eat .rbrace then return none
    let at_ ← offset
    let key ← enumerationKey g
    if ← eat .assign then
      let value ← g .assignment
      let member ← finish at_ .form [key, value]
      unless (← atPunct .rbrace) || (← eat .comma) do flaw
      return some member
    else
      let member ← finish at_ .form [key]
      unless (← atPunct .rbrace) || (← eat .comma) do
        if ← atEnd then fail
        flaw
        bump
      return some member
  finish start .form (n :: members)

/-- An interface from its name on. -/
def interfaceNode (g : Knot) (start : Nat) : Read Node := do
  let n ← anyWord
  let ts ← typeParameters? g
  let parents ← if ← eatRole .kwExtends then heritage g else pure []
  if ← atRole .kwExtends then
    -- A second clause is noted and skipped.
    flaw
    let _ ← collect do
      if (← atEnd) || (← atPunct .lbrace) then return none
      bump
      return some default
  let body ← typeMembers g
  finish start .form (n :: ts ++ parents ++ [body])

/-- A type alias from its name on. -/
def typeAlias (g : Knot) (start : Nat) : Read Node := do
  let n ← anyWord
  let ts ← typeParameters? g
  expect .assign
  let t ← g .type
  expectStatementEnd
  finish start .form (n :: ts ++ [t])

/-- The body of a namespace. -/
def namespaceBody (g : Knot) : Read Node := do
  let start ← offset
  expect .lbrace
  let items ← collect do
    if ← eatClosingBrace then return none
    some <$> g .moduleItem
  finish start .form items

/-- A namespace from its name on; the name may be a string, and then the body may be missing. -/
def namespaceNode (g : Knot) (start : Nat) : Read Node := do
  if (← token) == .string then
    bump
    if ← atPunct .lbrace then
      let body ← namespaceBody g
      finish start .form [body]
    else
      expectStatementEnd
      finish start .form []
  else
    let n ← dottedName
    let body ← namespaceBody g
    finish start .form [n, body]

/-- The declaration that a word begins. The word is the current token if `here` holds and has been passed otherwise. -/
def wordDeclaration (g : Knot) (start : Nat) (r : Role) (here : Bool) : Read (Option Node) := do
  let pass : Read Unit := if here then bump else pure ()
  let nameFollows : Read Bool := if here then return true else atName
  match r with
  | .kwAbstract =>
    if here || ((← atRole .kwClass) && !(← afterNewline)) then
      pass
      return some (← classNode g start true)
    else return none
  | .kwEnum =>
    if ← nameFollows then
      pass
      return some (← enumeration g start)
    else return none
  | .kwInterface =>
    if ← nameFollows then
      pass
      return some (← interfaceNode g start)
    else return none
  | .kwModule =>
    if !here && (← afterNewline) then return none
    if here || (← atName) || (← token) == .string then
      pass
      return some (← namespaceNode g start)
    else return none
  | .kwNamespace =>
    if ← nameFollows then
      pass
      return some (← namespaceNode g start)
    else return none
  | .kwType =>
    if here || (!(← afterNewline) && (← atName)) then
      pass
      return some (← typeAlias g start)
    else return none
  | _ => return none

/-- What is declared to exist elsewhere, after the word `declare`. -/
def declared (g : Knot) (start : Nat) : Read (Option Node) :=
  inside (fun a => { a with inDeclaration := true }) do
    match ← role with
    | .kwFunction => some <$> functionNode g start false false true
    | .kwClass => some <$> classNode g start true
    | .kwConst =>
      if (← peekRole) == .kwEnum then
        bump
        bump
        some <$> enumeration g start
      else some <$> variableList g
    | .kwVar | .kwLet => some <$> variableList g
    | .kwGlobal =>
      bump
      if ← atPunct .lbrace then some <$> namespaceBody g
      else
        expectStatementEnd
        some <$> finish start .form []
    | .kwAsync => some <$> (do
        bump
        functionNode g start true false true)
    | r => wordDeclaration g start r true

end StyleHoist.Script
