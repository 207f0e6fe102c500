import StyleHoist.Script.Grammar.Statement

/-!
# Modules

Imports and exports, and the items of a module.
-/

namespace StyleHoist.Script

/-! ## Parts of imports and exports -/

/-- Tokens that can name an export. -/
def isExportName : Token → Bool
  | .string => true
  | t => t.isWord

/-- A word or string that names an export. -/
def exportName : Read Node := do
  let start ← offset
  match ← token with
  | .string =>
    bump
    finish start .string []
  | _ => anyWord

/-- A module named by a string. -/
def moduleName : Read Unit := do
  unless (← token) == .string do fail
  bump

/-- Attributes of an imported module. -/
def importAttributes (g : Knot) : Read Unit := do
  let r ← role
  match ← token with
  | .word _ w =>
    if r == .kwWith || (w == "assert".toList && !(← afterNewline)) then
      bump
      let _ ← objectLiteral g
  | _ => pure ()

/-- A module after the word `from`, up to the end of the statement. -/
def fromClause (g : Knot) : Read Unit := do
  expectRole .kwFrom
  moduleName
  importAttributes g
  expectStatementEnd

/-- A name in an import list, possibly with another name or with the word `type` before it. -/
def importSpecifier : Read Node := do
  let start ← offset
  if (← token) == .string then
    bump
    expectRole .kwAs
    let n ← boundName true
    finish start .form [n]
  else
    let next ← peek
    let isType :=
      (← atRole .kwType)
        && (match next.token with
          | .string => true
          | .word .kwAs _ => false
          | t => t.isWord)
    if ← atRole .kwType then
      if next.token matches .word .kwAs _ then
        -- `type as`, `type as x`, `type as as` and `type as as x` differ in what is a name.
        bump
        bump
        if ← eatRole .kwAs then
          if (← token).isWord then
            let _ ← boundName true
        else if (← token).isWord then
          let _ ← boundName true
        return ← finish start .form []
    if isType then bump
    let r ← role
    let first ← exportName
    if ← eatRole .kwAs then
      let n ← boundName true
      finish start .form [first, n]
    else
      if r.isReservedInModules then fail
      finish start .form [first]

/-- An import that gives a name to something: another name, or a module that is required. -/
def importAlias (g : Knot) (start : Nat) : Read Node := do
  expect .assign
  if (← atRole .kwRequire) && (← peekPunct .lparen) then
    bump
    bump
    moduleName
    expect .rparen
    expectStatementEnd
    finish start .form []
  else
    let n ← dottedName
    let _ := g
    expectStatementEnd
    finish start .form [n]

/-- An import from the word `import` on. -/
def importItem (g : Knot) : Read Node := do
  let start ← offset
  expectRole .kwImport
  if (← token) == .string then
    bump
    importAttributes g
    expectStatementEnd
    finish start .form []
  else
    let lists : Read (List Node) := do
      if ← eat .star then
        expectRole .kwAs
        List.singleton <$> boundName true
      else if ← eat .lbrace then listUntil .rbrace importSpecifier
      else return []
    if ← atName then
      let first ← boundName true
      let mut names := [first]
      let mut listNext := false
      if first.isIdent "type".toList then
        if (← atPunct .lbrace) || (← atPunct .star) then listNext := true
        else if ← atName then
          let next ← peek
          if !(← atRole .kwFrom) || (next.token matches .word .kwFrom _) || next.token == .punct .assign then
            names := [← boundName true]
      if listNext then
        let more ← lists
        fromClause g
        finish start .form more
      else if ← atPunct .assign then importAlias g start
      else
        let more ←
          if ← atRole .kwFrom then pure []
          else do
            expect .comma
            lists
        fromClause g
        finish start .form (names ++ more)
    else
      let names ← lists
      fromClause g
      finish start .form names

/-- A name in an export list. -/
def exportSpecifier : Read Node := do
  let start ← offset
  let next ← peek
  let isType :=
    (← atRole .kwType) && isExportName next.token && !(next.token matches .word .kwAs _)
  if isType then bump
  let first ← exportName
  if ← eatRole .kwAs then
    let n ← exportName
    finish start .form [first, n]
  else finish start .form [first]

/-- What a module exports under no name. -/
def defaultExport (g : Knot) (start : Nat) : Read Node := do
  let at_ ← offset
  let next ← peek
  match ← role with
  | .kwAbstract =>
    if (next.token matches .word .kwClass _) && !next.newline then
      bump
      classNode g at_ false
    else
      let value ← g .assignment
      expectStatementEnd
      finish start .form [value]
  | .kwInterface =>
    bump
    interfaceNode g at_
  | .kwClass => classNode g at_ false
  | .kwFunction => functionNode g at_ false false false
  | .kwAsync =>
    if (next.token matches .word .kwFunction _) && !next.newline then
      bump
      functionNode g at_ true false false
    else
      let value ← g .assignment
      expectStatementEnd
      finish start .form [value]
  | _ =>
    let value ← inside (fun a => { a with allowIn := true }) (g .assignment)
    expectStatementEnd
    finish start .form [value]

/-- The declaration that an export begins with a word for, if it is one that describes types. -/
def exportedDeclaration (g : Knot) : Read Node := do
  let at_ ← offset
  let r ← role
  if r == .kwDeclare then
    bump
    match ← declared g at_ with
    | some n => return n
    | none => fail
  else
    match ← wordDeclaration g at_ r true with
    | some n => return n
    | none => fail

/-- An export from the word `export` on. -/
def exportItem (g : Knot) : Read Node := do
  let start ← offset
  expectRole .kwExport
  let described ←
    match ← role with
    | .kwDeclare | .kwAbstract | .kwEnum | .kwInterface | .kwModule | .kwNamespace | .kwType =>
      attempt (exportedDeclaration g)
    | _ => pure none
  match described with
  | some n => finish start .form [n]
  | none =>
    if ← eatRole .kwImport then
      let n ← anyWord
      let isType := n.isIdent "type".toList && (← atName)
      if isType then let _ ← anyWord
      return ← importAlias g start
    if ← eat .assign then
      let value ← g .expression
      expectStatementEnd
      return ← finish start .form [value]
    if ← eatRole .kwAs then
      expectRole .kwNamespace
      let n ← name
      expectStatementEnd
      return ← finish start .form [n]
    let next ← peek
    if (← atRole .kwType) && (next.token == .punct .lbrace || next.token == .punct .star) then bump
    let r ← role
    let next ← peek
    match r with
    | .kwDefault =>
      bump
      defaultExport g start
    | .kwClass => classNode g start true
    | .kwFunction => functionNode g start false false true
    | .kwAsync =>
      unless (next.token matches .word .kwFunction _) && !next.newline do fail
      bump
      functionNode g start true false true
    | .kwConst | .kwVar | .kwLet =>
      if r == .kwConst && (next.token matches .word .kwEnum _) then
        bump
        bump
        enumeration g start
      else
        let n ← variableList g
        finish start .form [n]
    | _ =>
      if ← eat .star then
        let n ← if ← eatRole .kwAs then List.singleton <$> exportName else pure []
        fromClause g
        finish start .form n
      else
        expect .lbrace
        let names ← listUntil .rbrace exportSpecifier
        if ← atRole .kwFrom then fromClause g
        else
          let _ ← eatStatementEnd
        finish start .form names

/-- An item of a module. -/
def moduleItem (g : Knot) : Read Node := do
  match ← role with
  | .kwImport =>
    match (← peek).token with
    | .punct .lparen | .punct .dot => g .item
    | _ => importItem g
  | .kwExport => exportItem g
  | _ => g .item

end StyleHoist.Script
