import StyleHoist.Proofs.Script.Rules.Values

/-!
# Rules for statements

Declarations, statements and the items of a module keep their place if the rest of the grammar does. With them the whole
grammar does.

- `ties_read`: the rules of the grammar keep their place, however deep they ask for each other.
-/

namespace StyleHoist.Script

section Rules

variable {T : Text} {g : Knot} [Begins g] [Ties T g]

/-! ## Declarations -/

instance keeps_declarator (inLoop isConst isVar : Bool) : Keeps T (declarator g inLoop isConst isVar) := by
  unfold declarator
  exact .steps

instance keeps_skipToStatementEnd : Keeps T skipToStatementEnd := by
  unfold skipToStatementEnd
  exact .steps

instance keeps_declarators (inLoop isConst isVar : Bool) : Keeps T (declarators g inLoop isConst isVar) := by
  unfold declarators
  exact .steps

instance keeps_variableList : Keeps T (variableList g) := by
  unfold variableList
  exact .steps

instance keeps_loopVariables : Keeps T (loopVariables g) := by
  unfold loopVariables
  exact .steps

instance keeps_disposables : Keeps T (disposables g) := by
  unfold disposables
  exact .steps

instance keeps_enumerationKey : Keeps T (enumerationKey g) := by
  unfold enumerationKey
  exact .steps

instance keeps_enumeration (start : Nat) : Keeps T (enumeration g start) := by
  unfold enumeration
  exact .steps

instance keeps_interfaceNode (start : Nat) : Keeps T (interfaceNode g start) := by
  unfold interfaceNode
  exact .steps

instance keeps_typeAlias (start : Nat) : Keeps T (typeAlias g start) := by
  unfold typeAlias
  exact .steps

instance keeps_namespaceBody : Keeps T (namespaceBody g) := by
  unfold namespaceBody
  exact .steps

instance keeps_namespaceNode (start : Nat) : Keeps T (namespaceNode g start) := by
  unfold namespaceNode
  exact .steps

instance keeps_wordDeclaration (start : Nat) (r : Role) (here : Bool) : Keeps T (wordDeclaration g start r here) := by
  unfold wordDeclaration
  exact .steps

instance keeps_declared (start : Nat) : Keeps T (declared g start) := by
  unfold declared
  exact .steps

/-! ## Statements -/

instance keeps_headValue : Keeps T (headValue g) := by
  unfold headValue
  exact .steps

instance keeps_jump (isBreak : Bool) : Keeps T (jump isBreak) := by
  unfold jump
  exact .steps

instance keeps_ifStatement : Keeps T (ifStatement g) := by
  unfold ifStatement
  exact .steps

instance keeps_whileStatement : Keeps T (whileStatement g) := by
  unfold whileStatement
  exact .steps

instance keeps_doStatement : Keeps T (doStatement g) := by
  unfold doStatement
  exact .steps

instance keeps_eachHead (target : Node) [Good T target] : Keeps T (eachHead g target) := by
  unfold eachHead
  exact .steps

instance keeps_stepHead (first : List Node) [Good T first] : Keeps T (stepHead g first) := by
  unfold stepHead
  exact .steps

instance keeps_forHead : Keeps T (forHead g) := by
  unfold forHead
  exact .steps

instance keeps_forStatement : Keeps T (forStatement g) := by
  unfold forStatement
  exact .steps

instance keeps_switchStatement : Keeps T (switchStatement g) := by
  unfold switchStatement
  exact .steps

instance keeps_catchClause : Keeps T (catchClause g) := by
  unfold catchClause
  exact .steps

instance keeps_finallyClause : Keeps T (finallyClause g) := by
  unfold finallyClause
  exact .steps

instance keeps_tryStatement : Keeps T (tryStatement g) := by
  unfold tryStatement
  exact .steps

instance keeps_valueStatement : Keeps T (valueStatement g) := by
  unfold valueStatement
  exact .steps

instance keeps_statement (declares : Bool) : Keeps T (statement g declares) := by
  unfold statement
  exact .steps

/-! ## Modules -/

instance keeps_exportName : Keeps T exportName := by
  unfold exportName
  exact .steps

instance keeps_moduleName : Keeps T moduleName := by
  unfold moduleName
  exact .steps

instance keeps_importAttributes : Keeps T (importAttributes g) := by
  unfold importAttributes
  exact .steps

instance keeps_fromClause : Keeps T (fromClause g) := by
  unfold fromClause
  exact .steps

instance keeps_importSpecifier : Keeps T importSpecifier := by
  unfold importSpecifier
  exact .steps

instance keeps_importAlias (start : Nat) : Keeps T (importAlias g start) := by
  unfold importAlias
  exact .steps

instance keeps_importItem : Keeps T (importItem g) := by
  unfold importItem
  exact .steps

instance keeps_exportSpecifier : Keeps T exportSpecifier := by
  unfold exportSpecifier
  exact .steps

instance keeps_defaultExport (start : Nat) : Keeps T (defaultExport g start) := by
  unfold defaultExport
  exact .steps

instance keeps_exportedDeclaration : Keeps T (exportedDeclaration g) := by
  unfold exportedDeclaration
  exact .steps

instance keeps_exportItem : Keeps T (exportItem g) := by
  unfold exportItem
  exact .steps

instance keeps_moduleItem : Keeps T (moduleItem g) := by
  unfold moduleItem
  exact .steps

end Rules

/-- **The rules of the grammar keep their place.** -/
instance ties_read (T : Text) (depth : Nat) : Ties T (read depth) := by
  induction depth with
  | zero => exact ⟨fun _ _ => keeps_fail⟩
  | succ depth ih =>
    refine ⟨fun goal hgoal => ?_⟩
    cases goal with
    | moduleItem => exact keeps_moduleItem
    | item => exact keeps_statement true
    | statement => exact keeps_statement false
    | expression => exact keeps_expression
    | assignment => exact keeps_assignment
    | unary => exact keeps_unary
    | leftHand => exact keeps_leftHand
    | binaryRest left power =>
      have hleft : Good T left := ⟨hgoal.placed⟩
      exact keeps_binaryRest left power
    | construct => exact keeps_construct
    | type => exact keeps_anyType
    | plainType => exact keeps_plainType
    | operatorType => exact keeps_operatorType
    | binding letAllowed => exact keeps_binding letAllowed
    | markup nested => exact keeps_markup nested

end StyleHoist.Script
