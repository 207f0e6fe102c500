import StyleHoist.Proofs.Script.Rules.Types

/-!
# Rules for values

Functions, classes, markup and values keep their place if the rest of the grammar does.

- `keeps_parenOrArrow`: a value in parentheses begins at the first of them.
- `keeps_classNode`, `keeps_markup`, `keeps_assignment`: what the other rules use.
-/

namespace StyleHoist.Script

instance : Holder ParenItem := ⟨fun item => [item.node]⟩

instance : Holder ModifierUse :=
  ⟨fun use =>
    match use with
    | .modifier => []
    | .member n => [n]⟩

section Good

variable {T : Text}

instance {item : ParenItem} [h : Good T item] : Good T item.node := ⟨h.placed⟩
instance {n : Node} {b : Bool} [h : Good T n] : Good T (⟨n, b⟩ : ParenItem) := ⟨h.placed⟩
instance : Good T ModifierUse.modifier := ⟨by simp [Holder.nodes]⟩
instance {n : Node} [h : Good T n] : Good T (ModifierUse.member n) := ⟨h.placed⟩

instance {items : List ParenItem} [h : Good T items] : Good T (items.map (·.node)) := by
  refine good_list.2 fun n hn => ?_
  obtain ⟨item, hitem, rfl⟩ := List.mem_map.1 hn
  exact ⟨(good_list.1 h item hitem).placed⟩

end Good

section Rules

variable {T : Text} {g : Knot} [Begins g] [Ties T g]

/-! ## Functions and classes -/

instance keeps_eatClosingBrace : Keeps T eatClosingBrace := by
  unfold eatClosingBrace
  exact .steps

instance keeps_block : Keeps T (block g) := by
  unfold block
  exact .steps

instance keeps_functionBody (isAsync isGenerator : Bool) : Keeps T (functionBody g isAsync isGenerator) := by
  unfold functionBody
  exact .steps

instance keeps_functionTail (isAsync isGenerator : Bool) (check : List Node → Read Unit) [∀ ps, Keeps T (check ps)] :
    Keeps T (functionTail g isAsync isGenerator check) := by
  unfold functionTail
  exact .steps

instance keeps_checkGetter (ps : List Node) : Keeps T (checkGetter ps) := by
  unfold checkGetter
  exact .steps

instance keeps_checkSetter (ps : List Node) : Keeps T (checkSetter ps) := by
  unfold checkSetter
  exact .steps

instance keeps_functionNode (start : Nat) (isAsync isValue nameRequired : Bool) :
    Keeps T (functionNode g start isAsync isValue nameRequired) := by
  unfold functionNode
  exact .steps

instance keeps_methodTail (start : Nat) (key : Node) (isAsync isGenerator : Bool) [Good T key] :
    Keeps T (methodTail g start key isAsync isGenerator) := by
  unfold methodTail
  exact .steps

instance keeps_accessorTail (start : Nat) (isGet : Bool) : Keeps T (accessorTail g start isGet) := by
  unfold accessorTail
  cases isGet
  · simp only [Bool.false_eq_true, if_false]
    exact .steps
  · simp only [if_true]
    exact .steps

instance keeps_wordProperty (start : Nat) (modified : Bool) (key : Node) (w : Text) [Good T key] :
    Keeps T (wordProperty g start modified key w) := by
  unfold wordProperty
  exact .steps

instance keeps_objectProperty : Keeps T (objectProperty g) := by
  unfold objectProperty
  exact .steps

instance keeps_objectLiteral : Keeps T (objectLiteral g) := by
  unfold objectLiteral
  exact keeps_object _

instance keeps_atConstructorName : Keeps T atConstructorName := by
  unfold atConstructorName
  exact .steps

instance keeps_atMethod : Keeps T atMethod := by
  unfold atMethod
  exact .steps

instance keeps_atField (newlineEnds : Bool) : Keeps T (atField newlineEnds) := by
  unfold atField
  exact .steps

instance keeps_fieldTail (start : Nat) (key : Node) [Good T key] : Keeps T (fieldTail g start key) := by
  unfold fieldTail
  exact .steps

instance keeps_classMethodTail (start : Nat) (key : Node) (isAsync isGenerator : Bool)
    (check : List Node → Read Unit) [Good T key] [∀ ps, Keeps T (check ps)] :
    Keeps T (classMethodTail g start key isAsync isGenerator check) := by
  unfold classMethodTail
  exact .steps

instance keeps_constructorTail (start : Nat) (key : Node) [Good T key] : Keeps T (constructorTail g start key) := by
  unfold constructorTail
  exact .steps

instance keeps_modifierOrMember (start : Nat) (newlineEnds : Bool) :
    Keeps T (modifierOrMember g start newlineEnds) := by
  unfold modifierOrMember
  exact .steps

instance keeps_plainMember (start : Nat) (isReadonly : Bool) : Keeps T (plainMember g start isReadonly) := by
  unfold plainMember
  exact .steps

instance keeps_classMember : Keeps T (classMember g) := by
  have hmember : ∀ n : Node, [h : Good T (ModifierUse.member n)] → Good T n := fun _ h => ⟨h.placed⟩
  unfold classMember
  exact .steps

instance keeps_heritage : Keeps T (heritage g) := by
  unfold heritage
  exact .steps

instance keeps_parentClass : Keeps T (parentClass g) := by
  unfold parentClass
  exact .steps

instance keeps_classHeritage : Keeps T (classHeritage g) := by
  unfold classHeritage
  exact .steps

instance keeps_classMembers : Keeps T (classMembers g) := by
  unfold classMembers
  exact .steps

instance keeps_classNode (start : Nat) (nameRequired : Bool) : Keeps T (classNode g start nameRequired) := by
  unfold classNode
  exact .steps

/-! ## Markup -/

instance keeps_tagName : Keeps T tagName := by
  unfold tagName
  exact .steps

instance keeps_childContainer : Keeps T (childContainer g) := by
  unfold childContainer
  exact .steps

instance keeps_markupChildren (nested : Bool) (opened : Option Text) : Keeps T (markupChildren g nested opened) := by
  unfold markupChildren
  exact .steps

instance keeps_tagAttributes : Keeps T (tagAttributes g) := by
  unfold tagAttributes
  exact .steps

instance keeps_markup (nested : Bool) : Keeps T (markup g nested) := by
  unfold markup
  exact .steps

/-! ## Values -/

instance keeps_expression : Keeps T (expression g) := by
  unfold expression
  exact .steps

instance keeps_valueOrSpread : Keeps T (valueOrSpread g) := by
  unfold valueOrSpread
  exact .steps

instance keeps_arguments : Keeps T (arguments g) := by
  unfold arguments
  exact .steps

instance keeps_arrayLiteral : Keeps T (arrayLiteral g) := by
  unfold arrayLiteral
  exact keeps_array .steps

instance keeps_templateParts (isTagged : Bool) : Keeps T (templateParts g isTagged) := by
  unfold templateParts
  exact .steps

instance keeps_arrowBody (isAsync : Bool) : Keeps T (arrowBody g isAsync) := by
  unfold arrowBody
  exact .steps

instance keeps_conditionalTail (start : Nat) (test : Node) [Good T test] : Keeps T (conditionalTail g start test) := by
  unfold conditionalTail
  exact .steps

instance keeps_assignmentTail (start : Nat) (left : Node) [Good T left] : Keeps T (assignmentTail g start left) := by
  unfold assignmentTail
  exact .steps

instance keeps_binary : Keeps T (binary g) := by
  unfold binary
  exact .steps

instance keeps_parenItem : Keeps T (parenItem g) := by
  unfold parenItem
  exact .steps

instance keeps_parenItems : Keeps T (parenItems g) := by
  unfold parenItems
  exact .steps

instance keeps_arrowTail (start : Nat) (isAsync : Bool) (items : List ParenItem) (comma : Bool) [Good T items] :
    Keeps T (arrowTail g start isAsync items comma) := by
  unfold arrowTail
  exact .steps

/-- What stands between the parentheses around a value. -/
theorem keeps_parenthesized {start : Nat} (h : Opens T '(' start) (nodes : List Node) [hnodes : Good T nodes] :
    Keeps T (match nodes with
      | [] => fail
      | [n] => if n.kind == .spread then fail else finish start .paren [n]
      | n :: more => do
        if nodes.any (·.kind == .spread) then fail
        let last := (more.getLast?.getD n).span.stop
        finish start .paren [.mk .sequence ⟨n.span.start, last⟩ nodes]) := by
  have hparen : ∀ parts : List Node, [Good T parts] → Keeps T (finish start .paren parts) :=
    fun _ => ⟨fun _ hs => keepsAt_finish hs h⟩
  split
  · exact .steps
  · have := good_list.1 hnodes _ List.mem_cons_self
    exact .steps
  · exact .steps

omit [Begins g] in
/-- A value in parentheses begins at the first of them. -/
theorem keeps_parenOrArrow {start : Nat} {asyncAt : Option Node} (h : asyncAt = none → Opens T '(' start)
    [Good T asyncAt] (canBeArrow : Bool) : Keeps T (parenOrArrow g start canBeArrow asyncAt) := by
  unfold parenOrArrow
  cases asyncAt with
  | none =>
    have htail := fun (nodes : List Node) [Good T nodes] => keeps_parenthesized (h rfl) nodes
    exact .steps
  | some callee =>
    have hcallee : Good T callee := good_some.1 ‹_›
    exact .steps

instance {start : Nat} {callee : Node} [Good T callee] (canBeArrow : Bool) :
    Keeps T (parenOrArrow g start canBeArrow (some callee)) :=
  keeps_parenOrArrow (fun hnone => absurd hnone (Option.some_ne_none _)) canBeArrow

instance keeps_wordArrow (start : Nat) (isAsync : Bool) (parameter : Node) [Good T parameter] :
    Keeps T (wordArrow g start isAsync parameter) := by
  unfold wordArrow
  exact .steps

instance keeps_wordValue (start : Nat) (canBeArrow : Bool) : Keeps T (wordValue g start canBeArrow) := by
  unfold wordValue
  exact .steps

instance keeps_asyncValue (start : Nat) (canBeArrow : Bool) : Keeps T (asyncValue g start canBeArrow) := by
  unfold asyncValue
  exact .steps

/-- A slash that begins a value begins a regular expression. -/
theorem keepsAt_rescan_regex {s : State} (hs : s.Sound T) {p : Punct} (htoken : s.lexeme.token = .punct p) {w : Text}
    (hw : ∀ e ∈ punctTable ++ gtTable, e.2 = p → e.1 = '/' :: w := by decide) :
    KeepsAt T (rescan fun t => scanRegex false false 1 t.tail) s := by
  refine keepsAt_rescan hs ?_
  obtain ⟨before, part, hstands⟩ := hs
  rw [hstands.here, hstands.part_eq htoken hw]
  exact ((from_scanRegex ..).after (takes_one (by decide) _)).sound

instance keeps_primary : Keeps T (primary g) := by
  unfold primary
  refine ⟨fun s hs => keepsAt_offset_bind ?_⟩
  refine (keeps_get.keepsAt s hs).bind fun s' _ hget _ _ => ?_
  cases hget
  dsimp only
  refine keepsAt_token_bind ?_
  split
  case h_4 htoken =>
    refine (keepsAt_rescan_regex hs htoken (w := [])).bind fun _ s' _ hs' _ => ?_
    exact (Keeps.steps).keepsAt s' hs'
  case h_5 htoken =>
    refine (keepsAt_rescan_regex hs htoken (w := ['='])).bind fun _ s' _ hs' _ => ?_
    exact (Keeps.steps).keepsAt s' hs'
  case h_6 htoken =>
    exact (keeps_parenOrArrow (fun _ => hs.opens htoken) _).keepsAt s hs
  all_goals exact (Keeps.steps).keepsAt s hs

instance keeps_endsInstantiation : Keeps T endsInstantiation := by
  unfold endsInstantiation
  exact .steps

instance keeps_memberName : Keeps T memberName := by
  unfold memberName
  exact .steps

instance keeps_attach (calls : Bool) (start : Nat) (callee : Node) [Good T callee] :
    Keeps T (attach g calls start callee) := by
  unfold attach
  exact .steps

instance keeps_attachAll (calls : Bool) (start : Nat) (callee : Node) [Good T callee] :
    Keeps T (attachAll g calls start callee) := by
  unfold attachAll
  exact .steps

instance keeps_importValue (calls : Bool) : Keeps T (importValue g calls) := by
  unfold importValue
  exact .steps

instance keeps_construct : Keeps T (construct g) := by
  unfold construct
  exact .steps

instance keeps_leftHand : Keeps T (leftHand g) := by
  unfold leftHand
  exact .steps

instance keeps_awaitValue : Keeps T (awaitValue g) := by
  unfold awaitValue
  exact .steps

instance keeps_operand : Keeps T (operand g) := by
  unfold operand
  exact .steps

instance keeps_unary : Keeps T (unary g) := by
  unfold unary
  exact .steps

instance keeps_binaryRest (left : Node) (power : Nat) [Good T left] : Keeps T (binaryRest g left power) := by
  have hoperation : ∀ (p : Punct) (start : Nat) (parts : List Node), [Good T parts] →
      Keeps T (finish start p.binaryKind parts) :=
    fun p _ _ => .finish (by cases p <;> rfl) _ _
  unfold binaryRest
  dsimp only
  simp only [pure_bind]
  exact .steps

instance keeps_conditional : Keeps T (conditional g) := by
  unfold conditional
  exact .steps

instance keeps_yieldValue : Keeps T (yieldValue g) := by
  unfold yieldValue
  exact .steps

instance keeps_plainAssignment : Keeps T (plainAssignment g) := by
  unfold plainAssignment
  exact .steps

instance keeps_genericArrow : Keeps T (genericArrow g) := by
  unfold genericArrow
  exact .steps

instance keeps_assignment : Keeps T (assignment g) := by
  unfold assignment
  exact .steps

end Rules

end StyleHoist.Script
