import StyleHoist.Proofs.Script.Brackets

/-!
# Rules for names, patterns and types

Each rule of the grammar keeps its place if the rest of the grammar does. The rules follow one another as in the
grammar, so a rule finds what is known about those that it uses.

- `keeps_propertyKey`, `keeps_binding`, `keeps_parameter`, `keeps_anyType`: what the other rules use.
-/

namespace StyleHoist.Script

section Rules

variable {T : Text} {g : Knot} [Begins g] [Ties T g]

/-! ## The frame -/

instance keeps_nothing : Keeps T (pure () : Read Unit) :=
  .pure ()

instance keeps_enforce (v : Verdict) : Keeps T v.enforce := by
  unfold Verdict.enforce
  exact .steps

instance keeps_anyWord : Keeps T anyWord := by
  unfold anyWord
  exact .steps

instance keeps_name : Keeps T name := by
  unfold name
  exact .steps

instance keeps_boundName (letAllowed : Bool) : Keeps T (boundName letAllowed) := by
  unfold boundName
  exact .steps

instance keeps_atName : Keeps T atName := by
  unfold atName
  exact .steps

instance keeps_privateName : Keeps T privateName := by
  unfold privateName
  exact .steps

instance keeps_propertyKey : Keeps T (propertyKey g) := by
  unfold propertyKey
  exact .steps

instance keeps_memberKey : Keeps T (memberKey g) := by
  unfold memberKey
  exact .steps

instance keeps_canFollowModifier : Keeps T canFollowModifier := by
  unfold canFollowModifier
  exact .steps

instance keeps_eatModifier (roles : List Role) : Keeps T (eatModifier roles) := by
  unfold eatModifier
  exact .steps

instance keeps_eatAccess : Keeps T eatAccess := by
  unfold eatAccess
  exact .steps

/-! ## Patterns -/

instance keeps_withDefault (start : Nat) (left : Node) [Good T left] : Keeps T (withDefault g start left) := by
  unfold withDefault
  exact .steps

instance keeps_bindingElement : Keeps T (bindingElement g) := by
  unfold bindingElement
  exact .steps

instance keeps_arrayBinding (start : Nat) : Keeps T (arrayBinding g start) := by
  unfold arrayBinding
  exact .steps

instance keeps_propertyBinding : Keeps T (propertyBinding g) := by
  unfold propertyBinding
  exact .steps

instance keeps_objectBinding (start : Nat) : Keeps T (objectBinding g start) := by
  unfold objectBinding
  exact .steps

instance keeps_binding (letAllowed : Bool) : Keeps T (binding g letAllowed) := by
  unfold binding
  exact .steps

/-! ## Parameters -/

instance keeps_typeAnnotation : Keeps T ( typeAnnotation g) := by
  unfold typeAnnotation
  exact .steps

instance keeps_eatMemberModifiers : Keeps T eatMemberModifiers := by
  unfold eatMemberModifiers
  exact .steps

instance keeps_parameter (ofConstructor : Bool) : Keeps T (parameter g ofConstructor) := by
  unfold parameter
  exact .steps

instance keeps_parameters (ofConstructor : Bool) : Keeps T (parameters g ofConstructor) := by
  unfold parameters
  exact .steps

/-! ## Types -/

instance keeps_atAngle : Keeps T atAngle := by
  unfold atAngle
  exact .steps

instance keeps_typeArguments : Keeps T (typeArguments g) := by
  unfold typeArguments
  exact .steps

instance keeps_typeArguments? : Keeps T (typeArguments? g) := by
  unfold typeArguments?
  exact .steps

instance keeps_typeParameter : Keeps T (typeParameter g) := by
  unfold typeParameter
  exact .steps

instance keeps_typeParameters? : Keeps T (typeParameters? g) := by
  unfold typeParameters?
  exact .steps

instance keeps_dottedName : Keeps T dottedName := by
  unfold dottedName
  exact .steps

instance keeps_typeReference : Keeps T (typeReference g) := by
  unfold typeReference
  exact .steps

instance keeps_resultType : Keeps T (resultType g) := by
  unfold resultType
  exact .steps

instance keeps_resultAnnotation : Keeps T ( resultAnnotation g) := by
  unfold resultAnnotation
  exact .steps

instance keeps_functionType (start : Nat) : Keeps T (functionType g start) := by
  unfold functionType
  exact .steps

instance keeps_startsFunctionType : Keeps T (startsFunctionType g) := by
  unfold startsFunctionType
  exact .steps

instance keeps_endTypeMember : Keeps T endTypeMember := by
  unfold endTypeMember
  exact .steps

instance keeps_callSignature : Keeps T (callSignature g) := by
  unfold callSignature
  exact .steps

instance keeps_startsIndexSignature : Keeps T startsIndexSignature := by
  unfold startsIndexSignature
  exact .steps

instance keeps_indexSignature (start : Nat) : Keeps T (indexSignature g start) := by
  unfold indexSignature
  exact .steps

instance keeps_typeAccessor : Keeps T (typeAccessor g) := by
  unfold typeAccessor
  exact .steps

instance keeps_typeMember : Keeps T (typeMember g) := by
  unfold typeMember
  exact .steps

instance keeps_typeMembers : Keeps T (typeMembers g) := by
  unfold typeMembers
  exact .steps

instance keeps_startsMappedType : Keeps T startsMappedType := by
  unfold startsMappedType
  exact .steps

instance keeps_mappedType : Keeps T (mappedType g) := by
  unfold mappedType
  exact .steps

instance keeps_tupleElement : Keeps T (tupleElement g) := by
  unfold tupleElement
  exact .steps

instance keeps_templateType (start : Nat) : Keeps T (templateType g start) := by
  unfold templateType
  exact .steps

instance keeps_importedType : Keeps T (importedType g) := by
  unfold importedType
  exact .steps

instance keeps_singleType : Keeps T (singleType g) := by
  unfold singleType
  exact .steps

instance keeps_postfixType : Keeps T (postfixType g) := by
  unfold postfixType
  exact .steps

instance keeps_operatorType : Keeps T (operatorType g) := by
  unfold operatorType
  exact .steps

instance keeps_typesBetween (p : Punct) (part : Read Node) [Keeps T part] : Keeps T (typesBetween p part) := by
  unfold typesBetween
  exact .steps

instance keeps_plainType : Keeps T (plainType g) := by
  unfold plainType
  exact .steps

instance keeps_anyType : Keeps T (anyType g) := by
  unfold anyType
  exact .steps

end Rules

end StyleHoist.Script
