import StyleHoist.Proofs.Script.Placing
import StyleHoist.Script.Source

/-!
# Where values begin

An object, an array or a value in parentheses that is read where a value is expected begins at the token at which the
reading has begun: whatever is attached to it or stands behind an operator makes a value of another kind. And no value
is a container, which only an attribute has.

- `Leads`: a reading that gives values that begin where it begins.
- `begins_read`: the rules for values are such readings, however they ask for each other.
-/

namespace StyleHoist.Script

/-! ## Values that begin at an offset -/

/-- A value that begins at an offset if it begins with a bracket, and is no container. -/
structure Node.LedBy (start : Nat) (n : Node) : Prop where
  start_eq : n.kind.isBracket = true → n.span.start = start
  noContainer : n.kind ≠ .container

/-- Kinds of values that begin in other ways. -/
def Kind.isUnbracketed (kind : Kind) : Bool :=
  !kind.isBracket && kind != .container

theorem Kind.isBracket_eq_false {kind : Kind} (h : kind.isUnbracketed = true) : kind.isBracket = false := by
  simp only [Kind.isUnbracketed, Bool.and_eq_true, Bool.not_eq_true'] at h
  exact h.1

theorem Kind.ite_ne {c : Prop} [Decidable c] {kind kind' other : Kind} (h : kind ≠ other) (h' : kind' ≠ other) :
    (if c then kind else kind') ≠ other := by
  split
  · exact h
  · exact h'

theorem Node.ledBy_of_isUnbracketed {start : Nat} {n : Node} (h : n.kind.isUnbracketed = true) : n.LedBy start where
  start_eq hbracket := by
    rw [Kind.isBracket_eq_false h] at hbracket
    cases hbracket
  noContainer hkind := by
    rw [hkind] at h
    exact absurd h (by decide)

theorem Punct.isUnbracketed_binaryKind (p : Punct) : p.binaryKind.isUnbracketed = true := by
  cases p <;> rfl

/-- A result whose nodes begin at an offset. -/
class Led {α : Type} [Holder α] (start : Nat) (a : α) : Prop where
  led : ∀ n ∈ Holder.nodes a, n.LedBy start

section Led

variable {α β : Type} [Holder α] [Holder β] {start : Nat}

theorem Led.node {n : Node} (h : Led start n) : n.LedBy start :=
  h.led n List.mem_cons_self

theorem led_of_ledBy {n : Node} (h : n.LedBy start) : Led start n :=
  ⟨by simpa [Holder.nodes] using h⟩

theorem led_some {a : α} : Led start (some a) ↔ Led start a := by
  constructor <;> exact fun h => ⟨by simpa [Holder.nodes] using h.led⟩

instance : Led start (none : Option α) := ⟨by simp [Holder.nodes]⟩
instance {a : α} [h : Led start a] : Led start (some a) := led_some.2 h
instance {a : α} [h : Led start a] : Led start (.inl a : α ⊕ β) := ⟨h.led⟩
instance {b : β} [h : Led start b] : Led start (.inr b : α ⊕ β) := ⟨h.led⟩

/-- A node of a kind that begins in another way. -/
theorem led_mk {kind : Kind} (h : kind.isUnbracketed = true) (span : Span) (parts : List Node) :
    Led start (Node.mk kind span parts) :=
  led_of_ledBy (Node.ledBy_of_isUnbracketed h)

instance {span : Span} {parts : List Node} : Led start (Node.mk .invalid span parts) := led_mk rfl _ _
instance {span : Span} {parts : List Node} : Led start (Node.mk .arrow span parts) := led_mk rfl _ _

end Led

/-! ## Steps that only look -/

section Still

variable {α β : Type}

/-- A reading that stays at its token. -/
class Still (r : Read α) : Prop where
  pos_eq : ∀ s a s', r s = .ok a s' → s'.pos = s.pos

theorem ok_of_bind {r : Read α} {f : α → Read β} {s s' : State} {b : β} (h : (r >>= f) s = .ok b s') :
    ∃ a s₁, r s = .ok a s₁ ∧ f a s₁ = .ok b s' := by
  have hbind : EStateM.bind r f s = .ok b s' := h
  unfold EStateM.bind at hbind
  split at hbind
  · exact ⟨_, _, ‹_›, hbind⟩
  · cases hbind

theorem Still.bind {r : Read α} {f : α → Read β} (h : Still r) (hf : ∀ a, Still (f a)) : Still (r >>= f) := by
  refine ⟨fun s b s' hrun => ?_⟩
  obtain ⟨a, s₁, hr, hf'⟩ := ok_of_bind hrun
  rw [(hf a).pos_eq _ _ _ hf', h.pos_eq _ _ _ hr]

theorem Still.ite {c : Prop} [Decidable c] {r r' : Read α} (h : Still r) (h' : Still r') :
    Still (if c then r else r') := by
  split
  · exact h
  · exact h'

theorem Still.modify {f : State → State} (h : ∀ s, (f s).pos = s.pos) : Still (modify f : Read Unit) :=
  ⟨fun s _ _ hrun => by cases hrun; exact h s⟩

instance still_pure (a : α) : Still (pure a : Read α) :=
  ⟨fun _ _ _ h => by cases h; rfl⟩

instance still_get : Still (get : Read State) :=
  ⟨fun _ _ _ h => by cases h; rfl⟩

instance still_fail : Still (fail : Read α) :=
  ⟨fun _ _ _ h => nomatch h⟩

instance still_offset : Still offset := ⟨fun _ _ _ h => by cases h; rfl⟩
instance still_token : Still token := ⟨fun _ _ _ h => by cases h; rfl⟩
instance still_around : Still around := ⟨fun _ _ _ h => by cases h; rfl⟩
instance still_afterNewline : Still afterNewline := ⟨fun _ _ _ h => by cases h; rfl⟩
instance still_peek : Still peek := ⟨fun _ _ _ h => by cases h; rfl⟩
instance still_flaw : Still flaw := .modify fun _ => rfl
instance still_flawIf (b : Bool) : Still (flawIf b) := .ite still_flaw (still_pure ())
instance still_atPunct (p : Punct) : Still (atPunct p) := still_token.bind fun _ => still_pure _
instance still_atName : Still atName := still_token.bind fun _ => still_pure _
instance still_rescan (scan : Text → Scanned) : Still (rescan scan) := .modify fun _ => rfl
instance still_joinAngle : Still joinAngle :=
  (still_atPunct _).bind fun _ => .ite (still_rescan _) (still_pure ())

instance still_atRole (r : Role) : Still (atRole r) := by
  refine still_token.bind fun t => ?_
  split
  · exact still_pure _
  · exact still_pure _

instance still_role : Still role := by
  refine still_token.bind fun t => ?_
  split
  · exact still_pure _
  · exact still_pure _

end Still

/-! ## Readings that give values that begin where they begin -/

section Leads

variable {α β : Type} [Holder α] [Holder β]

/-- A reading whose values begin at an offset. If it is `still` at its first token, it need only do so from there. -/
class Leads (still : Bool) (start : Nat) (r : Read α) : Prop where
  led : ∀ s a s', (still = true → s.pos = start) → r s = .ok a s' → Led start a

variable {still : Bool} {start : Nat}

theorem Leads.mono {r : Read α} (h : Leads false start r) : Leads still start r :=
  ⟨fun s a s' _ hrun => h.led s a s' (fun hfalse => nomatch hfalse) hrun⟩

theorem Leads.pure (a : α) [h : Led start a] : Leads still start (pure a : Read α) :=
  ⟨fun _ _ _ _ hrun => by cases hrun; exact h⟩

/-- What has been read does not matter for what follows. -/
theorem Leads.bind {γ : Type} {r : Read γ} {f : γ → Read β} (h : ∀ a, Leads false start (f a)) :
    Leads still start (r >>= f) := by
  refine ⟨fun s b s' _ hrun => ?_⟩
  obtain ⟨a, s₁, -, hf⟩ := ok_of_bind hrun
  exact (h a).led _ _ _ (fun hfalse => nomatch hfalse) hf

theorem Leads.bind_still {γ : Type} {r : Read γ} {f : γ → Read β} [hr : Still r] (h : ∀ a, Leads still start (f a)) :
    Leads still start (r >>= f) := by
  refine ⟨fun s b s' hpos hrun => ?_⟩
  obtain ⟨a, s₁, hr', hf⟩ := ok_of_bind hrun
  exact (h a).led _ _ _ (fun ht => (hr.pos_eq _ _ _ hr').trans (hpos ht)) hf

theorem Leads.bind_pure {γ : Type} {a : γ} {f : γ → Read β} (h : Leads still start (f a)) :
    Leads still start (Pure.pure a >>= f) :=
  h

theorem Leads.bind_modify {change : State → State} {f : Unit → Read β} (h : ∀ s, (change s).pos = s.pos)
    (hf : Leads still start (f ())) : Leads still start (modify change >>= f) :=
  have := Still.modify h
  .bind_still fun _ => hf

/-- The offset that a reading starts at. -/
theorem Leads.bind_offset {f : Nat → Read β} (h : Leads true start (f start)) : Leads true start (offset >>= f) := by
  refine ⟨fun s b s' hpos hrun => ?_⟩
  have hf : f s.pos s = .ok b s' := hrun
  rw [hpos rfl] at hf
  exact h.led _ _ _ hpos hf

/-- What follows passes a value on. -/
theorem Leads.bind_led {r : Read α} {f : α → Read β} [hr : Leads still start r]
    (h : ∀ a, [Led start a] → Leads false start (f a)) : Leads still start (r >>= f) := by
  refine ⟨fun s b s' hpos hrun => ?_⟩
  obtain ⟨a, s₁, hr', hf⟩ := ok_of_bind hrun
  exact (@h a (hr.led _ _ _ hpos hr')).led _ _ _ (fun hfalse => nomatch hfalse) hf

/-- What follows an attempt starts again if it has come to nothing. -/
theorem Leads.bind_attempt {r : Read Node} {f : Option Node → Read β} (hr : Leads still start r)
    (none : Leads still start (f none)) (some : ∀ a, [Led start a] → Leads false start (f (some a))) :
    Leads still start (attempt r >>= f) := by
  refine ⟨fun s b s' hpos hrun => ?_⟩
  obtain ⟨o, s₁, hr', hf⟩ := ok_of_bind hrun
  unfold attempt at hr'
  split at hr'
  · rename_i a s₂ hinside
    cases hr'
    unfold inside at hinside
    split at hinside
    · rename_i hread
      cases hinside
      have hled : Led start a := by
        refine hr.led _ _ _ ?_ hread
        exact hpos
      exact (some a).led _ _ _ (fun hfalse => nomatch hfalse) hf
    · cases hinside
  · cases hr'
    exact none.led _ _ _ hpos hf

theorem Leads.ite {c : Prop} [Decidable c] {r r' : Read α} (h : Leads still start r) (h' : Leads still start r') :
    Leads still start (if c then r else r') := by
  split
  · exact h
  · exact h'

/-- An arrow function ends a value. -/
theorem Leads.ite_arrow {n : Node} {r : Read Node} (h : Leads still start r) :
    Leads still start (if n.kind == .arrow then Pure.pure n else r) := by
  split
  · rename_i harrow
    have hkind : n.kind.isUnbracketed = true := by
      rw [eq_of_beq harrow]
      rfl
    have : Led start n := led_of_ledBy (Node.ledBy_of_isUnbracketed hkind)
    exact .pure n
  · exact h

instance leads_fail : Leads still start (fail : Read α) :=
  ⟨fun _ _ _ _ h => nomatch h⟩

instance leads_throw (e : Fault) : Leads still start (throw e : Read α) :=
  ⟨fun _ _ _ _ h => nomatch h⟩

theorem Leads.tryCatch {r : Read α} {handle : Fault → Read α} (h : Leads still start r)
    (hhandle : ∀ e, Leads false start (handle e)) : Leads still start (tryCatch r handle) := by
  refine ⟨fun s a s' hpos hrun => ?_⟩
  have hcatch : EStateM.tryCatch r handle s = .ok a s' := hrun
  unfold EStateM.tryCatch at hcatch
  split at hcatch
  · rename_i e s₁ _
    exact (hhandle e).led _ _ _ (fun hfalse => nomatch hfalse) hcatch
  · exact h.led _ _ _ hpos hcatch

theorem Leads.inside {r : Read α} (h : Leads still start r) (change : Surroundings → Surroundings) :
    Leads still start (inside change r) := by
  refine ⟨fun s a s' hpos hrun => ?_⟩
  unfold Script.inside at hrun
  split at hrun
  · rename_i hread
    cases hrun
    refine h.led _ _ _ ?_ hread
    exact hpos
  · cases hrun

theorem Leads.iterate {step : α → Read (α ⊕ β)} {a : α} [ha : Led start a]
    (h : ∀ a, [Led start a] → Leads false start (step a)) : Leads still start (iterate step a) := by
  have hgo : ∀ n a s b s', Led start a → Script.iterate.go step n a s = .ok b s' → Led start b := by
    intro n
    induction n with
    | zero => exact fun _ _ _ _ _ hrun => nomatch hrun
    | succ n ih =>
      intro a s b s' ha hrun
      obtain ⟨x, s₁, hstep, hrest⟩ := ok_of_bind hrun
      have hx := (h a).led _ _ _ (fun hfalse => nomatch hfalse) hstep
      cases x with
      | inl a' => exact ih a' s₁ b s' ⟨hx.led⟩ hrest
      | inr b' =>
        cases hrest
        exact ⟨hx.led⟩
  exact ⟨fun s b s' _ hrun => hgo _ a s b s' ha hrun⟩

/-- A node that begins where the reading has begun. -/
theorem Leads.finish {kind : Kind} (h : kind ≠ .container) (parts : List Node) :
    Leads still start (finish start kind parts) :=
  ⟨fun _ _ _ _ hrun => by cases hrun; exact led_of_ledBy ⟨fun _ => rfl, h⟩⟩

/-- A node of a kind that begins in another way. -/
theorem Leads.finish_unbracketed {kind : Kind} (h : kind.isUnbracketed = true) (start' : Nat) (parts : List Node) :
    Leads still start (Script.finish start' kind parts) :=
  ⟨fun _ _ _ _ hrun => by cases hrun; exact led_mk h _ _⟩

theorem Leads.bind_finish {kind : Kind} {f : Node → Read β} (h : kind ≠ .container) {parts : List Node}
    (hf : ∀ n, [Led start n] → Leads false start (f n)) : Leads still start (Script.finish start kind parts >>= f) :=
  have : Leads still start (Script.finish start kind parts) := .finish h parts
  .bind_led hf

theorem Leads.bind_finish_unbracketed {kind : Kind} {start' : Nat} {f : Node → Read β} (h : kind.isUnbracketed = true)
    {parts : List Node} (hf : ∀ n, [Led start n] → Leads false start (f n)) :
    Leads still start (Script.finish start' kind parts >>= f) :=
  have : Leads still start (Script.finish start' kind parts) := .finish_unbracketed h start' parts
  .bind_led hf

theorem Leads.bind_tryCatch {r : Read α} {handle : Fault → Read α} {f : α → Read β} (h : Leads still start r)
    (hhandle : ∀ e, Leads false start (handle e)) (hf : ∀ a, [Led start a] → Leads false start (f a)) :
    Leads still start (MonadExcept.tryCatch r handle >>= f) :=
  have := h.tryCatch hhandle
  .bind_led hf

/-- The values of a reading begin where it begins if those of every way through it do. -/
theorem Leads.steps {r : Read α} (h : Leads still start r := by
    repeat' first
      | infer_instance
      | exact Kind.noConfusion
      | with_reducible apply Kind.ite_ne
      | rfl
      | exact Punct.isUnbracketed_binaryKind _
      | with_reducible apply Leads.ite_arrow
      | with_reducible apply Leads.ite
      | with_reducible apply Leads.bind_pure
      | with_reducible apply Leads.bind_offset
      | with_reducible apply Leads.bind_still
      | refine Leads.bind_modify (fun _ => rfl) ?_
      | with_reducible apply Leads.bind_attempt
      | with_reducible apply Leads.bind_led
      | with_reducible apply Leads.bind_tryCatch
      | with_reducible apply Leads.bind_finish
      | with_reducible apply Leads.bind_finish_unbracketed
      | with_reducible apply Leads.bind
      | with_reducible apply Leads.pure
      | with_reducible apply Leads.finish
      | with_reducible apply Leads.finish_unbracketed
      | with_reducible apply Leads.inside
      | with_reducible apply Leads.iterate
      | with_reducible apply Leads.tryCatch
      | intro _
      | split
      | dsimp only) : Leads still start r := h

end Leads

/-! ## The rules for values -/

/-- The rest of a grammar gives values that begin where they are read. What binary operators add begins where their left
operand does. -/
class Begins (g : Knot) : Prop where
  expression (start : Nat) : Leads true start (g .expression)
  assignment (start : Nat) : Leads true start (g .assignment)
  unary (start : Nat) : Leads true start (g .unary)
  leftHand (start : Nat) : Leads true start (g .leftHand)
  construct (start : Nat) : Leads true start (g .construct)
  markup (nested : Bool) (start : Nat) : Leads true start (g (.markup nested))
  binaryRest (left : Node) (power start : Nat) : Led start left → Leads false start (g (.binaryRest left power))

section Rules

variable {g : Knot} [hg : Begins g] {start : Nat} {still : Bool}

instance : Leads true start (g .expression) := hg.expression start
instance : Leads true start (g .assignment) := hg.assignment start
instance : Leads true start (g .unary) := hg.unary start
instance : Leads true start (g .construct) := hg.construct start
instance {nested : Bool} : Leads true start (g (.markup nested)) := hg.markup nested start
instance {left : Node} {power : Nat} [h : Led start left] : Leads still start (g (.binaryRest left power)) :=
  (hg.binaryRest left power start h).mono

instance leads_anyWord : Leads still start anyWord := by
  unfold anyWord
  exact .steps

instance leads_name : Leads still start name := by
  unfold name
  exact .steps

instance leads_privateName : Leads still start privateName := by
  unfold privateName
  exact .steps

instance leads_functionNode (isAsync isValue nameRequired : Bool) :
    Leads still start (functionNode g start isAsync isValue nameRequired) := by
  unfold functionNode
  exact .steps

instance leads_classNode (nameRequired : Bool) : Leads still start (classNode g start nameRequired) := by
  unfold classNode
  exact .steps

instance leads_objectLiteral : Leads true start (objectLiteral g) := by
  unfold objectLiteral
  exact .steps

instance leads_arrayLiteral : Leads true start (arrayLiteral g) := by
  unfold arrayLiteral
  exact .steps

instance leads_markup (nested : Bool) : Leads true start (markup g nested) := by
  unfold markup
  exact .steps

instance leads_conditionalTail (test : Node) : Leads still start (conditionalTail g start test) := by
  unfold conditionalTail
  exact .steps

instance leads_assignmentTail (left : Node) [Led start left] : Leads still start (assignmentTail g start left) := by
  unfold assignmentTail
  exact .steps

instance leads_binary : Leads true start (binary g) := by
  unfold binary
  exact .steps

instance leads_arrowTail (isAsync : Bool) (items : List ParenItem) (comma : Bool) :
    Leads still start (arrowTail g start isAsync items comma) := by
  unfold arrowTail
  exact .steps

instance leads_parenOrArrow (canBeArrow : Bool) (asyncAt : Option Node) :
    Leads still start (parenOrArrow g start canBeArrow asyncAt) := by
  unfold parenOrArrow
  exact .steps

instance leads_wordArrow (isAsync : Bool) (parameter : Node) :
    Leads still start (wordArrow g start isAsync parameter) := by
  unfold wordArrow
  exact .steps

instance leads_wordValue (canBeArrow : Bool) : Leads still start (wordValue g start canBeArrow) := by
  unfold wordValue
  exact .steps

instance leads_asyncValue (canBeArrow : Bool) : Leads still start (asyncValue g start canBeArrow) := by
  unfold asyncValue
  exact .steps

instance leads_primary : Leads true start (primary g) := by
  unfold primary
  exact .steps

instance leads_attach (calls : Bool) (callee : Node) [Led start callee] :
    Leads still start (attach g calls start callee) := by
  unfold attach
  exact .steps

instance leads_attachAll (calls : Bool) (callee : Node) [Led start callee] :
    Leads still start (attachAll g calls start callee) := by
  unfold attachAll
  have : Leads still start (iterate (attach g calls start) callee) := .iterate fun _ => inferInstance
  exact .steps

instance leads_importValue (calls : Bool) : Leads true start (importValue g calls) := by
  unfold importValue
  exact .steps

instance leads_construct : Leads true start (construct g) := by
  unfold construct
  exact .steps

instance leads_leftHand : Leads true start (leftHand g) := by
  unfold leftHand
  exact .steps

instance leads_awaitValue : Leads true start (awaitValue g) := by
  unfold awaitValue
  exact .steps

instance leads_unary : Leads true start (unary g) := by
  unfold unary
  exact .steps

instance leads_binaryRest (left : Node) (power : Nat) [Led start left] :
    Leads still start (binaryRest g left power) := by
  unfold binaryRest
  exact .steps

instance leads_conditional : Leads true start (conditional g) := by
  unfold conditional
  exact .steps

instance leads_yieldValue : Leads true start (yieldValue g) := by
  unfold yieldValue
  exact .steps

instance leads_plainAssignment : Leads true start (plainAssignment g) := by
  unfold plainAssignment
  exact .steps

instance leads_genericArrow : Leads true start (genericArrow g) := by
  unfold genericArrow
  exact .steps

instance leads_assignment : Leads true start (assignment g) := by
  unfold assignment
  exact .steps

instance leads_expression : Leads true start (expression g) := by
  unfold expression
  exact .steps

end Rules

/-- **The rules for values give values that begin where they are read.** -/
instance begins_read (depth : Nat) : Begins (read depth) := by
  induction depth with
  | zero =>
    constructor
    all_goals
      intros
      exact leads_fail
  | succ depth ih =>
    exact
      { expression := fun _ => leads_expression
        assignment := fun _ => leads_assignment
        unary := fun _ => leads_unary
        leftHand := fun _ => leads_leftHand
        construct := fun _ => leads_construct
        markup := fun nested _ => leads_markup nested
        binaryRest := fun left power _ h => leads_binaryRest left power }

end StyleHoist.Script
