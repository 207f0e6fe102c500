import StyleHoist.Proofs.Script.Scanning
import StyleHoist.Script.Grammar.Basic

/-!
# Where tokens and nodes stand

A reader of a text looks at one token, and knows where that token stands in the text. Every step of a reading keeps this
knowledge, never goes back, and gives nodes that stand where their ranges say: an object literal from its brace through
the one that closes it, an attribute of a tag from its name through its value.

- `Lexeme.StandsAt`, `State.Sound`: a token in its place, and a reader that looks at one.
- `Placed`: a node in whose parts every range is right.
- `Keeps`: a reading that keeps its place and gives nodes that are placed.
-/

namespace StyleHoist.Script

open Text

/-! ## Tokens -/

/-- A token stands in a text behind `before` and takes `part`. -/
structure Lexeme.StandsAt (T before part : Text) (l : Lexeme) : Prop where
  text : T = before ++ l.here
  here : l.here = part ++ l.rest
  span : l.span = ⟨size before, size before + size part⟩
  spelled : l.token.Spelled part

/-- A reader of a text looks at a token in its place. -/
def State.Sound (T : Text) (s : State) : Prop :=
  ∃ before part, s.lexeme.StandsAt T before part

/-- Where a reader is: the offset of its token. -/
def State.pos (s : State) : Nat :=
  s.lexeme.span.start

theorem Lexeme.StandsAt.pos_eq {T before part : Text} {s : State} (h : s.lexeme.StandsAt T before part) :
    s.pos = size before := by
  rw [State.pos, h.span]

/-- A token is found behind a gap. -/
theorem standsAt_lexeme (scanner : Scanner) (before t : Text) :
    ∃ gap part, (scanner.lexeme (size before) t).StandsAt (before ++ t) (before ++ gap) part ∧ IsGap gap := by
  -- Between markup tags no gap is skipped.
  have hbare : ∀ {s : Scanned} {newline faulty : Bool}, s.Sound t → ∃ gap part,
      Lexeme.StandsAt (before ++ t) (before ++ gap) part
        ⟨s.token, ⟨size before, size before + s.bytes⟩, newline, faulty, t, s.rest⟩ ∧ IsGap gap := by
    rintro s newline faulty ⟨part, ht, hbytes, hspelled⟩
    refine ⟨[], part, ⟨by rw [List.append_nil], ht, ?_, hspelled⟩, isGap_nil⟩
    rw [List.append_nil, hbytes]
  obtain ⟨gap, ht, hgapBytes, hgap⟩ := takes_skipGap .blank 0 (size before == 0) false t
  have hskipped : ∀ {s : Scanned} {newline faulty : Bool}, s.Sound (skipGap .blank 0 (size before == 0) false t).rest →
      ∃ gap part, Lexeme.StandsAt (before ++ t) (before ++ gap) part
        ⟨s.token, ⟨size before + (skipGap .blank 0 (size before == 0) false t).bytes,
          size before + (skipGap .blank 0 (size before == 0) false t).bytes + s.bytes⟩, newline, faulty,
          (skipGap .blank 0 (size before == 0) false t).rest, s.rest⟩ ∧ IsGap gap := by
    rintro s newline faulty ⟨part, hrest, hbytes, hspelled⟩
    refine ⟨gap, part, ⟨?_, hrest, ?_, hspelled⟩, hgap rfl⟩
    · dsimp only
      rw [List.append_assoc, ← ht]
    · rw [hgapBytes, hbytes, size_append, Nat.zero_add]
  cases scanner with
  | templatePiece => exact hbare (from_scanTemplate ..).sound
  | markupText => exact hbare (from_scanMarkupText ..).sound
  | markupBracket => exact hbare (sound_scanCode t)
  | code => exact hskipped (sound_scanCode _)
  | markupValue =>
    refine hskipped ?_
    cases (skipGap .blank 0 (size before == 0) false t).rest with
    | nil => exact sound_scanCode []
    | cons c t' =>
      dsimp only
      split
      · rename_i hquote
        have hone : c.toNat ≤ 127 := by
          simp only [Bool.or_eq_true, beq_iff_eq] at hquote
          rcases hquote with rfl | rfl <;> decide
        exact ((from_scanMarkupString hone 1 t').after (takes_one hone t')).sound
      · exact sound_scanCode _

/-- The next token stands behind the current one and a gap. -/
theorem standsAt_advance {T before part : Text} {s : State} (h : s.lexeme.StandsAt T before part) (scanner : Scanner) :
    ∃ gap part', (s.advance scanner).lexeme.StandsAt T (before ++ part ++ gap) part' ∧ IsGap gap := by
  have htext : T = before ++ part ++ s.lexeme.rest := by rw [h.text, h.here, List.append_assoc]
  have hstop : s.lexeme.span.stop = size (before ++ part) := by rw [h.span, size_append]
  have hnext := standsAt_lexeme scanner (before ++ part) s.lexeme.rest
  rw [← htext, ← hstop] at hnext
  exact hnext

theorem State.Sound.advance {T : Text} {s : State} (h : s.Sound T) (scanner : Scanner) :
    (s.advance scanner).Sound T ∧ s.pos ≤ (s.advance scanner).pos := by
  obtain ⟨before, part, hstands⟩ := h
  obtain ⟨gap, part', hnext, -⟩ := standsAt_advance hstands scanner
  refine ⟨⟨_, _, hnext⟩, ?_⟩
  rw [hstands.pos_eq, hnext.pos_eq, size_append, size_append]
  omega

/-! ## Nodes -/

/-- A range that begins with a bracket and ends with another. -/
def Between (T : Text) (opening closing : Char) (span : Span) : Prop :=
  ∃ a inner b, T = a ++ opening :: (inner ++ closing :: b) ∧
    span = ⟨size a, size (a ++ opening :: (inner ++ [closing]))⟩

/-- At an offset a character stands. -/
def Opens (T : Text) (c : Char) (offset : Nat) : Prop :=
  ∃ a b, T = a ++ c :: b ∧ size a = offset

/-- Values that begin with a bracket. -/
def Kind.isBracket : Kind → Bool
  | .object | .array | .paren => true
  | _ => false

/-- A value between braces stands behind the first of them and a gap, if it begins with a bracket. -/
def Contains (T : Text) (span : Span) (value : Node) : Prop :=
  value.kind.isBracket = true → ∃ a gap b, T = a ++ '\x7b' :: (gap ++ b) ∧ size a = span.start ∧
    size (a ++ '\x7b' :: gap) = value.span.start ∧ IsGap gap

/-- An attribute with a value between braces: its name, an equals sign and the braces, with gaps between them. -/
def Assigns (T name : Text) (span value : Span) : Prop :=
  ∃ a gap gap' b, T = a ++ (name ++ (gap ++ '=' :: (gap' ++ b))) ∧ span.start = size a ∧
    value.start = size (a ++ (name ++ (gap ++ '=' :: gap'))) ∧ span.stop = value.stop ∧ IsGap gap ∧ IsGap gap'

/-- What the range of a node says about the text. -/
def Kind.Shaped (T : Text) (span : Span) (parts : List Node) : Kind → Prop
  | .object => Between T '\x7b' '\x7d' span
  | .array => Opens T '[' span.start
  | .paren => Opens T '(' span.start
  | .container => Between T '\x7b' '\x7d' span ∧ ∀ value ∈ parts, Contains T span value
  | .tagAttribute (some name) => ∀ value, parts = [value] → value.kind = .container → Assigns T name span value.span
  | _ => True

/-- A node in whose parts every range is right. -/
inductive Placed (T : Text) : Node → Prop
  | mk {kind : Kind} {span : Span} {parts : List Node} (shaped : kind.Shaped T span parts)
      (placed : ∀ n ∈ parts, Placed T n) : Placed T (.mk kind span parts)

/-- Kinds of nodes whose range says nothing about the text. -/
def Kind.isPlain : Kind → Bool
  | .object | .array | .paren | .container | .tagAttribute (some _) => false
  | _ => true

theorem Kind.shaped_of_isPlain {T : Text} {span : Span} {parts : List Node} {kind : Kind} (h : kind.isPlain = true) :
    kind.Shaped T span parts := by
  unfold Kind.isPlain at h
  split at h
  any_goals cases h
  unfold Kind.Shaped
  split <;> simp_all

/-! ## What results hold -/

/-- Results of readings, with the nodes that they hold. -/
class Holder (α : Type) where
  nodes : α → List Node

instance : Holder Node := ⟨fun n => [n]⟩
instance : Holder Unit := ⟨fun _ => []⟩
instance : Holder Bool := ⟨fun _ => []⟩
instance : Holder Nat := ⟨fun _ => []⟩
instance : Holder Char := ⟨fun _ => []⟩
instance : Holder Token := ⟨fun _ => []⟩
instance : Holder Role := ⟨fun _ => []⟩
instance : Holder Kind := ⟨fun _ => []⟩
instance : Holder Lexeme := ⟨fun _ => []⟩
instance : Holder Surroundings := ⟨fun _ => []⟩
instance : Holder State := ⟨fun _ => []⟩
instance {α : Type} [Holder α] : Holder (List α) := ⟨fun l => l.flatMap Holder.nodes⟩
instance {α : Type} [Holder α] : Holder (Option α) := ⟨fun o => o.toList.flatMap Holder.nodes⟩
instance {α β : Type} [Holder α] [Holder β] : Holder (α × β) := ⟨fun p => Holder.nodes p.1 ++ Holder.nodes p.2⟩
instance {α β : Type} [Holder α] [Holder β] : Holder (α ⊕ β) := ⟨fun x => x.elim Holder.nodes Holder.nodes⟩

/-- What a rule is asked for may hold a node that has been read. -/
instance : Holder Goal := ⟨fun goal =>
  match goal with
  | .binaryRest left _ => [left]
  | _ => []⟩

/-- A result whose nodes are placed. -/
class Good {α : Type} [Holder α] (T : Text) (a : α) : Prop where
  placed : ∀ n ∈ Holder.nodes a, Placed T n

section Good

variable {α β : Type} [Holder α] [Holder β] {T : Text}

instance (u : Unit) : Good T u := ⟨by simp [Holder.nodes]⟩
instance (b : Bool) : Good T b := ⟨by simp [Holder.nodes]⟩
instance (n : Nat) : Good T n := ⟨by simp [Holder.nodes]⟩
instance (t : Token) : Good T t := ⟨by simp [Holder.nodes]⟩
instance (r : Role) : Good T r := ⟨by simp [Holder.nodes]⟩
instance (k : Kind) : Good T k := ⟨by simp [Holder.nodes]⟩
instance (l : Lexeme) : Good T l := ⟨by simp [Holder.nodes]⟩
instance (a : Surroundings) : Good T a := ⟨by simp [Holder.nodes]⟩
instance (s : State) : Good T s := ⟨by simp [Holder.nodes]⟩
instance (t : Text) : Good T t := ⟨by simp [Holder.nodes]⟩
instance (r : Option Role) : Good T r := ⟨by simp [Holder.nodes]⟩
instance : Good T ([] : List α) := ⟨by simp [Holder.nodes]⟩
instance : Good T (none : Option α) := ⟨by simp [Holder.nodes]⟩

theorem Good.node {n : Node} (h : Good T n) : Placed T n :=
  h.placed n List.mem_cons_self

theorem good_of_placed {n : Node} (h : Placed T n) : Good T n :=
  ⟨by simpa [Holder.nodes] using h⟩

theorem good_list {l : List α} : Good T l ↔ ∀ a ∈ l, Good T a := by
  constructor
  · intro h a ha
    exact ⟨fun n hn => h.placed n (List.mem_flatMap.2 ⟨a, ha, hn⟩)⟩
  · intro h
    refine ⟨fun n hn => ?_⟩
    obtain ⟨a, ha, hn⟩ := List.mem_flatMap.1 hn
    exact (h a ha).placed n hn

theorem good_some {a : α} : Good T (some a) ↔ Good T a := by
  constructor <;> exact fun h => ⟨by simpa [Holder.nodes] using h.placed⟩

theorem good_pair {a : α} {b : β} : Good T (a, b) ↔ Good T a ∧ Good T b := by
  constructor
  · exact fun h => ⟨⟨fun n hn => h.placed n (List.mem_append_left _ hn)⟩,
      ⟨fun n hn => h.placed n (List.mem_append_right _ hn)⟩⟩
  · exact fun ⟨ha, hb⟩ => ⟨fun n hn => (List.mem_append.1 hn).elim (ha.placed n) (hb.placed n)⟩

instance {a : α} [h : Good T a] : Good T (some a) := good_some.2 h
instance {a : α} {b : β} [ha : Good T a] [hb : Good T b] : Good T (a, b) := good_pair.2 ⟨ha, hb⟩
instance {a : α} [h : Good T a] : Good T (.inl a : α ⊕ β) := ⟨h.placed⟩
instance {b : β} [h : Good T b] : Good T (.inr b : α ⊕ β) := ⟨h.placed⟩
instance {a : α} {l : List α} [ha : Good T a] [hl : Good T l] : Good T (a :: l) :=
  good_list.2 (List.forall_mem_cons.2 ⟨ha, good_list.1 hl⟩)
instance {k l : List α} [hk : Good T k] [hl : Good T l] : Good T (k ++ l) :=
  good_list.2 (List.forall_mem_append.2 ⟨good_list.1 hk, good_list.1 hl⟩)
instance {l : List α} [hl : Good T l] : Good T l.reverse :=
  good_list.2 fun a ha => good_list.1 hl a (List.mem_reverse.1 ha)
instance {a : α} [ha : Good T a] : Good T (List.singleton a) := good_list.2 (by simpa [List.singleton] using ha)
instance {o : Option α} [ho : Good T o] : Good T o.toList := ⟨ho.placed⟩
instance {c : Prop} [Decidable c] {a b : α} [ha : Good T a] [hb : Good T b] : Good T (if c then a else b) := by
  split
  · exact ha
  · exact hb
instance {o : Option (List α)} [ho : Good T o] : Good T (o.getD []) := by
  cases o with
  | none => exact inferInstanceAs (Good T ([] : List α))
  | some l => exact good_some.1 ho

/-- What holds for a result that may be nothing. -/
theorem forall_option {P : Option α → Prop} (none : P none) (some : ∀ a, Good T a → P (some a)) :
    ∀ o, Good T o → P o
  | .none, _ => none
  | .some a, h => some a (good_some.1 h)

/-- What holds for a result of two things. -/
theorem forall_pair {P : α × β → Prop} (pair : ∀ a, Good T a → ∀ b, Good T b → P (a, b)) : ∀ p, Good T p → P p
  | (a, b), h => pair a (good_pair.1 h).1 b (good_pair.1 h).2

instance {n : Node} [h : Good T n] : Good T n.parts := by
  obtain ⟨kind, span, parts⟩ := n
  cases h.node with
  | mk _ hparts => exact good_list.2 fun n hn => good_of_placed (hparts n hn)

/-- A node of a plain kind is placed if its parts are. -/
theorem good_mk {kind : Kind} (h : kind.isPlain = true) (span : Span) (parts : List Node) [hparts : Good T parts] :
    Good T (Node.mk kind span parts) :=
  good_of_placed (.mk (Kind.shaped_of_isPlain h) fun n hn => (good_list.1 hparts n hn).node)

instance : Good T (default : Node) := good_mk rfl ⟨0, 0⟩ []

section

variable {span : Span} {parts : List Node} [Good T parts]

instance : Good T (Node.mk .invalid span parts) := good_mk rfl _ _
instance : Good T (Node.mk .hole span parts) := good_mk rfl _ _
instance : Good T (Node.mk .sequence span parts) := good_mk rfl _ _
instance : Good T (Node.mk .arrow span parts) := good_mk rfl _ _
instance {form : PropertyForm} : Good T (Node.mk (.property form) span parts) := good_mk rfl _ _

end

end Good

/-! ## Readings that keep their place -/

section Keeps

variable {α β : Type} [Holder α] [Holder β]

/-- From a state, a reading keeps its place and gives nodes that are placed. -/
def KeepsAt (T : Text) (r : Read α) (s : State) : Prop :=
  match r s with
  | .ok a s' => s'.Sound T ∧ s.pos ≤ s'.pos ∧ Good T a
  | .error _ s' => s'.Sound T ∧ s.pos ≤ s'.pos

/-- A reading keeps its place and gives nodes that are placed. -/
class Keeps (T : Text) (r : Read α) : Prop where
  keepsAt : ∀ s, s.Sound T → KeepsAt T r s

variable {T : Text}

theorem keepsAt_ok {r : Read α} {s s' : State} {a : α} (h : r s = .ok a s') :
    KeepsAt T r s ↔ s'.Sound T ∧ s.pos ≤ s'.pos ∧ Good T a := by
  rw [KeepsAt, h]

theorem keepsAt_error {r : Read α} {s s' : State} {e : Fault} (h : r s = .error e s') :
    KeepsAt T r s ↔ s'.Sound T ∧ s.pos ≤ s'.pos := by
  rw [KeepsAt, h]

/-- A reading goes on from where another has come. -/
theorem KeepsAt.bind {r : Read α} {f : α → Read β} {s : State} (h : KeepsAt T r s)
    (hf : ∀ a s', r s = .ok a s' → s'.Sound T → Good T a → KeepsAt T (f a) s') : KeepsAt T (r >>= f) s := by
  cases hr : r s with
  | ok a s' =>
    obtain ⟨hsound, hpos, hgood⟩ := (keepsAt_ok hr).1 h
    have hnext := hf a s' hr hsound hgood
    have hbind : (r >>= f) s = f a s' := by
      show EStateM.bind r f s = _
      simp only [EStateM.bind, hr]
    unfold KeepsAt at hnext ⊢
    rw [hbind]
    split at hnext
    · exact ⟨hnext.1, hpos.trans hnext.2.1, hnext.2.2⟩
    · exact ⟨hnext.1, hpos.trans hnext.2⟩
  | error e s' =>
    have hbind : (r >>= f) s = .error e s' := by
      show EStateM.bind r f s = _
      simp only [EStateM.bind, hr]
    exact (keepsAt_error hbind).2 ((keepsAt_error hr).1 h)

theorem Keeps.pure (a : α) [h : Good T a] : Keeps T (pure a : Read α) :=
  ⟨fun _ hs => ⟨hs, Nat.le_refl _, h⟩⟩

theorem Keeps.bind {r : Read α} {f : α → Read β} (h : Keeps T r) (hf : ∀ a, Good T a → Keeps T (f a)) :
    Keeps T (r >>= f) :=
  ⟨fun s hs => (h.keepsAt s hs).bind fun a s' _ hs' ha => (hf a ha).keepsAt s' hs'⟩

theorem Keeps.map {r : Read α} {f : α → β} (h : Keeps T r) (hf : ∀ a, Good T a → Good T (f a)) :
    Keeps T (f <$> r) :=
  h.bind fun a ha => have := hf a ha; Keeps.pure (f a)

instance keeps_fail : Keeps T (fail : Read α) :=
  ⟨fun _ hs => ⟨hs, Nat.le_refl _⟩⟩

instance keeps_throw (e : Fault) : Keeps T (throw e : Read α) :=
  ⟨fun _ hs => ⟨hs, Nat.le_refl _⟩⟩

/-- What is read after a failure does not matter, nor what it would give. -/
theorem Keeps.fail_bind {γ : Type} (f : γ → Read α) : Keeps T ((Script.fail : Read γ) >>= f) :=
  ⟨fun _ hs => ⟨hs, Nat.le_refl _⟩⟩

theorem Keeps.inside {r : Read α} (h : Keeps T r) (change : Surroundings → Surroundings) :
    Keeps T (inside change r) := by
  refine ⟨fun s hs => ?_⟩
  have hr := h.keepsAt { s with around := change s.around } hs
  unfold KeepsAt at hr ⊢
  unfold Script.inside
  cases hrun : r { s with around := change s.around } with
  | ok a s' =>
    rw [hrun] at hr
    exact hr
  | error fault s' =>
    rw [hrun] at hr
    exact hr

theorem Keeps.attempt {r : Read α} (h : Keeps T r) : Keeps T (attempt r) := by
  refine ⟨fun s hs => ?_⟩
  have hr := (h.inside fun a => { a with quiet := true }).keepsAt s hs
  unfold KeepsAt at hr ⊢
  unfold Script.attempt
  cases hrun : Script.inside (fun a => { a with quiet := true }) r s with
  | ok a s' =>
    rw [hrun] at hr
    exact ⟨hr.1, hr.2.1, good_some.2 hr.2.2⟩
  | error fault s' => exact ⟨hs, Nat.le_refl _, inferInstance⟩

/-- What is looked ahead at leaves nothing. -/
theorem Keeps.lookAhead (r : Read Bool) : Keeps T (lookAhead r) := by
  refine ⟨fun s hs => ?_⟩
  unfold KeepsAt Script.lookAhead
  cases r s <;> exact ⟨hs, Nat.le_refl _, inferInstance⟩

theorem Keeps.tryCatch {r : Read α} {handle : Fault → Read α} (h : Keeps T r) (hhandle : ∀ e, Keeps T (handle e)) :
    Keeps T (tryCatch r handle) := by
  refine ⟨fun s hs => ?_⟩
  have hr := h.keepsAt s hs
  have hcatch : (MonadExcept.tryCatch r handle : Read α) s = match r s with
      | .ok a s' => .ok a s'
      | .error e s' => handle e s' := by
    show EStateM.tryCatch r handle s = _
    unfold EStateM.tryCatch
    cases r s <;> rfl
  unfold KeepsAt at hr ⊢
  rw [hcatch]
  cases hrun : r s with
  | ok a s' =>
    rw [hrun] at hr
    exact hr
  | error e s' =>
    rw [hrun] at hr
    have hnext := (hhandle e).keepsAt s' hr.1
    unfold KeepsAt at hnext
    dsimp only
    split at hnext <;> rename_i hh <;> rw [hh]
    · exact ⟨hnext.1, hr.2.trans hnext.2.1, hnext.2.2⟩
    · exact ⟨hnext.1, hr.2.trans hnext.2⟩

theorem Keeps.iterate {step : α → Read (α ⊕ β)} {a : α} [ha : Good T a] (h : ∀ a, Good T a → Keeps T (step a)) :
    Keeps T (iterate step a) := by
  have hgo : ∀ n a, Good T a → Keeps T (Script.iterate.go step n a) := by
    intro n
    induction n with
    | zero => exact fun a _ => keeps_fail
    | succ n ih =>
      intro a ha
      refine (h a ha).bind fun x hx => ?_
      cases x with
      | inl a => exact ih a ⟨hx.placed⟩
      | inr b => exact have : Good T b := ⟨hx.placed⟩; Keeps.pure b
  exact ⟨fun s hs => (hgo _ a ha).keepsAt s hs⟩

theorem Keeps.collect {step : Read (Option Node)} (h : Keeps T step) : Keeps T (collect step) :=
  Keeps.iterate fun _ _ => h.bind (forall_option (Keeps.pure _) fun _ _ => Keeps.pure _)

/-- A change that does not concern the token. -/
theorem Keeps.modify {f : State → State} (h : ∀ s, (f s).lexeme = s.lexeme) : Keeps T (modify f : Read Unit) := by
  refine ⟨fun s hs => ?_⟩
  show (f s).Sound T ∧ s.pos ≤ (f s).pos ∧ Good T ()
  unfold State.Sound State.pos at *
  rw [h s]
  exact ⟨hs, Nat.le_refl _, inferInstance⟩

instance keeps_get : Keeps T (get : Read State) :=
  ⟨fun _ hs => ⟨hs, Nat.le_refl _, inferInstance⟩⟩

theorem Keeps.finish {kind : Kind} (h : kind.isPlain = true) (start : Nat) (parts : List Node) [Good T parts] :
    Keeps T (finish start kind parts) :=
  keeps_get.bind fun s _ => have := good_mk (T := T) h ⟨start, s.lastStop⟩ parts; Keeps.pure _

theorem Keeps.ite {c : Prop} [Decidable c] {r r' : Read α} (h : Keeps T r) (h' : Keeps T r') :
    Keeps T (if c then r else r') := by
  split
  · exact h
  · exact h'

/-- A reading in which several ways lead on to one. -/
theorem Keeps.join {γ : Type} [Holder γ] {k : γ → Read α} {r : Read β} (hk : ∀ c, Good T c → Keeps T (k c))
    (h : (∀ c, [Good T c] → Keeps T (k c)) → Keeps T r) : Keeps T r :=
  h fun c hc => hk c hc

/-- A reading keeps its place if every step of it does. This looks for the steps in the order in which they are taken,
and for a fact about each; what is chosen by a token or a verdict is looked at in every case. -/
theorem Keeps.steps {r : Read α} (h : Keeps T r := by
    repeat' first
      | infer_instance
      | (extract_lets +onlyGivenNames -underBinder k
         first
           | apply Keeps.join (k := k)
             case' hk =>
               subst k
               dsimp -zeta only
             case' h =>
               intro _
               clear_value k
           | subst k)
      | rfl
      | with_reducible apply Keeps.ite
      | with_reducible apply Keeps.fail_bind
      | with_reducible apply Keeps.bind
      | with_reducible apply forall_option
      | with_reducible apply forall_pair
      | with_reducible apply Keeps.map
      | with_reducible apply Keeps.pure
      | with_reducible apply Keeps.finish
      | with_reducible apply Keeps.attempt
      | with_reducible apply Keeps.lookAhead
      | with_reducible apply Keeps.inside
      | with_reducible apply Keeps.collect
      | with_reducible apply Keeps.iterate
      | with_reducible apply Keeps.tryCatch
      | exact Keeps.modify fun _ => rfl
      | intro _
      | split
      | dsimp only) : Keeps T r := h

instance keeps_token : Keeps T token := by
  unfold token
  exact .steps

instance keeps_offset : Keeps T offset := by
  unfold offset
  exact .steps

instance keeps_afterNewline : Keeps T afterNewline := by
  unfold afterNewline
  exact .steps

instance keeps_around : Keeps T around := by
  unfold around
  exact .steps

instance keeps_peek : Keeps T peek := by
  unfold peek
  exact .steps

instance keeps_bump (scanner : Scanner) : Keeps T (bump scanner) :=
  ⟨fun _ hs => ⟨(hs.advance scanner).1, (hs.advance scanner).2, inferInstance⟩⟩

instance keeps_flaw : Keeps T flaw :=
  Keeps.modify fun _ => rfl

instance keeps_flawIf (b : Bool) : Keeps T (flawIf b) := by
  unfold flawIf
  exact .steps

instance keeps_atPunct (p : Punct) : Keeps T (atPunct p) := by
  unfold atPunct
  exact .steps

instance keeps_atRole (r : Role) : Keeps T (atRole r) := by
  unfold atRole
  exact .steps

instance keeps_role : Keeps T role := by
  unfold role
  exact .steps

instance keeps_eat (p : Punct) : Keeps T (eat p) := by
  unfold eat
  exact .steps

instance keeps_atEnd : Keeps T atEnd := by
  unfold atEnd
  exact .steps

instance keeps_eatRole (r : Role) : Keeps T (eatRole r) := by
  unfold eatRole
  exact .steps

instance keeps_expect (p : Punct) (scanner : Scanner) : Keeps T (expect p scanner) := by
  unfold expect
  exact .steps

instance keeps_expectRole (r : Role) : Keeps T (expectRole r) := by
  unfold expectRole
  exact .steps

instance keeps_peekPunct (p : Punct) : Keeps T (peekPunct p) := by
  unfold peekPunct
  exact .steps

instance keeps_peekRole : Keeps T peekRole := by
  unfold peekRole
  exact .steps

instance keeps_atStatementEnd : Keeps T atStatementEnd := by
  unfold atStatementEnd
  exact .steps

instance keeps_eatStatementEnd : Keeps T eatStatementEnd := by
  unfold eatStatementEnd
  exact .steps

instance keeps_expectStatementEnd : Keeps T expectStatementEnd := by
  unfold expectStatementEnd
  exact .steps

instance keeps_listUntil (close : Punct) (part : Read Node) [Keeps T part] : Keeps T (listUntil close part) := by
  unfold listUntil
  exact .steps

end Keeps

end StyleHoist.Script
