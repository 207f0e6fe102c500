import StyleHoist.Proofs.Script.Beginning
import StyleHoist.Proofs.Text.Sequential

/-!
# Brackets in their places

Most rules of the grammar keep their place because every step of theirs does. The rules in this module also know which
token they look at: those that read it again with another scanner, and those that read an array, an object, a value in
parentheses or an attribute, whose ranges are told by the brackets at which they begin and end.

- `Ties`: a grammar whose rules keep their place, as the rules for rules suppose.
- `between_of_tokens`: a range from one brace to another.
- `keeps_object`, `keeps_attributeContainer`, `keeps_tagAttribute`: the nodes in which a literal style is found.
-/

namespace StyleHoist.Script

open Text

/-! ## The rest of the grammar -/

section Goals

variable {T : Text}

instance : Good T Goal.moduleItem := ⟨by simp [Holder.nodes]⟩
instance : Good T Goal.item := ⟨by simp [Holder.nodes]⟩
instance : Good T Goal.statement := ⟨by simp [Holder.nodes]⟩
instance : Good T Goal.expression := ⟨by simp [Holder.nodes]⟩
instance : Good T Goal.assignment := ⟨by simp [Holder.nodes]⟩
instance : Good T Goal.unary := ⟨by simp [Holder.nodes]⟩
instance : Good T Goal.leftHand := ⟨by simp [Holder.nodes]⟩
instance {left : Node} {power : Nat} [h : Good T left] : Good T (Goal.binaryRest left power) := ⟨h.placed⟩
instance : Good T Goal.construct := ⟨by simp [Holder.nodes]⟩
instance : Good T Goal.type := ⟨by simp [Holder.nodes]⟩
instance : Good T Goal.plainType := ⟨by simp [Holder.nodes]⟩
instance : Good T Goal.operatorType := ⟨by simp [Holder.nodes]⟩
instance {letAllowed : Bool} : Good T (Goal.binding letAllowed) := ⟨by simp [Holder.nodes]⟩
instance {nested : Bool} : Good T (Goal.markup nested) := ⟨by simp [Holder.nodes]⟩

end Goals

/-- The rest of a grammar keeps its place. -/
class Ties (T : Text) (g : Knot) : Prop where
  keeps (goal : Goal) : Good T goal → Keeps T (g goal)

instance (priority := low) {T : Text} {g : Knot} {goal : Goal} [h : Ties T g] [hgoal : Good T goal] :
    Keeps T (g goal) :=
  h.keeps goal hgoal

section Brackets

variable {α β : Type} [Holder α] [Holder β] {T : Text}

/-! ## Steps at a token -/

theorem keepsAt_token_bind {f : Token → Read α} {s : State} (h : KeepsAt T (f s.lexeme.token) s) :
    KeepsAt T (token >>= f) s :=
  h

theorem keepsAt_offset_bind {f : Nat → Read α} {s : State} (h : KeepsAt T (f s.pos) s) : KeepsAt T (offset >>= f) s :=
  h

theorem keepsAt_atPunct_bind {p : Punct} {f : Bool → Read α} {s : State}
    (h : KeepsAt T (f (s.lexeme.token == .punct p)) s) : KeepsAt T (atPunct p >>= f) s :=
  h

theorem eq_of_expect {p : Punct} {scanner : Scanner} {s s' : State} (h : expect p scanner s = .ok () s') :
    s.lexeme.token = .punct p ∧ s' = s.advance scanner := by
  have hrun : (if s.lexeme.token == .punct p then bump scanner else fail) s = .ok () s' := h
  split at hrun
  · rename_i htoken
    cases hrun
    exact ⟨eq_of_beq htoken, rfl⟩
  · cases hrun

theorem eq_of_eat {p : Punct} {s s' : State} {b : Bool} (h : eat p s = .ok b s') :
    b = true ∧ s.lexeme.token = .punct p ∧ s' = s.advance ∨ b = false ∧ s' = s := by
  have hrun : (if s.lexeme.token == .punct p then bump >>= fun _ => pure true else pure false) s = .ok b s' := h
  split at hrun
  · rename_i htoken
    cases hrun
    exact Or.inl ⟨rfl, eq_of_beq htoken, rfl⟩
  · cases hrun
    exact Or.inr ⟨rfl, rfl⟩

theorem keepsAt_finish {kind : Kind} {start : Nat} {parts : List Node} {s : State} (hs : s.Sound T)
    (hshaped : kind.Shaped T ⟨start, s.lastStop⟩ parts) [hparts : Good T parts] :
    KeepsAt T (finish start kind parts) s :=
  ⟨hs, Nat.le_refl _, good_of_placed (.mk hshaped fun n hn => (good_list.1 hparts n hn).node)⟩

/-- A punctuator is spelled in one way. -/
theorem Lexeme.StandsAt.part_eq {before part : Text} {l : Lexeme} (h : l.StandsAt T before part) {p : Punct}
    (htoken : l.token = .punct p) {w : Text}
    (hw : ∀ e ∈ punctTable ++ gtTable, e.2 = p → e.1 = w := by decide) : part = w :=
  hw _ (h.spelled p htoken) rfl

/-! ## Tokens that are read again -/

theorem keepsAt_rescan {scan : Text → Scanned} {s : State} (hs : s.Sound T)
    (h : (scan s.lexeme.here).Sound s.lexeme.here) : KeepsAt T (rescan scan) s := by
  obtain ⟨before, part, hstands⟩ := hs
  obtain ⟨part', hhere, hbytes, hspelled⟩ := h
  refine ⟨⟨before, part', hstands.text, hhere, ?_, hspelled⟩, Nat.le_refl _, inferInstance⟩
  dsimp only
  rw [hstands.span, hbytes]

theorem eq_of_rescan {scan : Text → Scanned} {s s' : State} (h : rescan scan s = .ok () s') :
    s' = { s with
      lexeme := ⟨(scan s.lexeme.here).token, ⟨s.lexeme.span.start, s.lexeme.span.start + (scan s.lexeme.here).bytes⟩,
        s.lexeme.newline, (scan s.lexeme.here).faulty, s.lexeme.here, (scan s.lexeme.here).rest⟩ } := by
  cases h
  rfl

/-- An angle bracket that has been joined with others is read alone. -/
instance keeps_eatAngle : Keeps T eatAngle := by
  unfold eatAngle
  refine ⟨fun s hs => keepsAt_token_bind ?_⟩
  split
  · exact (Keeps.steps).keepsAt s hs
  · rename_i htoken
    refine (keepsAt_rescan hs ?_).bind fun _ s' _ hs' _ => (Keeps.steps).keepsAt s' hs'
    obtain ⟨before, part, hstands⟩ := hs
    rw [hstands.here, hstands.part_eq htoken (w := "<<".toList)]
    refine ⟨['<'], rfl, rfl, fun p hp => ?_⟩
    cases hp
    decide
  · exact (Keeps.steps).keepsAt s hs

/-- Angle brackets that have been read alone are joined. -/
instance keeps_joinAngle : Keeps T joinAngle := by
  unfold joinAngle
  refine ⟨fun s hs => keepsAt_atPunct_bind ?_⟩
  split
  · rename_i htoken
    refine keepsAt_rescan hs ?_
    obtain ⟨before, part, hstands⟩ := hs
    rw [hstands.here, hstands.part_eq (eq_of_beq htoken) (w := ['>'])]
    split
    · rename_i hpunct
      obtain ⟨part', ht, hn, hmem⟩ := eq_of_ofText hpunct
      exact ⟨part', ht, hn, fun p hp => by cases hp; exact List.mem_append_right _ hmem⟩
    · refine ⟨['>'], rfl, rfl, fun p hp => ?_⟩
      cases hp
      decide
  · exact (Keeps.steps).keepsAt s hs

theorem sound_scanMarkupName (t : Text) : (scanMarkupName t).Sound t := by
  obtain ⟨w, htoken, ht, hbytes⟩ := scanMarkupName_eq t
  refine ⟨w, ht, hbytes, fun p hp => ?_⟩
  rw [htoken] at hp
  cases hp

instance keeps_markupWord : Keeps T markupWord := by
  have hrescan : Keeps T (rescan scanMarkupName) := ⟨fun _ hs => keepsAt_rescan hs (sound_scanMarkupName _)⟩
  unfold markupWord
  exact .steps

/-- A name in markup stands where it is read. -/
theorem standsAt_of_markupWord {s s' : State} {w : Text} (hs : s.Sound T) (h : markupWord s = .ok w s') :
    ∃ before gap part, s.pos = size before ∧ s'.lexeme.StandsAt T (before ++ w ++ gap) part ∧ IsGap gap := by
  obtain ⟨before, _, hstands⟩ := hs
  obtain ⟨v, htoken, ht, hbytes⟩ := scanMarkupName_eq s.lexeme.here
  unfold markupWord at h
  obtain ⟨t, s₀, ht₀, h⟩ := ok_of_bind h
  cases ht₀
  split at h
  · obtain ⟨_, s₁, hrescan, h⟩ := ok_of_bind h
    obtain rfl := eq_of_rescan hrescan
    generalize scanMarkupName s.lexeme.here = scanned at h htoken ht hbytes
    obtain ⟨token, bytes, rest, faulty⟩ := scanned
    dsimp only at htoken ht hbytes
    subst htoken
    obtain ⟨t, s₂, ht₂, h⟩ := ok_of_bind h
    cases ht₂
    obtain ⟨_, s₃, hbump, h⟩ := ok_of_bind h
    cases hbump
    cases h
    have hname : Lexeme.StandsAt T before w
        ⟨.word .plain w, ⟨s.lexeme.span.start, s.lexeme.span.start + bytes⟩, s.lexeme.newline, faulty, s.lexeme.here,
          rest⟩ := by
      refine ⟨hstands.text, ht, ?_, fun p hp => nomatch hp⟩
      rw [hstands.span, hbytes]
    obtain ⟨gap, part, hnext, hgap⟩ := standsAt_advance (s := { s with lexeme := _ }) hname .code
    exact ⟨before, gap, part, hstands.pos_eq, hnext, hgap⟩
  · obtain ⟨_, _, hfail, _⟩ := ok_of_bind h
    cases hfail

/-! ## From one bracket to another -/

theorem State.Sound.opens {s : State} (hs : s.Sound T) {p : Punct} (htoken : s.lexeme.token = .punct p) {c : Char}
    (hc : ∀ e ∈ punctTable ++ gtTable, e.2 = p → e.1 = [c] := by decide) : Opens T c s.pos := by
  obtain ⟨before, part, hstands⟩ := hs
  refine ⟨before, s.lexeme.rest, ?_, hstands.pos_eq.symm⟩
  rw [hstands.text, hstands.here, hstands.part_eq htoken hc, List.singleton_append]

/-- **A range from an opening brace to a closing one that is read behind it.** -/
theorem between_of_tokens {s s' : State} (hs : s.Sound T) (hs' : s'.Sound T) (hopen : s.lexeme.token = .punct .lbrace)
    (hclose : s'.lexeme.token = .punct .rbrace) (hle : s.advance.pos ≤ s'.pos) :
    Between T '\x7b' '\x7d' ⟨s.pos, s'.lexeme.span.stop⟩ := by
  obtain ⟨before, part, hstands⟩ := hs
  obtain ⟨before', part', hstands'⟩ := hs'
  obtain ⟨gap, _, hnext, -⟩ := standsAt_advance hstands .code
  obtain rfl := hstands.part_eq hopen (w := ['\x7b'])
  obtain rfl := hstands'.part_eq hclose (w := ['\x7d'])
  have hsize : size (before ++ ['\x7b']) ≤ size before' := by
    rw [hnext.pos_eq, hstands'.pos_eq, size_append] at hle
    omega
  have htexts : before ++ ['\x7b'] ++ s.lexeme.rest = before' ++ (['\x7d'] ++ s'.lexeme.rest) := by
    rw [← hstands'.here, ← hstands'.text, List.append_assoc, ← hstands.here, ← hstands.text]
  obtain ⟨inner, rfl, hrest⟩ := exists_append_of_size_le htexts hsize
  refine ⟨before, inner, s'.lexeme.rest, ?_, ?_⟩
  · rw [hstands.text, hstands.here, hrest]
    rfl
  · rw [hstands.pos_eq, hstands'.span, ← size_append]
    simp

omit [Holder α] in
theorem ok_of_inside {change : Surroundings → Surroundings} {r : Read α} {s s' : State} {a : α}
    (h : inside change r s = .ok a s') :
    ∃ s₁, r { s with around := change s.around } = .ok a s₁ ∧ s' = { s₁ with around := s.around } := by
  unfold inside at h
  split at h
  · rename_i s₁ hread
    cases h
    exact ⟨s₁, hread, rfl⟩
  · cases h

/-- The last step of a repetition. -/
theorem exists_last_of_iterate {step : α → Read (α ⊕ β)} (h : ∀ a, Good T a → Keeps T (step a)) {a : α} (ha : Good T a)
    {s s' : State} {b : β} (hs : s.Sound T) (hrun : iterate step a s = .ok b s') :
    ∃ a₀ s₀, s₀.Sound T ∧ s.pos ≤ s₀.pos ∧ step a₀ s₀ = .ok (.inr b) s' := by
  have hgo : ∀ n a s, Good T a → s.Sound T → iterate.go step n a s = .ok b s' →
      ∃ a₀ s₀, s₀.Sound T ∧ s.pos ≤ s₀.pos ∧ step a₀ s₀ = .ok (.inr b) s' := by
    intro n
    induction n with
    | zero => exact fun _ _ _ _ hrun => nomatch hrun
    | succ n ih =>
      intro a s ha hs hrun
      obtain ⟨x, s₁, hstep, hrest⟩ := ok_of_bind hrun
      obtain ⟨hs₁, hpos, hx⟩ := (keepsAt_ok hstep).1 ((h a ha).keepsAt s hs)
      cases x with
      | inl a' =>
        obtain ⟨a₀, s₀, hs₀, hpos₀, hlast⟩ := ih a' s₁ ⟨hx.placed⟩ hs₁ hrest
        exact ⟨a₀, s₀, hs₀, hpos.trans hpos₀, hlast⟩
      | inr b' =>
        cases hrest
        exact ⟨a, s, hs, Nat.le_refl _, hstep⟩
  exact hgo _ a s ha hs hrun

/-- A list ends at its closing punctuator. -/
theorem closes_of_listUntil {close : Punct} {part : Read Node} [hpart : Keeps T part] {s s' : State} {l : List Node}
    (hs : s.Sound T) (h : listUntil close part s = .ok l s') :
    ∃ s₀ : State, s₀.Sound T ∧ s.pos ≤ s₀.pos ∧ s₀.lexeme.token = .punct close ∧ s' = s₀.advance := by
  unfold listUntil collect at h
  obtain ⟨_, s₀, hs₀, hpos, hlast⟩ := exists_last_of_iterate (fun _ _ => Keeps.steps) inferInstance hs h
  -- Only the step that gives nothing is the last.
  obtain ⟨o, s₁, hstep, hend⟩ := ok_of_bind hlast
  obtain ⟨closed, s₂, heat, hrest⟩ := ok_of_bind hstep
  rcases eq_of_eat heat with ⟨rfl, htoken, rfl⟩ | ⟨rfl, rfl⟩
  · cases hrest
    cases hend
    exact ⟨s₀, hs₀, hpos, htoken, rfl⟩
  · obtain ⟨n, s₃, -, hrest⟩ := ok_of_bind hrest
    cases o with
    | some n => cases hend
    | none =>
      exfalso
      obtain ⟨b, s₄, hb, hrest⟩ := ok_of_bind hrest
      cases b with
      | true => cases hrest
      | false =>
        obtain ⟨_, s₅, -, hrest⟩ := ok_of_bind hrest
        cases hrest

/-- An array begins at its bracket. -/
theorem keeps_array {r : Read (List Node)} (h : Keeps T r) : Keeps T (do
    let start ← offset
    expect .lbracket
    let elements ← r
    finish start .array elements) := by
  refine ⟨fun s hs => keepsAt_offset_bind ?_⟩
  refine ((keeps_expect .lbracket .code).keepsAt s hs).bind fun _ s₁ hopen hs₁ _ => ?_
  refine (h.keepsAt s₁ hs₁).bind fun elements s₂ _ hs₂ _ => keepsAt_finish hs₂ ?_
  exact hs.opens (eq_of_expect hopen).1

/-- An object stands from its brace through the one that ends the list of its parts. -/
theorem keeps_object {part : Read Node} [Keeps T part] (change : Surroundings → Surroundings) : Keeps T (do
    let start ← offset
    expect .lbrace
    let props ← inside change (listUntil .rbrace part)
    finish start .object props) := by
  refine ⟨fun s hs => keepsAt_offset_bind ?_⟩
  refine ((keeps_expect .lbrace .code).keepsAt s hs).bind fun _ s₁ hopen hs₁ _ => ?_
  obtain ⟨hbrace, rfl⟩ := eq_of_expect hopen
  refine ((Keeps.inside inferInstance change).keepsAt _ hs₁).bind fun props s₂ hprops hs₂ _ =>
    keepsAt_finish hs₂ ?_
  obtain ⟨s₃, hlist, rfl⟩ := ok_of_inside hprops
  have hinside : State.Sound T { s.advance with around := change s.advance.around } := hs₁
  obtain ⟨s₀, hs₀, hpos, hclose, rfl⟩ := closes_of_listUntil hinside hlist
  exact between_of_tokens hs hs₀ hbrace hclose hpos

/-! ## Attributes -/

section Attributes

variable {g : Knot} [Begins g] [Ties T g]

omit [Begins g] in
/-- The range of an attribute container that has been read. -/
theorem eq_of_attributeContainer {s s' : State} {n : Node} (h : attributeContainer g s = .ok n s') :
    n.span = ⟨s.pos, s'.lastStop⟩ := by
  unfold attributeContainer at h
  obtain ⟨start, s₁, hstart, h⟩ := ok_of_bind h
  cases hstart
  obtain ⟨_, s₂, -, h⟩ := ok_of_bind h
  obtain ⟨value, s₃, -, h⟩ := ok_of_bind h
  obtain ⟨_, s₄, -, h⟩ := ok_of_bind h
  cases h
  rfl

/-- A container stands from its brace through the one behind its value, and its value begins behind the first. -/
instance keeps_attributeContainer : Keeps T (attributeContainer g) := by
  unfold attributeContainer
  refine ⟨fun s hs => keepsAt_offset_bind ?_⟩
  refine ((keeps_expect .lbrace .code).keepsAt s hs).bind fun _ s₁ hopen hs₁ _ => ?_
  obtain ⟨hbrace, rfl⟩ := eq_of_expect hopen
  have hexpression : Keeps T (g .expression) := inferInstance
  have hvalue := hexpression.keepsAt _ hs₁
  refine hvalue.bind fun value s₂ hread hs₂ hgood => ?_
  obtain ⟨-, hpos, -⟩ := (keepsAt_ok hread).1 hvalue
  refine ((keeps_expect .rbrace .code).keepsAt s₂ hs₂).bind fun _ s₃ hclose hs₃ _ => ?_
  obtain ⟨hend, rfl⟩ := eq_of_expect hclose
  refine keepsAt_finish hs₃ ⟨between_of_tokens hs hs₂ hbrace hend hpos, fun n hn hbracket => ?_⟩
  obtain rfl := List.mem_singleton.1 hn
  have hleads : Leads true s.advance.pos (g .expression) := inferInstance
  have hled : Led s.advance.pos n := hleads.led _ _ _ (fun _ => rfl) hread
  obtain ⟨before, part, hstands⟩ := hs
  obtain ⟨gap, _, hnext, hgap⟩ := standsAt_advance hstands .code
  obtain rfl := hstands.part_eq hbrace (w := ['\x7b'])
  refine ⟨before, gap, s.advance.lexeme.here, ?_, hstands.pos_eq.symm, ?_, hgap⟩
  · rw [hnext.text]
    simp
  · rw [hled.node.start_eq hbracket, hnext.pos_eq]
    simp

/-- The name of an attribute, if it is a single word, stands behind `start`, and a gap between it and what is read
next. -/
def State.BehindName (T : Text) (start : Nat) (name : Option Text) (s : State) : Prop :=
  ∀ w, name = some w → ∃ before gap part, start = size before ∧
    s.lexeme.StandsAt T (before ++ w ++ gap) part ∧ IsGap gap

/-- An attribute whose value has been read. A value that is a container stands right behind the sign and a gap. -/
theorem keepsAt_finish_attribute {start : Nat} {name : Option Text} {s s' : State} {value : Node} [Good T value]
    (hname : s.BehindName T start name) (hassign : s.lexeme.token = .punct .assign) (hs' : s'.Sound T)
    (hspan : value.kind = .container → value.span = ⟨(s.advance .markupValue).pos, s'.lastStop⟩) :
    KeepsAt T (finish start (.tagAttribute name) [value]) s' := by
  refine keepsAt_finish hs' ?_
  cases name with
  | none => trivial
  | some w =>
    intro value' hvalue hkind
    cases hvalue
    obtain ⟨before, gap, part, hstart, hstands, hgap⟩ := hname w rfl
    obtain rfl := hstands.part_eq hassign (w := ['='])
    obtain ⟨gap', part', hnext, hgap'⟩ := standsAt_advance hstands .markupValue
    refine ⟨before, gap, gap', (s.advance .markupValue).lexeme.here, ?_, hstart, ?_, ?_, hgap, hgap'⟩
    · rw [hnext.text]
      simp
    · rw [hspan hkind, hnext.pos_eq]
      simp
    · rw [hspan hkind]

/-- What follows the name of an attribute. -/
theorem keepsAt_attributeValue {start : Nat} {name : Option Text} {s : State} (hs : s.Sound T)
    (hname : s.BehindName T start name) :
    KeepsAt T (do
      if ← atPunct .assign then
        bump .markupValue
        let valueStart ← offset
        let value ←
          match ← token with
          | .string =>
            bump
            finish valueStart .string []
          | .punct .lbrace => attributeContainer g
          | .punct .lt => g (.markup false)
          | _ => fail
        finish start (.tagAttribute name) [value]
      else finish start (.tagAttribute name) []) s := by
  refine keepsAt_atPunct_bind ?_
  split
  · rename_i hassign
    refine ((keeps_bump .markupValue).keepsAt s hs).bind fun _ s₁ hbump hs₁ _ => keepsAt_offset_bind ?_
    obtain rfl : s₁ = s.advance .markupValue := by
      cases hbump
      rfl
    refine keepsAt_token_bind ?_
    split
    · refine ((keeps_bump .code).keepsAt _ hs₁).bind fun _ s₂ _ hs₂ _ => ?_
      refine ((Keeps.finish rfl _ []).keepsAt s₂ hs₂).bind fun value s₃ hvalue hs₃ _ => ?_
      refine keepsAt_finish_attribute hname (eq_of_beq hassign) hs₃ fun hkind => ?_
      cases hvalue
      cases hkind
    · refine (keeps_attributeContainer.keepsAt _ hs₁).bind fun value s₂ hvalue hs₂ _ => ?_
      exact keepsAt_finish_attribute hname (eq_of_beq hassign) hs₂ fun _ => eq_of_attributeContainer hvalue
    · have hmarkup : Keeps T (g (.markup false)) := inferInstance
      have hleads : Leads true (s.advance .markupValue).pos (g (.markup false)) := inferInstance
      refine (hmarkup.keepsAt _ hs₁).bind fun value s₂ hvalue hs₂ _ => ?_
      refine keepsAt_finish_attribute hname (eq_of_beq hassign) hs₂ fun hkind => ?_
      exact absurd hkind (hleads.led _ _ _ (fun _ => rfl) hvalue).node.noContainer
    · exact (Keeps.fail_bind _).keepsAt _ hs₁
  · refine keepsAt_finish hs ?_
    cases name with
    | none => trivial
    | some w => exact fun value hvalue => nomatch hvalue

/-- An attribute with a value between braces stands from its name through the last of them. -/
instance keeps_tagAttribute : Keeps T (tagAttribute g) := by
  unfold tagAttribute
  refine ⟨fun s hs => keepsAt_offset_bind ?_⟩
  refine ((keeps_eat .lbrace).keepsAt s hs).bind fun opens s₁ heat hs₁ _ => ?_
  rcases eq_of_eat heat with ⟨rfl, -, -⟩ | ⟨rfl, rfl⟩
  · rw [if_pos rfl]
    exact (Keeps.steps).keepsAt s₁ hs₁
  rw [if_neg Bool.false_ne_true]
  refine (keeps_markupWord.keepsAt s₁ hs₁).bind fun first s₂ hfirst hs₂ _ => ?_
  refine ((keeps_eat .colon).keepsAt s₂ hs₂).bind fun double s₃ heat hs₃ _ => ?_
  rcases eq_of_eat heat with ⟨rfl, -, -⟩ | ⟨rfl, rfl⟩
  · -- A name of two words makes an attribute without a name.
    rw [if_pos rfl]
    refine (keeps_markupWord.keepsAt s₃ hs₃).bind fun _ s₄ _ hs₄ _ => ?_
    exact keepsAt_attributeValue hs₄ fun w hw => nomatch hw
  · rw [if_neg Bool.false_ne_true]
    refine keepsAt_attributeValue hs₃ fun w hw => ?_
    cases hw
    exact standsAt_of_markupWord hs₁ hfirst

end Attributes

end Brackets

end StyleHoist.Script
