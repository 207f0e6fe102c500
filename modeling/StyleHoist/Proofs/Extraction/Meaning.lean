import StyleHoist.Extraction
import StyleHoist.Proofs.Comment.Stripped
import StyleHoist.Proofs.Style.Meaning
import StyleHoist.Proofs.Text.Batch

/-!
# Styles after extraction

A style that has been extracted is the entry in the registry, with what remains at the place of use over it. It is the
style that was there, whatever its computed properties come to, if and only if the order in which literal properties and
others stand does not matter (`keepsMeaning_iff`).

- `madeFrom_of_prepare`: the properties of a body from which the entry and what remains are made.
- `entry_of_distinct`: sorting the entry does no harm where its keys differ.
-/

namespace StyleHoist

open Script Text

variable {V : Type}

/-! ## Properties of a body -/

/-- What the texts of keys and of literals stand for. -/
structure Reading (V : Type) where
  name : Text → Text
  literal : Text → V

/-- The text of the key of a property. -/
def StyleBody.keyText (b : StyleBody) (n : Node) : Text :=
  match n.parts with
  | key :: _ => b.slice key.span
  | [] => []

/-- The text of the value of a property. -/
def StyleBody.valueText (b : StyleBody) (n : Node) : Text :=
  match n.parts with
  | _ :: value :: _ => b.slice value.span
  | _ => []

/-- What a property of a body sets. -/
def Slot.of (R : Reading V) (b : StyleBody) (n : Node) : Slot V :=
  if PropertyClass.of n = .static then .literal (R.name (b.keyText n)) (R.literal (b.valueText n))
  else
    match n.kind with
    | .property _ => if n.parts.head?.any (·.kind == .computedKey) then .computed else .named (R.name (b.keyText n))
    | _ => .spread

theorem Slot.isLiteral_of (R : Reading V) (b : StyleBody) (n : Node) :
    (Slot.of R b n).isLiteral = decide (PropertyClass.of n = .static) := by
  unfold Slot.of
  split
  · rename_i hstatic
    simp [isLiteral, hstatic]
  · rename_i hdynamic
    rw [decide_eq_false hdynamic]
    split
    · split <;> rfl
    · rfl

namespace StyleBody

/-- What the properties of a body set, each with its place. -/
def slots (b : StyleBody) (R : Reading V) : List (Slot V × Nat) :=
  (b.properties.map (Slot.of R b)).zipIdx

/-- The text of a property as an entry takes it. -/
def entryText (b : StyleBody) (n : Node) : Text :=
  trimProperty (b.property n).text

/-- The properties that move to the registry, in the order of the entry. -/
def moved (b : StyleBody) (sorted : Bool) : List Node :=
  let kept := b.properties.filter fun n => PropertyClass.of n = .static && !(b.entryText n).isEmpty
  if sorted then sortBy (fun m n => propertyLe (b.entryText m) (b.entryText n)) kept else kept

/-- The properties that remain where the style is used. -/
def remaining (b : StyleBody) : List Node :=
  b.properties.filter fun n => PropertyClass.of n = .dynamic

/-- The style of the entry. -/
def entry (b : StyleBody) (R : Reading V) (sorted : Bool) : StyleMap V :=
  eval ((b.moved sorted).filterMap fun n => (Slot.of R b n).literal?)

end StyleBody

/-! ## From a body to an entry -/

/-- The property on a line of what remains. -/
def InlineLine.code? : InlineLine → Option Text
  | .comment _ => none
  | .property code _ => some code

theorem code?_restoreProperties (comments : List Comment) : ∀ seen codes,
    (restoreProperties comments seen codes).filterMap InlineLine.code? = codes
  | _, [] => rfl
  | seen, code :: codes => by
    have hcomments : ∀ texts : List Text, (texts.map InlineLine.comment).filterMap InlineLine.code? = [] := fun texts =>
      List.filterMap_eq_nil_iff.2 fun l hl => by
        obtain ⟨text, -, rfl⟩ := List.mem_map.1 hl
        rfl
    simp only [restoreProperties]
    split
    · split
      · rw [List.filterMap_cons, code?_restoreProperties]
        rfl
      · rw [List.append_assoc, List.filterMap_append, hcomments, List.cons_append, List.filterMap_cons,
          List.filterMap_append, hcomments, code?_restoreProperties]
        rfl
    · rw [List.filterMap_cons, code?_restoreProperties]
      rfl

/-- The body of a target as it is read, without comments. -/
def StyleTarget.bareBody (target : StyleTarget) : Text :=
  trim (stripComments target.body).cleaned

/-- An entry is made of the literal properties of a body, and what remains of the others. -/
structure PreparedStyle.MadeFrom (style : PreparedStyle) (b : StyleBody) (settings : Settings) : Prop where
  entry : style.staticProperties = (b.moved settings.sortProperties).map b.entryText
  rest : style.remaining.filterMap InlineLine.code? = b.remaining.map fun n => (b.property n).text

theorem formatStatic_staticTexts (sorted : Bool) (b : StyleBody) :
    formatStatic sorted (staticTexts (b.properties.map b.property)) = (b.moved sorted).map b.entryText := by
  have hkept : ((staticTexts (b.properties.map b.property)).map trimProperty).filter (fun p => !p.isEmpty) =
      (b.properties.filter fun n => PropertyClass.of n = .static && !(b.entryText n).isEmpty).map b.entryText := by
    simp only [staticTexts, List.filter_map, List.map_map, List.filter_filter]
    congr 1
    refine List.filter_congr fun n _ => ?_
    exact Bool.and_comm _ _
  simp only [formatStatic, hkept, StyleBody.moved]
  split
  · exact (sortBy_map b.entryText propertyLe _).symm
  · rfl

theorem propertiesOf_of_read {body : Text} {b : StyleBody} (h : StyleBody.read body = .ok b) :
    propertiesOf body = b.properties.map b.property := by
  unfold propertiesOf
  rw [h]

/-- What is prepared is made from the body. -/
theorem madeFrom_of_prepare {target : StyleTarget} {settings : Settings} {style : PreparedStyle} {b : StyleBody}
    (hread : StyleBody.read target.bareBody = .ok b) (h : prepare target settings = .ok style) :
    style.MadeFrom b settings := by
  have hproperties := propertiesOf_of_read hread
  simp only [StyleTarget.bareBody] at hproperties
  obtain ⟨-, hmoved, -, hrest, -⟩ := splits_of_prepare h
  rw [hproperties] at hmoved hrest
  refine ⟨hmoved.trans (formatStatic_staticTexts settings.sortProperties b), ?_⟩
  rw [hrest, restoreInline, code?_restoreProperties, dynamicTexts, List.filter_map, List.map_map]
  rfl

/-! ## Meaning -/

namespace StyleBody

variable (b : StyleBody) (R : Reading V)

theorem nodup_slots : ((b.slots R).map (·.2)).Nodup := by
  rw [slots, List.zipIdx_map_snd]
  exact List.nodup_range'

theorem mem_slots {n : Node} (h : n ∈ b.properties) : ∃ i, (Slot.of R b n, i) ∈ b.slots R := by
  obtain ⟨i, hi, hn⟩ := List.mem_iff_getElem.1 (List.mem_map_of_mem (f := Slot.of R b) h)
  refine ⟨i, ?_⟩
  rw [slots, List.mem_zipIdx_iff_getElem?]
  simpa [hn] using List.getElem?_eq_getElem hi

theorem mem_moved {sorted : Bool} {n : Node} (h : n ∈ b.moved sorted) :
    n ∈ b.properties ∧ PropertyClass.of n = .static := by
  have hkept : n ∈ b.properties.filter fun n => PropertyClass.of n = .static && !(b.entryText n).isEmpty := by
    simp only [moved] at h
    split at h
    · exact (sortBy_perm _ _).mem_iff.1 h
    · exact h
  have hboth := List.mem_filter.1 hkept
  simp only [Bool.and_eq_true, decide_eq_true_eq] at hboth
  exact ⟨hboth.1, hboth.2.1⟩

theorem literal?_eq_some {s : Slot V} {w : Text × V} (h : s.literal? = some w) : s = .literal w.1 w.2 := by
  cases s with
  | literal k v => rw [← Option.some.inj h]
  | _ => cases h

/-- An entry has the keys of literal properties only. -/
theorem entry_eq_none {sorted : Bool} {k : Text} (h : ∀ s ∈ b.slots R, s.1.NotLiteralOf k) :
    b.entry R sorted k = none := by
  refine eval_eq_none fun w hw hk => ?_
  obtain ⟨n, hn, hliteral⟩ := List.mem_filterMap.1 hw
  obtain ⟨i, hi⟩ := b.mem_slots R (b.mem_moved hn).1
  exact h _ hi w.2 (hk ▸ literal?_eq_some hliteral)

/-- Where its keys differ, an entry may be sorted. -/
theorem entry_of_distinct
    (h : (((b.moved false).filterMap fun n => (Slot.of R b n).literal?).map (·.1)).Nodup) :
    b.entry R true = b.entry R false := by
  have hperm : (b.moved true).Perm (b.moved false) := by
    simp only [moved, if_true, Bool.false_eq_true, if_false]
    exact sortBy_perm _ _
  exact (eval_perm (hperm.filterMap _).symm h).symm

/-- The style that is left where all remains of a body that does not go to the entry: the entry alone if nothing
remains, and else the array of the entry and of an object. -/
def leftBehind (I : Interpretation V) (settings : Settings) (style : PreparedStyle) : StyleMap V :=
  let entry := b.entry R settings.sortProperties
  if style.remaining.isEmpty then entry else evalArray [entry, meaning I (computedSlots (b.slots R))]

end StyleBody

theorem computedSlots_eq_nil {b : StyleBody} (R : Reading V) (h : b.remaining = []) : computedSlots (b.slots R) = [] := by
  refine List.filter_eq_nil_iff.2 fun s hs => ?_
  rw [StyleBody.slots, List.mem_zipIdx_iff_getElem?] at hs
  obtain ⟨n, hn, hslot⟩ := List.mem_map.1 (List.mem_of_getElem? hs)
  have hkind := List.filter_eq_nil_iff.1 h n hn
  rw [← hslot, Slot.isLiteral_of]
  cases hclass : PropertyClass.of n with
  | static => simp
  | dynamic => exact absurd (by simpa using hclass) hkind

/-- What is left is the object of what remains over the entry. -/
theorem leftBehind_eq {b : StyleBody} (R : Reading V) (I : Interpretation V) {settings : Settings}
    {style : PreparedStyle} (h : style.MadeFrom b settings) : b.leftBehind R I settings style =
      (b.entry R settings.sortProperties).override (meaning I (computedSlots (b.slots R))) := by
  simp only [StyleBody.leftBehind]
  split
  · rename_i hempty
    have hrest := h.rest
    rw [List.isEmpty_iff.1 hempty] at hrest
    rw [computedSlots_eq_nil R (List.map_eq_nil_iff.1 hrest.symm)]
    rfl
  · funext k
    simp only [evalArray, List.foldl_cons, List.foldl_nil, StyleMap.override, Option.or_none]

/-- Extraction keeps the style of a target: its entry and what remains are made from its body, and whatever is computed,
the style that is left is the one that was there. -/
def KeepsMeaning (R : Reading V) (target : StyleTarget) (settings : Settings) : Prop :=
  ∀ b style, StyleBody.read target.bareBody = .ok b → prepare target settings = .ok style →
    style.MadeFrom b settings ∧ ∀ I, meaning I (b.slots R) = b.leftBehind R I settings style

/-- **Extraction keeps a style if and only if the order in which its literal properties and others stand does not
matter.** -/
theorem keepsMeaning_iff [Nontrivial V] {R : Reading V} {target : StyleTarget} {settings : Settings} :
    KeepsMeaning R target settings ↔ ∀ b style, StyleBody.read target.bareBody = .ok b →
      prepare target settings = .ok style → KeepsOrder (b.slots R) (b.entry R settings.sortProperties) := by
  have hsame : ∀ b style, StyleBody.read target.bareBody = .ok b → prepare target settings = .ok style →
      ((∀ I, meaning I (b.slots R) = b.leftBehind R I settings style) ↔
        KeepsOrder (b.slots R) (b.entry R settings.sortProperties)) := by
    intro b style hread hprepare
    rw [← keepsOrder_iff (b.nodup_slots R) fun k => b.entry_eq_none R]
    exact forall_congr' fun I => by rw [leftBehind_eq R I (madeFrom_of_prepare hread hprepare)]
  constructor
  · exact fun h b style hread hprepare => (hsame b style hread hprepare).1 (h b style hread hprepare).2
  · exact fun h b style hread hprepare =>
      ⟨madeFrom_of_prepare hread hprepare, (hsame b style hread hprepare).2 (h b style hread hprepare)⟩

/-- Keys as they are written, and one value for all literals. -/
def plainReading : Reading Bool := ⟨id, fun _ => true⟩

/-- A color that is computed, with a color over it. -/
def darkTarget : StyleTarget where
  range := ⟨0, 0⟩
  kind := .wholeAttribute
  body := "color: dark, color: 'red'".toList
  indent := ⟨[]⟩

/-- The statement for this target. -/
theorem keepsMeaning_iff_darkTarget : KeepsMeaning plainReading darkTarget {} ↔ ∀ b style,
    StyleBody.read darkTarget.bareBody = .ok b → prepare darkTarget {} = .ok style →
      KeepsOrder (b.slots plainReading) (b.entry plainReading false) :=
  keepsMeaning_iff

theorem eq_ok_of_toOption {ε α : Type} {e : Except ε α} {a : α} (h : e.toOption = some a) : e = .ok a := by
  cases e with
  | error => cases h
  | ok b => rw [Option.some.inj h]

/-- The color that is computed is put over the other. -/
theorem not_keepsMeaning_darkTarget : ¬KeepsMeaning plainReading darkTarget {} := by
  intro h
  have hslots : (StyleBody.read darkTarget.bareBody).toOption.map (·.slots plainReading) =
      some [(.named "color".toList, 0), (.literal "color".toList true, 1)] := by
    decide +kernel
  have hremaining : (prepare darkTarget {}).toOption.map (·.remaining.isEmpty) = some false := by decide +kernel
  obtain ⟨b, hread, hslots⟩ := Option.map_eq_some_iff.1 hslots
  obtain ⟨style, hprepare, hremaining⟩ := Option.map_eq_some_iff.1 hremaining
  -- A color that comes to another value than the literal has.
  let I : Interpretation Bool := ⟨fun _ => false, fun _ => [], fun _ => []⟩
  have hsame := (h b style (eq_ok_of_toOption hread) (eq_ok_of_toOption hprepare)).2 I
  have hbefore : meaning I (b.slots plainReading) "color".toList = some true := by
    rw [hslots]
    decide
  have hrest : meaning I (computedSlots (b.slots plainReading)) "color".toList = some false := by
    rw [hslots]
    decide
  have hafter : b.leftBehind plainReading I {} style "color".toList = some false := by
    simp only [StyleBody.leftBehind, hremaining, Bool.false_eq_true, if_false, evalArray, List.foldl_cons,
      List.foldl_nil, StyleMap.override, hrest, Option.some_or]
  rw [← hsame, hbefore] at hafter
  cases hafter

end StyleHoist
