import Mathlib.Data.List.Forall2
import StyleHoist.Proofs.Comment.Surroundings

/-!
# What comments belong to

A comment belongs to the property that the code around it tells: the code before it on its line, or the first line of
code below it, or, for a block that spans lines, the nearest line of code above it. The lines are judged as they are
written, though, and taken for comments by their first characters (`IsPassedOver`). A comment belongs to what the code
tells exactly when the lines as they are written tell the same (`tied_iff`). Where a line inside a block ends the search,
or code behind a block is passed over, they do not (`not_tied_blockBelow`).

- `nearestKey?_eq_some_iff`, `firstKey?_eq_some_iff`: the key that is found is that of the first line which is not passed
  over.
- `tiedIn_eq_some_iff`: the line by which a comment is tied as the lines are written.
- `tieBy_eq_iff`: when two ways to read lines tie a comment to the same.
- `nearestKey?_of_toldApart`: lines that are told apart from comments by their first characters tell what their code
  tells.
-/

namespace StyleHoist

open Text Listing

/-! ## Lines that decide -/

/-- The first line that is not passed over begins with this key. -/
def TellsKey (passed : Text → Prop) (lines : List Text) (name : Text) : Prop :=
  ∃ front line back, lines = front ++ line :: back ∧ (∀ l ∈ front, passed l) ∧ ¬passed line ∧
    leadingKey? (trim line) = some name

/-- A line as it is written is passed over if it is blank or begins with a comment. -/
def IsPassedOver (line : Text) : Prop :=
  isBlank line = true ∨ "//".toList <+: trim line ∨ "/*".toList <+: trim line

section TellsKey

variable {passed : Text → Prop} {l name : Text} {ls : List Text}

theorem not_tellsKey_nil : ¬TellsKey passed [] name := by
  rintro ⟨front, line, back, heq, -⟩
  simp at heq

theorem tellsKey_cons_of_passed (h : passed l) : TellsKey passed (l :: ls) name ↔ TellsKey passed ls name := by
  constructor
  · rintro ⟨front, line, back, heq, hfront, hline, hkey⟩
    cases front with
    | nil =>
      obtain ⟨rfl, -⟩ := List.cons.inj heq
      exact absurd h hline
    | cons k front =>
      exact ⟨front, line, back, (List.cons.inj heq).2, fun m hm => hfront m (List.mem_cons_of_mem _ hm), hline, hkey⟩
  · rintro ⟨front, line, back, rfl, hfront, hline, hkey⟩
    exact ⟨l :: front, line, back, rfl, List.forall_mem_cons.2 ⟨h, hfront⟩, hline, hkey⟩

theorem tellsKey_cons_of_not_passed (h : ¬passed l) :
    TellsKey passed (l :: ls) name ↔ leadingKey? (trim l) = some name := by
  constructor
  · rintro ⟨front, line, back, heq, hfront, -, hkey⟩
    cases front with
    | nil => rwa [(List.cons.inj heq).1]
    | cons k front =>
      obtain ⟨rfl, -⟩ := List.cons.inj heq
      exact absurd (hfront l List.mem_cons_self) h
  · exact fun hkey => ⟨[], l, ls, rfl, by simp, h, hkey⟩

end TellsKey

theorem beginsWith_iff {part t : Text} : beginsWith part t = true ↔ part <+: t := by
  rw [beginsWith]
  constructor
  · intro h
    obtain ⟨rest, hrest⟩ := Option.isSome_iff_exists.1 h
    exact ⟨rest, (eq_append_of_dropPart? hrest).symm⟩
  · rintro ⟨rest, rfl⟩
    rw [dropPart?_append]
    rfl

theorem isPassedOver_iff {line : Text} : IsPassedOver line ↔ isSkippable (trim line) = true := by
  rw [IsPassedOver, isSkippable, Bool.or_eq_true, Bool.or_eq_true, beginsWith_iff, beginsWith_iff, List.isEmpty_iff,
    trim_eq_nil_iff, or_assoc]

theorem nearestKey?_of_not_isSkippable {l : Text} (h : isSkippable (trim l) = false) (ls : List Text) :
    nearestKey? (l :: ls) = leadingKey? (trim l) := by
  rw [nearestKey?, List.map_cons, List.dropWhile_cons_of_neg (by simp [h])]
  rfl

/-- The key that is found among lines as they are written is that of the first line which is not passed over. -/
theorem nearestKey?_eq_some_iff {name : Text} : ∀ {lines : List Text},
    nearestKey? lines = some name ↔ TellsKey IsPassedOver lines name
  | [] => iff_of_false (by simp [nearestKey?]) not_tellsKey_nil
  | l :: ls => by
    cases hskip : isSkippable (trim l) with
    | true =>
      rw [nearestKey?_of_isSkippable hskip, tellsKey_cons_of_passed (isPassedOver_iff.2 hskip), nearestKey?_eq_some_iff]
    | false =>
      rw [nearestKey?_of_not_isSkippable hskip, tellsKey_cons_of_not_passed (by simp [isPassedOver_iff, hskip])]

/-- The key with which the first line of code begins. -/
def firstKey? (code : List Text) : Option Text :=
  (outlineOf code).head?.bind leadingKey?

theorem firstKey?_of_isBlank {code : Text} (h : isBlank code = true) (codes : List Text) :
    firstKey? (code :: codes) = firstKey? codes := by
  rw [firstKey?, outlineOf_cons_of_isBlank h, firstKey?]

theorem firstKey?_of_code {code : Text} (h : isBlank code = false) (codes : List Text) :
    firstKey? (code :: codes) = leadingKey? (trim code) := by
  have htrim : trim code ≠ [] := fun hnil => by simp [trim_eq_nil_iff.1 hnil] at h
  rw [firstKey?, outlineOf_cons_of_ne_nil htrim]
  rfl

/-- The key that is found among lines of code is that of the first line which is not blank. -/
theorem firstKey?_eq_some_iff {name : Text} : ∀ {codes : List Text},
    firstKey? codes = some name ↔ TellsKey (isBlank · = true) codes name
  | [] => iff_of_false (by simp [firstKey?, outlineOf]) not_tellsKey_nil
  | code :: codes => by
    cases hblank : isBlank code with
    | true => rw [firstKey?_of_isBlank hblank, tellsKey_cons_of_passed hblank, firstKey?_eq_some_iff]
    | false => rw [firstKey?_of_code hblank, tellsKey_cons_of_not_passed (by simp [hblank])]

/-- Lines tell the same key as lines of code do, or none if these tell none. -/
def TellsAs (lines codes : List Text) : Prop :=
  ∀ name, TellsKey IsPassedOver lines name ↔ TellsKey (isBlank · = true) codes name

theorem tellsAs_iff {lines codes : List Text} : TellsAs lines codes ↔ nearestKey? lines = firstKey? codes := by
  simp only [TellsAs, ← nearestKey?_eq_some_iff, ← firstKey?_eq_some_iff]
  exact ⟨fun h => Option.ext h, fun h name => by rw [h]⟩

/-! ## The rule -/

namespace Lexer

/-- What the code around a comment ties it to. -/
def Occurrence.tied (o : Occurrence) : Option Text × Placement :=
  tieBy firstKey? o.code o.codeBelow o.codeAbove o.seen.ending.isSome

/-- The lines around a comment tell what the code around it tells: either the code before it on its line decides, or
the lines below it tell what the code there tells, and those above it do where that matters. -/
def Occurrence.IsTold (lines : List Text) (o : Occurrence) : Prop :=
  leadingKey? (trim o.code) ≠ none ∨
    TellsAs (o.seen.linesBelow lines) o.codeBelow ∧
      ((∀ name, ¬TellsKey (isBlank · = true) o.codeBelow name) → o.seen.ending.isSome = true →
        TellsAs (o.seen.linesAbove lines) o.codeAbove)

theorem isTold_iff {lines : List Text} {o : Occurrence} : o.IsTold lines ↔ leadingKey? (trim o.code) ≠ none ∨
    nearestKey? (o.seen.linesBelow lines) = firstKey? o.codeBelow ∧
      (firstKey? o.codeBelow = none → o.seen.ending.isSome = true →
        nearestKey? (o.seen.linesAbove lines) = firstKey? o.codeAbove) := by
  simp only [Occurrence.IsTold, tellsAs_iff, ← firstKey?_eq_some_iff, Option.eq_none_iff_forall_ne_some]

instance (lines : List Text) (o : Occurrence) : Decidable (o.IsTold lines) :=
  decidable_of_iff _ isTold_iff.symm

/-- A comment is tied to a name and a place by a line as it is written: by its own line up to the comment, else by the
first line below it that is not passed over or, where that has no key and the comment spans lines, by the nearest such
line above it. -/
inductive Occurrence.Ties (lines : List Text) (o : Occurrence) (name : Text) : Placement → Prop
  | sameLine (hown : leadingKey? (trim o.code) = some name) : Ties lines o name .sameLine
  | before (hown : leadingKey? (trim o.code) = none) (hbelow : TellsKey IsPassedOver (o.seen.linesBelow lines) name) :
      Ties lines o name .before
  | after (hown : leadingKey? (trim o.code) = none)
      (hbelow : ∀ key, ¬TellsKey IsPassedOver (o.seen.linesBelow lines) key) (hspans : o.seen.ending.isSome = true)
      (habove : TellsKey IsPassedOver (o.seen.linesAbove lines) name) : Ties lines o name .after

/-- The rule finds the line that ties a comment. -/
theorem tiedIn_eq_some_iff {lines : List Text} {o : Occurrence} {name : Text} {placement : Placement} :
    o.tiedIn lines = (some name, placement) ↔ o.Ties lines name placement := by
  constructor
  · intro h
    rw [Occurrence.tiedIn, tieBy] at h
    cases hown : leadingKey? (trim o.code) with
    | some key =>
      simp only [hown] at h
      cases h
      exact .sameLine hown
    | none =>
      simp only [hown] at h
      cases hbelow : nearestKey? (o.seen.linesBelow lines) with
      | some key =>
        simp only [hbelow] at h
        cases h
        exact .before hown (nearestKey?_eq_some_iff.1 hbelow)
      | none =>
        cases hspans : o.seen.ending.isSome with
        | false => simp [hbelow, hspans] at h
        | true =>
          cases habove : nearestKey? (o.seen.linesAbove lines) with
          | none => simp [hbelow, hspans, habove] at h
          | some key =>
            simp only [hbelow, hspans, habove, if_true] at h
            cases h
            refine .after hown (fun key hkey => ?_) hspans (nearestKey?_eq_some_iff.1 habove)
            rw [nearestKey?_eq_some_iff.2 hkey] at hbelow
            cases hbelow
  · rintro (hown | ⟨hown, hbelow⟩ | ⟨hown, hbelow, hspans, habove⟩)
    · rw [Occurrence.tiedIn, tieBy, hown]
    · rw [Occurrence.tiedIn, tieBy, hown, nearestKey?_eq_some_iff.2 hbelow]
    · have hnone : nearestKey? (o.seen.linesBelow lines) = none :=
        Option.eq_none_iff_forall_ne_some.2 fun key hkey => hbelow key (nearestKey?_eq_some_iff.1 hkey)
      rw [Occurrence.tiedIn, tieBy, hown, hnone, hspans, if_pos rfl, nearestKey?_eq_some_iff.2 habove]

end Lexer

/-- Two ways to find keys tie a comment to the same just if they find the same keys where they are asked. -/
theorem tieBy_eq_iff {key? key?' : List Text → Option Text} {code : Text} {below above below' above' : List Text}
    {spansLines : Bool} :
    Lexer.tieBy key? code below above spansLines = Lexer.tieBy key?' code below' above' spansLines ↔
      leadingKey? (trim code) ≠ none ∨ key? below = key?' below' ∧
        (key?' below' = none → spansLines = true → key? above = key?' above') := by
  unfold Lexer.tieBy
  cases leadingKey? (trim code) with
  | some name => simp
  | none =>
    cases key? below <;> cases key?' below' <;> cases spansLines <;> cases key? above <;> cases key?' above' <;> simp

/-! ## Lines that are told apart -/

/-- A line is told apart by its first characters: it is passed over just if it holds no code, and it begins with the key
of its code. -/
structure ToldApart (line code : Text) : Prop where
  skipped : isSkippable (trim line) = isBlank code
  key : isBlank code = false → leadingKey? (trim line) = leadingKey? (trim code)

instance (line code : Text) : Decidable (ToldApart line code) :=
  decidable_of_iff (isSkippable (trim line) = isBlank code ∧
    (isBlank code = false → leadingKey? (trim line) = leadingKey? (trim code)))
    ⟨fun h => ⟨h.1, h.2⟩, fun h => ⟨h.1, h.2⟩⟩

/-- Lines that are told apart tell what their code tells. -/
theorem nearestKey?_of_toldApart {lines codes : List Text} (h : List.Forall₂ ToldApart lines codes) :
    nearestKey? lines = firstKey? codes := by
  induction h with
  | nil => rfl
  | @cons line code lines codes htold _ ih =>
    cases hblank : isBlank code with
    | true => rw [nearestKey?_of_isSkippable (htold.skipped.trans hblank), firstKey?_of_isBlank hblank, ih]
    | false =>
      rw [firstKey?_of_code hblank, ← htold.key hblank,
        nearestKey?_of_not_isSkippable (htold.skipped.trans hblank)]

/-! ## Comments of a body -/

section Bodies

variable {body : Text}

theorem isTold_of_toldApart {o : Lexer.Occurrence} (hmem : o ∈ Lexer.occurrences body)
    (h : List.Forall₂ ToldApart (splitLines body) (Lexer.codeLines body)) : o.IsTold (splitLines body) := by
  have hplaced := isPlaced_of_mem_occurrences hmem
  refine Or.inr ⟨?_, fun _ _ => ?_⟩
  · rw [tellsAs_iff, ← Lexer.drop_codeLines hmem hplaced]
    exact nearestKey?_of_toldApart (List.forall₂_drop _ h)
  · rw [tellsAs_iff, ← Lexer.take_codeLines hmem hplaced]
    exact nearestKey?_of_toldApart (List.rel_reverse (List.forall₂_take _ h))

/-- **A comment belongs to what the code around it tells just if the lines around it tell the same**, and these do in a
body whose lines are told apart by their first characters. -/
theorem tied_iff (body : Text) :
    List.Forall₂ (fun (c : Comment) (o : Lexer.Occurrence) =>
        c.sighting = o.seen ∧ (Lexer.tieOf c = o.tied ↔ o.IsTold (splitLines body)))
      (stripComments body).comments (Lexer.occurrences body) ∧
    (List.Forall₂ ToldApart (splitLines body) (Lexer.codeLines body) →
      ∀ o ∈ Lexer.occurrences body, o.IsTold (splitLines body)) :=
  ⟨(meets_stripComments body).imp fun _ _ h => ⟨h.seen, h.tied ▸ tieBy_eq_iff.trans Lexer.isTold_iff.symm⟩,
    fun htold _ hmem => isTold_of_toldApart hmem htold⟩

end Bodies

/-- A body with comments above, behind and between properties, all of whose lines are told apart. -/
def notedLines : Text :=
  "// first\n/* a */\na: 1, // one\n\nb: [ /* none */\n]".toList

theorem tied_iff_notedLines : List.Forall₂ ToldApart (splitLines notedLines) (Lexer.codeLines notedLines) ∧
    ∀ o ∈ Lexer.occurrences notedLines, o.IsTold (splitLines notedLines) := by
  have hlines : ∀ p ∈ (splitLines notedLines).zip (Lexer.codeLines notedLines), ToldApart p.1 p.2 := by
    decide +kernel
  have htold : List.Forall₂ ToldApart (splitLines notedLines) (Lexer.codeLines notedLines) :=
    List.forall₂_iff_zip.2 ⟨by decide +kernel, fun hmem => hlines _ hmem⟩
  exact ⟨htold, (tied_iff notedLines).2 htold⟩

/-- Above a block the search ends at the second line of the block, and code behind a block is passed over. -/
theorem not_tied_blockBelow :
    (stripComments "// c\n/* doc\n doc2 */\na: 1".toList).comments.map Lexer.tieOf =
        [(none, .before), (some ['a'], .before)] ∧
      (Lexer.occurrences "// c\n/* doc\n doc2 */\na: 1".toList).map Lexer.Occurrence.tied =
        [(some ['a'], .before), (some ['a'], .before)] ∧
      (stripComments "// c\n/* x */ a: 1,\nb: 2".toList).comments.map Lexer.tieOf =
        [(some ['b'], .before), (some ['b'], .before)] ∧
      (Lexer.occurrences "// c\n/* x */ a: 1,\nb: 2".toList).map Lexer.Occurrence.tied =
        [(some ['a'], .before), (some ['b'], .before)] := by
  decide +kernel

end StyleHoist
