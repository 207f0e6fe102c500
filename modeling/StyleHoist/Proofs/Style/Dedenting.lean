import StyleHoist.Proofs.Registry.NewEntry
import StyleHoist.Style.Body

/-!
# Dedented properties

A property is dedented where it is read: its lines after the first, its *continuation*, lose the indentation that they
share, blank lines aside. A line keeps what stands behind its indentation (`unindented_dropIndent`), every continuation
line that is not blank loses equally much (`indentSize_dropIndent`), and afterwards there is nothing more to share
(`commonIndent_dedented`).

Where a property is written all its lines are indented and trimmed at their ends. The continuation then shares exactly
the new indentation (`commonIndent_layout`), and dedenting takes it off again (`splitLines_dedent_unwritten`). Blank
lines are written empty, and they share nothing before and after.
-/

namespace StyleHoist

open Text Listing

/-! ## Indentations -/

/-- The spaces and tabs at the start of a line. -/
def indentOf (line : Text) : Text :=
  line.takeWhile isIndentChar

/-- A line behind its indentation. -/
def unindented (line : Text) : Text :=
  line.dropWhile isIndentChar

/-- How many spaces and tabs a line begins with. -/
def indentSize (line : Text) : Nat :=
  (indentOf line).length

/-- A text of spaces and tabs. -/
def IsIndentation (s : Text) : Prop :=
  s.all isIndentChar = true

instance (s : Text) : Decidable (IsIndentation s) :=
  inferInstanceAs (Decidable (s.all isIndentChar = true))

theorem IsIndentation.isBlank {s : Text} (h : IsIndentation s) : isBlank s = true :=
  List.all_eq_true.2 fun c hc => isBlankChar_of_isIndentChar (List.all_eq_true.1 h c hc)

theorem IsIndentation.isLine {s : Text} (h : IsIndentation s) : IsLine s := fun hm =>
  absurd (List.all_eq_true.1 h '\n' hm) (by decide)

theorem isIndentation_indentOf (l : Text) : IsIndentation (indentOf l) :=
  List.all_takeWhile

theorem indentOf_append_unindented (l : Text) : indentOf l ++ unindented l = l :=
  List.takeWhile_append_dropWhile

section Indented

variable {a : Text} (ha : IsIndentation a)

include ha

/-- An indentation before a line adds to that of the line. -/
theorem indentOf_append (l : Text) : indentOf (a ++ l) = a ++ indentOf l :=
  List.takeWhile_append_of_pos (List.all_eq_true.1 ha)

theorem unindented_append (l : Text) : unindented (a ++ l) = unindented l :=
  List.dropWhile_append_of_pos (List.all_eq_true.1 ha)

theorem indentSize_append (l : Text) : indentSize (a ++ l) = a.length + indentSize l := by
  rw [indentSize, indentOf_append ha, List.length_append, indentSize]

end Indented

theorem indentOf_unindented (l : Text) : indentOf (unindented l) = [] := by
  have hsame := indentOf_append (isIndentation_indentOf l) (unindented l)
  rwa [indentOf_append_unindented, List.self_eq_append_right] at hsame

theorem unindented_unindented (l : Text) : unindented (unindented l) = unindented l := by
  have hsame := indentOf_append_unindented (unindented l)
  rwa [indentOf_unindented, List.nil_append] at hsame

/-- The end of a line does not matter to its indentation, but may take part of it away. -/
theorem indentSize_trimEnd_le (l : Text) : indentSize (trimEnd l) ≤ indentSize l := by
  obtain ⟨margin, heq, -⟩ := trimEnd_append_blank l
  conv => rhs; rw [heq, indentSize, indentOf, List.takeWhile_append]
  split
  · rename_i hall
    rw [List.length_append, ← hall]
    exact Nat.le_add_right _ _
  · exact le_rfl

/-! ## Lines that lose indentation -/

theorem dropIndent_eq (n : Nat) (l : Text) : dropIndent n l = (indentOf l).drop n ++ unindented l := by
  have hsplit : dropIndent n l = (indentOf l ++ unindented l).drop (min (indentSize l) n) := by
    rw [indentOf_append_unindented]
    rfl
  rw [hsplit, List.drop_append_of_le_length (Nat.min_le_left (indentSize l) n)]
  rcases Nat.le_total (indentSize l) n with h | h
  · rw [Nat.min_eq_left h, List.drop_eq_nil_of_le h, List.drop_eq_nil_of_le (Nat.le_refl (indentSize l))]
  · rw [Nat.min_eq_right h]

theorem dropIndent_zero (l : Text) : dropIndent 0 l = l := by
  rw [dropIndent_eq, List.drop_zero, indentOf_append_unindented]

theorem isIndentation_drop (n : Nat) (l : Text) : IsIndentation ((indentOf l).drop n) :=
  List.all_eq_true.2 fun c hc => List.all_eq_true.1 (isIndentation_indentOf l) c (List.mem_of_mem_drop hc)

/-- A line is what it loses of its indentation, and the rest. -/
theorem exists_append_dropIndent (n : Nat) (l : Text) : ∃ indent, IsIndentation indent ∧ l = indent ++ dropIndent n l := by
  refine ⟨(indentOf l).take n, ?_, ?_⟩
  · exact List.all_eq_true.2 fun c hc => List.all_eq_true.1 (isIndentation_indentOf l) c (List.mem_of_mem_take hc)
  · rw [dropIndent_eq, ← List.append_assoc, List.take_append_drop, indentOf_append_unindented]

theorem unindented_dropIndent (n : Nat) (l : Text) : unindented (dropIndent n l) = unindented l := by
  rw [dropIndent_eq, unindented_append (isIndentation_drop n l), unindented_unindented]

theorem indentSize_dropIndent (n : Nat) (l : Text) : indentSize (dropIndent n l) = indentSize l - n := by
  rw [dropIndent_eq, indentSize_append (isIndentation_drop n l), List.length_drop, indentSize, indentSize,
    indentOf_unindented, List.length_nil, Nat.add_zero]

theorem dropIndent_length_append {a : Text} (ha : IsIndentation a) (l : Text) : dropIndent a.length (a ++ l) = l := by
  rw [dropIndent_eq, indentOf_append ha, unindented_append ha, List.drop_left, indentOf_append_unindented]

theorem isBlank_dropIndent (n : Nat) (l : Text) : isBlank (dropIndent n l) = isBlank l := by
  obtain ⟨indent, hindent, heq⟩ := exists_append_dropIndent n l
  conv => rhs; rw [heq, isBlank_append, hindent.isBlank, Bool.true_and]

theorem isLine_dropIndent (n : Nat) {l : Text} (h : IsLine l) : IsLine (dropIndent n l) := fun hm =>
  h (List.mem_of_mem_drop hm)

/-! ## Shared indentation -/

theorem commonIndent_eq_min? (ls : List Text) :
    commonIndent ls = ((ls.filter fun l => !isBlank l).map indentSize).min?.getD 0 := by
  change _ = ((ls.filter fun l => !isBlank l).map fun l => (l.takeWhile isIndentChar).length).min?.getD 0
  rw [commonIndent]
  cases (ls.filter fun l => !isBlank l).map fun l => (l.takeWhile isIndentChar).length <;> rfl

/-- Lines share what the least indented of them has, blank lines aside. -/
theorem commonIndent_eq_iff {ls : List Text} (hex : ∃ l ∈ ls, isBlank l = false) {n : Nat} : commonIndent ls = n ↔
    (∀ l ∈ ls, isBlank l = false → n ≤ indentSize l) ∧ ∃ l ∈ ls, isBlank l = false ∧ indentSize l = n := by
  have hmem : ∀ {l}, l ∈ ls.filter (fun l => !isBlank l) ↔ l ∈ ls ∧ isBlank l = false := by simp [List.mem_filter]
  obtain ⟨l, hl, hsolid⟩ := hex
  obtain ⟨m, hm⟩ := Option.isSome_iff_exists.1
    (List.isSome_min?_of_mem (List.mem_map_of_mem (f := indentSize) (hmem.2 ⟨hl, hsolid⟩)))
  have hshared : commonIndent ls = m := by rw [commonIndent_eq_min?, hm, Option.getD_some]
  rw [hshared, ← Option.some_inj, ← hm, List.min?_eq_some_iff]
  simp only [List.mem_map, hmem]
  constructor
  · rintro ⟨⟨k, ⟨hk, hk'⟩, hsize⟩, hle⟩
    exact ⟨fun k hk hk' => hle _ ⟨k, ⟨hk, hk'⟩, rfl⟩, k, hk, hk', hsize⟩
  · rintro ⟨hle, k, hk, hk', hsize⟩
    refine ⟨⟨k, ⟨hk, hk'⟩, hsize⟩, ?_⟩
    rintro _ ⟨k, ⟨hk, hk'⟩, rfl⟩
    exact hle k hk hk'

/-- Blank lines share nothing. -/
theorem commonIndent_of_isBlank {ls : List Text} (h : ∀ l ∈ ls, isBlank l = true) : commonIndent ls = 0 := by
  rw [commonIndent_eq_min?, List.filter_eq_nil_iff.2 (by simpa using h)]
  rfl

/-- Lines that have lost some indentation share as much less. -/
theorem commonIndent_map_dropIndent (n : Nat) (ls : List Text) :
    commonIndent (ls.map (dropIndent n)) = commonIndent ls - n := by
  by_cases hex : ∃ l ∈ ls, isBlank l = false
  · obtain ⟨hle, l, hl, hsolid, hsize⟩ := (commonIndent_eq_iff hex).1 rfl
    have hex' : ∃ l ∈ ls.map (dropIndent n), isBlank l = false :=
      ⟨_, List.mem_map_of_mem hl, by rw [isBlank_dropIndent, hsolid]⟩
    refine (commonIndent_eq_iff hex').2 ⟨fun k hk hk' => ?_, _, List.mem_map_of_mem hl, ?_, ?_⟩
    · obtain ⟨m, hm, rfl⟩ := List.mem_map.1 hk
      rw [isBlank_dropIndent] at hk'
      have := hle m hm hk'
      rw [indentSize_dropIndent]
      omega
    · rw [isBlank_dropIndent, hsolid]
    · rw [indentSize_dropIndent, hsize]
  · have hblank : ∀ l ∈ ls, isBlank l = true := by simpa using hex
    have hdropped : ∀ l ∈ ls.map (dropIndent n), isBlank l = true := by
      simpa [isBlank_dropIndent] using hblank
    rw [commonIndent_of_isBlank hblank, commonIndent_of_isBlank hdropped, Nat.zero_sub]

/-- Lines that are laid out share the new indentation besides their own, unless all of them are blank. -/
theorem commonIndent_layout {indent : Text} (h : IsIndentation indent) {ls : List Text} (hshared : commonIndent ls = 0)
    (hex : ∃ l ∈ ls, isBlank l = false) : commonIndent (layout indent ls) = indent.length := by
  obtain ⟨-, l, hl, hsolid, hsize⟩ := (commonIndent_eq_iff hex).1 hshared
  have hlaid : ∀ k, isBlank k = false → trimEnd (indent ++ k) = indent ++ trimEnd k := fun k hk =>
    trimEnd_append_of_not_isBlank (by simp [hk])
  have hblank : ∀ k, isBlank (trimEnd (indent ++ k)) = isBlank k := fun k => by
    rw [isBlank_trimEnd, isBlank_append, h.isBlank, Bool.true_and]
  have hex' : ∃ l ∈ layout indent ls, isBlank l = false := ⟨_, List.mem_map_of_mem hl, by rw [hblank, hsolid]⟩
  refine (commonIndent_eq_iff hex').2 ⟨fun k hk hk' => ?_, _, List.mem_map_of_mem hl, ?_, ?_⟩
  · obtain ⟨m, -, rfl⟩ := List.mem_map.1 hk
    rw [hblank] at hk'
    rw [hlaid m hk', indentSize_append h]
    exact Nat.le_add_right _ _
  · rw [hblank, hsolid]
  · have hle := indentSize_trimEnd_le l
    rw [hlaid l hsolid, indentSize_append h]
    omega

/-! ## Dedenting -/

/-- The lines of a dedented text: the first, and the continuation without what it shares. -/
theorem splitLines_dedent {t first : Text} {rest : List Text} (h : splitLines t = first :: rest) :
    splitLines (dedent t) = first :: rest.map (dropIndent (commonIndent rest)) := by
  have hlines : ∀ l ∈ first :: rest, IsLine l := fun l hl => isLine_of_mem_splitLines (h ▸ hl)
  obtain ⟨hfirst, hrest⟩ := List.forall_mem_cons.1 hlines
  rw [dedent, h]
  refine splitLines_joinLines (by simp) (List.forall_mem_cons.2 ⟨hfirst, fun l hl => ?_⟩)
  obtain ⟨k, hk, rfl⟩ := List.mem_map.1 hl
  exact isLine_dropIndent _ (hrest k hk)

theorem map_dropIndent_zero (ls : List Text) : ls.map (dropIndent 0) = ls := by
  rw [List.map_congr_left fun l _ => dropIndent_zero l, List.map_id']

theorem dedent_dedent (t : Text) : dedent (dedent t) = dedent t := by
  obtain ⟨first, rest, hlines⟩ := List.exists_cons_of_ne_nil (splitLines_ne_nil t)
  have hdedented := splitLines_dedent hlines
  conv => lhs; rw [dedent, hdedented]
  simp only
  rw [commonIndent_map_dropIndent, Nat.sub_self, map_dropIndent_zero, ← hdedented, joinLines_splitLines]

theorem map_unindented_dedent (t : Text) : (splitLines (dedent t)).map unindented = (splitLines t).map unindented := by
  obtain ⟨first, rest, hlines⟩ := List.exists_cons_of_ne_nil (splitLines_ne_nil t)
  rw [splitLines_dedent hlines, hlines, List.map_cons, List.map_cons, List.map_map]
  exact congrArg (unindented first :: ·) (List.map_congr_left fun l _ => unindented_dropIndent _ l)

/-! ## Writing and reading again -/

/-- A property as it is written, without the indentation of its first line and the comma behind its last. -/
def unwritten (indent written : Text) : Text :=
  let t := (dropPart? indent written).getD written
  if t.getLast? = some ',' then t.dropLast else t

/-- A property is written as its lines are laid out, with a comma at the end. -/
theorem propertyText_eq_concat (indent : Text) {code : Text} (h : isCommentLine code = false) :
    propertyText indent code none = joinLines (layout indent (splitLines code)) ++ [','] := by
  obtain ⟨ls, last, hlines, htext⟩ := propertyText_lines indent h
  have hlaid : layout indent (ls ++ [last]) = layout indent ls ++ [trimEnd (indent ++ last)] := List.map_append
  rw [htext, hlines, hlaid, joinLines_concat, List.append_assoc]

/-- No indentation is taken off a text that begins with no space and no tab. -/
theorem dropPart?_getD_of_head {a t : Text} (ha : IsIndentation a)
    (ht : ∀ c, t.head? = some c → isIndentChar c = false) :
    (dropPart? a t).getD t = t := by
  cases a with
  | nil => simp [dropPart?]
  | cons b a =>
    cases t with
    | nil => rfl
    | cons c t =>
      have hb : isIndentChar b = true := List.all_eq_true.1 ha b (by simp)
      have hbc : b ≠ c := fun h => by simp [← h, hb] at ht
      simp [dropPart?, hbc]

theorem unwritten_propertyText {indent code first : Text} {rest : List Text} (hindent : IsIndentation indent)
    (hcomment : isCommentLine code = false) (hlines : splitLines code = first :: rest) :
    unwritten indent (propertyText indent code none) = joinLines (trimEnd first :: layout indent rest) := by
  have htaken : (dropPart? indent (propertyText indent code none)).getD (propertyText indent code none) =
      joinLines (trimEnd first :: layout indent rest) ++ [','] := by
    rw [propertyText_eq_concat indent hcomment, hlines, layout, List.map_cons, joinLines_eq_flatMap,
      joinLines_eq_flatMap]
    by_cases hblank : isBlank first = true
    · -- nothing of a blank first line is written, its indentation neither
      have hnone : trimEnd (indent ++ first) = [] :=
        trimEnd_eq_nil_iff.2 (by rw [isBlank_append, hindent.isBlank, hblank, Bool.and_true])
      rw [hnone, trimEnd_eq_nil_iff.2 hblank, List.nil_append]
      refine dropPart?_getD_of_head hindent fun c hc => ?_
      cases rest with
      | nil =>
        obtain rfl : ',' = c := by simpa using hc
        rfl
      | cons k ks =>
        obtain rfl : '\n' = c := by simpa [layout] using hc
        rfl
    · rw [trimEnd_append_of_not_isBlank hblank, List.append_assoc, List.append_assoc, dropPart?_append,
        Option.getD_some, List.append_assoc]
      rfl
  rw [unwritten]
  simp only [htaken]
  rw [if_pos (by simp), List.dropLast_concat]

/-- What is read of a property that has been written is the property, its lines trimmed at their ends. -/
theorem splitLines_dedent_unwritten {indent code : Text} (hindent : IsIndentation indent)
    (hcomment : isCommentLine code = false) (hdedented : dedent code = code) :
    splitLines (dedent (unwritten indent (propertyText indent code none))) = (splitLines code).map trimEnd := by
  obtain ⟨first, rest, hlines⟩ := List.exists_cons_of_ne_nil (splitLines_ne_nil code)
  have hline : ∀ l ∈ first :: rest, IsLine l := fun l hl => isLine_of_mem_splitLines (hlines ▸ hl)
  obtain ⟨hfirst, hrest⟩ := List.forall_mem_cons.1 hline
  have hwritten :
      splitLines (joinLines (trimEnd first :: layout indent rest)) = trimEnd first :: layout indent rest := by
    refine splitLines_joinLines (by simp) (List.forall_mem_cons.2 ⟨isLine_trimEnd hfirst, fun l hl => ?_⟩)
    obtain ⟨k, hk, rfl⟩ := List.mem_map.1 hl
    exact isLine_trimEnd (hindent.isLine.append (hrest k hk))
  have hshared : commonIndent rest = 0 := by
    have hagain := splitLines_dedent hlines
    rw [hdedented, hlines, List.cons.injEq] at hagain
    have hless := commonIndent_map_dropIndent (commonIndent rest) rest
    rwa [← hagain.2, Nat.sub_self] at hless
  have hblank : ∀ n, ∀ k, isBlank k = true → dropIndent n (trimEnd (indent ++ k)) = trimEnd k := fun n k hk => by
    rw [trimEnd_eq_nil_iff.2 hk, trimEnd_eq_nil_iff.2 (by rw [isBlank_append, hindent.isBlank, hk, Bool.and_true]),
      dropIndent, List.drop_nil]
  have hback : ∀ k ∈ rest, dropIndent (commonIndent (layout indent rest)) (trimEnd (indent ++ k)) = trimEnd k := by
    intro k hk
    by_cases hsolid : isBlank k = true
    · exact hblank _ k hsolid
    · rw [commonIndent_layout hindent hshared ⟨k, hk, by simpa using hsolid⟩, trimEnd_append_of_not_isBlank hsolid,
        dropIndent_length_append hindent]
  rw [unwritten_propertyText hindent hcomment hlines, splitLines_dedent hwritten, hlines, List.map_cons, layout,
    List.map_map]
  exact congrArg (trimEnd first :: ·) (List.map_congr_left hback)

/-- **Writing and reading again does not move a property.** A property that has been dedented, is written with any
indentation and read again has the same lines but for white space at their ends, unless it begins as a comment does.
Dedenting twice is dedenting once; lines keep what stands behind their indentation; and any two lines of the continuation
that are not blank keep the difference of their indentations. -/
theorem dedent_keepsLayout (t : Text) :
    (∀ indent, IsIndentation indent → isCommentLine (dedent t) = false →
        (splitLines (dedent (unwritten indent (propertyText indent (dedent t) none)))).map trimEnd =
          (splitLines (dedent t)).map trimEnd) ∧
      dedent (dedent t) = dedent t ∧
      (splitLines (dedent t)).length = (splitLines t).length ∧
      (splitLines (dedent t)).map unindented = (splitLines t).map unindented ∧
      ∀ p ∈ (splitLines t).tail.zip (splitLines (dedent t)).tail,
        ∀ q ∈ (splitLines t).tail.zip (splitLines (dedent t)).tail, isBlank p.1 = false → isBlank q.1 = false →
          (indentSize p.2 : Int) - indentSize q.2 = indentSize p.1 - indentSize q.1 := by
  obtain ⟨first, rest, hlines⟩ := List.exists_cons_of_ne_nil (splitLines_ne_nil t)
  have hkept := map_unindented_dedent t
  refine ⟨fun indent hindent hcomment => ?_, dedent_dedent t, ?_, hkept, ?_⟩
  · rw [splitLines_dedent_unwritten hindent hcomment (dedent_dedent t), List.map_map]
    exact List.map_congr_left fun l _ => trimEnd_trimEnd l
  · simpa using congrArg List.length hkept
  · -- each of them loses all that the continuation shares
    have hloses : ∀ p ∈ (splitLines t).tail.zip (splitLines (dedent t)).tail, isBlank p.1 = false →
        indentSize p.2 + commonIndent rest = indentSize p.1 := by
      rw [splitLines_dedent hlines, hlines, List.tail_cons, List.tail_cons, ← List.map_prod_left_eq_zip]
      intro p hp hsolid
      obtain ⟨l, hl, rfl⟩ := List.mem_map.1 hp
      have hle := ((commonIndent_eq_iff ⟨l, hl, hsolid⟩).1 rfl).1 l hl hsolid
      change indentSize (dropIndent _ l) + commonIndent rest = indentSize l
      rw [indentSize_dropIndent]
      exact Nat.sub_add_cancel hle
    intro p hp q hq hpsolid hqsolid
    have := hloses p hp hpsolid
    have := hloses q hq hqsolid
    omega

/-- A property whose continuation is indented with tabs and spaces, has blank lines in it, and has white space behind a
line. -/
def nestedProperty : Text :=
  "opacity: fade.interpolate(\x7b\n\t\t  input: [0, 1], \n\n \t\n\t\toutput: [\n\t\t\t0,\n\t\t],\n\t\x7d)".toList

theorem dedent_keepsLayout_nestedProperty :
    IsIndentation " \t".toList ∧ isCommentLine (dedent nestedProperty) = false ∧
      (splitLines (dedent (unwritten " \t".toList (propertyText " \t".toList (dedent nestedProperty) none)))).map trimEnd =
        (splitLines (dedent nestedProperty)).map trimEnd :=
  ⟨by decide, by decide, (dedent_keepsLayout nestedProperty).1 _ (by decide) (by decide)⟩

end StyleHoist
