import StyleHoist.Advice
import StyleHoist.Proofs.Extraction.Sources

/-!
# Lines on which extraction is offered

A host asks about a line before it offers extraction there. The look at the line is for the name of a style attribute,
an equals sign and then two braces or a bracket, with white space at most around the sign. The parser reads more: there
may be comments around the sign and gaps behind the brace, the value may be in parentheses, and an array stands in
braces as any other value does.

- `beginsInlineStyle_iff`: which beginnings of a style attribute the look sees.
- `Site.exists_begins`: how a style attribute with literals begins.
- `advised_iff`: when extraction is offered on the line of a literal.
-/

namespace StyleHoist

open Text Script Listing

/-! ## Beginnings -/

/-- How a style attribute with a literal begins: with its name, the equals sign, the brace around its value, and the
first bracket of the value. Gaps may stand between them. -/
structure Opening where
  beforeSign : Text
  behindSign : Text
  behindBrace : Text
  bracket : Char
  isGap_beforeSign : IsGap beforeSign
  isGap_behindSign : IsGap behindSign
  isGap_behindBrace : IsGap behindBrace
  bracket_mem : bracket ∈ ['\x7b', '[', '(']

namespace Opening

variable (o : Opening)

/-- The beginning without its last bracket. -/
def front : Text :=
  "style".toList ++ (o.beforeSign ++ '=' :: (o.behindSign ++ '\x7b' :: o.behindBrace))

def text : Text :=
  o.front ++ [o.bracket]

theorem bracket_eq : o.bracket = '\x7b' ∨ o.bracket = '[' ∨ o.bracket = '(' := by
  simpa using o.bracket_mem

/-- Two braces stand behind the sign, with white space at most around it. -/
def IsPlain : Prop :=
  isBlank o.beforeSign = true ∧ isBlank o.behindSign = true ∧ o.behindBrace = [] ∧ o.bracket = '\x7b'

end Opening

/-- Behind a gap of white space trimming comes to what follows it, behind another gap it does not get so far. -/
theorem trimStart_gap {gap : Text} (h : IsGap gap) {d : Char} (hd : isBlankChar d = false) (rest : Text) :
    (isBlank gap = true ∧ trimStart (gap ++ d :: rest) = d :: rest) ∨
      (isBlank gap = false ∧ ∃ c ∈ gapStarts, ∃ gap', trimStart (gap ++ d :: rest) = c :: gap') := by
  have hsplit := takeWhile_append_trimStart gap
  have htaken : isBlank (gap.takeWhile isBlankChar) = true := List.all_takeWhile
  cases htrim : trimStart gap with
  | nil =>
    rw [htrim, List.append_nil] at hsplit
    rw [hsplit] at htaken
    exact .inl ⟨htaken, by rw [trimStart_blank_append htaken, trimStart_cons hd]⟩
  | cons c gap' =>
    have hc : c ∈ gapStarts := h c (by rw [htrim]; rfl)
    have hblank := isBlankChar_of_mem_gapStarts hc
    rw [htrim] at hsplit
    refine .inr ⟨?_, c, hc, gap' ++ d :: rest, ?_⟩
    · rw [← hsplit, isBlank_append]
      simp [isBlank, hblank]
    · rw [← hsplit, List.append_assoc, trimStart_blank_append htaken, List.cons_append, trimStart_cons hblank]

/-- No gap begins with a bracket. -/
theorem ne_brace_of_isGap {c : Char} {gap : Text} (h : IsGap (c :: gap)) : c ≠ '\x7b' := by
  rintro rfl
  exact absurd (h '\x7b' (by rw [trimStart_cons (by decide)]; rfl)) (by decide)

/-- The look sees a beginning if and only if it is plain. -/
theorem beginsInlineStyle_iff (o : Opening) (rest : Text) : beginsInlineStyle (o.text ++ rest) = true ↔ o.IsPlain := by
  have htext : o.text ++ rest = "style".toList ++ (o.beforeSign ++ '=' ::
      (o.behindSign ++ '\x7b' :: (o.behindBrace ++ o.bracket :: rest))) := by
    simp only [Opening.text, Opening.front, List.append_assoc, List.cons_append, List.nil_append]
  have hstart : ∀ c ∈ gapStarts, c ≠ '=' ∧ c ≠ '[' ∧ c ≠ '\x7b' := by
    intro c hc
    rcases mem_gapStarts.1 hc with rfl | rfl | rfl | rfl <;> decide
  rw [htext, beginsInlineStyle, dropPart?_append, Option.map_some, Opening.IsPlain]
  rcases trimStart_gap o.isGap_beforeSign (d := '=') (by decide)
    (o.behindSign ++ '\x7b' :: (o.behindBrace ++ o.bracket :: rest)) with ⟨hsign, htrim⟩ | ⟨hsign, c, hc, gap, htrim⟩
  · rw [htrim]
    rcases trimStart_gap o.isGap_behindSign (d := '\x7b') (by decide) (o.behindBrace ++ o.bracket :: rest) with
      ⟨hbrace, htrim⟩ | ⟨hbrace, c, hc, gap, htrim⟩
    · simp only [htrim, hsign, hbrace, true_and]
      cases hgap : o.behindBrace with
      | nil =>
        rcases o.bracket_eq with h | h | h <;> simp [h]
      | cons c gap =>
        have hbehind : IsGap (c :: gap) := hgap ▸ o.isGap_behindBrace
        simp [ne_brace_of_isGap hbehind]
    · simp [htrim, hbrace, hstart c hc]
  · simp [htrim, hsign, hstart c hc]

/-! ## Attributes -/

/-- A style attribute of a text begins like this behind `before`. -/
structure Site.Begins (t : Text) (s : Site) (before : Text) (o : Opening) (rest : Text) : Prop where
  text : t = before ++ (o.text ++ rest)
  start : size before = size (mark t) + s.attr.start
  value : size (before ++ o.front) = size (mark t) + s.value.start

/-- A value in which literals are found begins with a bracket, an array never with a brace. -/
theorem opens_of_shape {T : Text} {n : Node} (hn : Placed T n) (h : Shape.of n = .object ∨ Shape.of n = .array) :
    n.kind.isBracket = true ∧ ∃ c ∈ ['\x7b', '[', '('], Opens T c n.span.start ∧
      (Shape.of n = .array → c ≠ '\x7b') := by
  obtain ⟨kind, span, parts⟩ := n
  cases hn with
  | mk hshaped _ =>
    by_cases hparen : kind = .paren
    · subst hparen
      exact ⟨rfl, '(', by decide, hshaped, fun _ => by decide⟩
    · have hlook : (Node.mk kind span parts).look = .mk kind span parts := by
        unfold Node.look
        split
        · rename_i heq
          cases heq
          exact absurd rfl hparen
        · rfl
      simp only [Shape.of, hlook] at h ⊢
      unfold Shape.ofBare at h ⊢
      split at h
      · rename_i heq
        cases heq
        obtain ⟨a, inner, b, ht, rfl⟩ := hshaped
        exact ⟨rfl, '\x7b', by decide, ⟨a, _, ht, rfl⟩, by simp⟩
      · rename_i heq
        cases heq
        exact ⟨rfl, '[', by decide, hshaped, fun _ => by decide⟩
      all_goals simp at h

/-- The literals of a style attribute tell the shape of its value. -/
theorem shape_of_targets {s : Site} {t : Text} {n : Node} {target : StyleTarget} (hcontent : s.content = .of n)
    (h : target ∈ s.targets t) : Shape.of n = .object ∧ target.kind = .wholeAttribute ∨
      Shape.of n = .array ∧ target.kind = .arrayElement := by
  unfold Site.targets at h
  rw [hcontent] at h
  unfold SiteValue.of at h
  cases hshape : Shape.of n with
  | object =>
    simp only [hshape, List.mem_singleton] at h
    exact .inl ⟨rfl, by rw [h]; rfl⟩
  | array =>
    simp only [hshape, List.mem_map] at h
    obtain ⟨object, -, rfl⟩ := h
    exact .inr ⟨rfl, rfl⟩
  | member => simp [hshape] at h
  | literal => simp [hshape] at h
  | other => simp [hshape] at h

/-- A style attribute with literals begins with its name, the equals sign and the first brackets of its value. That of
an array is never plain. -/
theorem Site.exists_begins {path : String} {t : Text} {s : Site} {target : StyleTarget}
    (hs : s ∈ (sitesOf path t).sites) (htarget : target ∈ s.targets t) :
    ∃ before o rest, s.Begins t before o rest ∧ (target.kind = .arrayElement → ¬o.IsPlain) := by
  obtain ⟨container, value, hstands⟩ := exists_standsIn hs
  have hkind := shape_of_targets hstands.content_eq htarget
  obtain ⟨hbracket, c, hc, ⟨a'', b'', hopens, hopensAt⟩, harray⟩ :=
    opens_of_shape hstands.placed (hkind.imp And.left And.left)
  obtain ⟨a', gap'', b', hbrace, hbraceAt, hvalue, hgap''⟩ := hstands.contains hbracket
  obtain ⟨a, gap, gap', b, hname, hstart, hcontainer, -, hgap, hgap'⟩ := hstands.assigns
  -- The brace of the value stands behind the sign, and its first bracket behind the brace.
  have hsign : a ++ ("style".toList ++ (gap ++ '=' :: gap')) ++ b = a' ++ '\x7b' :: (gap'' ++ b') := by
    rw [← hbrace, hname]
    simp
  obtain ⟨ha', rfl⟩ := eq_of_size_eq hsign (hcontainer.symm.trans hbraceAt.symm)
  have hbehind : a' ++ '\x7b' :: gap'' ++ b' = a'' ++ c :: b'' := by
    rw [← hopens, hbrace]
    simp
  obtain ⟨-, rfl⟩ := eq_of_size_eq hbehind (hvalue.trans hopensAt.symm)
  refine ⟨mark t ++ a, ⟨gap, gap', gap'', c, hgap, hgap', hgap'', hc⟩, b'', ⟨?_, ?_, ?_⟩, ?_⟩
  · conv_lhs => rw [← mark_append_dropMark t, hname]
    simp only [Opening.text, Opening.front, List.append_assoc, List.cons_append, List.nil_append]
  · rw [size_append, hstart]
  · rw [List.append_assoc, size_append, hstands.value_eq, ← hvalue, ← ha']
    simp [Opening.front]
  · rintro helement ⟨-, -, -, hplain⟩
    rcases hkind with ⟨-, hwhole⟩ | ⟨hshape, -⟩
    · rw [hwhole] at helement
      cases helement
    · exact harray hshape hplain

/-! ## Lines -/

theorem someSuffix_iff {p : Text → Bool} : ∀ {t : Text}, someSuffix p t = true ↔ ∃ u v, t = u ++ v ∧ p v = true
  | [] => by simp [someSuffix]
  | c :: t => by
    rw [someSuffix, Bool.or_eq_true, someSuffix_iff]
    constructor
    · rintro (h | ⟨u, v, rfl, h⟩)
      · exact ⟨[], c :: t, rfl, h⟩
      · exact ⟨c :: u, v, rfl, h⟩
    · rintro ⟨u, v, huv, h⟩
      cases u with
      | nil =>
        rw [List.nil_append] at huv
        exact .inl (huv ▸ h)
      | cons d u =>
        cases huv
        exact .inr ⟨u, v, rfl, h⟩

/-- Behind another part of a line than `before` a style in place begins. -/
def ShowsElsewhere (before line : Text) : Prop :=
  ∃ u v, line = u ++ v ∧ u.length ≠ before.length ∧ beginsInlineStyle v = true

/-- A look at a line on which a style attribute begins sees it if its beginning is plain, and nothing of it if not. -/
theorem hasInlineStyle_opening (o : Opening) (before behind : Text) :
    hasInlineStyle (before ++ (o.text ++ behind)) = true ↔
      o.IsPlain ∨ ShowsElsewhere before (before ++ (o.text ++ behind)) := by
  rw [hasInlineStyle, someSuffix_iff]
  constructor
  · rintro ⟨u, v, huv, h⟩
    by_cases hlength : u.length = before.length
    · obtain ⟨rfl, rfl⟩ := List.append_inj huv hlength.symm
      exact .inl ((beginsInlineStyle_iff o behind).1 h)
    · exact .inr ⟨u, v, huv, hlength, h⟩
  · rintro (hplain | ⟨u, v, huv, -, h⟩)
    · exact ⟨before, _, rfl, (beginsInlineStyle_iff o behind).2 hplain⟩
    · exact ⟨u, v, huv, h⟩

/-- What a host learns about a line on which a style attribute begins behind `before`: extraction is offered if and only
if the beginning is plain or the line shows another. -/
structure Opening.AdvisedOn (t line before : Text) (o : Opening) : Prop where
  behind : ∃ rest, line = before ++ (o.text ++ rest)
  seen : hasInlineStyle line = true ↔ o.IsPlain ∨ ShowsElsewhere before line
  offered : looksLikeDialect t = true → ∀ language ∈ supportedLanguages,
    ((advise language t (some line)).shouldOffer = true ↔ o.IsPlain ∨ ShowsElsewhere before line)

theorem shouldOffer_line {language : String} {t line : Text} (hlanguage : language ∈ supportedLanguages)
    (hdialect : looksLikeDialect t = true) : (advise language t (some line)).shouldOffer = hasInlineStyle line := by
  have hsupported : supportedLanguages.contains language = true := by simpa using hlanguage
  simp only [advise, Advice.shouldOffer, hsupported, hdialect, Bool.true_and, Option.map_some]
  cases hasInlineStyle line <;> rfl

/-- **Where the style attribute of a literal begins on one line, through the first bracket of its value, a host that
asks about that line is offered extraction if and only if two braces stand behind the sign, with white space at most
around it, or another place of the line looks like that. The beginning of an array never does.** -/
theorem advised_iff {path : String} {t : Text} {target : StyleTarget} (h : target ∈ targetsOf path t) :
    ∃ s ∈ (sitesOf path t).sites, target ∈ s.targets t ∧ ∃ before o rest, s.Begins t before o rest ∧
      (target.kind = .arrayElement → ¬o.IsPlain) ∧
      (IsLine o.text → ∃ lines v, before = unlines lines ++ v ∧ IsLine v ∧
        o.AdvisedOn t (lineText t (lineAt t (size before))) v) := by
  obtain ⟨s, hs, htarget⟩ := targets_of_found (.inl h)
  obtain ⟨before, o, rest, hbegins, harray⟩ := Site.exists_begins hs htarget
  refine ⟨s, hs, htarget, before, o, rest, hbegins, harray, fun hline => ?_⟩
  have hbracket : o.bracket ≠ '\r' := by
    rcases o.bracket_eq with h | h | h <;> rw [h] <;> decide
  obtain ⟨lines, v, l, hbefore, hv, htext⟩ := lineText_size hline hbracket before rest
  have ht : before ++ (o.front ++ o.bracket :: rest) = t := by
    conv_rhs => rw [hbegins.text]
    simp [Opening.text]
  have hl : v ++ (o.front ++ o.bracket :: l) = v ++ (o.text ++ l) := by simp [Opening.text]
  rw [ht, hl] at htext
  refine ⟨lines, v, hbefore, hv, ⟨l, htext⟩, ?_, fun hdialect language hlanguage => ?_⟩
  · rw [htext]
    exact hasInlineStyle_opening o v l
  · rw [shouldOffer_line hlanguage hdialect, htext]
    exact hasInlineStyle_opening o v l

/-- An array on one line. -/
def composedStyle : Text :=
  "const A = () => <View style=\x7b[styles.a, \x7b flex: 1 \x7d]\x7d />;".toList

/-- Its attribute begins on that line, and the beginning is not plain. -/
theorem advised_composedStyle : (targetsOf "App.tsx" composedStyle).length = 1 ∧
    ∀ target ∈ targetsOf "App.tsx" composedStyle, ∃ (before : Text) (o : Opening) (rest : Text),
      composedStyle = before ++ (o.text ++ rest) ∧ ¬o.IsPlain ∧
        ∃ v, o.AdvisedOn composedStyle (lineText composedStyle (lineAt composedStyle (size before))) v := by
  have hkinds : (targetsOf "App.tsx" composedStyle).map (·.kind) = [.arrayElement] := by decide +kernel
  refine ⟨by rw [← List.length_map, hkinds]; rfl, fun target htarget => ?_⟩
  have hkind : target.kind ∈ [TargetKind.arrayElement] := hkinds ▸ List.mem_map_of_mem htarget
  obtain ⟨s, -, -, before, o, rest, hbegins, harray, hadvised⟩ := advised_iff htarget
  have hline : IsLine composedStyle := by decide +kernel
  have hopening : IsLine o.text := fun hm => by
    refine hline ?_
    rw [hbegins.text]
    exact List.mem_append_right before (List.mem_append_left rest hm)
  obtain ⟨-, v, -, -, hadvised⟩ := hadvised hopening
  exact ⟨before, o, rest, hbegins.text, harray (List.mem_singleton.1 hkind), v, hadvised⟩

/-- Extraction is not offered on the line, where a cursor leads to the object in the array. -/
theorem not_offered_composedStyle : looksLikeDialect composedStyle = true ∧
    (∃ target ∈ targetsOf "App.tsx" composedStyle,
      lineText composedStyle (lineAt composedStyle target.range.start) = composedStyle) ∧
    hasInlineStyle composedStyle = false ∧
    (advise "typescriptreact" composedStyle (some composedStyle)).shouldOffer = false := by
  decide +kernel

end StyleHoist
