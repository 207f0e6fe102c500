import StyleHoist.Proofs.Extraction.Reported
import StyleHoist.Proofs.Registry.Appending
import StyleHoist.Proofs.Script.Placed
import StyleHoist.Proofs.Style.Lookup
import StyleHoist.Proofs.Text.Positions

/-!
# Sources of literals

A literal that is found points at its source: its range covers the style attribute or the object literal that it names,
its property list is what stands between the braces of the object, and its indentation is that of the line on which the
source begins. An edit of the range replaces the source and nothing else.

- `Site.StandsIn.exists_attribute`, `Site.StandsIn.between_object`: what a style attribute covers, and what the objects
  in its value cover.
- `pointsAt_iff`: when a literal points at its source.

It does not if the text begins with a byte-order mark. The script is read behind the mark and its offsets count from
there, while the literal is cut out of the whole text, so its range begins and ends three bytes too early.
-/

namespace StyleHoist

open Text Script Listing

/-! ## The mark at the beginning -/

/-- The byte-order mark that a text may begin with. -/
def mark (t : Text) : Text :=
  if t.head? = some '\ufeff' then ['\ufeff'] else []

/-- A script is read behind the mark. -/
theorem mark_append_dropMark (t : Text) : mark t ++ dropMark t = t := by
  cases t with
  | nil => rfl
  | cons c t =>
    by_cases hc : c = '\ufeff'
    · subst hc
      rfl
    · have hdrop : dropMark (c :: t) = c :: t := by
        unfold dropMark
        split
        · rename_i heq
          cases heq
          exact absurd rfl hc
        · rfl
      simp [mark, hc, hdrop]

theorem mark_eq_nil_iff {t : Text} : size (mark t) = 0 ↔ t.head? ≠ some '\ufeff' := by
  unfold mark
  split
  · rename_i h
    simp only [h, ne_eq, not_true_eq_false, iff_false]
    decide
  · rename_i h
    simpa using h

/-! ## What a literal names -/

/-- A style attribute gives a literal: what is replaced, and the object literal that holds the properties. -/
def Site.Names (s : Site) (kind : TargetKind) (whole object : Span) : Prop :=
  match s.content with
  | .object o => kind = .wholeAttribute ∧ whole = s.attr ∧ object = o
  | .array objects => kind = .arrayElement ∧ whole = object ∧ object ∈ objects
  | .member | .other => False

theorem Site.exists_names {s : Site} {t : Text} {target : StyleTarget} (h : target ∈ s.targets t) :
    ∃ whole object, s.Names target.kind whole object ∧ target = .make t whole object target.kind := by
  unfold Site.targets at h
  split at h
  · rename_i object hcontent
    obtain rfl := List.mem_singleton.1 h
    exact ⟨s.attr, object, by simp [Site.Names, hcontent, StyleTarget.make], rfl⟩
  · rename_i objects hcontent
    obtain ⟨object, hobject, rfl⟩ := List.mem_map.1 h
    exact ⟨object, object, by simpa [Site.Names, hcontent, StyleTarget.make] using hobject, rfl⟩
  · cases h
  · cases h

/-- What the source of a literal looks like: a style attribute with a value between braces, or an object literal. -/
def TargetKind.IsSource (src : Text) : TargetKind → Prop
  | .wholeAttribute => ∃ gap gap' inner, IsGap gap ∧ IsGap gap' ∧
      src = "style".toList ++ (gap ++ '=' :: (gap' ++ '\x7b' :: (inner ++ ['\x7d'])))
  | .arrayElement => ∃ inner, src = '\x7b' :: (inner ++ ['\x7d'])

/-- A source covers a range of what a text says behind its mark. -/
structure SourceAt (t : Text) (range : Span) (a src b : Text) : Prop where
  text : t = a ++ (src ++ b)
  start : size a = size (mark t) + range.start
  stop : size (a ++ src) = size (mark t) + range.stop

/-- A literal points at its source, when `whole` is to be replaced and the object at `object` holds the properties. -/
structure StyleTarget.PointsAt (t : Text) (whole object : Span) (target : StyleTarget) : Prop where
  /-- The range covers the source, the indentation is the one before it, and an edit replaces it alone. -/
  source : ∃ a src b, SourceAt t whole a src b ∧ target.kind.IsSource src ∧ target.range = ⟨size a, size (a ++ src)⟩ ∧
    (∃ lines line, a = unlines lines ++ line ∧ IsLine line ∧ target.indent.base = line.takeWhile isIndentChar) ∧
    ∀ new, applyEdits t [⟨target.range, new⟩] = .ok (a ++ new ++ b)
  /-- The body is what stands between the braces of the object. -/
  body : ∃ a inner b, SourceAt t object a ('\x7b' :: (inner ++ ['\x7d'])) b ∧ target.body = trim inner

/-! ## Where sources stand -/

section Standing

variable {T : Text} {s : Site} {container : Span} {value : Node}

/-- Of two first parts of a text that are of one size each is the other. -/
theorem eq_of_size_eq {a b c d : Text} (h : a ++ b = c ++ d) (hsize : size a = size c) : a = c ∧ b = d := by
  obtain ⟨m, rfl, rfl⟩ := exists_append_of_size_le h hsize.le
  cases m with
  | nil => simp
  | cons e m =>
    have hpos := e.utf8Size_pos
    rw [size_append, size_cons] at hsize
    omega

/-- A style attribute covers its name through the last brace of its value. -/
theorem Site.StandsIn.exists_attribute (h : s.StandsIn T container value) :
    ∃ a src b, T = a ++ (src ++ b) ∧ s.attr = ⟨size a, size (a ++ src)⟩ ∧ TargetKind.wholeAttribute.IsSource src := by
  obtain ⟨a, gap, gap', b, ht, hstart, hvalue, hstop, hgap, hgap'⟩ := h.assigns
  obtain ⟨a', inner, b', ht', hspan⟩ := h.between
  have hsize : size (a ++ ("style".toList ++ (gap ++ '=' :: gap'))) = size a' := by rw [← hvalue, hspan]
  have hparts : a ++ ("style".toList ++ (gap ++ '=' :: gap')) ++ b = a' ++ '\x7b' :: (inner ++ '\x7d' :: b') := by
    rw [← ht', ht]
    simp
  obtain ⟨rfl, rfl⟩ := eq_of_size_eq hparts hsize
  refine ⟨a, "style".toList ++ (gap ++ '=' :: (gap' ++ '\x7b' :: (inner ++ ['\x7d']))), b', ?_, ?_,
    gap, gap', inner, hgap, hgap', rfl⟩
  · rw [ht]
    simp
  · cases hattr : s.attr with
    | mk start stop =>
      rw [hattr] at hstart hstop
      obtain rfl : start = _ := hstart
      obtain rfl : stop = _ := hstop
      rw [hspan]
      simp

mutual

/-- What is found inside of parentheses is placed as they are. -/
theorem placed_look : ∀ {n : Node}, Placed T n → Placed T n.look
  | .mk kind span parts, h => by
    unfold Node.look
    split
    · rename_i heq
      cases heq
      cases h with
      | mk hshaped hparts => exact placed_lookFirst (.mk hshaped hparts) hparts
    · exact h

theorem placed_lookFirst {outer : Node} (h : Placed T outer) :
    ∀ {parts : List Node}, (∀ n ∈ parts, Placed T n) → Placed T (Node.lookFirst outer parts)
  | [], _ => h
  | p :: _, hparts => placed_look (hparts p List.mem_cons_self)

end

theorem between_of_shape {n : Node} (hn : Placed T n) (h : Shape.of n = .object) :
    Between T '\x7b' '\x7d' n.look.span := by
  have hlook := placed_look hn
  unfold Shape.of Shape.ofBare at h
  split at h
  · rename_i heq
    rw [heq] at hlook ⊢
    cases hlook with
    | mk hshaped _ => exact hshaped
  all_goals cases h

/-- The objects in the value of a style attribute cover their braces and what stands between them. -/
theorem Site.StandsIn.between_object (h : s.StandsIn T container value) {kind : TargetKind} {whole object : Span}
    (hnames : s.Names kind whole object) : Between T '\x7b' '\x7d' object := by
  unfold Site.Names at hnames
  rw [h.content_eq] at hnames
  unfold SiteValue.of at hnames
  split at hnames
  · rename_i hcontent
    split at hcontent
    · rename_i hshape
      cases hcontent
      rw [hnames.2.2]
      exact between_of_shape h.placed hshape
    all_goals cases hcontent
  · rename_i hcontent
    split at hcontent
    · cases hcontent
    · cases hcontent
      obtain ⟨p, hp, hobject⟩ := List.mem_filterMap.1 hnames.2.2
      unfold objectElement? at hobject
      split at hobject
      · rename_i hshape
        cases hobject
        refine between_of_shape ?_ hshape
        cases hlook : value.look with
        | mk kind span parts =>
          have hplaced := placed_look h.placed
          rw [hlook] at hplaced hp
          cases hplaced with
          | mk _ hparts => exact hparts p hp
      · cases hobject
    all_goals cases hcontent
  all_goals exact hnames.elim

end Standing

/-! ## Pointing -/

section Pointing

variable {t : Text} {path : String} {target : StyleTarget}

theorem targets_of_found (h : target ∈ targetsOf path t ∨ ∃ offset, findAt (sitesOf path t) t offset = .target target) :
    ∃ s ∈ (sitesOf path t).sites, target ∈ s.targets t := by
  rcases h with h | ⟨offset, h⟩
  · rw [targetsOf_eq_findAll] at h
    exact List.mem_flatMap.1 (List.mem_filter.1 h).1
  · exact mem_targets_of_findAt h

theorem exists_standsIn {s : Site} (hs : s ∈ (sitesOf path t).sites) :
    ∃ container value, s.StandsIn (dropMark t) container value := by
  unfold sitesOf at hs
  split at hs
  · rename_i hitems
    exact standsIn_of_mem_sites hitems hs
  · cases hs

/-- What stands behind the mark stands in the whole text, as many bytes later as the mark has. -/
theorem sourceAt_of_dropMark {range : Span} {a src b : Text} (h : dropMark t = a ++ (src ++ b))
    (hrange : range = ⟨size a, size (a ++ src)⟩) : SourceAt t range (mark t ++ a) src b := by
  subst hrange
  refine ⟨?_, by rw [size_append], by rw [List.append_assoc, size_append]⟩
  rw [List.append_assoc, ← h, mark_append_dropMark]

/-- The source of a literal, which stands somewhere in the text. -/
theorem exists_source {s : Site} {container : Span} {value : Node} (h : s.StandsIn (dropMark t) container value)
    {kind : TargetKind} {whole object : Span} (hnames : s.Names kind whole object) :
    ∃ a src b, SourceAt t whole a src b ∧ kind.IsSource src := by
  have hobject := h.between_object hnames
  unfold Site.Names at hnames
  split at hnames
  · obtain ⟨rfl, rfl, -⟩ := hnames
    obtain ⟨a, src, b, ht, hattr, hsource⟩ := h.exists_attribute
    exact ⟨_, src, b, sourceAt_of_dropMark ht hattr, hsource⟩
  · obtain ⟨rfl, rfl, -⟩ := hnames
    obtain ⟨a, inner, b, ht, hspan⟩ := hobject
    exact ⟨_, '\x7b' :: (inner ++ ['\x7d']), b, sourceAt_of_dropMark (by simpa using ht) hspan, inner, rfl⟩
  all_goals exact hnames.elim

/-- The source of a literal begins with a character that stands on its line and is no indentation. -/
theorem TargetKind.IsSource.head {kind : TargetKind} {src : Text} (h : kind.IsSource src) :
    ∃ c rest, src = c :: rest ∧ c ≠ '\n' ∧ c ≠ '\r' ∧ isIndentChar c = false := by
  cases kind with
  | wholeAttribute =>
    obtain ⟨gap, gap', inner, -, -, rfl⟩ := h
    exact ⟨'s', _, rfl, by decide, by decide, by decide⟩
  | arrayElement =>
    obtain ⟨inner, rfl⟩ := h
    exact ⟨'\x7b', _, rfl, by decide, by decide, by decide⟩

/-- What stands on the line of a place: the part before it, and what follows it on the line. -/
theorem lineText_size {m : Text} {d : Char} (hm : IsLine (m ++ [d])) (hd : d ≠ '\r') (a b : Text) :
    ∃ lines v l, a = unlines lines ++ v ∧ IsLine v ∧
      lineText (a ++ (m ++ d :: b)) (lineAt (a ++ (m ++ d :: b)) (size a)) = v ++ (m ++ d :: l) := by
  obtain ⟨lines, v, rfl, hlines, hv⟩ := exists_lines a
  obtain ⟨ls, hls⟩ := splitLines_head? b
  have hsplit := splitLines_around hlines hv (splitLines_append_of_isLine hm hls)
  rw [List.append_assoc m, List.singleton_append, List.append_assoc m, List.singleton_append] at hsplit
  refine ⟨lines, v, dropEndWhile (· == '\r') (b.takeWhile (· != '\n')), rfl, hv, ?_⟩
  rw [lineAt, positionAt_lines hlines hv, lineText, hsplit, List.getElem?_append_right (Nat.le_refl _), Nat.sub_self,
    List.getElem?_cons_zero, Option.getD_some, ← List.append_assoc v]
  -- Carriage returns at the end of the line stand behind the character.
  rw [dropEndWhile_append_cons (v ++ m) (by simpa using hd), List.append_assoc]

/-- The indentation of a line is what its part before a character that is no indentation begins with. -/
theorem indentAt_size (a : Text) {c : Char} (hnewline : c ≠ '\n') (hreturn : c ≠ '\r') (hc : isIndentChar c = false)
    (b : Text) : ∃ lines line, a = unlines lines ++ line ∧ IsLine line ∧
      indentAt (a ++ c :: b) (size a) = line.takeWhile isIndentChar := by
  have hline : IsLine ([] ++ [c]) := by simpa [IsLine] using hnewline.symm
  obtain ⟨lines, v, l, ha, hv, htext⟩ := lineText_size hline hreturn a b
  rw [List.nil_append, List.nil_append] at htext
  refine ⟨lines, v, ha, hv, ?_⟩
  have hstop : List.takeWhile isIndentChar (c :: l) = [] := by simp [hc]
  rw [indentAt, htext, List.takeWhile_append, hstop, List.append_nil]
  split
  · rename_i hlength
    exact ((List.takeWhile_prefix _).eq_of_length hlength).symm
  · rfl

/-- **A literal that is found in a text, in bulk or from a cursor, points at its source if and only if the text does not
begin with a byte-order mark.** -/
theorem pointsAt_iff (h : target ∈ targetsOf path t ∨ ∃ offset, findAt (sitesOf path t) t offset = .target target) :
    ∃ s ∈ (sitesOf path t).sites, ∃ whole object, s.Names target.kind whole object ∧
      target = .make t whole object target.kind ∧ (target.PointsAt t whole object ↔ t.head? ≠ some '\ufeff') := by
  obtain ⟨s, hs, htarget⟩ := targets_of_found h
  obtain ⟨container, value, hstands⟩ := exists_standsIn hs
  obtain ⟨whole, object, hnames, hmake⟩ := Site.exists_names htarget
  refine ⟨s, hs, whole, object, hnames, hmake, ?_⟩
  have hrange : target.range = whole := by rw [hmake]; rfl
  rw [← mark_eq_nil_iff]
  constructor
  · rintro ⟨⟨a, src, b, hsource, -, hcovers, -⟩, -⟩
    have hstart := hsource.start
    rw [hrange] at hcovers
    rw [hcovers] at hstart
    dsimp only at hstart
    omega
  · intro hmark
    constructor
    · obtain ⟨a, src, b, hsource, hkind⟩ := exists_source hstands hnames
      have hcovers : target.range = ⟨size a, size (a ++ src)⟩ := by
        rw [hrange, hsource.start, hsource.stop, hmark, Nat.zero_add, Nat.zero_add]
      refine ⟨a, src, b, hsource, hkind, hcovers, ?_, fun new => ?_⟩
      · obtain ⟨c, rest, rfl, hnewline, hreturn, hc⟩ := hkind.head
        obtain ⟨lines, line, ha, hline, hindent⟩ := indentAt_size a hnewline hreturn hc (rest ++ b)
        refine ⟨lines, line, ha, hline, ?_⟩
        have hbase : target.indent.base = indentAt t target.range.start := by
          rw [hrange, hmake]
          rfl
        rw [hbase, hcovers, hsource.text]
        exact hindent
      · rw [hcovers]
        conv_lhs => rw [hsource.text, ← List.append_assoc]
        exact applyEdits_replacement a src new b
    · obtain ⟨a, inner, b, ht, hspan⟩ := hstands.between_object hnames
      have hdrop : dropMark t = a ++ ('\x7b' :: (inner ++ ['\x7d']) ++ b) := by simpa using ht
      have hsource := sourceAt_of_dropMark hdrop hspan
      refine ⟨_, inner, b, hsource, ?_⟩
      have hslice := slice?_append (mark t ++ a ++ ['\x7b']) inner ('\x7d' :: b)
      have htext : mark t ++ a ++ ['\x7b'] ++ inner ++ '\x7d' :: b = t := by
        conv_rhs => rw [hsource.text]
        simp
      have hbody : target.body = trim ((slice? t (object.start + 1) (object.stop - 1)).getD []) := by
        rw [hmake]
        rfl
      have hbrace : '\x7b'.utf8Size = 1 := by decide
      have hbrace' : '\x7d'.utf8Size = 1 := by decide
      have hstart : size (mark t ++ a ++ ['\x7b']) = object.start + 1 := by
        rw [hspan]
        simp only [size_append, size_cons, size_nil, hmark, hbrace]
        omega
      have hstop : size (mark t ++ a ++ ['\x7b'] ++ inner) = object.stop - 1 := by
        rw [hspan]
        simp only [size_append, size_cons, size_nil, hmark, hbrace, hbrace']
        omega
      rw [htext, hstart, hstop] at hslice
      rw [hbody, hslice, Option.getD_some]

/-- A literal and an object of an array inside of it both point at their sources. -/
theorem pointsAt_nestedElement : (targetsOf "App.tsx" nestedElement).length = 2 ∧
    ∀ target ∈ targetsOf "App.tsx" nestedElement, ∃ whole object, target.PointsAt nestedElement whole object := by
  refine ⟨by decide +kernel, fun target htarget => ?_⟩
  obtain ⟨-, -, whole, object, -, -, hpoints⟩ := pointsAt_iff (.inl htarget)
  exact ⟨whole, object, hpoints.2 (by decide +kernel)⟩

/-- A style attribute in a text with a byte-order mark. -/
def markedText : Text :=
  "\ufeffconst A = () => <View style=\x7b\x7b flex: 1 \x7d\x7d />;".toList

/-- The range of its literal begins inside of the element's name and leaves the end of the attribute out. -/
theorem not_isSource_markedText : ∃ target ∈ targetsOf "App.tsx" markedText, target.kind = .wholeAttribute ∧
    slice? markedText target.range.start target.range.stop = some "ew style=\x7b\x7b flex: 1".toList ∧
    ¬target.kind.IsSource "ew style=\x7b\x7b flex: 1".toList ∧ target.body = "=\x7b\x7b flex:".toList := by
  have hfound : ∃ target ∈ targetsOf "App.tsx" markedText, target.kind = .wholeAttribute ∧
      slice? markedText target.range.start target.range.stop = some "ew style=\x7b\x7b flex: 1".toList ∧
      target.body = "=\x7b\x7b flex:".toList := by decide +kernel
  obtain ⟨target, htarget, hkind, hslice, hbody⟩ := hfound
  refine ⟨target, htarget, hkind, hslice, ?_, hbody⟩
  rw [hkind]
  rintro ⟨gap, gap', inner, -, -, hsource⟩
  have hhead := congrArg List.head? hsource
  simp at hhead

end Pointing

end StyleHoist
