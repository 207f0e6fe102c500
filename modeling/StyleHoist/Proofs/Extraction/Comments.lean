import StyleHoist.Proofs.Extraction.Meaning
import StyleHoist.Proofs.Extraction.Written

/-!
# Comments that are kept

The comments of a style are put back into its entry and next to what remains of it. Each goes to the first line that
begins with the name of its property, or to the top of the entry if there is none. In the entry it is found again if
every line of the properties ends in code (`keepsComments_of_inCodeLines`). Behind a line that ends within a literal it
becomes part of that literal (`not_keepsComments_brokenLine`).

- `goesTo_of_first`: only a second comment on the line of a property goes nowhere.
- `seenIn_entryText`: what is put into an entry is found again.
- `standsIn_useText`: what is put next to the properties that stay stands on lines of its own or behind one of them.
-/

namespace StyleHoist

open Text Listing

/-! ## Where comments go -/

theorem mem_commentsOf {comments : List Comment} {name : Text} {placement : Placement} {c : Comment} :
    c ∈ commentsOf comments name placement ↔ c ∈ comments ∧ c.belongsTo name placement = true :=
  List.mem_filter

/-- A comment is put back with the property of this name. Of the comments on the line of the property the first is. -/
def Comment.GoesTo (c : Comment) (comments : List Comment) (name : Text) : Prop :=
  c ∈ commentsOf comments name .before ∨ (commentsOf comments name .sameLine).head? = some c ∨
    c ∈ commentsOf comments name .after

/-- A comment on the line of a property, with another one on the line of a property of that name before it. -/
def Comment.Follows (c : Comment) (earlier : List Comment) : Prop :=
  ∃ name, c.belongsTo name .sameLine = true ∧ ∃ d ∈ earlier, d.belongsTo name .sameLine = true

theorem settle_cases (names : List Text) (c : Comment) :
    (c.settle names).isOrphan = true ∨ c.settle names = c ∧ ∃ name ∈ names, c.property = some name := by
  unfold Comment.settle
  cases hname : c.property with
  | none => exact .inl (by simp [Comment.isOrphan, hname])
  | some name =>
    by_cases hmem : name ∈ names
    · exact .inr ⟨by simp [hmem], name, hmem, rfl⟩
    · exact .inl (by simp [hmem, Comment.isOrphan, Comment.orphan])

/-- A comment says the same wherever it belongs. -/
theorem remark_settle (names : List Text) (c : Comment) : (c.settle names).remark = c.remark := by
  unfold Comment.settle
  split
  · split <;> rfl
  · rfl

theorem eq_of_belongsTo_settle {names : List Text} {c : Comment} {name : Text} {placement : Placement}
    (h : (c.settle names).belongsTo name placement = true) : c.settle names = c := by
  rcases settle_cases names c with horphan | ⟨heq, -⟩
  · simp only [Comment.isOrphan, Option.isNone_iff_eq_none] at horphan
    simp [Comment.belongsTo, horphan] at h
  · exact heq

/-- A comment of a property is put back with it, unless it is not the first on its line. -/
theorem goesTo_of_first {names : List Text} {xs ys : List Comment} {c : Comment} {name : Text}
    (heq : c.settle names = c) (hname : c.property = some name) (hfirst : ¬c.Follows xs) :
    c.GoesTo ((xs ++ c :: ys).map (·.settle names)) name := by
  have hmem : c ∈ (xs ++ c :: ys).map (·.settle names) := List.mem_map.2 ⟨c, by simp, heq⟩
  have hbelongs : c.belongsTo name c.placement = true := by simp [Comment.belongsTo, hname]
  cases hplacement : c.placement with
  | before => exact .inl (mem_commentsOf.2 ⟨hmem, hplacement ▸ hbelongs⟩)
  | after => exact .inr (.inr (mem_commentsOf.2 ⟨hmem, hplacement ▸ hbelongs⟩))
  | sameLine =>
    rw [hplacement] at hbelongs
    have hbefore : commentsOf (xs.map (·.settle names)) name .sameLine = [] := by
      refine List.filter_eq_nil_iff.2 fun d hd hsame => hfirst ⟨name, hbelongs, ?_⟩
      obtain ⟨e, he, rfl⟩ := List.mem_map.1 hd
      rw [eq_of_belongsTo_settle hsame] at hsame
      exact ⟨e, he, hsame⟩
    refine .inr (.inl ?_)
    rw [commentsOf] at hbefore ⊢
    rw [List.map_append, List.map_cons, heq, List.filter_append, hbefore, List.nil_append, List.filter_cons, hbelongs]
    rfl

/-- A comment that goes to the property of a name is put among texts one of which begins with that name. -/
theorem mem_restored {comments : List Comment} {name : Text} {c : Comment} (hc : c.GoesTo comments name) :
    ∀ {ts : List Text} {seen : List Text}, name ∉ seen → (∃ t ∈ ts, leadingKey? (trimStart t) = some name) →
      c ∈ restored comments seen ts
  | [], _, _, h => by simp at h
  | t :: ts, seen, hseen, h => by
    rw [List.exists_mem_cons_iff] at h
    simp only [restored]
    cases hkey : leadingKey? (trimStart t) with
    | none => exact mem_restored hc hseen (h.resolve_left (by simp [hkey]))
    | some key =>
      by_cases hsame : key = name
      · subst hsame
        simp only [List.contains_iff_mem, hseen, if_false, List.mem_append, Option.mem_toList]
        exact .inl (or_assoc.2 hc)
      · have hrest := h.resolve_left (by simpa [hkey] using hsame)
        dsimp only
        split
        · exact mem_restored hc hseen hrest
        · exact List.mem_append_right _ (mem_restored hc (by simp [hseen, Ne.symm hsame]) hrest)

/-! ## Keys of lines -/

/-- The key with which a text begins stands on its first line. -/
def KeyOnLine (t : Text) : Prop :=
  leadingKey? (t.takeWhile (· != '\n')) = leadingKey? t

instance (t : Text) : Decidable (KeyOnLine t) :=
  inferInstanceAs (Decidable (_ = _))

/-- A text begins with a name, with nothing but blanks between it and its colon, all on one line. -/
structure HasKey (t name : Text) : Prop where
  eq : ∃ gap rest, t = name ++ gap ++ ':' :: rest ∧ isBlank gap = true ∧ IsLine gap
  ne_nil : name ≠ []
  word : name.all isWordChar = true

theorem hasKey_of_keyOnLine {t name : Text} (hline : KeyOnLine t) (h : leadingKey? t = some name) : HasKey t name := by
  rw [← hline] at h
  obtain ⟨gap, rest, heq, hne, hword, hblank⟩ := leadingKey?_iff.1 h
  refine ⟨⟨gap, rest ++ t.dropWhile (· != '\n'), ?_, hblank, fun hm => ?_⟩, hne, hword⟩
  · conv => lhs; rw [← List.takeWhile_append_dropWhile (p := (· != '\n')) (l := t), heq]
    simp
  · have hall : '\n' ∈ t.takeWhile (· != '\n') := by
      rw [heq]
      simp [hm]
    simpa using List.mem_takeWhile_imp hall

section Key

variable {t name : Text} (h : HasKey t name)

include h

theorem HasKey.leadingKey? : leadingKey? t = some name := by
  obtain ⟨gap, rest, rfl, hblank, -⟩ := h.eq
  exact leadingKey?_iff.2 ⟨gap, rest, List.append_assoc .., h.ne_nil, h.word, hblank⟩

theorem HasKey.trimStart_append {margin : Text} (hmargin : isBlank margin = true) :
    Text.trimStart (margin ++ t) = t := by
  obtain ⟨gap, rest, rfl, -, -⟩ := h.eq
  obtain ⟨c, cs, hname⟩ := List.exists_cons_of_ne_nil h.ne_nil
  have hc : isBlankChar c = false := by
    have hword := h.word
    rw [hname, List.all_cons, Bool.and_eq_true] at hword
    refine Bool.eq_false_iff.2 fun hblank => ?_
    rw [isWordChar_of_isBlankChar hblank] at hword
    cases hword.1
  rw [Text.trimStart, List.dropWhile_append_of_pos (by simpa [isBlank] using hmargin), hname]
  simp [hc]

theorem HasKey.trimStart : Text.trimStart t = t :=
  h.trimStart_append (show isBlank [] = true from rfl)

/-- What is dropped from the end of a text does not reach its key. -/
theorem HasKey.dropEndWhile {p : Char → Bool} (hp : p ':' = false) : HasKey (Text.dropEndWhile p t) name := by
  obtain ⟨gap, rest, rfl, hblank, hgap⟩ := h.eq
  exact ⟨⟨gap, Text.dropEndWhile p rest, dropEndWhile_append_cons _ hp rest, hblank, hgap⟩, h.ne_nil, h.word⟩

theorem HasKey.append (ending : Text) : HasKey (t ++ ending) name := by
  obtain ⟨gap, rest, rfl, hblank, hgap⟩ := h.eq
  exact ⟨⟨gap, rest ++ ending, by simp, hblank, hgap⟩, h.ne_nil, h.word⟩

theorem HasKey.trimProperty : HasKey (trimProperty t) name := by
  rw [StyleHoist.trimProperty, trim, h.trimStart]
  exact ((h.dropEndWhile (by decide)).dropEndWhile (by decide)).dropEndWhile (by decide)

theorem HasKey.firstLine : ∃ l ls, splitLines t = l :: ls ∧ HasKey l name := by
  obtain ⟨gap, rest, rfl, hblank, hgap⟩ := h.eq
  obtain ⟨l, ls, hlines⟩ := List.exists_cons_of_ne_nil (splitLines_ne_nil rest)
  have hname : IsLine name := fun hm => absurd (List.all_eq_true.1 h.word _ hm) (by decide)
  have hstart : IsLine (name ++ gap ++ [':']) := (hname.append hgap).append (by decide)
  have hsplit := splitLines_append_of_isLine hstart hlines
  rw [List.append_assoc, List.singleton_append] at hsplit
  exact ⟨_, _, hsplit, ⟨gap, l, by simp, hblank, hgap⟩, h.ne_nil, h.word⟩

/-- An indentation does not hide a key, nor does what is put behind the line. -/
theorem HasKey.written {indent : Text} (hindent : isBlank indent = true) (ending : Text) :
    StyleHoist.leadingKey? (Text.trimStart (trimEnd (indent ++ t) ++ ending)) = some name := by
  have htrim : trimEnd (indent ++ t) = indent ++ trimEnd t := by
    obtain ⟨gap, rest, rfl, -, -⟩ := h.eq
    have hcolon : isBlankChar ':' = false := by decide
    rw [← List.append_assoc, trimEnd_append_cons _ hcolon, trimEnd_append_cons _ hcolon, List.append_assoc]
  have hkey : HasKey (trimEnd t ++ ending) name := (h.dropEndWhile (p := isBlankChar) (by decide)).append ending
  rw [htrim, List.append_assoc, hkey.trimStart_append hindent]
  exact hkey.leadingKey?

/-- A property with a key is written with that key at the beginning of a line. -/
theorem HasKey.propertyLines {indent : Text} (hindent : IsIndent indent) :
    ∃ l ∈ propertyLines indent t, StyleHoist.leadingKey? (Text.trimStart l) = some name := by
  have hkey : StyleHoist.leadingKey? (Text.trimStart t) = some name := h.trimStart.symm ▸ h.leadingKey?
  obtain ⟨ls, last, hlines, hwritten⟩ := propertyLines_of_getsComma hindent (getsComma_of_leadingKey? hkey)
  obtain ⟨l, rest, hsplit, hkey⟩ := h.firstLine
  rw [hlines] at hsplit
  rw [hwritten]
  cases ls with
  | nil =>
    obtain rfl : last = l := (List.cons.inj hsplit).1
    exact ⟨_, List.mem_singleton_self _, hkey.written hindent.blank [',']⟩
  | cons k ls =>
    obtain rfl : k = l := (List.cons.inj hsplit).1
    refine ⟨trimEnd (indent ++ k), List.mem_append_left _ List.mem_cons_self, ?_⟩
    simpa using hkey.written hindent.blank []

end Key

/-! ## Entries -/

/-- A scan for comments finds the comment in a text, but for the layout of a block. -/
def Comment.SeenIn (c : Comment) (t : Text) : Prop :=
  ∃ d ∈ (stripComments t).comments, d.remark.plain = c.remark.plain

instance (c : Comment) (t : Text) : Decidable (c.SeenIn t) :=
  inferInstanceAs (Decidable (∃ d ∈ (stripComments t).comments, d.remark.plain = c.remark.plain))

/-- The first line of an entry is a line of code. -/
theorem codeLine_headerLine {name : Text} (h : isEntryName name = true) : CodeLine (headerLine name) := by
  obtain ⟨hclear, hcode⟩ := clear_of_inert (isQuote_openQuote false) (all_isInert_headerLine h)
  exact ⟨hclear, hcode⟩

/-- What the lines of an entry yield is found in the entry. -/
theorem seenIn_entryText {name : Text} (hname : isEntryName name = true) {properties : List Text}
    (hne : properties ≠ []) (hlines : ∀ p ∈ properties, InCodeLines p) {comments : List Comment}
    (hcomments : ∀ c ∈ comments, IsTaken c) {c : Comment} (hc : c ∈ entryComments comments properties) :
    c.SeenIn (entryText name properties comments true) := by
  have hyields := yields_entryLines hcomments (fun p hp => templateAfter_of_codeLines (hlines p hp)) fun _ => hlines
  have hheader : ∀ l ∈ [headerLine name], IsLine l := List.forall_mem_singleton.2
    (isLine_headerLine (isLine_of_isEntryName hname))
  have hcode : templateAfter false [headerLine name] = some false :=
    templateAfter_of_codeLines (List.forall_mem_singleton.2 (codeLine_headerLine hname))
  have hclosing : Yields false [closingLine] [closingLine] [] := yields_of_templateAfter (by decide) (by decide)
  have hall := (hyields.append hclosing).prepend hheader hcode
  have hsplit : splitLines (entryText name properties comments true) =
      [headerLine name] ++ (entryLines comments properties ++ [closingLine]) := by
    rw [entryText_eq hname hne (by simp), ← joinLines_concat, ← joinLines_cons (by simp)]
    exact splitLines_joinLines (by simp) hall.lines
  have hfound : (stripComments (entryText name properties comments true)).comments.map (·.remark.plain) =
      (entryComments comments properties).map (·.remark.plain) := by
    have hscan := hall.scan_eq.2
    rw [← hsplit, ← (stripComments_scan _).2, List.map_map, List.append_nil] at hscan
    exact hscan
  have hmem : c.remark.plain ∈ (entryComments comments properties).map (·.remark.plain) := List.mem_map_of_mem hc
  rw [← hfound] at hmem
  exact List.mem_map.1 hmem

/-! ## Objects that stay -/

/-- A comment stands in a text: on lines of its own, or behind one of the properties and its comma. -/
def Comment.StandsIn (c : Comment) (properties : List Text) (indent t : Text) : Prop :=
  ∃ before lines after, t = before ++ '\n' :: lines ++ '\n' :: after ∧
    (lines = joinLines ((c.standalone []).map (indent ++ ·)) ∨
      ∃ code ∈ properties, lines = propertyText indent code none ++ ' ' :: c.trailing)

/-- A comment is shown by lines: by lines of its own, or by a property with a key and the comment behind it. -/
inductive Comment.ShownBy (c : Comment) (properties : List Text) : List InlineLine → Prop
  | standalone : c.ShownBy properties ((c.standalone []).map .comment)
  | trailing {code : Text} (hcode : code ∈ properties) (hcomma : getsComma code = true) :
    c.ShownBy properties [.property code (some c.trailing)]

theorem Comment.ShownBy.mono {c : Comment} {properties properties' : List Text} {lines : List InlineLine}
    (h : c.ShownBy properties lines) (hsub : properties ⊆ properties') : c.ShownBy properties' lines := by
  cases h with
  | standalone => exact .standalone
  | trailing hcode hcomma => exact .trailing (hsub hcode) hcomma

/-- A comment that is one of several on lines of their own. -/
theorem exists_standalone {cs : List Comment} {c : Comment} (hc : c ∈ cs) : ∃ before after,
    (cs.flatMap (·.standalone [])).map InlineLine.comment = before ++ (c.standalone []).map .comment ++ after := by
  obtain ⟨xs, ys, rfl⟩ := List.append_of_mem hc
  exact ⟨(xs.flatMap (·.standalone [])).map .comment, (ys.flatMap (·.standalone [])).map .comment, by simp⟩

/-- A comment that goes to the property of a name is shown among properties one of which begins with that name. -/
theorem shown_restoreProperties {comments : List Comment} {name : Text} {c : Comment} (hc : c.GoesTo comments name) :
    ∀ {codes : List Text} {seen : List Text}, name ∉ seen → (∃ t ∈ codes, leadingKey? (trimStart t) = some name) →
      ∃ before lines after, restoreProperties comments seen codes = before ++ lines ++ after ∧ c.ShownBy codes lines
  | [], _, _, h => by simp at h
  | code :: codes, seen, hseen, h => by
    rw [List.exists_mem_cons_iff] at h
    have hlater : ∀ (group : List InlineLine) {seen' : List Text}, name ∉ seen' →
        (∃ t ∈ codes, leadingKey? (trimStart t) = some name) → ∃ before lines after,
          group ++ restoreProperties comments seen' codes = before ++ lines ++ after ∧
            c.ShownBy (code :: codes) lines := by
      intro group seen' hseen' hcodes
      obtain ⟨before, lines, after, heq, hshown⟩ := shown_restoreProperties hc hseen' hcodes
      exact ⟨group ++ before, lines, after, by simp [heq], hshown.mono (List.subset_cons_self _ _)⟩
    simp only [restoreProperties]
    cases hkey : leadingKey? (trimStart code) with
    | none => exact hlater [_] hseen (h.resolve_left (by simp [hkey]))
    | some key =>
      by_cases hsame : key = name
      · subst hsame
        simp only [List.contains_iff_mem, hseen, if_false]
        generalize restoreProperties comments (key :: seen) codes = rest
        rcases hc with hbefore | hline | hafter
        · obtain ⟨before, after, heq⟩ := exists_standalone hbefore
          rw [heq, List.append_assoc, List.append_assoc]
          exact ⟨before, _, _, rfl, .standalone⟩
        · rw [hline, Option.map_some, List.append_cons, List.append_assoc _ _ rest]
          exact ⟨_, _, _, rfl, .trailing List.mem_cons_self (getsComma_of_leadingKey? hkey)⟩
        · obtain ⟨before, after, heq⟩ := exists_standalone hafter
          rw [heq, List.append_cons, ← List.append_assoc, ← List.append_assoc, List.append_assoc _ _ rest]
          exact ⟨_, _, _, rfl, .standalone⟩
      · have hrest := h.resolve_left (by simpa [hkey] using hsame)
        dsimp only
        split
        · exact hlater [_] hseen hrest
        · exact hlater _ (by simp [hseen, Ne.symm hsame]) hrest

theorem Comment.standalone_ne_nil (c : Comment) (indent : Text) : c.standalone indent ≠ [] := by
  obtain ⟨l, ls, hlines⟩ := List.exists_cons_of_ne_nil (splitLines_ne_nil c.text)
  simp only [Comment.standalone, hlines]
  split
  · simp
  · split <;> simp

/-- The text of the lines that show a comment. -/
theorem Comment.ShownBy.text {c : Comment} {properties : List Text} {lines : List InlineLine}
    (h : c.ShownBy properties lines) (indent : Text) : lines ≠ [] ∧
      (joinLines (lines.map (·.render indent)) = joinLines ((c.standalone []).map (indent ++ ·)) ∨
        ∃ code ∈ properties,
          joinLines (lines.map (·.render indent)) = propertyText indent code none ++ ' ' :: c.trailing) := by
  cases h with
  | standalone =>
    refine ⟨by simpa using c.standalone_ne_nil [], .inl ?_⟩
    rw [List.map_map]
    rfl
  | trailing hcode hcomma => exact ⟨by simp, .inr ⟨_, hcode, propertyText_trailing hcomma _⟩⟩

/-- Before any lines a newline can be taken for the end of a line. -/
theorem exists_newline_unlines (ls : List Text) : ∃ before, '\n' :: unlines ls = before ++ ['\n'] := by
  by_cases hnil : ls = []
  · exact ⟨[], by rw [hnil]; rfl⟩
  · exact ⟨'\n' :: joinLines ls, by rw [unlines_eq hnil]; rfl⟩

/-- What shows a comment shows it in the text at the place of use. -/
theorem standsIn_useText (registry name : Text) {before lines after : List InlineLine} {c : Comment}
    {properties : List Text} (hshown : c.ShownBy properties lines) (indent : Indentation) (kind : TargetKind) :
    c.StandsIn properties indent.object (useText registry name (before ++ lines ++ after) indent kind) := by
  obtain ⟨hne, htext⟩ := hshown.text indent.object
  obtain ⟨start, hstart⟩ := exists_newline_unlines (before.map (·.render indent.object))
  have hremaining : before ++ lines ++ after ≠ [] := by simp [hne]
  have hinner : '\n' :: unlines (useLines indent.object (before ++ lines ++ after)) =
      start ++ '\n' :: joinLines (lines.map (·.render indent.object)) ++
        '\n' :: unlines (after.map (·.render indent.object)) := by
    rw [unlines_useLines, List.map_append, List.map_append, unlines_append, unlines_append, ← List.cons_append,
      ← List.cons_append, hstart, unlines_eq (by simpa using hne)]
    simp
  rw [useText_eq registry name hremaining, composedText_eq _ hremaining, ← List.cons_append, hinner]
  refine ⟨(useFrame kind).1 ++ useOpening (referenceText registry name) indent ++ start,
    joinLines (lines.map (·.render indent.object)),
    unlines (after.map (·.render indent.object)) ++ indent.array ++ useClosing indent ++ (useFrame kind).2, ?_, htext⟩
  simp

/-! ## Styles -/

/-- No comment of a target is lost: each is found in the entry or stands at the place of use, except those on the line
of a property that has another one before them. -/
def KeepsComments (target : StyleTarget) (settings : Settings) (name registry : Text) : Prop :=
  ∀ style, prepare target settings = .ok style → ∀ xs c ys, (stripComments target.body).comments = xs ++ c :: ys →
    ¬c.Follows xs → c.SeenIn (NamedStyle.entry settings (style, name)) ∨
      c.StandsIn (dynamicTexts (propertiesOf target.bareBody)) target.indent.object
        (NamedStyle.use registry (style, name)).replacement

/-- A property that begins with a name is moved, or it stays. -/
theorem moved_or_stays {properties : List Property} (hkeys : ∀ p ∈ properties, KeyOnLine p.text) (sorted : Bool)
    {name : Text} (h : name ∈ propertyNames properties) :
    (∃ t ∈ formatStatic sorted (staticTexts properties), HasKey t name) ∨
      ∃ t ∈ dynamicTexts properties, HasKey t name := by
  obtain ⟨p, hp, hname⟩ := List.mem_filterMap.1 h
  have hkey := hasKey_of_keyOnLine (hkeys p hp) hname
  cases hkind : p.kind with
  | dynamic => exact .inr ⟨p.text, List.mem_map_of_mem (List.mem_filter.2 ⟨hp, by simp [hkind]⟩), hkey⟩
  | static =>
    have hmoved : trimProperty p.text ∈
        ((staticTexts properties).map trimProperty).filter fun p => !p.isEmpty := by
      refine List.mem_filter.2 ⟨List.mem_map_of_mem (List.mem_map_of_mem (List.mem_filter.2 ⟨hp, by simp [hkind]⟩)), ?_⟩
      obtain ⟨gap, rest, heq, -⟩ := hkey.trimProperty.eq
      rw [heq]
      simp
    refine .inl ⟨trimProperty p.text, ?_, hkey.trimProperty⟩
    simp only [formatStatic]
    split
    · exact mem_sortBy.2 hmoved
    · exact hmoved

/-- **If all properties that move are in code at the end of each of their lines, no comment is lost.** -/
theorem keepsComments_of_inCodeLines {target : StyleTarget} {settings : Settings} {name : Text}
    (hkeep : settings.keepComments = true) (hname : isEntryName name = true)
    (hkeys : ∀ p ∈ propertiesOf target.bareBody, KeyOnLine p.text)
    (hlines : ∀ p ∈ formatStatic settings.sortProperties (staticTexts (propertiesOf target.bareBody)), InCodeLines p)
    (registry : Text) : KeepsComments target settings name registry := by
  intro style hprepare xs c ys hfound hfirst
  obtain ⟨hof, hmoved, hne, hrest, hcarried⟩ : style.Splits target settings (propertiesOf target.bareBody) :=
    splits_of_prepare hprepare
  rw [carriedComments, if_pos hkeep, hfound] at hcarried
  rw [← hmoved] at hlines
  have hseen : ∀ d ∈ entryComments style.comments style.staticProperties, d.remark = c.remark →
      c.SeenIn (NamedStyle.entry settings (style, name)) := by
    intro d hd hremark
    have hfound := seenIn_entryText hname hne hlines (isTaken_of_prepare hprepare) hd
    rwa [Comment.SeenIn, hremark, ← hkeep] at hfound
  have hmem : c.settle (propertyNames (propertiesOf target.bareBody)) ∈ style.comments := by
    rw [hcarried]
    exact List.mem_map_of_mem (by simp)
  rcases settle_cases (propertyNames (propertiesOf target.bareBody)) c with horphan | ⟨heq, key, hkey, hproperty⟩
  · exact .inl (hseen _ (List.mem_append_left _ (List.mem_filter.2 ⟨hmem, horphan⟩)) (remark_settle _ c))
  · have hgoes : c.GoesTo style.comments key := hcarried ▸ goesTo_of_first heq hproperty hfirst
    rcases moved_or_stays hkeys settings.sortProperties hkey with ⟨t, ht, hstarts⟩ | ⟨t, ht, hstarts⟩
    · have hindent : IsIndent entryIndent := ⟨by decide, by decide⟩
      obtain ⟨l, hl, hline⟩ := hstarts.propertyLines hindent
      have hlines : l ∈ bareLines entryIndent style.staticProperties := List.mem_flatMap.2 ⟨t, hmoved ▸ ht, hl⟩
      exact .inl (hseen c (List.mem_append_right _ (mem_restored hgoes (by simp) ⟨l, hlines, hline⟩)) rfl)
    · have hbegins : leadingKey? (trimStart t) = some key := hstarts.trimStart.symm ▸ hstarts.leadingKey?
      obtain ⟨before, lines, after, hremaining, hshown⟩ :=
        shown_restoreProperties hgoes (show key ∉ [] by simp) ⟨t, ht, hbegins⟩
      rw [restoreInline, hremaining] at hrest
      rw [NamedStyle.use, hrest, hof]
      exact .inr (standsIn_useText registry name hshown target.indent target.kind)

/-- Comments in several places, some at a property that stays. -/
def notedTarget : StyleTarget where
  range := ⟨0, 0⟩
  kind := .wholeAttribute
  body := "/* the\nbox */\nflex: 1, // grow\nwidth: w, // computed\n// done".toList
  indent := ⟨[]⟩

/-- The statement for this target. -/
theorem keepsComments_notedTarget : (prepare notedTarget {}).toOption.isSome = true ∧
    KeepsComments notedTarget {} "box".toList "styles".toList :=
  ⟨by decide +kernel,
    keepsComments_of_inCodeLines rfl (by decide) (by decide +kernel) (by decide +kernel) "styles".toList⟩

/-- A literal that goes on behind a backslash on the next line, with a comment before it. -/
def brokenLineTarget : StyleTarget where
  range := ⟨0, 0⟩
  kind := .wholeAttribute
  body := "a: /* note */ 'x\\\ny'".toList
  indent := ⟨[]⟩

/-- The entry of this target. -/
def brokenLineEntry : Text :=
  "\tmyStyle1: \x7b\n\t\ta:  'x\\ /* note */\n\t\ty',\n\t\x7d,".toList

/-- The comment is put within the literal. -/
theorem not_keepsComments_brokenLine : (∀ p ∈ propertiesOf brokenLineTarget.bareBody, KeyOnLine p.text) ∧
    ¬KeepsComments brokenLineTarget {} "myStyle1".toList "styles".toList := by
  refine ⟨by decide +kernel, fun h => ?_⟩
  have hwritten : (prepare brokenLineTarget {}).toOption.map (fun style =>
      (NamedStyle.entry {} (style, "myStyle1".toList),
        (NamedStyle.use "styles".toList (style, "myStyle1".toList)).replacement)) =
      some (brokenLineEntry, "style=\x7bstyles.myStyle1\x7d".toList) := by
    decide +kernel
  obtain ⟨style, hstyle, htexts⟩ := Option.map_eq_some_iff.1 hwritten
  obtain ⟨hentry, huse⟩ := Prod.mk.inj htexts
  obtain ⟨c, hc⟩ : ∃ c, (stripComments brokenLineTarget.body).comments = [c] :=
    List.length_eq_one_iff.1 (by decide +kernel)
  have hfirst : ¬c.Follows [] := by simp [Comment.Follows]
  rcases h style (eq_ok_of_toOption hstyle) [] c [] hc hfirst with hseen | ⟨before, lines, after, heq, -⟩
  · rw [hentry] at hseen
    obtain ⟨d, hd, -⟩ := hseen
    have hnone : (stripComments brokenLineEntry).comments = [] := by decide +kernel
    rw [hnone] at hd
    cases hd
  · rw [huse] at heq
    have hnewline : '\n' ∈ "style=\x7bstyles.myStyle1\x7d".toList := by
      rw [heq]
      simp
    exact absurd hnewline (by decide)

end StyleHoist
