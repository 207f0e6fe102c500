import StyleHoist.Proofs.Comment.Rendered
import StyleHoist.Proofs.Registry.Names

/-!
# What an extraction writes

An entry and the object that stays at the place of use are scanned for comments again. Of each the lines of its
properties are kept, as they would stand there without comments, and the comments are found that were put in.

- `entryText_eq`, `composedText_eq`: the lines between the braces.
- `yields_entryLines`: what a scan makes of those of an entry.
- `yields_useLines`: what a scan makes of those of the object that stays.
-/

namespace StyleHoist

open Text Listing

/-! ## Properties -/

/-- The lines of a property that is written with an indentation. -/
def propertyLines (indent code : Text) : List Text :=
  splitLines (propertyText indent code none)

/-- Whether a property gets a comma behind it: a lone line that begins as a comment does gets none. -/
def getsComma (code : Text) : Bool :=
  !((splitLines code).length == 1 && isCommentLine code)

theorem eq_of_splitLines {t l : Text} (h : splitLines t = [l]) : t = l := by
  have hjoin := joinLines_splitLines t
  rw [h] at hjoin
  exact hjoin.symm

/-- A property that gets no comma is a line. -/
theorem propertyText_of_not_getsComma (indent : Text) {code : Text} (h : getsComma code = false)
    (trailing : Option Text) : propertyText indent code trailing = indent ++ trim code ∧ splitLines code = [code] := by
  simp only [getsComma, Bool.not_eq_false', Bool.and_eq_true, beq_iff_eq] at h
  obtain ⟨l, hl⟩ := List.length_eq_one_iff.1 h.1
  obtain rfl := eq_of_splitLines hl
  simp [propertyText, hl, h.2]

theorem trim_ne_nil_of_not_getsComma {code : Text} (h : getsComma code = false) : trim code ≠ [] := by
  intro hnil
  have hstart : trimStart code = [] := by
    have hblank := trim_eq_nil_iff.1 hnil
    exact List.dropWhile_eq_nil_iff.2 (by simpa [isBlank] using hblank)
  have hnot : isCommentLine code = false := by
    rw [isCommentLine, hstart]
    rfl
  simp [getsComma, hnot] at h

/-- A property that gets a comma has it behind its last line, and a comment behind that. -/
theorem propertyText_of_getsComma (indent : Text) {code : Text} (h : getsComma code = true) : ∃ ls last,
    splitLines code = ls ++ [last] ∧
      (propertyText indent code none = joinLines (layout indent ls ++ [trimEnd (indent ++ last) ++ [',']]) ∧
        ∀ t, propertyText indent code (some t) =
          joinLines (layout indent ls ++ [trimEnd (indent ++ last) ++ [','] ++ ' ' :: t])) := by
  obtain ⟨ls, last, hlines⟩ : ∃ ls last, splitLines code = ls ++ [last] :=
    ⟨_, _, (List.dropLast_concat_getLast (splitLines_ne_nil code)).symm⟩
  have hlayout : ∀ trailing, joinLines (appendToLast (propertyText.ending trailing) (layout indent (splitLines code))) =
      joinLines (layout indent ls ++ [trimEnd (indent ++ last) ++ propertyText.ending trailing]) := by
    intro trailing
    rw [hlines, layout, List.map_append, List.map_cons, List.map_nil, appendToLast_concat]
    rfl
  have htext : ∀ trailing, propertyText indent code trailing =
      joinLines (layout indent ls ++ [trimEnd (indent ++ last) ++ propertyText.ending trailing]) := by
    intro trailing
    rw [← hlayout]
    simp only [propertyText]
    split
    · rename_i line hline
      have hnot : isCommentLine line = false := by
        rw [← eq_of_splitLines hline]
        simpa [getsComma, hline] using h
      rw [hnot, hline]
      rfl
    · rfl
  exact ⟨ls, last, hlines, htext none, fun t => by rw [htext]; simp [propertyText.ending]⟩

/-- A comment behind a property stands behind its comma. -/
theorem propertyText_trailing {indent code : Text} (h : getsComma code = true) (t : Text) :
    propertyText indent code (some t) = propertyText indent code none ++ ' ' :: t := by
  obtain ⟨ls, last, -, hnone, hsome⟩ := propertyText_of_getsComma indent h
  rw [hsome, hnone, joinLines_concat, joinLines_concat, List.append_assoc, List.append_assoc, List.append_assoc]

/-- A property with a key gets a comma. -/
theorem getsComma_of_leadingKey? {code name : Text} (h : leadingKey? (trimStart code) = some name) :
    getsComma code = true := by
  obtain ⟨gap, rest, heq, hne, hword, -⟩ := eq_of_leadingKey? h
  obtain ⟨c, cs, rfl⟩ := List.exists_cons_of_ne_nil hne
  have hc : isWordChar c = true := by
    rw [List.all_cons, Bool.and_eq_true] at hword
    exact hword.1
  have hslash : '/' ≠ c := (isWordChar_ne hc (by decide)).symm
  have hstar : '*' ≠ c := (isWordChar_ne hc (by decide)).symm
  have hnot : isCommentLine code = false := by
    simp [isCommentLine, heq, beginsWith, dropPart?, hslash, hstar]
  simp [getsComma, hnot]

/-! ## Lexical conditions -/

/-- A text without comment markers, at whose end no template is open. -/
def Markerless (code : Text) : Prop :=
  templateAfter false (splitLines code) = some false

/-- Each line of a text is a line of code. -/
def InCodeLines (code : Text) : Prop :=
  ∀ l ∈ splitLines code, CodeLine l

/-- A text without comment markers that ends in code, `b` telling whether a template is open before its last line. -/
def EndsInCode (code : Text) : Prop :=
  ∃ b, templateAfter false (splitLines code).dropLast = some b ∧
    findMarker (openQuote b) ((splitLines code).getLastD []) = .clear false ∧
      quoteAfter (openQuote b) ((splitLines code).getLastD []) = none

instance (code : Text) : Decidable (Markerless code) :=
  inferInstanceAs (Decidable (templateAfter false (splitLines code) = some false))

instance (code : Text) : Decidable (InCodeLines code) :=
  inferInstanceAs (Decidable (∀ l ∈ splitLines code, CodeLine l))

instance (code : Text) : Decidable (EndsInCode code) :=
  inferInstanceAs (Decidable (∃ b, templateAfter false (splitLines code).dropLast = some b ∧
    findMarker (openQuote b) ((splitLines code).getLastD []) = .clear false ∧
      quoteAfter (openQuote b) ((splitLines code).getLastD []) = none))

/-- Trimming a line does not matter. -/
theorem clear_trim {b b' : Bool} {l : Text} (h : findMarker (openQuote b) l = .clear b') :
    findMarker (openQuote b) (trim l) = .clear b' ∧ quoteAfter (openQuote b) (trim l) = quoteAfter (openQuote b) l := by
  have hmargin : (l.takeWhile isBlankChar).all isInert = true := all_isInert_of_isBlank List.all_takeWhile
  obtain ⟨hfind, hafter⟩ := findMarker_inert_append (isQuote_openQuote b) hmargin (trimStart l)
  rw [takeWhile_append_trimStart, h] at hfind
  rw [takeWhile_append_trimStart] at hafter
  have hstart : findMarker (openQuote b) (trimStart l) = .clear b' := by
    cases hscan : findMarker (openQuote b) (trimStart l) with
    | clear b'' =>
      rw [hscan, MarkerScan.prepend_clear] at hfind
      exact hfind.symm
    | found before kind after =>
      rw [hscan, MarkerScan.prepend_found] at hfind
      cases hfind
  obtain ⟨hclear, hquote⟩ := clear_layout (show isBlank [] = true from rfl) hstart
  exact ⟨hclear, hquote.trans hafter.symm⟩

section Property

variable {indent code : Text} (hindent : IsIndent indent)

include hindent

theorem propertyLines_of_not_getsComma (h : getsComma code = false) :
    propertyLines indent code = [indent ++ trim code] := by
  obtain ⟨htext, hlines⟩ := propertyText_of_not_getsComma indent h none
  have hcode : IsLine code := isLine_of_mem_splitLines (t := code) (by simp [hlines])
  have htrim : IsLine (trim code) := fun hm => hcode ((infix_trim code).subset hm)
  rw [propertyLines, htext, splitLines_of_isLine (hindent.line.append htrim)]

theorem splitLines_propertyText {ls : List Text} {last : Text} (hlines : splitLines code = ls ++ [last])
    {ending : Text} (hending : IsLine ending) :
    splitLines (joinLines (layout indent ls ++ [trimEnd (indent ++ last) ++ ending])) =
      layout indent ls ++ [trimEnd (indent ++ last) ++ ending] := by
  have hline : ∀ l ∈ ls ++ [last], IsLine (trimEnd (indent ++ l)) := fun l hl =>
    isLine_trimEnd (hindent.line.append (isLine_of_mem_splitLines (hlines ▸ hl)))
  refine splitLines_joinLines (by simp) fun l hl => ?_
  rcases List.mem_append.1 hl with hl | hl
  · obtain ⟨k, hk, rfl⟩ := List.mem_map.1 hl
    exact hline k (List.mem_append_left _ hk)
  · rw [List.mem_singleton.1 hl]
    exact (hline last (by simp)).append hending

theorem propertyLines_of_getsComma (h : getsComma code = true) : ∃ ls last, splitLines code = ls ++ [last] ∧
    propertyLines indent code = layout indent ls ++ [trimEnd (indent ++ last) ++ [',']] := by
  obtain ⟨ls, last, hlines, htext, -⟩ := propertyText_of_getsComma indent h
  refine ⟨ls, last, hlines, ?_⟩
  rw [propertyLines, htext, splitLines_propertyText hindent hlines (by decide)]

/-- A property without markers is written without markers. -/
theorem templateAfter_propertyLines (h : Markerless code) :
    templateAfter false (propertyLines indent code) = some false := by
  cases hcomma : getsComma code with
  | true =>
    obtain ⟨ls, last, hlines, hwritten⟩ := propertyLines_of_getsComma hindent hcomma
    rw [Markerless, hlines, templateAfter_append] at h
    obtain ⟨b, hls, hlast⟩ := Option.bind_eq_some_iff.1 h
    obtain ⟨m, hclear, hm⟩ := templateAfter_cons hlast
    obtain rfl : m = false := Option.some.inj hm
    have hend := clear_append_inert (isQuote_openQuote b) (show [','].all isInert = true by decide)
      (clear_layout hindent.blank hclear).1
    rw [hwritten, templateAfter_append, templateAfter_layout hindent.blank hls, Option.bind_some, templateAfter, hend.1]
    rfl
  | false =>
    obtain ⟨m, hclear, hm⟩ := templateAfter_cons
      (show templateAfter false [code] = some false from (propertyText_of_not_getsComma indent hcomma none).2 ▸ h)
    obtain rfl : m = false := Option.some.inj hm
    have hstart := findMarker_inert_append (isQuote_openQuote false) (all_isInert_of_isBlank hindent.blank) (trim code)
    rw [(clear_trim hclear).1, MarkerScan.prepend_clear] at hstart
    rw [propertyLines_of_not_getsComma hindent hcomma, templateAfter, hstart.1]
    rfl

/-- A property that is in code at each line end is written so. -/
theorem trimmedCodeLine_propertyLines (h : InCodeLines code) : ∀ l ∈ propertyLines indent code, TrimmedCodeLine l := by
  have hlayout : ∀ k ∈ splitLines code, TrimmedCodeLine (trimEnd (indent ++ k)) := fun k hk =>
    ⟨(h k hk).layout hindent.blank,
      isLine_trimEnd (hindent.line.append (isLine_of_mem_splitLines hk)),
      trimEnd_of_getLast? fun _ hc => dropEndWhile_getLast? hc⟩
  intro l hl
  cases hcomma : getsComma code with
  | true =>
    obtain ⟨ls, last, hlines, hwritten⟩ := propertyLines_of_getsComma hindent hcomma
    rw [hlines] at hlayout
    rw [hwritten] at hl
    rcases List.mem_append.1 hl with hl | hl
    · obtain ⟨k, hk, rfl⟩ := List.mem_map.1 hl
      exact hlayout k (List.mem_append_left _ hk)
    · rw [List.mem_singleton.1 hl]
      have hlast := hlayout last (by simp)
      exact ⟨hlast.code.comma, hlast.line.append (by decide), trimEnd_concat (by decide)⟩
  | false =>
    obtain ⟨-, hlines⟩ := propertyText_of_not_getsComma indent hcomma none
    have hcode := h code (by simp [hlines])
    have hline : IsLine code := isLine_of_mem_splitLines (t := code) (by simp [hlines])
    rw [propertyLines_of_not_getsComma hindent hcomma] at hl
    rw [List.mem_singleton.1 hl]
    have htrim := clear_trim (b := false) hcode.clear
    have hstart := findMarker_inert_append (isQuote_openQuote false) (all_isInert_of_isBlank hindent.blank) (trim code)
    rw [htrim.1, MarkerScan.prepend_clear, htrim.2] at hstart
    refine ⟨⟨hstart.1, hstart.2.trans hcode.closed⟩, hindent.line.append fun hm => ?_,
      trimEnd_of_getLast? fun c hc => ?_⟩
    · exact hline ((infix_trim code).subset hm)
    · rw [List.getLast?_append, Option.or_of_isSome (by simpa using trim_ne_nil_of_not_getsComma hcomma)] at hc
      exact ends_trim.2 hc

/-- A property with a comment behind it. -/
theorem yields_trailing (hcomma : getsComma code = true) (hend : EndsInCode code) {c : Comment} (hc : IsTaken c) :
    Yields false (splitLines (propertyText indent code (some c.trailing))) (propertyLines indent code) [c] := by
  obtain ⟨ls, last, hlines, htext, htrailing⟩ := propertyText_of_getsComma indent hcomma
  obtain ⟨b, hls, hclear, hquote⟩ := hend
  rw [hlines, List.dropLast_concat] at hls
  rw [hlines, List.getLastD_concat] at hclear hquote
  obtain ⟨hclear', hquote'⟩ := clear_layout hindent.blank hclear
  obtain ⟨hclear'', hquote''⟩ :=
    clear_append_inert (isQuote_openQuote b) (show [','].all isInert = true by decide) hclear'
  have hsolid : isBlank (trimEnd (indent ++ last) ++ [',']) = false := by
    have hblank : isBlankChar ',' = false := by decide
    rw [isBlank, List.all_append, List.all_cons, hblank, Bool.false_and, Bool.and_false]
  have hline : ∀ l ∈ ls ++ [last], IsLine (trimEnd (indent ++ l)) := fun l hl =>
    isLine_trimEnd (hindent.line.append (isLine_of_mem_splitLines (hlines ▸ hl)))
  have hlast : IsLine (trimEnd (indent ++ last) ++ [',']) := (hline last (by simp)).append (by decide)
  have hcoded := yields_coded hclear'' (hquote''.trans (hquote'.trans hquote)) hsolid hlast hc
  rw [trimEnd_concat (by decide)] at hcoded
  have hcommaLine : IsLine [','] := by decide
  have hendLine : IsLine ([','] ++ ' ' :: c.trailing) := by
    simpa [IsLine] using isLine_trailing hc.sound
  rw [htrailing, propertyLines, htext, List.append_assoc, splitLines_propertyText hindent hlines hendLine,
    splitLines_propertyText hindent hlines hcommaLine, ← List.append_assoc]
  refine hcoded.prepend (fun l hl => ?_) (templateAfter_layout hindent.blank hls)
  obtain ⟨k, hk, rfl⟩ := List.mem_map.1 hl
  exact hline k (List.mem_append_left _ hk)

end Property

/-! ## Lines without comments -/

/-- The lines of the properties of an entry or of an object, without comments. -/
def bareLines (indent : Text) (codes : List Text) : List Text :=
  codes.flatMap (propertyLines indent)

theorem templateAfter_bareLines {indent : Text} (hindent : IsIndent indent) : ∀ {codes : List Text},
    (∀ code ∈ codes, Markerless code) → templateAfter false (bareLines indent codes) = some false
  | [], _ => rfl
  | code :: codes, h => by
    obtain ⟨hcode, hcodes⟩ := List.forall_mem_cons.1 h
    rw [bareLines, List.flatMap_cons, templateAfter_append, templateAfter_propertyLines hindent hcode]
    exact templateAfter_bareLines hindent hcodes

theorem isLine_bareLines {indent : Text} {codes : List Text} : ∀ l ∈ bareLines indent codes, IsLine l := by
  intro l hl
  obtain ⟨code, -, hl⟩ := List.mem_flatMap.1 hl
  exact isLine_of_mem_splitLines hl

/-! ## Entries -/

/-- The lines of an entry between its first line and the line that closes it. -/
def entryLines (comments : List Comment) (properties : List Text) : List Text :=
  (comments.filter (·.isOrphan)).flatMap (·.standalone orphanIndent)
    ++ restoreLines comments [] (bareLines entryIndent properties)

/-- The comments of an entry, in order. -/
def entryComments (comments : List Comment) (properties : List Text) : List Comment :=
  comments.filter (·.isOrphan) ++ restored comments [] (bareLines entryIndent properties)

theorem splitLines_joinLines_eq_flatMap : ∀ {ts : List Text}, ts ≠ [] →
    splitLines (joinLines ts) = ts.flatMap splitLines
  | [], h => absurd rfl h
  | [t], _ => by simp [joinLines, joinWith]
  | t :: u :: ts, _ => by
    rw [joinLines_cons (by simp), splitLines_append_newline, splitLines_joinLines_eq_flatMap (by simp)]
    rfl

/-- What stands between the braces of an entry with its comments. -/
theorem restoreEntry_bareEntryText {name : Text} (hname : IsLine name) {properties : List Text} (hne : properties ≠ [])
    (comments : List Comment) : restoreEntry (bareEntryText name properties) comments =
      headerLine name ++ '\n' :: (unlines (entryLines comments properties) ++ closingLine) := by
  have hbare : splitLines (joinLines (properties.map fun p => propertyText entryIndent p none)) =
      bareLines entryIndent properties := by
    rw [splitLines_joinLines_eq_flatMap (by simpa using hne), List.flatMap_map]
    rfl
  rw [restoreEntry_bareEntry hname, hbare, ← List.cons_append, joinLines_concat, unlines_cons, entryLines]
  simp

/-- The first line of an entry opens nothing but a brace. -/
theorem all_isInert_headerLine {name : Text} (h : isEntryName name = true) : (headerLine name).all isInert = true := by
  have hname : name.all isInert = true := by
    refine List.all_eq_true.2 fun c hc => ?_
    have hne := fun d hd => ne_of_isEntryName h hc (d := d) hd
    simp [isInert, opensQuote, hne '/' (by decide), hne '*' (by decide), hne '\\' (by decide), hne '\x27' (by decide),
      hne '\x22' (by decide), hne '\x60' (by decide)]
  rw [headerLine, List.cons_append, List.all_cons, List.all_append, hname]
  decide

/-- What stands between the braces of an entry. -/
theorem entryText_eq {name : Text} (hname : isEntryName name = true) {properties : List Text} (hne : properties ≠ [])
    {comments : List Comment} {keepComments : Bool} (hkeep : keepComments = false → comments = []) :
    entryText name properties comments keepComments =
      headerLine name ++ '\n' :: (unlines (entryLines comments properties) ++ closingLine) := by
  have hrestored := restoreEntry_bareEntryText (isLine_of_isEntryName hname) hne comments
  simp only [entryText]
  split
  · exact hrestored
  · rename_i hnot
    have hnil : comments = [] := by
      cases keepComments with
      | false => exact hkeep rfl
      | true => simpa using hnot
    rw [← hrestored, hnil, restoreEntry_nil]

/-- **A scan of the lines of an entry keeps the lines of its properties and finds its comments.** -/
theorem yields_entryLines {comments : List Comment} (hcomments : ∀ c ∈ comments, IsTaken c) {properties : List Text}
    (hmarkerless : ∀ p ∈ properties, Markerless p) (hlines : comments ≠ [] → ∀ p ∈ properties, InCodeLines p) :
    Yields false (entryLines comments properties) (bareLines entryIndent properties)
      (entryComments comments properties) := by
  by_cases hnil : comments = []
  · subst hnil
    rw [entryLines, entryComments, restored_nil, restoreLines_nil]
    exact yields_of_templateAfter isLine_bareLines (templateAfter_bareLines isIndent_entryIndent hmarkerless)
  · have horphans := yields_standalones isIndent_nil isIndent_orphanIndent fun c (hc : c ∈ comments.filter (·.isOrphan)) =>
      hcomments c (List.mem_filter.1 hc).1
    have hrestored := yields_restoreLines hcomments [] fun l (hl : l ∈ bareLines entryIndent properties) => by
      obtain ⟨p, hp, hl⟩ := List.mem_flatMap.1 hl
      exact trimmedCodeLine_propertyLines isIndent_entryIndent (hlines hnil p hp) l hl
    have hall := horphans.append hrestored
    rw [entryLines, entryComments]
    simpa using hall

/-! ## Objects that stay -/

/-- The lines of an object that stays at the place of use. -/
def useLines (indent : Text) (remaining : List InlineLine) : List Text :=
  remaining.flatMap fun l => splitLines (l.render indent)

/-- What stands before the interior of the object at the place of use. -/
def useOpening (reference : Text) (indent : Indentation) : Text :=
  "[\n".toList ++ indent.array ++ reference ++ ",\n".toList ++ indent.array ++ "\x7b".toList

/-- What stands behind the interior of the object at the place of use. -/
def useClosing (indent : Indentation) : Text :=
  "\x7d,\n".toList ++ indent.base ++ [']']

/-- The lines of the object that stays are those of its parts. -/
theorem unlines_useLines (indent : Text) (remaining : List InlineLine) :
    unlines (useLines indent remaining) = unlines (remaining.map (·.render indent)) := by
  by_cases hnil : remaining = []
  · rw [hnil]
    rfl
  · have hne : remaining.map (·.render indent) ≠ [] := by simpa using hnil
    have hsplit : splitLines (joinLines (remaining.map (·.render indent))) = useLines indent remaining := by
      rw [splitLines_joinLines_eq_flatMap hne, List.flatMap_map]
      rfl
    have hlines : useLines indent remaining ≠ [] := hsplit ▸ splitLines_ne_nil _
    rw [unlines_eq hlines, unlines_eq hne, ← hsplit, joinLines_splitLines]

/-- What stands between the braces of the object at the place of use. -/
theorem composedText_eq (reference : Text) {remaining : List InlineLine} (hne : remaining ≠ []) (indent : Indentation) :
    composedText reference remaining indent = useOpening reference indent ++
      ('\n' :: (unlines (useLines indent.object remaining) ++ indent.array)) ++ useClosing indent := by
  rw [unlines_useLines, unlines_eq (by simpa using hne), useOpening, useClosing]
  delta composedText
  simp

/-- What stands around the expression at the place of use. -/
def useFrame : TargetKind → Text × Text
  | .wholeAttribute => ("style=\x7b".toList, ['\x7d'])
  | .arrayElement => ([], [])

/-- What replaces a style of which something stays. -/
theorem useText_eq (registry entry : Text) {remaining : List InlineLine} (hne : remaining ≠ []) (indent : Indentation)
    (kind : TargetKind) : useText registry entry remaining indent kind =
      (useFrame kind).1 ++ composedText (referenceText registry entry) remaining indent ++ (useFrame kind).2 := by
  have hexpression : useExpression (referenceText registry entry) remaining indent =
      composedText (referenceText registry entry) remaining indent :=
    if_neg (by simpa using hne)
  cases kind with
  | wholeAttribute =>
    rw [← hexpression]
    rfl
  | arrayElement =>
    rw [← hexpression]
    exact (List.append_nil _).symm

theorem useLines_comments {indent : Text} : ∀ {ts : List Text}, (∀ t ∈ ts.map (indent ++ ·), IsLine t) →
    useLines indent (ts.map .comment) = ts.map (indent ++ ·)
  | [], _ => rfl
  | t :: ts, h => by
    rw [List.map_cons, List.forall_mem_cons] at h
    have hrest := useLines_comments h.2
    rw [useLines] at hrest ⊢
    rw [List.map_cons, List.flatMap_cons, hrest, InlineLine.render, splitLines_of_isLine h.1]
    rfl

/-- **A scan of the lines of the object that stays keeps the lines of its properties and finds its comments.** -/
theorem yields_useLines {indent : Text} (hindent : IsIndent indent) {comments : List Comment}
    (hcomments : ∀ c ∈ comments, IsTaken c) : ∀ {codes : List Text} (seen : List Text),
      (∀ code ∈ codes, Markerless code ∧ (comments ≠ [] → EndsInCode code)) →
        Yields false (useLines indent (restoreProperties comments seen codes)) (bareLines indent codes)
          (restored comments seen codes)
  | [], _, _ => yields_nil
  | code :: codes, seen, h => by
    obtain ⟨⟨hmarkerless, hend⟩, hcodes⟩ := List.forall_mem_cons.1 h
    have hbare : Yields false (propertyLines indent code) (propertyLines indent code) [] :=
      yields_of_templateAfter (fun _ hl => isLine_of_mem_splitLines hl)
        (templateAfter_propertyLines hindent hmarkerless)
    have hkept : Yields false (useLines indent (.property code none :: restoreProperties comments seen codes))
        (bareLines indent (code :: codes)) (restored comments seen codes) :=
      hbare.append (yields_useLines hindent hcomments seen hcodes)
    have hown : ∀ name placement, Yields false
        (useLines indent (((commentsOf comments name placement).flatMap (·.standalone [])).map .comment)) []
          (commentsOf comments name placement) := fun name placement => by
      have hall := yields_standalones hindent isIndent_nil fun c (hc : c ∈ commentsOf comments name placement) =>
        hcomments c (List.mem_filter.1 hc).1
      rwa [useLines_comments hall.lines]
    cases hname : leadingKey? (trimStart code) with
    | none =>
      simp only [restoreProperties, restored, hname]
      exact hkept
    | some name =>
      by_cases hseen : seen.contains name = true
      · simp only [restoreProperties, restored, hname, hseen, if_true]
        exact hkept
      · have hgroup : ∀ {trailing : Option Text} {own : List Comment},
            Yields false (splitLines (propertyText indent code trailing)) (propertyLines indent code) own →
              Yields false (useLines indent
                  (((commentsOf comments name .before).flatMap (·.standalone [])).map .comment ++
                    .property code trailing ::
                        ((commentsOf comments name .after).flatMap (·.standalone [])).map .comment
                      ++ restoreProperties comments (name :: seen) codes))
                (bareLines indent (code :: codes))
                (commentsOf comments name .before ++ own ++ commentsOf comments name .after ++
                  restored comments (name :: seen) codes) := by
          intro trailing own hproperty
          have hall := ((hown name .before).append (hproperty.append (hown name .after))).append
            (yields_useLines hindent hcomments (name :: seen) hcodes)
          simpa [useLines, bareLines, InlineLine.render] using hall
        simp only [restoreProperties, restored, hname, hseen]
        cases hsame : (commentsOf comments name .sameLine).head? with
        | none => exact hgroup hbare
        | some c =>
          have hc : c ∈ comments := (List.mem_filter.1 (List.mem_of_head? hsame)).1
          have hcomma := getsComma_of_leadingKey? hname
          exact hgroup (yields_trailing hindent hcomma (hend (List.ne_nil_of_mem hc)) (hcomments c hc))

end StyleHoist
