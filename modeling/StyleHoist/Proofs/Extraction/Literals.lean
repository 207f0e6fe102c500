import StyleHoist.Proofs.Extraction.Inspected
import StyleHoist.Proofs.Script.Literals

/-!
# Literals of properties that are laid out

A property is dedented where it is read, and indented where it is written: in an entry, or in the object that stays at
the place of use. Comments are put among its lines again. None of this knows where a literal begins, so a literal keeps
what it says if no line ends within it (`layout_keepsLiterals`); one that goes on over the end of a line does not
(`not_keepsLiterals_continuedProperty`).

- `read_propertyText`: an indentation and a comma are nothing to a reader of literals.
- `read_propertyText_whole`: that is so only if no line ends within a literal.
- `read_restoreLines`, `read_restoreProperties`: comments that are put back are nothing to a reader of literals.
-/

namespace StyleHoist
namespace Literals

open Text Listing

/-! ## Properties -/

/-- No line of a text ends within a literal, nor within a comment if this is strict. -/
def StaysInLines (strict : Bool) (t : Text) : Prop :=
  start.endsFree strict (splitLines t) = true

/-- Behind a text and a newline a reader is where it was before: all templates are closed. -/
def IsWhole (t : Text) : Prop :=
  (start.read (t ++ ['\n'])).1 = start

instance (strict : Bool) (t : Text) : Decidable (StaysInLines strict t) :=
  inferInstanceAs (Decidable (_ = _))

instance (t : Text) : Decidable (IsWhole t) :=
  inferInstanceAs (Decidable (_ = _))

/-- The end of a line is not the end of a literal. -/
theorem read_newline_snd (r : Reader) : (r.read ['\n']).2 = [] :=
  (shifted_lineEnd r (show isBlank [] = true from rfl)).2.2

theorem atLine_start : start.AtLine := .inl rfl

theorem read_newline_end (t : Text) : (start.read (t ++ ['\n'])).2 = literalsOf t := by
  rw [read_append, read_newline_snd, List.append_nil]
  rfl

theorem IsWhole.read {t : Text} (h : IsWhole t) : start.read (t ++ ['\n']) = (start, literalsOf t) := by
  rw [← read_newline_end]
  exact Prod.ext h rfl

/-- A reader that is before a script again behind the end of a line is outside of literals at the end. -/
theorem isFree_of_read_newline {r : Reader} {t : Text} (h : (r.read (t ++ ['\n'])).1 = start) :
    (r.read t).1.mode.isFree false = true := by
  rw [read_append] at h
  rw [← isFree_read_blank (r.read t).1 (t := ['\n']) (by decide), h]
  rfl

/-- A whole text of one line does not end within a literal. -/
theorem IsWhole.staysInLines {t : Text} (h : IsWhole t) (hline : splitLines t = [t]) : StaysInLines false t := by
  obtain ⟨margin, ht, hblank⟩ := trimEnd_append_blank t
  have hfree := isFree_of_read_newline h
  rw [ht, read_append, isFree_read_blank _ hblank] at hfree
  rw [StaysInLines, hline, Reader.endsFree, hfree]
  rfl

theorem map_trim_dedent (t : Text) : (splitLines (dedent t)).map trim = (splitLines t).map trim := by
  obtain ⟨first, rest, hlines⟩ := List.exists_cons_of_ne_nil (splitLines_ne_nil t)
  have htrim : ∀ l ∈ rest, trim (dropIndent (commonIndent rest) l) = trim l := by
    intro l _
    obtain ⟨indent, hindent, heq⟩ := exists_append_dropIndent (commonIndent rest) l
    conv => rhs; rw [heq, trim_blank_append hindent.isBlank]
  rw [splitLines_dedent hlines, hlines, List.map_cons, List.map_cons, List.map_map]
  exact congrArg (trim first :: ·) (List.map_congr_left htrim)

/-- A text that is dedented is read as it was if none of its lines ends within a literal. -/
theorem read_dedent {strict : Bool} {t : Text} (h : StaysInLines strict t) :
    start.read (dedent t ++ ['\n']) = start.read (t ++ ['\n']) ∧ StaysInLines strict (dedent t) := by
  obtain ⟨hread, hends⟩ := read_layout (map_trim_dedent t) atLine_start h
  rw [unlines_splitLines, unlines_splitLines] at hread
  exact ⟨hread, hends⟩

section Property

variable {indent : Text} (hindent : IsIndent indent) {strict : Bool}

include hindent

/-- An indentation and a comma are nothing to a reader of literals. -/
theorem read_propertyLines {code : Text} {r : Reader} (hr : r.AtLine)
    (h : r.endsFree strict (splitLines code) = true) :
    r.read (unlines (propertyLines indent code)) = r.read (unlines (splitLines code)) ∧
      r.endsFree strict (propertyLines indent code) = true := by
  cases hcomma : getsComma code with
  | true =>
    obtain ⟨ls, last, hlines, hwritten⟩ := propertyLines_of_getsComma hindent hcomma
    have htrim : (layout indent ls ++ [trimEnd (indent ++ last)]).map trim = (splitLines code).map trim := by
      have heq : ∀ l ∈ ls ++ [last], trim (trimEnd (indent ++ l)) = trim l := fun l _ => trim_layout hindent l
      rw [hlines, ← List.map_congr_left heq, layout]
      simp
    obtain ⟨hread, hends⟩ := read_layout htrim hr h
    obtain ⟨hread', hends'⟩ := read_comma hends
    rw [hwritten]
    exact ⟨hread'.trans hread, hends'⟩
  | false =>
    have hlines := (propertyText_of_not_getsComma indent hcomma none).2
    have htrim : [indent ++ trim code].map trim = (splitLines code).map trim := by
      rw [hlines, List.map_singleton, List.map_singleton, trim_blank_append hindent.blank, trim_trim]
    rw [propertyLines_of_not_getsComma hindent hcomma]
    exact read_layout htrim hr h

/-- A property that is written with an indentation has the literals that it had. -/
theorem read_propertyText {code : Text} (hwhole : IsWhole code) (h : StaysInLines strict code) :
    start.read (propertyText indent code none ++ ['\n']) = (start, literalsOf code) := by
  obtain ⟨hread, -⟩ := read_propertyLines hindent atLine_start h
  rw [propertyLines, unlines_splitLines, unlines_splitLines] at hread
  rw [hread, hwhole.read]

/-- Properties that are written one behind another have the literals that they had. -/
theorem read_bareLines : ∀ {codes : List Text}, (∀ code ∈ codes, IsWhole code ∧ StaysInLines strict code) →
    start.read (unlines (bareLines indent codes)) = (start, codes.flatMap literalsOf) ∧
      start.endsFree strict (bareLines indent codes) = true
  | [], _ => ⟨rfl, rfl⟩
  | code :: codes, h => by
    obtain ⟨⟨hwhole, hcode⟩, hcodes⟩ := List.forall_mem_cons.1 h
    obtain ⟨hread, hends⟩ := read_bareLines hcodes
    have hfirst := read_propertyText hindent hwhole hcode
    rw [← unlines_splitLines] at hfirst
    have hfirstEnds := (read_propertyLines hindent atLine_start hcode).2
    rw [propertyLines] at hfirstEnds
    rw [bareLines, List.flatMap_cons, ← bareLines, unlines_append, endsFree_append, propertyLines, hfirstEnds,
      read_append, hfirst, hread, hends]
    exact ⟨rfl, rfl⟩

/-- **A property that is written with an indentation has as many literals as it had, and the same ones only if none of
its lines ends within a literal.** -/
theorem read_propertyText_whole (hne : indent ≠ []) {code : Text} (hwhole : IsWhole code) :
    ∃ xs, start.read (propertyText indent code none ++ ['\n']) = (start, xs) ∧
      xs.length = (literalsOf code).length ∧ (xs = literalsOf code → StaysInLines false code) := by
  cases hcomma : getsComma code with
  | true =>
    obtain ⟨ls, last, hlines, htext, -⟩ := propertyText_of_getsComma indent hcomma
    have hcode : code ++ ['\n'] = unlines (ls ++ [last]) := by rw [← hlines, unlines_splitLines]
    obtain ⟨hshifted, hlength, hsame⟩ := shifted_layout hindent hne (ls ++ [last]) (.same atLine_start)
    rw [← hcode, hwhole.read] at hshifted hlength hsame
    have hsplit : unlines (layout indent (ls ++ [last])) =
        unlines (layout indent ls) ++ trimEnd (indent ++ last) ++ ['\n'] := by
      rw [layout, List.map_append, unlines_append]
      simp [layout, unlines]
    have hstart : (start.read (unlines (layout indent (ls ++ [last])))).1 = start := hshifted.eq_start
    refine ⟨(start.read (unlines (layout indent (ls ++ [last])))).2, ?_, hlength.symm, fun heq => ?_⟩
    · have hfree := isFree_of_read_newline (hsplit ▸ hstart)
      have hread := (read_steady hfree (show [','].all isSteady = true by decide)).2
      have hwritten : propertyText indent code none ++ ['\n'] =
          unlines (layout indent ls) ++ trimEnd (indent ++ last) ++ ([','] ++ ['\n']) := by
        rw [htext, joinLines_concat]
        simp
      rw [hwritten, read_append, hread, ← read_append, ← hsplit]
      exact Prod.ext hstart rfl
    · rw [StaysInLines, hlines]
      exact (hsame heq.symm atLine_start).2
  | false =>
    have hlines := (propertyText_of_not_getsComma indent hcomma none).2
    have hstays := hwhole.staysInLines hlines
    exact ⟨_, read_propertyText hindent hwhole hstays, rfl, fun _ => hstays⟩

/-- Properties that are written one behind another have as many literals as they had, and the same ones only if none of
their lines ends within a literal. -/
theorem read_bareLines_whole (hne : indent ≠ []) : ∀ {codes : List Text}, (∀ code ∈ codes, IsWhole code) →
    ∃ xs, start.read (unlines (bareLines indent codes)) = (start, xs) ∧
      xs.length = (codes.flatMap literalsOf).length ∧
      (xs = codes.flatMap literalsOf → ∀ code ∈ codes, StaysInLines false code)
  | [], _ => ⟨[], rfl, rfl, fun _ _ h => by cases h⟩
  | code :: codes, h => by
    obtain ⟨hcode, hcodes⟩ := List.forall_mem_cons.1 h
    obtain ⟨xs, hread, hlength, hsame⟩ := read_propertyText_whole hindent hne hcode
    obtain ⟨ys, hread', hlength', hsame'⟩ := read_bareLines_whole hne hcodes
    refine ⟨xs ++ ys, ?_, by rw [List.flatMap_cons, List.length_append, List.length_append, hlength, hlength'],
      fun heq => ?_⟩
    · rw [← unlines_splitLines] at hread
      rw [bareLines, List.flatMap_cons, ← bareLines, unlines_append, propertyLines, read_append, hread, hread']
    · obtain ⟨hfirst, hrest⟩ := List.append_inj heq hlength
      exact List.forall_mem_cons.2 ⟨hsame hfirst, hsame' hrest⟩

end Property

/-! ## Comments that are put back -/

/-- A reader that is at the end of a line in code is so behind the blanks there. -/
theorem isFree_read {strict : Bool} {r : Reader} {l : Text} (h : (r.read (trimEnd l)).1.mode.isFree strict = true) :
    (r.read l).1.mode.isFree strict = true := by
  obtain ⟨margin, hl, hblank⟩ := trimEnd_append_blank l
  rw [hl, read_append]
  exact (read_steady h (all_isSteady_of_isBlank hblank)).1

/-- Behind a text whose lines end in code a reader is in code. -/
theorem isFree_of_endsFree {strict : Bool} {t : Text} {r : Reader} (h : r.endsFree strict (splitLines t) = true) :
    (r.read t).1.mode.isFree strict = true := by
  obtain ⟨ls, l, hlines⟩ : ∃ ls l, splitLines t = ls ++ [l] :=
    ⟨_, _, (List.dropLast_concat_getLast (splitLines_ne_nil t)).symm⟩
  have htext : t = unlines ls ++ l := by rw [← joinLines_concat, ← hlines, joinLines_splitLines]
  rw [hlines, endsFree_append, Bool.and_eq_true] at h
  rw [htext, read_append]
  exact isFree_read (by simpa [Reader.endsFree] using h.2)

/-- A line, lines behind it that are nothing, and more lines. -/
theorem read_line_behind {r r' : Reader} {l coded : Text} (behind : List Text) {more ls : List Text}
    (hnext : (r.read (l ++ ['\n'])).1 = r') (hcoded : r.read (coded ++ ['\n']) = r.read (l ++ ['\n']))
    (hbehind : r'.read (unlines behind) = (r', [])) (hmore : r'.read (unlines more) = r'.read (unlines ls)) :
    r.read (unlines (coded :: behind ++ more)) = r.read (unlines (l :: ls)) := by
  rw [List.cons_append, unlines_cons, unlines_cons, unlines_append, read_append_congr hcoded, read_append,
    read_append _ (l ++ ['\n']), hnext, read_append_of hbehind, hmore]

/-- A property, lines behind it that are nothing, and more lines. -/
theorem read_property_behind {indent code : Text} {trailing : Option Text} (behind : List InlineLine)
    {more : List InlineLine} {xs : List Text}
    (hproperty : start.read (propertyText indent code trailing ++ ['\n']) = (start, literalsOf code))
    (hbehind : start.read (unlines (useLines indent behind)) = (start, []))
    (hmore : start.read (unlines (useLines indent more)) = (start, xs)) :
    start.read (unlines (useLines indent (.property code trailing :: behind ++ more))) =
      (start, literalsOf code ++ xs) := by
  rw [← unlines_splitLines] at hproperty
  have hsplit : useLines indent (.property code trailing :: behind ++ more) =
      splitLines (propertyText indent code trailing) ++ (useLines indent behind ++ useLines indent more) := by
    simp [useLines, InlineLine.render]
  rw [hsplit, unlines_append, unlines_append, read_append, hproperty, read_append_of hbehind, hmore]

section Comments

variable {comments : List Comment} (hcomments : ∀ c ∈ comments, IsTaken c ∧ endsWithLine c = true)

include hcomments

theorem read_commentsOf {indent : Text} (hindent : IsIndent indent) (braces : List Nat) (name : Text)
    (placement : Placement) :
    Reader.read ⟨.code, braces⟩ (unlines ((commentsOf comments name placement).flatMap (·.standalone indent))) =
      (⟨.code, braces⟩, []) := by
  have hall := read_standalones isIndent_nil hindent braces
    fun c (hc : c ∈ commentsOf comments name placement) => hcomments c (List.mem_filter.1 hc).1
  simpa using hall

theorem read_useLines_commentsOf {indent : Text} (hindent : IsIndent indent) (name : Text) (placement : Placement) :
    start.read (unlines (useLines indent
      (((commentsOf comments name placement).flatMap (·.standalone [])).map .comment))) = (start, []) := by
  have htaken := fun c (hc : c ∈ commentsOf comments name placement) => hcomments c (List.mem_filter.1 hc).1
  have hlines : ∀ l ∈ ((commentsOf comments name placement).flatMap (·.standalone [])).map (indent ++ ·), IsLine l :=
    (yields_standalones hindent isIndent_nil fun c hc => (htaken c hc).1).lines
  rw [useLines_comments hlines]
  exact read_standalones hindent isIndent_nil [] htaken

/-- **Comments that are put among lines of code are nothing to a reader of literals.** -/
theorem read_restoreLines : ∀ {ls : List Text} (seen : List Text) {braces : List Nat}, (∀ l ∈ ls, IsLine l) →
    Reader.endsFree true ⟨.code, braces⟩ ls = true →
      Reader.read ⟨.code, braces⟩ (unlines (restoreLines comments seen ls)) = Reader.read ⟨.code, braces⟩ (unlines ls)
  | [], _, _, _, _ => rfl
  | l :: ls, seen, braces, hlines, h => by
    obtain ⟨hl, hls⟩ := List.forall_mem_cons.1 hlines
    obtain ⟨hfree, hends⟩ : (Reader.read ⟨.code, braces⟩ (trimEnd l)).1.mode.isFree true = true ∧
        (Reader.read ⟨.code, braces⟩ (l ++ ['\n'])).1.endsFree true ls = true := by
      simpa [Reader.endsFree] using h
    have hfree := isFree_read hfree
    obtain ⟨braces', hnext⟩ : ∃ braces', (Reader.read ⟨.code, braces⟩ (l ++ ['\n'])).1 = ⟨.code, braces'⟩ := by
      rw [read_append, read_newline_code hfree]
      exact ⟨_, rfl⟩
    rw [hnext] at hends
    have hrest := fun seen => read_restoreLines seen hls hends
    have hindent : IsIndent (l.takeWhile isBlankChar) :=
      ⟨List.all_takeWhile, fun hm => hl ((List.takeWhile_prefix _).subset hm)⟩
    cases hname : leadingKey? (trimStart l) with
    | none =>
      simp only [restoreLines, hname]
      exact read_line_behind [] hnext rfl rfl (hrest seen)
    | some name =>
      by_cases hseen : seen.contains name = true
      · simp only [restoreLines, hname, hseen, if_true]
        exact read_line_behind [] hnext rfl rfl (hrest seen)
      · simp only [restoreLines, hname, if_neg hseen]
        rw [List.append_assoc, unlines_append, read_append_of (read_commentsOf hcomments hindent braces name .before)]
        have hafter := read_commentsOf hcomments hindent braces' name .after
        refine read_line_behind _ hnext ?_ hafter (hrest (name :: seen))
        cases hsame : commentsOf comments name .sameLine with
        | nil => rfl
        | cons c cs =>
          have hc : c ∈ commentsOf comments name .sameLine := hsame ▸ List.mem_cons_self
          obtain ⟨htaken, hline⟩ := hcomments c (List.mem_filter.1 hc).1
          dsimp only
          rw [List.append_assoc, read_append, read_trailing htaken hline hfree, ← read_append]

/-- Properties with comments around them have the literals that they had. -/
theorem read_restoreProperties {indent : Text} (hindent : IsIndent indent) :
    ∀ {codes : List Text} (seen : List Text), (∀ code ∈ codes, IsWhole code ∧ StaysInLines true code) →
      start.read (unlines (useLines indent (restoreProperties comments seen codes))) =
        (start, codes.flatMap literalsOf)
  | [], _, _ => rfl
  | code :: codes, seen, h => by
    obtain ⟨⟨hwhole, hcode⟩, hcodes⟩ := List.forall_mem_cons.1 h
    have hbare := read_propertyText hindent hwhole hcode
    have hrest := fun seen => read_restoreProperties hindent seen hcodes
    rw [List.flatMap_cons]
    cases hname : leadingKey? (trimStart code) with
    | none =>
      simp only [restoreProperties, hname]
      exact read_property_behind [] hbare rfl (hrest seen)
    | some name =>
      by_cases hseen : seen.contains name = true
      · simp only [restoreProperties, hname, hseen, if_true]
        exact read_property_behind [] hbare rfl (hrest seen)
      · simp only [restoreProperties, hname, if_neg hseen]
        have hbefore := read_useLines_commentsOf hcomments hindent name .before
        rw [List.append_assoc, useLines, List.flatMap_append, ← useLines, ← useLines, unlines_append,
          read_append_of hbefore]
        refine read_property_behind _ ?_ (read_useLines_commentsOf hcomments hindent name .after) (hrest (name :: seen))
        cases hsame : (commentsOf comments name .sameLine).head? with
        | none => exact hbare
        | some c =>
          have hc : c ∈ comments := (List.mem_filter.1 (List.mem_of_head? hsame)).1
          have hends := (read_propertyLines hindent atLine_start hcode).2
          obtain ⟨htaken, hline⟩ := hcomments c hc
          rw [Option.map_some, propertyText_trailing (getsComma_of_leadingKey? hname), List.append_assoc, read_append,
            read_trailing htaken hline (isFree_of_endsFree hends), ← read_append, hbare]

end Comments

/-! ## Entries and places of use -/

/-- Where no template is being filled, braces are nothing to a reader of literals either. -/
theorem read_inert : ∀ {t : Text}, t.all isInert = true → start.read t = (start, [])
  | [], _ => rfl
  | c :: t, h => by
    obtain ⟨hc, ht⟩ : isInert c = true ∧ t.all isInert = true := by simpa using h
    have hslash : c ≠ '/' := ne_of_isInert hc (by decide)
    have hstep : start.step c = (start, []) := by
      simp [start, Reader.step, codeStep, opensQuote_of_isInert hc, hslash, openBrace, closeBrace]
    rw [read_cons, hstep, read_inert ht]
    rfl

theorem literalsOf_append {s t : Text} {xs : List Text} (h : start.read s = (start, xs)) :
    literalsOf (s ++ t) = xs ++ literalsOf t := by
  rw [literalsOf, read_append, h]
  rfl

section Written

variable {codes : List Text} {xs : List Text}

/-- The literals of an entry are those of its lines. -/
theorem literalsOf_entryText {name : Text} (hname : isEntryName name = true) (hne : codes ≠ [])
    {comments : List Comment} {keepComments : Bool} (hkeep : keepComments = false → comments = [])
    (h : start.read (unlines (entryLines comments codes)) = (start, xs)) :
    literalsOf (entryText name codes comments keepComments) = xs := by
  have hheader : start.read (headerLine name ++ ['\n']) = (start, []) := by
    refine read_inert ?_
    rw [List.all_append, all_isInert_headerLine hname]
    decide
  have hclosing : literalsOf closingLine = [] := by decide
  rw [entryText_eq hname hne hkeep, List.append_cons, literalsOf_append hheader, literalsOf_append h, hclosing]
  simp

/-- The literals of what replaces a style are those of the lines that stay. -/
theorem literalsOf_useText {registry entry : Text} (hnames : (registry ++ entry).all isInert = true)
    {indent : Indentation} (hindent : IsIndent indent.base) (kind : TargetKind) {remaining : List InlineLine}
    (h : start.read (unlines (useLines indent.object remaining)) = (start, xs)) :
    literalsOf (useText registry entry remaining indent kind) = xs := by
  have hblank : indent.base.all isInert = true := all_isInert_of_isBlank hindent.blank
  obtain ⟨hregistry, hentry⟩ : registry.all isInert = true ∧ entry.all isInert = true := by
    rwa [List.all_append, Bool.and_eq_true] at hnames
  have hreference : (referenceText registry entry).all isInert = true := by
    rw [referenceText, List.all_append, List.all_cons, hregistry, hentry]
    decide
  have hframe : (useFrame kind).1.all isInert = true ∧ (useFrame kind).2.all isInert = true := by
    cases kind <;> decide
  have hnone : ∀ {t : Text}, t.all isInert = true → literalsOf t = [] := fun ht => by rw [literalsOf, read_inert ht]
  by_cases hne : remaining = []
  · have htext : useText registry entry [] indent kind =
        (useFrame kind).1 ++ referenceText registry entry ++ (useFrame kind).2 := by
      cases kind with
      | wholeAttribute => rfl
      | arrayElement => exact (List.append_nil _).symm
    have hinert : (useText registry entry [] indent kind).all isInert = true := by
      rw [htext, List.all_append, List.all_append, hframe.1, hreference, hframe.2]
      rfl
    rw [hne] at h ⊢
    rw [hnone hinert]
    exact (Prod.ext_iff.1 h).2
  · have hopening : ((useFrame kind).1 ++ useOpening (referenceText registry entry) indent ++ ['\n']).all isInert =
        true := by
      simp only [useOpening, Indentation.array, List.all_append, hframe.1, hreference, hblank]
      decide
    have hclosing : (indent.array ++ useClosing indent ++ (useFrame kind).2).all isInert = true := by
      simp only [useClosing, Indentation.array, List.all_append, hframe.2, hblank]
      decide
    have hsplit : useText registry entry remaining indent kind =
        ((useFrame kind).1 ++ useOpening (referenceText registry entry) indent ++ ['\n']) ++
          (unlines (useLines indent.object remaining) ++ (indent.array ++ useClosing indent ++ (useFrame kind).2)) := by
      rw [useText_eq registry entry hne, composedText_eq _ hne]
      simp
    rw [hsplit, literalsOf_append (read_inert hopening), literalsOf_append h, hnone hclosing]
    simp

end Written

/-- The lines of an entry with comments have the literals of its properties. -/
theorem read_entryLines {codes : List Text} {comments : List Comment}
    (hcomments : ∀ c ∈ comments, IsTaken c ∧ endsWithLine c = true)
    (hcodes : ∀ code ∈ codes, IsWhole code ∧ StaysInLines true code) :
    start.read (unlines (entryLines comments codes)) = (start, codes.flatMap literalsOf) := by
  obtain ⟨hread, hends⟩ := read_bareLines isIndent_entryIndent hcodes
  have horphans := read_standalones isIndent_nil isIndent_orphanIndent []
    fun c (hc : c ∈ comments.filter (·.isOrphan)) => hcomments c (List.mem_filter.1 hc).1
  rw [List.map_congr_left fun l _ => List.nil_append l, List.map_id'] at horphans
  rw [entryLines, unlines_append, start, read_append_of horphans, read_restoreLines hcomments [] isLine_bareLines hends]
  exact hread

theorem entryLines_nil (codes : List Text) : entryLines [] codes = bareLines entryIndent codes := by
  rw [entryLines, restoreLines_nil]
  rfl

/-- Without comments the lines that stay are those of the properties. -/
theorem useLines_nil (indent : Text) (codes : List Text) : ∀ seen : List Text,
    useLines indent (restoreProperties [] seen codes) = bareLines indent codes := by
  induction codes with
  | nil => exact fun _ => rfl
  | cons code codes ih =>
    intro seen
    have hcons : ∀ seen, useLines indent (.property code none :: restoreProperties [] seen codes) =
        bareLines indent (code :: codes) := fun seen => congrArg (propertyLines indent code ++ ·) (ih seen)
    simp only [restoreProperties]
    split
    · split
      · exact hcons seen
      · exact hcons _
    · exact hcons seen

end Literals

open Text Literals

/-! ## Layout -/

/-- A text has the literals of some properties, in order. -/
def KeepsLiterals (codes : List Text) (t : Text) : Prop :=
  literalsOf t = codes.flatMap literalsOf

instance (codes : List Text) (t : Text) : Decidable (KeepsLiterals codes t) :=
  inferInstanceAs (Decidable (_ = _))

/-- **Layout changes no literal if no line ends within one.** Properties may be dedented, and they may be indented in an
entry or at the place of use, where they keep their literals in this case only; and comments may be put around them
if no line ends within a comment either. -/
theorem layout_keepsLiterals {codes : List Text} (hwhole : ∀ code ∈ codes, IsWhole code) {comments : List Comment}
    (hcomments : ∀ c ∈ comments, IsTaken c ∧ endsWithLine c = true) :
    (∀ code ∈ codes, ∀ strict, StaysInLines strict code →
      KeepsLiterals [code] (dedent code) ∧ IsWhole (dedent code) ∧ StaysInLines strict (dedent code)) ∧
    (∀ name, isEntryName name = true → codes ≠ [] →
      (KeepsLiterals codes (entryText name codes [] true) ↔ ∀ code ∈ codes, StaysInLines false code) ∧
      ((∀ code ∈ codes, StaysInLines true code) → KeepsLiterals codes (entryText name codes comments true))) ∧
    ∀ registry entry, (registry ++ entry).all isInert = true → ∀ indent : Indentation, IsIndent indent.base → ∀ kind,
      (KeepsLiterals codes (useText registry entry (restoreInline codes []) indent kind) ↔
        ∀ code ∈ codes, StaysInLines false code) ∧
      ((∀ code ∈ codes, StaysInLines true code) →
        KeepsLiterals codes (useText registry entry (restoreInline codes comments) indent kind)) := by
  -- Without comments an indentation changes what a line within a literal says, so that layout keeps no more than this.
  have hbare : ∀ {indent : Text}, IsIndent indent → indent ≠ [] → ∃ xs,
      start.read (Listing.unlines (bareLines indent codes)) = (start, xs) ∧
        (xs = codes.flatMap literalsOf ↔ ∀ code ∈ codes, StaysInLines false code) := by
    intro indent hindent hne
    obtain ⟨xs, hread, -, hsame⟩ := read_bareLines_whole hindent hne hwhole
    refine ⟨xs, hread, hsame, fun hstays => ?_⟩
    have hkept := (read_bareLines hindent fun code hcode => ⟨hwhole code hcode, hstays code hcode⟩).1
    rw [hread] at hkept
    exact (Prod.ext_iff.1 hkept).2
  refine ⟨fun code hcode strict hstays => ?_, fun name hname hne => ⟨?_, fun hstays => ?_⟩,
    fun registry entry hnames indent hindent kind => ⟨?_, fun hstays => ?_⟩⟩
  · obtain ⟨hread, hdedented⟩ := read_dedent hstays
    refine ⟨?_, by rw [IsWhole, hread, hwhole code hcode], hdedented⟩
    rw [KeepsLiterals, ← read_newline_end, hread, read_newline_end, List.flatMap_singleton]
  · have hindent : IsIndent entryIndent := ⟨by decide, by decide⟩
    obtain ⟨xs, hread, hiff⟩ := hbare hindent (by decide)
    rw [← entryLines_nil] at hread
    rw [KeepsLiterals, literalsOf_entryText hname hne (by simp) hread, hiff]
  · exact literalsOf_entryText hname hne (by simp)
      (read_entryLines hcomments fun code hcode => ⟨hwhole code hcode, hstays code hcode⟩)
  · have hobject : IsIndent indent.object := hindent.append ⟨by decide, by decide⟩
    obtain ⟨xs, hread, hiff⟩ := hbare hobject (by simp [Indentation.object])
    rw [← useLines_nil indent.object codes []] at hread
    rw [KeepsLiterals, restoreInline, literalsOf_useText hnames hindent kind hread, hiff]
  · have hobject : IsIndent indent.object := hindent.append ⟨by decide, by decide⟩
    exact literalsOf_useText hnames hindent kind
      (read_restoreProperties hcomments hobject [] fun code hcode => ⟨hwhole code hcode, hstays code hcode⟩)

/-- A body with quotes in its comments and a template that is filled over several lines. -/
def quotedBody : Text :=
  "// it's\na: 'x\\'y', // \x60\nb: \x60p$\x7bf(\x7b\n\t  q: 'r',\n\t\x7d)\x7ds\x60, /* \x22\n*/".toList

/-- The properties of this body. -/
def quotedProperties : List Text :=
  (propertiesOf (withoutComments quotedBody)).map (·.text)

/-- The statement for this body. -/
theorem layout_keepsLiterals_quotedBody :
    (∀ code ∈ quotedProperties, IsWhole code ∧ StaysInLines true code) ∧
      (∀ c ∈ (stripComments quotedBody).comments, IsTaken c ∧ endsWithLine c = true) ∧
      KeepsLiterals quotedProperties
        (entryText "box".toList quotedProperties (stripComments quotedBody).comments true) ∧
      KeepsLiterals quotedProperties (useText "styles".toList "box".toList
        (restoreInline quotedProperties (stripComments quotedBody).comments) ⟨['\t']⟩ .wholeAttribute) := by
  have hwhole : ∀ code ∈ quotedProperties, IsWhole code := by decide +kernel
  have hstays : ∀ code ∈ quotedProperties, StaysInLines true code := by decide +kernel
  have hlines : (stripComments quotedBody).comments.all endsWithLine = true := by decide +kernel
  have hcomments : ∀ c ∈ (stripComments quotedBody).comments, IsTaken c ∧ endsWithLine c = true := fun c hc =>
    ⟨isTaken_of_mem_stripComments hc, List.all_eq_true.1 hlines c hc⟩
  obtain ⟨-, hentry, huse⟩ := layout_keepsLiterals hwhole hcomments
  exact ⟨fun code hcode => ⟨hwhole code hcode, hstays code hcode⟩, hcomments,
    (hentry "box".toList (by decide) (by decide +kernel)).2 hstays,
    (huse "styles".toList "box".toList (by decide) ⟨['\t']⟩ ⟨by decide, by decide⟩ .wholeAttribute).2 hstays⟩

/-- A property whose value goes on behind a backslash on the next line. -/
def continuedProperty : Text :=
  "a: 'x\\\n  b: y'".toList

/-- A comment before a property of the name with which that line begins. -/
def strayComment : Comment where
  kind := .line
  text := ['c']
  line := 1
  column := 1
  ending := none
  property := some ['b']
  placement := .before

/-- Dedented, indented or given a comment, the value says something else. -/
theorem not_keepsLiterals_continuedProperty :
    (StyleBody.read continuedProperty).toOption.map (fun b => b.properties.map fun n => b.slice n.span) =
        some [continuedProperty] ∧
      ¬KeepsLiterals [continuedProperty] (dedent continuedProperty) ∧
      ¬KeepsLiterals [continuedProperty] (entryText "box".toList [continuedProperty] [] true) ∧
      ¬KeepsLiterals [continuedProperty]
        (useText "styles".toList "box".toList (restoreInline [continuedProperty] []) ⟨[]⟩ .arrayElement) ∧
      literalsOf (restoreEntry ("box: \x7b\n".toList ++ continuedProperty) [strayComment]) ≠
        literalsOf ("box: \x7b\n".toList ++ continuedProperty) := by
  decide +kernel

end StyleHoist
