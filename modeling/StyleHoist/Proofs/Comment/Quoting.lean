import StyleHoist.Proofs.Comment.Lexer
import StyleHoist.Proofs.Comment.Notation

/-!
# Where quotes are open

To each character of code that is no white space a lexer gives the quote of the string or of the template in which it
stands (`marksOf`). Where the scan of a line passes over code, it gives the same (`lineMarks`).

- `marks_of_clear`, `marks_of_found`: what a lexer gives along a line.
- `marks_lineComment`, `marks_block`, `marks_unclosed`: comments get nothing.
- `Quoted.collapseBlank`: leaving out blank lines takes nothing away from lines without a marker.
-/

namespace StyleHoist
namespace Lexer

open Text Listing

/-! ## Marks -/

/-- A character of code that is no white space, and the quote of the string or of the template in which it stands. -/
abbrev Mark := Char × Option Char

/-- The quote that is open where a lexer is. -/
def Mode.quote? : Mode → Option Char
  | .quoted q | .escaped q => some q
  | _ => none

/-- The mark of a character, unless it is white space. -/
def mark (quote : Option Char) (c : Char) : List Mark :=
  if isBlankChar c then [] else [(c, quote)]

/-- The marks of what a lexer sees. -/
def marks (quote : Option Char) (ps : List Piece) : List Mark :=
  (ps.filterMap Piece.code?).flatMap (mark quote)

/-- The marks of a text. They do not depend on where the text stands, so any spot will do. -/
def marksFrom : Mode → Text → List Mark
  | m, [] => marks m.quote? (m.finish ⟨1, 1⟩)
  | m, c :: t => marks m.quote? (m.step ⟨1, 1⟩ c).2 ++ marksFrom (m.step ⟨1, 1⟩ c).1 t

/-- The marks of a body. -/
def marksOf (body : Text) : List Mark :=
  marksFrom .code body

/-- The marks from the end of a line on. -/
def breakMarks (inTemplate : Bool) : Text → List Mark
  | [] => []
  | _ :: t => marksFrom (modeOf (openQuote inTemplate)) t

/-- The characters of a line where a quote may be open, each with the quote in which it stands. -/
def quotesAlong : (quote : Option Char) → Text → List Mark
  | _, [] => []
  | some q, '\\' :: [] => [('\\', some q)]
  | some q, '\\' :: c :: t => ('\\', some q) :: (c, some q) :: quotesAlong (some q) t
  | some q, c :: t => (c, some q) :: quotesAlong (if c == q then none else some q) t
  | none, c :: t => (c, none) :: quotesAlong (if opensQuote c then some c else none) t

/-- The marks along a line where a quote may be open. -/
def lineMarks (quote : Option Char) (t : Text) : List Mark :=
  (quotesAlong quote t).flatMap fun m => mark m.2 m.1

@[simp] theorem marks_nil (quote : Option Char) : marks quote [] = [] := rfl

@[simp] theorem marks_code (quote : Option Char) (c : Char) (ps : List Piece) :
    marks quote (.code c :: ps) = mark quote c ++ marks quote ps := rfl

@[simp] theorem marks_comment (quote : Option Char) (s : Sighting) (ps : List Piece) :
    marks quote (.comment s :: ps) = marks quote ps := rfl

@[simp] theorem mark_newline (quote : Option Char) : mark quote '\n' = [] := rfl

@[simp] theorem lineMarks_nil (quote : Option Char) : lineMarks quote [] = [] := by
  cases quote <;> rfl

theorem lineMarks_code (c : Char) (t : Text) :
    lineMarks none (c :: t) = mark none c ++ lineMarks (if opensQuote c then some c else none) t := by
  simp only [lineMarks, quotesAlong, List.flatMap_cons]

theorem lineMarks_quoted {q c : Char} (hc : c ≠ '\\') (t : Text) :
    lineMarks (some q) (c :: t) = mark (some q) c ++ lineMarks (if c == q then none else some q) t := by
  rw [lineMarks, quotesAlong, List.flatMap_cons, lineMarks]
  · simp [hc]
  · simp [hc]

theorem lineMarks_escape (q c : Char) (t : Text) :
    lineMarks (some q) ('\\' :: c :: t) = mark (some q) '\\' ++ (mark (some q) c ++ lineMarks (some q) t) := by
  simp only [lineMarks, quotesAlong, List.flatMap_cons]

/-! ## Lines -/

/-- Behind a slash that opens no comment a lexer is in code. -/
theorem marks_slash {t : Text} (hline : ∀ u, t ≠ '/' :: u) (hblock : ∀ u, t ≠ '*' :: u) :
    marksFrom .slash t = mark none '/' ++ marksFrom .code t := by
  cases t with
  | nil => rfl
  | cons c t =>
    have hslash : c ≠ '/' := fun h => hline t (h ▸ rfl)
    have hstar : c ≠ '*' := fun h => hblock t (h ▸ rfl)
    simp [marksFrom, Mode.step, hslash, hstar, Mode.quote?]

theorem marks_modeOf_break (quote : Option Char) {t : Text} (h : AtBreak t) :
    marksFrom (modeOf quote) t = breakMarks (quote == some '\x60') t := by
  rcases h with rfl | ⟨u, rfl⟩
  · cases quote <;> rfl
  · cases quote with
    | none => rfl
    | some q =>
      by_cases htemplate : q = '\x60'
      · subst htemplate
        rfl
      · by_cases hnewline : '\n' = q
        · subst hnewline
          rfl
        · simp [marksFrom, modeOf, Mode.step, breakMarks, quotedOn, hnewline, htemplate, openQuote]

theorem marks_escaped_break (q : Char) {t : Text} (h : AtBreak t) :
    marksFrom (.escaped q) t = breakMarks (q == '\x60') t := by
  rcases h with rfl | ⟨u, rfl⟩
  · rfl
  · by_cases htemplate : q = '\x60'
    · subst htemplate
      rfl
    · simp [marksFrom, Mode.step, breakMarks, quotedOn, htemplate, modeOf, openQuote]

/-- Along code a lexer gives marks as the scan for a marker does. -/
theorem marks_code_cons {c : Char} {t : Text} (hline : ∀ u, c = '/' → t = '/' :: u → False)
    (hblock : ∀ u, c = '/' → t = '*' :: u → False) :
    marksFrom .code (c :: t) = mark none c ++ marksFrom (modeOf (if opensQuote c then some c else none)) t := by
  by_cases hslash : c = '/'
  · subst hslash
    exact marks_slash (fun u hu => hline u rfl hu) (fun u hu => hblock u rfl hu)
  · cases hquote : opensQuote c <;>
      simp [marksFrom, Mode.step, codeStep, hslash, hquote, modeOf, Mode.quote?]

/-- Along a quotation a lexer gives marks as the scan for a marker does. -/
theorem marks_quoted_cons {q c : Char} {t : Text} (hbackslash : c ≠ '\\') (hc : c ≠ '\n') :
    marksFrom (.quoted q) (c :: t) = mark (some q) c ++ marksFrom (modeOf (if c == q then none else some q)) t := by
  by_cases hq : c = q
  · subst hq
    simp [marksFrom, Mode.step, hbackslash, modeOf, Mode.quote?]
  · simp [marksFrom, Mode.step, hbackslash, hc, hq, quotedOn, modeOf, Mode.quote?]

theorem marks_quoted_escape {q c : Char} {t : Text} (hc : c ≠ '\n') :
    marksFrom (.quoted q) ('\\' :: c :: t) =
      mark (some q) '\\' ++ (mark (some q) c ++ marksFrom (modeOf (some q)) t) := by
  simp [marksFrom, Mode.step, quotedOn, hc, modeOf, Mode.quote?]

section Marker

variable {tail : Text}

/-- Where the scan of a line finds no marker. -/
theorem marks_of_clear (htail : AtBreak tail) {quote : Option Char} {l : Text} {b : Bool} (hl : IsLine l)
    (h : findMarker quote l = .clear b) : marksFrom (modeOf quote) (l ++ tail) = lineMarks quote l ++
      breakMarks b tail := by
  fun_induction findMarker quote l with
  | case1 quote =>
    obtain rfl := MarkerScan.clear.inj h
    exact marks_modeOf_break quote htail
  | case2 q =>
    obtain rfl := MarkerScan.clear.inj h
    exact congrArg (mark (some q) '\\' ++ ·) (marks_escaped_break q htail)
  | case3 q c t ih =>
    obtain ⟨hc, ht⟩ := isLine_cons.1 (isLine_cons.1 hl).2
    have hrest := ih ht (MarkerScan.cons_eq_clear (MarkerScan.cons_eq_clear h))
    rw [modeOf, List.cons_append, List.cons_append, marks_quoted_escape (Ne.symm hc), hrest, lineMarks_escape,
      List.append_assoc, List.append_assoc]
  | case4 q c t hlast hmore ih =>
    obtain ⟨hc, ht⟩ := isLine_cons.1 hl
    have hne := ne_backslash hlast hmore
    rw [modeOf, List.cons_append, marks_quoted_cons hne (Ne.symm hc), ih ht (MarkerScan.cons_eq_clear h),
      lineMarks_quoted hne, List.append_assoc]
  | case5 t => cases h
  | case6 t => cases h
  | case7 c t hline hblock ih =>
    obtain ⟨hc, ht⟩ := isLine_cons.1 hl
    have hrest := ih ht (MarkerScan.cons_eq_clear h)
    rw [modeOf, List.cons_append, marks_code_cons (not_begins htail (by decide) hline)
      (not_begins htail (by decide) hblock), lineMarks_code, List.append_assoc]
    exact congrArg (mark none c ++ ·) hrest

/-- Where the scan of a line finds a marker. -/
theorem marks_of_found (htail : AtBreak tail) {quote : Option Char} {l before after : Text} {kind : CommentKind}
    (hl : IsLine l) (h : findMarker quote l = .found before kind after) :
    ∃ start, marksFrom (modeOf quote) (l ++ tail) = lineMarks quote before ++
      marksFrom (commentMode start kind) (after ++ tail) := by
  fun_induction findMarker quote l generalizing before with
  | case1 => cases h
  | case2 => cases h
  | case3 q c t ih =>
    obtain ⟨hc, ht⟩ := isLine_cons.1 (isLine_cons.1 hl).2
    obtain ⟨_, rfl, h'⟩ := MarkerScan.cons_eq_found h
    obtain ⟨before, rfl, h''⟩ := MarkerScan.cons_eq_found h'
    obtain ⟨start, hrest⟩ := ih ht h''
    refine ⟨start, ?_⟩
    rw [modeOf, List.cons_append, List.cons_append, marks_quoted_escape (Ne.symm hc), hrest, lineMarks_escape,
      List.append_assoc, List.append_assoc]
  | case4 q c t hlast hmore ih =>
    obtain ⟨hc, ht⟩ := isLine_cons.1 hl
    obtain ⟨before, rfl, h'⟩ := MarkerScan.cons_eq_found h
    have hne := ne_backslash hlast hmore
    obtain ⟨start, hrest⟩ := ih ht h'
    refine ⟨start, ?_⟩
    rw [modeOf, List.cons_append, marks_quoted_cons hne (Ne.symm hc), hrest, lineMarks_quoted hne, List.append_assoc]
  | case5 t =>
    cases h
    exact ⟨⟨1, 0⟩, rfl⟩
  | case6 t =>
    cases h
    exact ⟨⟨1, 0⟩, rfl⟩
  | case7 c t hline hblock ih =>
    obtain ⟨hc, ht⟩ := isLine_cons.1 hl
    obtain ⟨before, rfl, h'⟩ := MarkerScan.cons_eq_found h
    obtain ⟨start, hrest⟩ := ih ht h'
    refine ⟨start, ?_⟩
    rw [modeOf, List.cons_append, marks_code_cons (not_begins htail (by decide) hline)
      (not_begins htail (by decide) hblock), lineMarks_code, List.append_assoc]
    exact congrArg (mark none c ++ ·) hrest

end Marker

/-! ## Comments -/

/-- A line comment takes the rest of its line. -/
theorem marks_lineComment {tail : Text} (htail : AtBreak tail) (start : Spot) : ∀ {l : Text} (x : Text), IsLine l →
    marksFrom (.lineComment start x) (l ++ tail) = breakMarks false tail
  | [], x, _ => by
    rcases htail with rfl | ⟨u, rfl⟩ <;> rfl
  | c :: l, x, h => by
    obtain ⟨hc, hl⟩ := isLine_cons.1 h
    rw [List.cons_append, marksFrom]
    simp only [Mode.step, beq_iff_eq, Ne.symm hc, if_false, marks_nil, List.nil_append]
    exact marks_lineComment htail start _ hl

section Block

variable (start : Spot)

/-- A closing marker that does not stand in a text does not stand behind its first character. -/
theorem not_infix_of_cons {c : Char} {t : Text} (h : ¬blockClose <:+: c :: t) : ¬blockClose <:+: t :=
  fun hs => h (hs.trans (List.suffix_cons _ _).isInfix)

/-- Behind a block comment a lexer is in code. -/
theorem marks_block (tail : Text) : ∀ inner x : Text,
    (¬blockClose <:+: inner →
      marksFrom (.blockComment start x) (inner ++ blockClose ++ tail) = marksFrom .code tail) ∧
    (¬blockClose <:+: '*' :: inner →
      marksFrom (.star start x) (inner ++ blockClose ++ tail) = marksFrom .code tail)
  | [], x => by
    constructor <;> intro _ <;> simp [blockClose_eq, marksFrom, Mode.step]
  | c :: inner, x => by
    constructor
    · intro h
      rw [List.cons_append, List.cons_append, marksFrom]
      by_cases hc : c = '*'
      · subst hc
        exact (marks_block tail inner x).2 h
      · simp only [Mode.step, beq_iff_eq, hc, if_false, marks_nil, List.nil_append]
        exact (marks_block tail inner _).1 (not_infix_of_cons h)
    · intro h
      have hslash : c ≠ '/' := by
        rintro rfl
        exact h (List.prefix_append blockClose inner).isInfix
      rw [List.cons_append, List.cons_append, marksFrom]
      by_cases hc : c = '*'
      · subst hc
        exact (marks_block tail inner (x ++ ['*'])).2 (not_infix_of_cons h)
      · simp only [Mode.step, beq_iff_eq, hslash, hc, if_false, marks_nil, List.nil_append]
        exact (marks_block tail inner _).1 (not_infix_of_cons (not_infix_of_cons h))

/-- A block comment that is not closed takes the rest of the text. -/
theorem marks_unclosed : ∀ t x : Text,
    (¬blockClose <:+: t → marksFrom (.blockComment start x) t = []) ∧
    (¬blockClose <:+: '*' :: t → marksFrom (.star start x) t = [])
  | [], x => by
    constructor <;> intro _ <;> rfl
  | c :: t, x => by
    constructor
    · intro h
      rw [marksFrom]
      by_cases hc : c = '*'
      · subst hc
        exact (marks_unclosed t x).2 h
      · simp only [Mode.step, beq_iff_eq, hc, if_false, marks_nil, List.nil_append]
        exact (marks_unclosed t _).1 (not_infix_of_cons h)
    · intro h
      have hslash : c ≠ '/' := by
        rintro rfl
        exact h (List.prefix_append blockClose t).isInfix
      rw [marksFrom]
      by_cases hc : c = '*'
      · subst hc
        exact (marks_unclosed t (x ++ ['*'])).2 (not_infix_of_cons h)
      · simp only [Mode.step, beq_iff_eq, hslash, hc, if_false, marks_nil, List.nil_append]
        exact (marks_unclosed t _).1 (not_infix_of_cons (not_infix_of_cons h))

end Block

/-! ## Texts put together -/

/-- White space has no marks. -/
theorem lineMarks_of_isBlank : ∀ {t : Text} (quote : Option Char), isBlank t = true → lineMarks quote t = []
  | [], quote, _ => lineMarks_nil quote
  | c :: t, quote, h => by
    obtain ⟨hc, ht⟩ := isBlank_cons.1 h
    have hmark : ∀ q, mark q c = [] := fun q => by simp [mark, hc]
    cases quote with
    | none => rw [lineMarks_code, hmark, lineMarks_of_isBlank _ ht, List.nil_append]
    | some q =>
      rw [lineMarks_quoted (ne_of_isBlankChar hc (by decide)), hmark, lineMarks_of_isBlank _ ht, List.nil_append]

/-- White space at the end of a line has no marks. -/
theorem lineMarks_append_of_isBlank {s : Text} (hs : isBlank s = true) (quote : Option Char) (l : Text) :
    lineMarks quote (l ++ s) = lineMarks quote l := by
  fun_induction quotesAlong quote l with
  | case1 quote => rw [List.nil_append, lineMarks_of_isBlank quote hs, lineMarks_nil]
  | case2 q =>
    cases s with
    | nil => rfl
    | cons c s =>
      have hescaped : lineMarks (some q) (c :: s) = [] := lineMarks_of_isBlank _ hs
      obtain ⟨hc, hs⟩ := isBlank_cons.1 hs
      rw [List.singleton_append, lineMarks_escape, lineMarks_of_isBlank _ hs]
      simp [mark, hc, lineMarks, quotesAlong]
  | case3 q c t ih => rw [List.cons_append, List.cons_append, lineMarks_escape, lineMarks_escape, ih]
  | case4 q c t hlast hmore ih =>
    have hne := ne_backslash hlast hmore
    rw [List.cons_append, lineMarks_quoted hne, lineMarks_quoted hne, ih]
  | case5 c t ih => rw [List.cons_append, lineMarks_code, lineMarks_code, ih]

theorem lineMarks_trimEnd (quote : Option Char) (l : Text) : lineMarks quote (trimEnd l) = lineMarks quote l := by
  obtain ⟨margin, heq, hmargin⟩ := trimEnd_append_blank l
  conv => rhs; rw [heq, lineMarks_append_of_isBlank hmargin]

/-- Behind a text that leaves the scan in code, what follows has the marks of code. -/
theorem lineMarks_append {quote : Option Char} {l : Text} (h : quoteAfter quote l = none) (t : Text) :
    lineMarks quote (l ++ t) = lineMarks quote l ++ lineMarks none t := by
  fun_induction quotesAlong quote l with
  | case1 quote =>
    obtain rfl : quote = none := h
    rfl
  | case2 q => cases h
  | case3 q c u ih =>
    rw [List.cons_append, List.cons_append, lineMarks_escape, lineMarks_escape, ih h, List.append_assoc,
      List.append_assoc]
  | case4 q c u hlast hmore ih =>
    have hne := ne_backslash hlast hmore
    rw [quoteAfter_quoted hne] at h
    rw [List.cons_append, lineMarks_quoted hne, lineMarks_quoted hne, ih h, List.append_assoc]
  | case5 c u ih =>
    rw [quoteAfter] at h
    rw [List.cons_append, lineMarks_code, lineMarks_code, ih h, List.append_assoc]

/-- A text behind which code goes on: it holds no marker, and it leaves the scan in code, but not behind a slash, which
could become part of a marker. -/
structure LeavesCode (quote : Option Char) (l : Text) : Prop where
  clear : findMarker quote l = .clear false
  closed : quoteAfter quote l = none
  last : l.getLast? ≠ some '/'

theorem quoteAfter_append {quote : Option Char} {l : Text} (h : quoteAfter quote l = none) (t : Text) :
    quoteAfter quote (l ++ t) = quoteAfter none t := by
  fun_induction quotesAlong quote l with
  | case1 quote =>
    obtain rfl : quote = none := h
    rfl
  | case2 q => cases h
  | case3 q c u ih => exact ih h
  | case4 q c u hlast hmore ih =>
    have hne := ne_backslash hlast hmore
    rw [quoteAfter_quoted hne] at h
    rw [List.cons_append, quoteAfter_quoted hne, ih h]
  | case5 c u ih =>
    rw [quoteAfter] at h
    rw [List.cons_append, quoteAfter]
    exact ih h

theorem LeavesCode.findMarker_append {quote : Option Char} {l : Text} (h : LeavesCode quote l) (t : Text) :
    findMarker quote (l ++ t) = (findMarker none t).prepend l :=
  StyleHoist.findMarker_append h.clear h.closed fun hlast => absurd hlast h.last

theorem LeavesCode.append {quote : Option Char} {l t : Text} (h : LeavesCode quote l) (ht : LeavesCode none t) :
    LeavesCode quote (l ++ t) where
  clear := by rw [h.findMarker_append, ht.clear, MarkerScan.prepend_clear]
  closed := by rw [quoteAfter_append h.closed, ht.closed]
  last hlast := by
    rw [List.getLast?_append] at hlast
    cases ht' : t.getLast? with
    | none => exact h.last (by simpa [ht'] using hlast)
    | some c => exact ht.last (by simpa [ht'] using hlast)

theorem getLast?_cons_ne_slash {c : Char} {t : Text} (hc : t = [] → c ≠ '/') (ht : t.getLast? ≠ some '/') :
    (c :: t).getLast? ≠ some '/' := by
  cases t with
  | nil => simpa using hc rfl
  | cons d t => rwa [List.getLast?_cons_cons]

theorem LeavesCode.escape {q c : Char} {l : Text} (h : LeavesCode (some q) l) :
    LeavesCode (some q) ('\\' :: c :: l) where
  clear := by
    rw [findMarker_escape, h.clear]
    rfl
  closed := h.closed
  last := by
    have hne : l ≠ [] := by
      rintro rfl
      cases h.closed
    exact getLast?_cons_ne_slash (by simp) (getLast?_cons_ne_slash (fun hnil => absurd hnil hne) h.last)

theorem LeavesCode.quoted {q c : Char} {l : Text} (hq : q ≠ '/') (hc : c ≠ '\\')
    (h : LeavesCode (if c == q then none else some q) l) : LeavesCode (some q) (c :: l) where
  clear := by
    rw [findMarker_quoted hc, h.clear]
    rfl
  closed := by rw [quoteAfter_quoted hc, h.closed]
  last := by
    refine getLast?_cons_ne_slash (fun hnil => ?_) h.last
    -- Nothing stands behind this character, so it closes the quotation.
    have hclosed := h.closed
    rw [hnil] at hclosed
    split at hclosed
    · rename_i hquote
      rw [eq_of_beq hquote]
      exact hq
    · cases hclosed

theorem LeavesCode.code {c : Char} {l : Text} (hline : ∀ u, c = '/' → l = '/' :: u → False)
    (hblock : ∀ u, c = '/' → l = '*' :: u → False) (hlast : l = [] → c ≠ '/')
    (h : LeavesCode (if opensQuote c then some c else none) l) : LeavesCode none (c :: l) where
  clear := by
    rw [findMarker_code hline hblock]
    exact congrArg (MarkerScan.cons c) h.clear
  closed := by
    rw [quoteAfter]
    exact h.closed
  last := getLast?_cons_ne_slash hlast h.last

/-- Code goes on behind what stands before a marker: a slash there would have made a marker before. -/
theorem leavesCode_of_findMarker {quote : Option Char} (hquote : IsQuote quote) {l before after : Text}
    {kind : CommentKind} (h : findMarker quote l = .found before kind after) : LeavesCode quote before := by
  fun_induction findMarker quote l generalizing before with
  | case1 => cases h
  | case2 => cases h
  | case3 q c t ih =>
    obtain ⟨_, rfl, h'⟩ := MarkerScan.cons_eq_found h
    obtain ⟨before, rfl, h''⟩ := MarkerScan.cons_eq_found h'
    exact (ih hquote h'').escape
  | case4 q c t hlast hmore ih =>
    obtain ⟨before, rfl, h'⟩ := MarkerScan.cons_eq_found h
    have hslash : q ≠ '/' := by
      rintro rfl
      exact absurd (hquote '/' rfl) (by decide)
    exact .quoted hslash (ne_backslash hlast hmore) (ih (hquote.ite c) h')
  | case5 t =>
    cases h
    exact ⟨rfl, rfl, by simp⟩
  | case6 t =>
    cases h
    exact ⟨rfl, rfl, by simp⟩
  | case7 c t hline hblock ih =>
    obtain ⟨before, rfl, h'⟩ := MarkerScan.cons_eq_found h
    have ht := eq_of_findMarker h'
    have hbegins : ∀ {d : Char}, (∀ v, c = '/' → t = d :: v → False) → ∀ u, c = '/' → before = d :: u → False := by
      rintro d hnot u hc rfl
      exact hnot _ hc ht
    refine .code (hbegins hline) (hbegins hblock) ?_ (ih (isQuote_ite c) h')
    -- Both markers begin with a slash, which would have made a marker with this one.
    rintro rfl rfl
    cases kind with
    | line => exact hline _ rfl ht
    | block => exact hline _ rfl ht

/-! ## Lines without a marker -/

/-- Lines without a marker, the first of which begins in a template or in code, and their marks. -/
inductive Quoted : (inTemplate : Bool) → List Text → List Mark → Prop
  | nil (b : Bool) : Quoted b [] []
  | cons {b b' : Bool} {l : Text} {ls : List Text} {ms : List Mark} (hline : IsLine l)
      (hclear : findMarker (openQuote b) l = .clear b') (h : Quoted b' ls ms) :
    Quoted b (l :: ls) (lineMarks (openQuote b) l ++ ms)

section Quoted

variable {b b' : Bool} {l : Text} {ls : List Text} {ms : List Mark}

/-- A blank line changes nothing. -/
theorem clear_of_isBlank (b : Bool) (h : isBlank l = true) : findMarker (openQuote b) l = .clear b := by
  rw [(clear_of_inert (isQuote_openQuote b) (all_isInert_of_isBlank h)).1]
  cases b <;> rfl

theorem Quoted.of_isBlank (h : Quoted b (l :: ls) ms) (hl : isBlank l = true) : Quoted b ls ms := by
  cases h with
  | cons hline hclear h =>
    rw [clear_of_isBlank b hl] at hclear
    obtain rfl := MarkerScan.clear.inj hclear
    rwa [lineMarks_of_isBlank _ hl]

/-- No line holds a marker. -/
theorem Quoted.templateAfter (h : Quoted b ls ms) : ∃ b', StyleHoist.templateAfter b ls = some b' := by
  induction h with
  | nil b => exact ⟨b, rfl⟩
  | cons hline hclear _ ih =>
    obtain ⟨b', hb'⟩ := ih
    exact ⟨b', by rw [StyleHoist.templateAfter, hclear]; exact hb'⟩

theorem Quoted.isLine (h : Quoted b ls ms) : ∀ l ∈ ls, IsLine l := by
  induction h with
  | nil b => simp
  | cons hline hclear _ ih => exact List.forall_mem_cons.2 ⟨hline, ih⟩

/-- The lines put together have these marks. -/
theorem Quoted.marksFrom (h : Quoted b ls ms) : Lexer.marksFrom (modeOf (openQuote b)) (joinLines ls) = ms := by
  induction h with
  | nil b => cases b <;> rfl
  | @cons b b' l ls ms hline hclear h ih =>
    cases ls with
    | nil =>
      cases h with
      | nil =>
        have hlast := marks_of_clear (Or.inl rfl) hline hclear
        rwa [List.append_nil] at hlast
    | cons k ks =>
      rw [joinLines_cons (List.cons_ne_nil k ks), marks_of_clear (Or.inr ⟨_, rfl⟩) hline hclear, breakMarks, ih]

/-- Code that is kept of a line. -/
theorem Quoted.keepCode {code : Text} (h : Quoted b' ls ms) (hline : IsLine code)
    (hclear : findMarker (openQuote b) code = .clear b') :
    Quoted b (keepCode code ++ ls) (lineMarks (openQuote b) code ++ ms) := by
  cases hblank : isBlank code with
  | true =>
    rw [clear_of_isBlank b hblank] at hclear
    obtain rfl := MarkerScan.clear.inj hclear
    rwa [keepCode_of_isBlank hblank, lineMarks_of_isBlank _ hblank]
  | false =>
    rw [StyleHoist.keepCode, if_neg (by simp [hblank]), ← lineMarks_trimEnd]
    exact .cons (isLine_trimEnd hline) (clear_layout (show isBlank [] = true from rfl) hclear).1 h

/-- Leaving out blank lines takes nothing away. -/
theorem Quoted.collapseBlank (h : Quoted b ls ms) : ∀ c : Bool, Quoted b (collapseBlank c ls) ms := by
  induction h with
  | nil b => exact fun _ => .nil b
  | @cons b b' l ls ms hline hclear h ih =>
    intro c
    rw [StyleHoist.collapseBlank]
    split
    · rename_i hdrop
      have hl : isBlank l = true := (Bool.and_eq_true_iff.1 hdrop).2
      exact (Quoted.cons hline hclear (ih true)).of_isBlank hl
    · exact .cons hline hclear (ih _)

theorem Quoted.of_append_blank {margin : List Text} (hmargin : ∀ l ∈ margin, isBlank l = true) :
    ∀ {ls : List Text} {b : Bool} {ms : List Mark}, Quoted b (ls ++ margin) ms → Quoted b ls ms
  | l :: ls, _, _, .cons hline hclear h => .cons hline hclear (h.of_append_blank hmargin)
  | [], b, ms, h => by
    induction margin with
    | nil => exact h
    | cons l margin ih =>
      obtain ⟨hl, hmargin⟩ := List.forall_mem_cons.1 hmargin
      exact ih hmargin (h.of_isBlank hl)

end Quoted

end Lexer
end StyleHoist
