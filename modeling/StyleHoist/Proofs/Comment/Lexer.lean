import Mathlib.Data.List.Basic
import StyleHoist.Proofs.Comment.Stripping

/-!
# Comments as a lexer sees them

A lexer goes through a body once, character by character. It knows code, quotations, templates and the two kinds of
comments; quotations end at their quote or with their line, templates only at the closing backtick, and a backslash
hides the next character of its line. Taking comments out line by line finds the comments that the lexer sees, each where
it sees it, and leaves the code that it sees (`stripComments_eq_lexer`).

- `run_of_findMarker_clear`, `run_of_findMarker_found`: the scan of a line for a marker is what the lexer does there.
- `run_block`: so is the search for the end of a block.
- `run_strip`: the lexer goes on as the scan does, from every place at which the scan takes up a line.
-/

namespace StyleHoist

open Text Listing

namespace Lexer

/-! ## The lexer -/

/-- A line of a body, and a column or a number of characters in it; lines and columns are counted from 1. -/
structure Spot where
  line : Nat
  column : Nat
deriving DecidableEq, Repr

/-- The place behind a character. -/
def Spot.next (s : Spot) (c : Char) : Spot :=
  if c == '\n' then ⟨s.line + 1, 1⟩ else ⟨s.line, s.column + 1⟩

/-- A comment as a lexer sees it. -/
structure Sighting where
  kind : CommentKind
  /-- What stands between the markers; for a line comment without the blanks around it. -/
  text : Text
  /-- Where the opening marker stands. -/
  start : Spot
  /-- For a block that is not closed on its line: the line on which it ends, and how many characters of that line it
  reaches. -/
  ending : Option Spot
deriving DecidableEq, Repr

/-- What a lexer is inside of. -/
inductive Mode
  | code
  /-- Behind a slash in code, which may open a comment. -/
  | slash
  /-- In a quotation or in a template. -/
  | quoted (quote : Char)
  /-- Behind a backslash in a quotation. -/
  | escaped (quote : Char)
  | lineComment (start : Spot) (text : Text)
  | blockComment (start : Spot) (text : Text)
  /-- Behind a star in a block comment. -/
  | star (start : Spot) (text : Text)
deriving DecidableEq, Repr

/-- What a lexer sees. -/
inductive Piece
  | code (c : Char)
  | comment (s : Sighting)
deriving DecidableEq, Repr

/-- Reads a character of code. -/
def codeStep (c : Char) : Mode × List Piece :=
  if c == '/' then (.slash, []) else (if opensQuote c then .quoted c else .code, [.code c])

/-- What a lexer is inside of behind a character of a quotation that ends nothing by itself: a quotation ends with its
line, a template does not. -/
def quotedOn (quote c : Char) : Mode :=
  if c == '\n' && quote != '\x60' then .code else .quoted quote

/-- Reads a character at a place. -/
def Mode.step (s : Spot) (c : Char) : Mode → Mode × List Piece
  | .code => codeStep c
  | .slash =>
    if c == '/' then (.lineComment ⟨s.line, s.column - 1⟩ [], [])
    else if c == '*' then (.blockComment ⟨s.line, s.column - 1⟩ [], [])
    else ((codeStep c).1, .code '/' :: (codeStep c).2)
  | .quoted q => (if c == '\\' then .escaped q else if c == q then .code else quotedOn q c, [.code c])
  | .escaped q => (quotedOn q c, [.code c])
  | .lineComment start text =>
    if c == '\n' then (.code, [.comment ⟨.line, trim text, start, none⟩, .code c])
    else (.lineComment start (text ++ [c]), [])
  | .blockComment start text =>
    if c == '*' then (.star start text, []) else (.blockComment start (text ++ [c]), [])
  | .star start text =>
    if c == '/' then (.code, [.comment ⟨.block, text, start, if start.line = s.line then none else some s⟩])
    else if c == '*' then (.star start (text ++ ['*']), [])
    else (.blockComment start (text ++ ['*', c]), [])

/-- What the end of the body leaves at a place. -/
def Mode.finish (s : Spot) : Mode → List Piece
  | .slash => [.code '/']
  | .lineComment start text => [.comment ⟨.line, trim text, start, none⟩]
  | .blockComment start text => [.comment ⟨.block, text, start, some ⟨s.line, s.column - 1⟩⟩]
  | .star start text => [.comment ⟨.block, text ++ ['*'], start, some ⟨s.line, s.column - 1⟩⟩]
  | _ => []

/-- What a lexer sees of a text and of its end. -/
def run : Mode → Spot → Text → List Piece
  | m, s, [] => m.finish s
  | m, s, c :: t => (m.step s c).2 ++ run (m.step s c).1 (s.next c) t

/-- What a lexer sees of a body. -/
def piecesOf (body : Text) : List Piece :=
  run .code ⟨1, 1⟩ body

/-- The comment that a piece is. -/
def Piece.comment? : Piece → Option Sighting
  | .comment s => some s
  | .code _ => none

/-- The character of code that a piece is. -/
def Piece.code? : Piece → Option Char
  | .code c => some c
  | .comment _ => none

/-- The comments of a body. -/
def commentsOf (body : Text) : List Sighting :=
  (piecesOf body).filterMap Piece.comment?

/-- The code of a body. -/
def codeOf (body : Text) : Text :=
  (piecesOf body).filterMap Piece.code?

/-! ## Lines -/

/-- The end of a text or of a line. -/
def AtBreak (t : Text) : Prop :=
  t = [] ∨ ∃ u, t = '\n' :: u

/-- What a lexer sees from the end of a line on, being in code or in a template on the next line. -/
def runBreak (inTemplate : Bool) (line : Nat) : Text → List Piece
  | [] => []
  | c :: t => .code c :: run (if inTemplate then .quoted '\x60' else .code) ⟨line + 1, 1⟩ t

/-- What a lexer is inside of where a quote may be open. -/
def modeOf : Option Char → Mode
  | none => .code
  | some q => .quoted q

theorem Spot.next_of_ne {s : Spot} {c : Char} (h : c ≠ '\n') : s.next c = ⟨s.line, s.column + 1⟩ := by
  simp [Spot.next, h]

/-- Behind a slash that opens no comment a lexer is in code. -/
theorem run_slash {t : Text} (s : Spot) (hline : ∀ u, t ≠ '/' :: u) (hblock : ∀ u, t ≠ '*' :: u) :
    run .slash s t = .code '/' :: run .code s t := by
  cases t with
  | nil => rfl
  | cons c t =>
    have hslash : c ≠ '/' := fun h => hline t (h ▸ rfl)
    have hstar : c ≠ '*' := fun h => hblock t (h ▸ rfl)
    simp [run, Mode.step, hslash, hstar]

/-- Quotations end with their line, templates go on. -/
theorem run_modeOf_break (quote : Option Char) (s : Spot) {t : Text} (h : AtBreak t) :
    run (modeOf quote) s t = runBreak (quote == some '\x60') s.line t := by
  rcases h with rfl | ⟨u, rfl⟩
  · cases quote <;> rfl
  · cases quote with
    | none => rfl
    | some q =>
      have hnext : s.next '\n' = ⟨s.line + 1, 1⟩ := rfl
      by_cases htemplate : q = '\x60'
      · subst htemplate
        rfl
      · by_cases hnewline : '\n' = q
        · subst hnewline
          rfl
        · simp [run, modeOf, Mode.step, runBreak, quotedOn, hnewline, htemplate, hnext]

theorem run_escaped_break (q : Char) (s : Spot) {t : Text} (h : AtBreak t) :
    run (.escaped q) s t = runBreak (q == '\x60') s.line t := by
  rcases h with rfl | ⟨u, rfl⟩
  · rfl
  · have hnext : s.next '\n' = ⟨s.line + 1, 1⟩ := rfl
    by_cases htemplate : q = '\x60'
    · subst htemplate
      rfl
    · simp [run, Mode.step, runBreak, quotedOn, htemplate, hnext]

/-- Code that a lexer passes over is what stands there. -/
def codePieces (t : Text) : List Piece :=
  t.map .code

section Marker

variable {tail : Text}

/-- Behind a character of code a lexer is where the scan for a marker is. -/
theorem run_code_cons {c : Char} {t : Text} (s : Spot) (hline : ∀ u, c = '/' → t = '/' :: u → False)
    (hblock : ∀ u, c = '/' → t = '*' :: u → False) (hc : c ≠ '\n') :
    run .code s (c :: t) = .code c ::
      run (modeOf (if c == '\x27' || c == '\x22' || c == '\x60' then some c else none)) ⟨s.line, s.column + 1⟩ t := by
  rw [run, Spot.next_of_ne hc]
  by_cases hslash : c = '/'
  · subst hslash
    have hquote : opensQuote '/' = false := by decide
    simp only [Mode.step, codeStep, beq_self_eq_true, if_true, List.nil_append]
    rw [run_slash _ (fun u hu => hline u rfl hu) (fun u hu => hblock u rfl hu)]
    rfl
  · cases hquote : c == '\x27' || c == '\x22' || c == '\x60' <;>
      simp [Mode.step, codeStep, hslash, opensQuote, hquote, modeOf]

/-- Behind a character of a quotation a lexer is where the scan for a marker is. -/
theorem run_quoted_cons {q c : Char} {t : Text} (s : Spot) (hbackslash : c ≠ '\\') (hc : c ≠ '\n') :
    run (.quoted q) s (c :: t) =
      .code c :: run (modeOf (if c == q then none else some q)) ⟨s.line, s.column + 1⟩ t := by
  rw [run, Spot.next_of_ne hc]
  simp only [Mode.step, beq_iff_eq, hbackslash, if_false, quotedOn, List.singleton_append]
  split <;> simp [modeOf, hc]

/-- A backslash in a quotation hides the next character of the line. -/
theorem run_quoted_escape {q c : Char} {t : Text} (s : Spot) (hc : c ≠ '\n') :
    run (.quoted q) s ('\\' :: c :: t) =
      .code '\\' :: .code c :: run (.quoted q) ⟨s.line, s.column + 2⟩ t := by
  have hbackslash : ('\\' : Char) ≠ '\n' := by decide
  simp [run, Mode.step, quotedOn, Spot.next_of_ne hc, Spot.next_of_ne hbackslash, hc]

/-- What does not follow on a line does not follow behind its end. -/
theorem not_begins {c d e : Char} {t : Text} (htail : AtBreak tail) (he : e ≠ '\n')
    (h : ∀ u, c = d → t = e :: u → False) (u : Text) (hc : c = d) (htext : t ++ tail = e :: u) : False := by
  cases t with
  | cons f t =>
    obtain ⟨rfl, -⟩ := List.cons.inj htext
    exact h t hc rfl
  | nil =>
    rcases htail with rfl | ⟨v, rfl⟩
    · cases htext
    · exact he (List.cons.inj htext).1.symm

/-- Where the scan of a line finds no marker, a lexer sees code only. -/
theorem run_of_findMarker_clear (htail : AtBreak tail) {quote : Option Char} {l : Text} {b : Bool} (hl : IsLine l)
    (h : findMarker quote l = .clear b) (s : Spot) :
    run (modeOf quote) s (l ++ tail) = codePieces l ++ runBreak b s.line tail := by
  fun_induction findMarker quote l generalizing s with
  | case1 quote =>
    obtain rfl := MarkerScan.clear.inj h
    exact run_modeOf_break quote s htail
  | case2 q =>
    obtain rfl := MarkerScan.clear.inj h
    exact congrArg (.code '\\' :: ·) (run_escaped_break q _ htail)
  | case3 q c t ih =>
    obtain ⟨hc, ht⟩ := isLine_cons.1 (isLine_cons.1 hl).2
    have hrest := ih ht (MarkerScan.cons_eq_clear (MarkerScan.cons_eq_clear h)) ⟨s.line, s.column + 2⟩
    rw [modeOf] at hrest ⊢
    rw [List.cons_append, List.cons_append, run_quoted_escape s (Ne.symm hc), hrest]
    rfl
  | case4 q c t hlast hbackslash ih =>
    obtain ⟨hc, ht⟩ := isLine_cons.1 hl
    rw [modeOf, List.cons_append, run_quoted_cons s (ne_backslash hlast hbackslash) (Ne.symm hc), ih ht (MarkerScan.cons_eq_clear h)]
    rfl
  | case5 t => cases h
  | case6 t => cases h
  | case7 c t hline hblock ih =>
    obtain ⟨hc, ht⟩ := isLine_cons.1 hl
    rw [modeOf, List.cons_append, run_code_cons s (not_begins htail (by decide) hline)
      (not_begins htail (by decide) hblock) (Ne.symm hc), ih ht (MarkerScan.cons_eq_clear h)]
    rfl

/-- What a lexer is inside of behind the marker of a comment. -/
def commentMode (start : Spot) : CommentKind → Mode
  | .line => .lineComment start []
  | .block => .blockComment start []

/-- Where the scan of a line finds a marker, a lexer enters a comment. -/
theorem run_of_findMarker_found (htail : AtBreak tail) {quote : Option Char} {l before after : Text}
    {kind : CommentKind} (hl : IsLine l) (h : findMarker quote l = .found before kind after) (s : Spot) :
    run (modeOf quote) s (l ++ tail) = codePieces before ++
      run (commentMode ⟨s.line, s.column + before.length⟩ kind) ⟨s.line, s.column + before.length + 2⟩
        (after ++ tail) := by
  fun_induction findMarker quote l generalizing s before with
  | case1 => cases h
  | case2 => cases h
  | case3 q c t ih =>
    obtain ⟨hc, ht⟩ := isLine_cons.1 (isLine_cons.1 hl).2
    obtain ⟨_, rfl, h'⟩ := MarkerScan.cons_eq_found h
    obtain ⟨before, rfl, h''⟩ := MarkerScan.cons_eq_found h'
    have hrest := ih ht h'' ⟨s.line, s.column + 2⟩
    rw [modeOf] at hrest ⊢
    rw [List.cons_append, List.cons_append, run_quoted_escape s (Ne.symm hc), hrest]
    simp [codePieces, Nat.add_assoc, Nat.add_comm 2]
  | case4 q c t hlast hbackslash ih =>
    obtain ⟨hc, ht⟩ := isLine_cons.1 hl
    obtain ⟨before, rfl, h'⟩ := MarkerScan.cons_eq_found h
    rw [modeOf, List.cons_append, run_quoted_cons s (ne_backslash hlast hbackslash) (Ne.symm hc), ih ht h']
    simp [codePieces, Nat.add_assoc, Nat.add_comm 1]
  | case5 t =>
    cases h
    rfl
  | case6 t =>
    cases h
    rfl
  | case7 c t hline hblock ih =>
    obtain ⟨hc, ht⟩ := isLine_cons.1 hl
    obtain ⟨before, rfl, h'⟩ := MarkerScan.cons_eq_found h
    rw [modeOf, List.cons_append, run_code_cons s (not_begins htail (by decide) hline)
      (not_begins htail (by decide) hblock) (Ne.symm hc), ih ht h']
    simp [codePieces, Nat.add_assoc, Nat.add_comm 1]

end Marker

/-! ## Comments -/

/-- A line comment takes the rest of its line. -/
theorem run_lineComment {tail : Text} (htail : AtBreak tail) (start : Spot) : ∀ {l : Text} (x : Text) (s : Spot),
    IsLine l → run (.lineComment start x) s (l ++ tail) =
      .comment ⟨.line, trim (x ++ l), start, none⟩ :: runBreak false s.line tail
  | [], x, s, _ => by
    rcases htail with rfl | ⟨u, rfl⟩
    · simp [run, Mode.finish, runBreak]
    · simp [run, Mode.step, runBreak, Spot.next]
  | c :: l, x, s, h => by
    obtain ⟨hc, hl⟩ := isLine_cons.1 h
    rw [List.cons_append, run, Spot.next_of_ne (Ne.symm hc)]
    simp only [Mode.step, beq_iff_eq, Ne.symm hc, if_false, List.nil_append]
    rw [run_lineComment htail start _ _ hl, List.append_assoc, List.singleton_append]

/-- The place behind a text. -/
def Spot.after (s : Spot) (t : Text) : Spot :=
  t.foldl Spot.next s

theorem Spot.after_of_isLine : ∀ {l : Text} (s : Spot), IsLine l → s.after l = ⟨s.line, s.column + l.length⟩
  | [], _, _ => rfl
  | c :: l, s, h => by
    obtain ⟨hc, hl⟩ := isLine_cons.1 h
    rw [Spot.after, List.foldl_cons, Spot.next_of_ne (Ne.symm hc)]
    exact (Spot.after_of_isLine _ hl).trans (by simp [Nat.add_assoc, Nat.add_comm 1])

theorem Spot.after_append (s : Spot) (t u : Text) : s.after (t ++ u) = (s.after t).after u :=
  List.foldl_append

/-- Lines with a newline before each end on the last of them. -/
theorem Spot.after_lines {ls : List Text} (h : ∀ l ∈ ls, IsLine l) {last : Text} (hlast : IsLine last) (s : Spot) :
    s.after (ls.flatMap ('\n' :: ·) ++ '\n' :: last) = ⟨s.line + ls.length + 1, last.length + 1⟩ := by
  induction ls generalizing s with
  | nil =>
    have hnewline : s.after ('\n' :: last) = Spot.after ⟨s.line + 1, 1⟩ last := rfl
    rw [List.flatMap_nil, List.nil_append, hnewline, Spot.after_of_isLine _ hlast, Nat.add_comm 1]
    rfl
  | cons l ls ih =>
    obtain ⟨hl, hls⟩ := List.forall_mem_cons.1 h
    have hnewline : s.after ('\n' :: l) = Spot.after ⟨s.line + 1, 1⟩ l := rfl
    rw [List.flatMap_cons, List.append_assoc, Spot.after_append, hnewline, Spot.after_of_isLine _ hl, ih hls]
    simp [Nat.add_assoc, Nat.add_comm 1]

section Block

variable (start : Spot)

/-- A block comment ends at the first closing marker. -/
theorem run_block (tail : Text) : ∀ (inner x : Text) (s : Spot),
    (¬blockClose <:+: inner → run (.blockComment start x) s (inner ++ blockClose ++ tail) =
      .comment ⟨.block, x ++ inner, start,
          if start.line = (s.after inner).line then none else some ((s.after inner).next '*')⟩
        :: run .code (((s.after inner).next '*').next '/') tail) ∧
    (¬blockClose <:+: '*' :: inner → run (.star start x) s (inner ++ blockClose ++ tail) =
      .comment ⟨.block, x ++ '*' :: inner, start,
          if start.line = (s.after inner).line then none else some ((s.after inner).next '*')⟩
        :: run .code (((s.after inner).next '*').next '/') tail)
  | [], x, s => by
    constructor <;> intro _ <;> simp [blockClose_eq, run, Mode.step, Spot.after] <;> rfl
  | c :: inner, x, s => by
    have htail : ∀ {t : Text} {d : Char}, ¬blockClose <:+: d :: t → ¬blockClose <:+: t :=
      fun h hs => h (hs.trans (List.suffix_cons _ _).isInfix)
    have hafter : s.after (c :: inner) = (s.next c).after inner := rfl
    constructor
    · intro h
      rw [List.cons_append, List.cons_append, run, hafter]
      by_cases hc : c = '*'
      · subst hc
        exact (run_block tail inner x (s.next '*')).2 h
      · simp only [Mode.step, beq_iff_eq, hc, if_false, List.nil_append]
        rw [(run_block tail inner (x ++ [c]) (s.next c)).1 (htail h), List.append_assoc, List.singleton_append]
    · intro h
      have hslash : c ≠ '/' := by
        rintro rfl
        exact h (List.prefix_append blockClose inner).isInfix
      rw [List.cons_append, List.cons_append, run, hafter]
      by_cases hc : c = '*'
      · subst hc
        have hrest := (run_block tail inner (x ++ ['*']) (s.next '*')).2 (htail h)
        simpa [Mode.step] using hrest
      · simp only [Mode.step, beq_iff_eq, hslash, hc, if_false, List.nil_append]
        rw [(run_block tail inner (x ++ ['*', c]) (s.next c)).1 (htail (htail h))]
        simp

/-- A block comment that is not closed takes the rest of the text. -/
theorem run_unclosed : ∀ (t x : Text) (s : Spot),
    (¬blockClose <:+: t → run (.blockComment start x) s t =
      [.comment ⟨.block, x ++ t, start, some ⟨(s.after t).line, (s.after t).column - 1⟩⟩]) ∧
    (¬blockClose <:+: '*' :: t → run (.star start x) s t =
      [.comment ⟨.block, x ++ '*' :: t, start, some ⟨(s.after t).line, (s.after t).column - 1⟩⟩])
  | [], x, s => by
    constructor <;> intro _ <;> simp [run, Mode.finish, Spot.after]
  | c :: t, x, s => by
    have htail : ∀ {t : Text} {d : Char}, ¬blockClose <:+: d :: t → ¬blockClose <:+: t :=
      fun h hs => h (hs.trans (List.suffix_cons _ _).isInfix)
    have hafter : s.after (c :: t) = (s.next c).after t := rfl
    constructor
    · intro h
      rw [run, hafter]
      by_cases hc : c = '*'
      · subst hc
        exact (run_unclosed t x (s.next '*')).2 h
      · simp only [Mode.step, beq_iff_eq, hc, if_false, List.nil_append]
        rw [(run_unclosed t (x ++ [c]) (s.next c)).1 (htail h), List.append_assoc, List.singleton_append]
    · intro h
      have hslash : c ≠ '/' := by
        rintro rfl
        exact h (List.prefix_append blockClose t).isInfix
      rw [run, hafter]
      by_cases hc : c = '*'
      · subst hc
        have hrest := (run_unclosed t (x ++ ['*']) (s.next '*')).2 (htail h)
        simpa [Mode.step] using hrest
      · simp only [Mode.step, beq_iff_eq, hslash, hc, if_false, List.nil_append]
        rw [(run_unclosed t (x ++ ['*', c]) (s.next c)).1 (htail (htail h))]
        simp

end Block

/-! ## What a scan and a lexer agree on -/

/-- The characters of a text that are no white space. -/
def solid (t : Text) : Text :=
  t.filter fun c => !isBlankChar c

theorem solid_append (s t : Text) : solid (s ++ t) = solid s ++ solid t :=
  List.filter_append s t

theorem solid_of_isBlank {t : Text} (h : isBlank t = true) : solid t = [] := by
  simpa [solid, isBlank] using h

theorem solid_trimEnd (t : Text) : solid (trimEnd t) = solid t := by
  obtain ⟨margin, ht, hmargin⟩ := trimEnd_append_blank t
  conv => rhs; rw [ht, solid_append, solid_of_isBlank hmargin, List.append_nil]

theorem solid_trim (t : Text) : solid (trim t) = solid t := by
  rw [trim, solid_trimEnd]
  conv => rhs; rw [← takeWhile_append_trimStart t, solid_append, solid_of_isBlank List.all_takeWhile, List.nil_append]

/-- Blank code is dropped, and blanks at the end of code. -/
theorem solid_keepCode (code : Text) : solid (keepCode code).flatten = solid code := by
  unfold keepCode
  split
  · rename_i hblank
    rw [solid_of_isBlank hblank]
    rfl
  · simp [solid_trimEnd]

theorem solid_joinWith {sep : Text} (hsep : isBlank sep = true) : ∀ ts : List Text,
    solid (joinWith sep ts) = solid ts.flatten
  | [] => rfl
  | [t] => by simp [joinWith]
  | t :: u :: ts => by
    have hjoin : joinWith sep (t :: u :: ts) = t ++ sep ++ joinWith sep (u :: ts) := rfl
    rw [hjoin, List.flatten_cons, solid_append, solid_append, solid_append, solid_of_isBlank hsep,
      solid_joinWith hsep (u :: ts), List.append_nil]

theorem solid_joinLines (ls : List Text) : solid (joinLines ls) = solid ls.flatten :=
  solid_joinWith (by decide) ls

theorem solid_collapseBlank : ∀ (b : Bool) (ls : List Text), solid (collapseBlank b ls).flatten = solid ls.flatten
  | _, [] => rfl
  | b, l :: ls => by
    simp only [collapseBlank]
    split
    · rename_i h
      have hblank : isBlank l = true := (Bool.and_eq_true_iff.1 h).2
      rw [solid_collapseBlank, List.flatten_cons, solid_append, solid_of_isBlank hblank, List.nil_append]
    · rw [List.flatten_cons, List.flatten_cons, solid_append, solid_append, solid_collapseBlank]

theorem solid_dropWhile_blank (ls : List Text) :
    solid (ls.reverse.dropWhile isBlank).reverse.flatten = solid ls.flatten := by
  have hsplit := congrArg List.reverse (List.takeWhile_append_dropWhile (p := isBlank) (l := ls.reverse))
  have hblank : isBlank (ls.reverse.takeWhile isBlank).reverse.flatten = true := by
    have hall := List.all_takeWhile (p := isBlank) (l := ls.reverse)
    simp only [isBlank, List.all_eq_true, List.mem_flatten, List.mem_reverse] at hall ⊢
    rintro c ⟨l, hl, hc⟩
    exact hall l hl c hc
  rw [List.reverse_append, List.reverse_reverse] at hsplit
  conv => rhs; rw [← hsplit, List.flatten_append, solid_append, solid_of_isBlank hblank, List.append_nil]

/-- Tidying the lines of a body only touches white space. -/
theorem solid_tidy (kept : List Text) : solid (tidy kept) = solid kept.flatten := by
  rw [tidy, solid_joinLines, solid_dropWhile_blank, solid_collapseBlank]

end Lexer

/-- A comment as a lexer sees it. -/
def Comment.sighting (c : Comment) : Lexer.Sighting :=
  ⟨c.kind, c.text, ⟨c.line, c.column⟩, c.ending.map fun e => ⟨e.1, e.2⟩⟩

namespace Lexer

/-- What a lexer sees from some place on is what a scan keeps and finds from there on, `code` being the code that the
scan has taken from the line so far. -/
structure Agrees (code : Text) (pieces : List Piece) (kept : List Text) (comments : List Comment) : Prop where
  comments : pieces.filterMap Piece.comment? = comments.map Comment.sighting
  code : solid code ++ solid (pieces.filterMap Piece.code?) = solid kept.flatten

section Agrees

variable {code : Text} {pieces : List Piece} {kept : List Text} {comments : List Comment}

theorem agrees_nil : Agrees [] [] [] [] :=
  ⟨rfl, rfl⟩

/-- Of the code up to some place a part may be kept; the rest is taken along. -/
theorem Agrees.append (h : Agrees code pieces kept comments) (code' before : Text) (kept' : List Text)
    (hkept : solid kept'.flatten ++ solid code = solid (code' ++ before)) :
    Agrees code' (codePieces before ++ pieces) (kept' ++ kept) comments where
  comments := by
    have hnone : (codePieces before).filterMap Piece.comment? = [] := by
      simp [codePieces, Piece.comment?, Function.comp_def]
    rw [List.filterMap_append, hnone, List.nil_append, h.comments]
  code := by
    have hcode : (codePieces before).filterMap Piece.code? = before := by
      simp [codePieces, Piece.code?, Function.comp_def]
    rw [List.filterMap_append, hcode, solid_append, ← List.append_assoc, ← solid_append, ← hkept, List.append_assoc,
      h.code, ← solid_append, ← List.flatten_append]

theorem Agrees.comment (h : Agrees code pieces kept comments) {s : Sighting} {c : Comment} (hs : s = c.sighting) :
    Agrees code (.comment s :: pieces) kept (c :: comments) where
  comments := by rw [List.filterMap_cons, List.map_cons, ← h.comments, hs]; rfl
  code := h.code

end Agrees

/-! ## The scan of a body -/

theorem atBreak_linesBehind (lines : List Text) (n : Nat) : AtBreak (linesBehind lines n) := by
  unfold AtBreak linesBehind
  cases lines.drop (n + 1) with
  | nil => exact Or.inl rfl
  | cons l ls => exact Or.inr ⟨_, rfl⟩

/-- The place behind a body. -/
theorem Spot.after_linesBehind {lines : List Text} (hlines : ∀ l ∈ lines, IsLine l) {n : Nat} (done rest : Text)
    (hn : lines[n]? = some (done ++ rest)) : Spot.after ⟨n + 1, done.length + 1⟩ (rest ++ linesBehind lines n) =
      ⟨n + (lines.drop (n + 1)).length + 1, (lines[n + (lines.drop (n + 1)).length]?.getD []).length + 1⟩ := by
  rw [Spot.after_append, Spot.after_of_isLine _ (isLine_rest hlines hn)]
  rcases List.eq_nil_or_concat' (lines.drop (n + 1)) with hnil | ⟨ls, last, hlast⟩
  · simp [linesBehind, hnil, hn, Spot.after, Nat.add_right_comm]
  · obtain ⟨hget, hbehind⟩ := linesBehind_of_drop hlast
    have hls : ∀ l ∈ ls ++ [last], IsLine l := fun l hl => hlines l (List.mem_of_mem_drop (hlast ▸ hl))
    have hall : linesBehind lines n = ls.flatMap ('\n' :: ·) ++ '\n' :: last := by simp [linesBehind, hlast]
    rw [hall, Spot.after_lines (fun l hl => hls l (List.mem_append_left _ hl)) (hls last (by simp)), hlast]
    simp [hget, Nat.add_right_comm, Nat.add_assoc]

/-- Behind the end of a line a lexer is at the next one. -/
theorem runBreak_linesBehind {lines : List Text} {n : Nat} {l : Text} (b : Bool) (h : lines[n + 1]? = some l) :
    runBreak b (n + 1) (linesBehind lines n) = .code '\n' ::
      run (modeOf (openQuote b)) ⟨n + 1 + 1, 0 + 1⟩ (l ++ linesBehind lines (n + 1)) := by
  have hmode : (if b then Mode.quoted '\x60' else .code) = modeOf (openQuote b) := by
    cases b <;> rfl
  rw [linesBehind_of_some h, List.cons_append, runBreak, hmode]

/-- Where the scan takes up the next line. -/
theorem agrees_nextLine {lines : List Text} {n : Nat} {b : Bool}
    (hnext : ∀ l, lines[n + 1]? = some l → Agrees []
      (run (modeOf (openQuote b)) ⟨n + 1 + 1, 0 + 1⟩ (l ++ linesBehind lines (n + 1)))
      (strip lines (n + 1) [] [] l b).1 (strip lines (n + 1) [] [] l b).2) :
    Agrees [] (runBreak b (n + 1) (linesBehind lines n)) (stripLines lines (n + 1) b).1
      (stripLines lines (n + 1) b).2 := by
  cases hl : lines[n + 1]? with
  | none =>
    rw [linesBehind_of_none hl, stripLines, hl]
    exact agrees_nil
  | some l =>
    have hnewline : solid ([] ++ ['\n']) = [] := by decide
    rw [runBreak_linesBehind b hl, stripLines, hl]
    exact (hnext l hl).append [] ['\n'] [] hnewline.symm

section Blocks

variable {lines : List Text} {n column : Nat} {after inner rest' : Text}

/-- A block that is closed on its line. -/
theorem run_closed (tail : Text) (hinner : ¬blockClose <:+: inner) (hline : IsLine inner) :
    run (.blockComment ⟨n, column⟩ []) ⟨n, column + 2⟩ (inner ++ blockClose ++ tail) =
      .comment ⟨.block, inner, ⟨n, column⟩, none⟩ :: run .code ⟨n, column + 2 + inner.length + 2⟩ tail := by
  rw [(run_block _ tail inner _ _).1 hinner, Spot.after_of_isLine _ hline, if_pos rfl]
  rfl

/-- A block that ends on a later line takes up lines to the first closing marker. -/
theorem append_linesBehind_of_drop {inside outside : List Text} (hopen : ¬blockClose <:+: after)
    (hdrop : lines.drop (n + 1) = inside ++ (inner ++ blockClose ++ rest') :: outside)
    (hinside : ∀ l ∈ inside, ¬blockClose <:+: l) (hinner : ¬blockClose <:+: inner) :
    ¬blockClose <:+: after ++ (inside.flatMap ('\n' :: ·) ++ '\n' :: inner) ∧
      after ++ linesBehind lines n = after ++ (inside.flatMap ('\n' :: ·) ++ '\n' :: inner) ++ blockClose ++
        (rest' ++ linesBehind lines (n + (inside.length + 1))) := by
  have hall : ∀ l ∈ inside ++ [inner], ¬blockClose <:+: l := by simpa [or_imp, forall_and] using ⟨hinside, hinner⟩
  constructor
  · simpa using not_infix_lines hopen hall
  · rw [(linesBehind_of_drop hdrop).2]
    simp

/-- A block that ends on a later line. -/
theorem run_open (hlines : ∀ l ∈ lines, IsLine l) {inside outside : List Text} (hafter : IsLine after)
    (hopen : ¬blockClose <:+: after) (hdrop : lines.drop (n + 1) = inside ++ (inner ++ blockClose ++ rest') :: outside)
    (hinside : ∀ l ∈ inside, ¬blockClose <:+: l) (hinner : ¬blockClose <:+: inner) :
    run (.blockComment ⟨n + 1, column⟩ []) ⟨n + 1, column + 2⟩ (after ++ linesBehind lines n) =
      .comment ⟨.block, after ++ (inside.flatMap ('\n' :: ·) ++ '\n' :: inner), ⟨n + 1, column⟩,
          some ⟨n + (inside.length + 1) + 1, (inner ++ blockClose).length⟩⟩
        :: run .code ⟨n + (inside.length + 1) + 1, (inner ++ blockClose).length + 1⟩
          (rest' ++ linesBehind lines (n + (inside.length + 1))) := by
  have hmem : ∀ l ∈ inside ++ (inner ++ blockClose ++ rest') :: outside, IsLine l := fun l hl =>
    hlines l (List.mem_of_mem_drop (hdrop ▸ hl))
  have hinnerLine : IsLine inner := fun hm => hmem _ (List.mem_append_right _ List.mem_cons_self) (by simp [hm])
  obtain ⟨htext, hsplit⟩ := append_linesBehind_of_drop hopen hdrop hinside hinner
  have hend : Spot.after ⟨n + 1, column + 2⟩ (after ++ (inside.flatMap ('\n' :: ·) ++ '\n' :: inner)) =
      ⟨n + (inside.length + 1) + 1, inner.length + 1⟩ := by
    rw [Spot.after_append, Spot.after_of_isLine _ hafter,
      Spot.after_lines (fun l hl => hmem l (List.mem_append_left _ hl)) hinnerLine]
    simp only [Nat.add_assoc, Nat.add_comm 1]
  have hlater : n + 1 ≠ n + (inside.length + 1) + 1 := by omega
  rw [hsplit, (run_block _ _ _ _ _).1 htext, hend, if_neg hlater, List.length_append]
  rfl

/-- A block that is not closed. -/
theorem run_endless (hlines : ∀ l ∈ lines, IsLine l) {before : Text} (hn : lines[n]? = some (before ++ after))
    (hopen : ¬blockClose <:+: after) (hbehind : ∀ l ∈ lines.drop (n + 1), ¬blockClose <:+: l) (start : Spot) :
    run (.blockComment start []) ⟨n + 1, before.length + 1⟩ (after ++ linesBehind lines n) =
      [.comment ⟨.block, after ++ linesBehind lines n, start, some ⟨n + (lines.drop (n + 1)).length + 1,
        (lines[n + (lines.drop (n + 1)).length]?.getD []).length⟩⟩] := by
  have htext : ¬blockClose <:+: after ++ linesBehind lines n := not_infix_lines hopen hbehind
  rw [(run_unclosed _ _ _ _).1 htext, Spot.after_linesBehind hlines _ _ hn]
  rfl

end Blocks

/-- The lexer goes on as the scan does from a place at which the scan takes up a line. Of the line `done` has been
scanned, and `code` is what is kept of that. -/
def GoesAlong (lines : List Text) (n : Nat) (done code rest : Text) (b : Bool) : Prop :=
  lines[n]? = some (done ++ rest) → (done = [] → code = []) →
    Agrees code (run (modeOf (openQuote b)) ⟨n + 1, done.length + 1⟩ (rest ++ linesBehind lines n))
      (strip lines n done code rest b).1 (strip lines n done code rest b).2

section Strip

variable {lines : List Text} {n : Nat} {b : Bool}

theorem GoesAlong.nextLine (h : ∀ l, lines[n + 1]? = some l → GoesAlong lines (n + 1) [] [] l b) :
    Agrees [] (runBreak b (n + 1) (linesBehind lines n)) (stripLines lines (n + 1) b).1
      (stripLines lines (n + 1) b).2 :=
  agrees_nextLine fun l hl => h l hl hl fun _ => rfl

theorem solid_keepCode_append (code : Text) : solid (keepCode code).flatten ++ solid [] = solid code := by
  rw [solid_keepCode]
  exact List.append_nil _

/-- At a marker that the scan finds in the rest of a line the lexer enters a comment. -/
theorem run_of_found (hlines : ∀ l ∈ lines, IsLine l) {done rest before after : Text} {kind : CommentKind}
    (hn : lines[n]? = some (done ++ rest)) (hfind : findMarker (openQuote b) rest = .found before kind after) :
    IsLine after ∧ lines[n]? = some (done ++ before ++ kind.marker ++ after) ∧
      run (modeOf (openQuote b)) ⟨n + 1, done.length + 1⟩ (rest ++ linesBehind lines n) = codePieces before ++
        run (commentMode ⟨n + 1, (done ++ before).length + 1⟩ kind) ⟨n + 1, (done ++ before).length + 1 + 2⟩
          (after ++ linesBehind lines n) := by
  have hrest := isLine_rest hlines hn
  refine ⟨isLine_of_suffix (suffix_of_findMarker hfind) hrest, ?_, ?_⟩
  · rw [hn, eq_of_findMarker hfind]
    simp
  · rw [run_of_findMarker_found (atBreak_linesBehind lines n) hrest hfind, List.length_append, Nat.add_right_comm]

/-- The place behind a block on a line. -/
theorem length_block (t inner : Text) :
    (t ++ "/*".toList ++ inner ++ blockClose).length + 1 = t.length + 1 + 2 + inner.length + 2 := by
  simp [blockClose_eq]
  omega

/-- The place behind the marker of a comment. -/
theorem length_marker (t : Text) : (t ++ CommentKind.block.marker).length + 1 = t.length + 1 + 2 := by
  rw [List.length_append, Nat.add_right_comm]
  rfl

/-- **The lexer goes on as the scan does, from every place at which the scan takes up a line.** -/
theorem run_strip (hlines : ∀ l ∈ lines, IsLine l) (done code rest : Text) (b : Bool)
    (hn : lines[n]? = some (done ++ rest)) (hcode : done = [] → code = []) :
    Agrees code (run (modeOf (openQuote b)) ⟨n + 1, done.length + 1⟩ (rest ++ linesBehind lines n))
      (strip lines n done code rest b).1 (strip lines n done code rest b).2 := by
  refine strip_induction lines (motive := GoesAlong lines) ?_ ?_ ?_ ?_ ?_ n done code rest b hn hcode
  · intro n done code rest b b' hfind hnext hn hcode
    rw [strip_clear hfind, run_of_findMarker_clear (atBreak_linesBehind lines n) (isLine_rest hlines hn) hfind]
    refine (GoesAlong.nextLine hnext).append _ _ _ ?_
    split
    · rename_i hdone
      simp [hcode (List.isEmpty_iff.1 hdone), solid]
    · exact solid_keepCode_append _
  · intro n done code rest b before after hfind hnext hn _
    obtain ⟨hafter, -, hrun⟩ := run_of_found hlines hn hfind
    rw [hrun, strip_line hfind, commentMode, run_lineComment (atBreak_linesBehind lines n) _ _ _ hafter,
      List.nil_append]
    refine Agrees.append (Agrees.comment (GoesAlong.nextLine hnext) ?_) code before _ (solid_keepCode_append _)
    rfl
  · intro n done code rest b before inner rest' hinner hfind hnext hn _
    obtain ⟨hafter, hline, hrun⟩ := run_of_found hlines hn hfind
    have hinnerLine : IsLine inner := fun hm => hafter (by simp [hm])
    have hbehind := hnext (by rw [hline]; simp [CommentKind.marker]) (by simp [blockClose_eq])
    rw [length_block] at hbehind
    rw [hrun, strip_block hfind (splitOn?_blockClose rest' hinner), commentMode, List.append_assoc _ rest',
      run_closed _ hinner hinnerLine]
    refine Agrees.append (Agrees.comment hbehind ?_) code before [] rfl
    rfl
  · intro n done code rest b before after inside inner rest' outside hfind hopen hdrop hinside hinner hnext hn _
    obtain ⟨hafter, -, hrun⟩ := run_of_found hlines hn hfind
    have hbehind := hnext (linesBehind_of_drop hdrop).1 fun _ => rfl
    rw [hrun, strip_open hfind (splitOn?_eq_none hopen) hdrop hinside hinner, commentMode,
      run_open hlines hafter hopen hdrop hinside hinner]
    refine Agrees.append (Agrees.comment hbehind ?_) code before _ (solid_keepCode_append _)
    rfl
  · intro n done code rest b before after hfind hopen hall hn _
    obtain ⟨-, hline, hrun⟩ := run_of_found hlines hn hfind
    rw [hrun, strip_unclosed hfind (splitOn?_eq_none hopen) hall, commentMode, ← length_marker,
      run_endless hlines hline hopen hall, ← List.append_nil (keepCode (code ++ before))]
    refine Agrees.append (Agrees.comment agrees_nil ?_) code before _ (solid_keepCode_append _)
    rfl

end Strip

end Lexer

/-- **Taking comments out finds the comments that a lexer sees and leaves the code that it sees, up to white space.** -/
theorem stripComments_eq_lexer (body : Text) :
    (stripComments body).comments.map Comment.sighting = Lexer.commentsOf body ∧
      Lexer.solid (stripComments body).cleaned = Lexer.solid (Lexer.codeOf body) := by
  obtain ⟨l, ls, hls⟩ := List.exists_cons_of_ne_nil (splitLines_ne_nil body)
  have hfirst : (splitLines body)[0]? = some l := by rw [hls]; rfl
  have hagrees := Lexer.run_strip (fun _ hl => isLine_of_mem_splitLines hl) [] [] l false hfirst fun _ => rfl
  have hlines : stripLines (splitLines body) 0 false = strip (splitLines body) 0 [] [] l false := by
    rw [stripLines, hfirst]
  rw [append_linesBehind hls, ← hlines] at hagrees
  rw [stripComments_eq]
  exact ⟨hagrees.comments.symm, (Lexer.solid_tidy _).trans hagrees.code.symm⟩

end StyleHoist
