import StyleHoist.Proofs.Comment.Notation
import StyleHoist.Proofs.Text.Place

/-!
# The literals of a script

A reader collects the quotations and the templates of a script. An expression that a template is filled with is code, so
such a template is several pieces: up to the first expression, between two of them, and behind the last. Regular
expressions and the text between markup tags are read as if they were code.

Outside of literals the layout of lines does not matter: blanks around a line, a comma behind it, and comments leave the
reader where it is, and it collects nothing of them.

- `read_append`: a reader that stops can be sent on.
- `read_layout`: lines that end outside of literals may be laid out in any way.
- `shifted_layout`: lines that are indented have the same literals only if none of them ends within one.
- `read_trailing`, `read_standalone`: comments that are put back, behind code or on lines of their own.
-/

namespace StyleHoist
namespace Literals

open Text Listing

/-! ## The reader -/

/-- What a reader is inside of. -/
inductive Mode
  | code
  /-- Behind a slash in code, which may open a comment. -/
  | slash
  /-- In a literal, of which `text` has been read. -/
  | literal (quote : Quote) (text : Text)
  /-- Behind a backslash in a literal. -/
  | escaped (quote : Quote) (text : Text)
  /-- Behind a dollar sign in a template, which may open an expression. -/
  | dollar (text : Text)
  | lineComment
  | blockComment
  /-- Behind a star in a block comment. -/
  | star
deriving DecidableEq

/-- Where a reader is: what it is inside of, and for each template around it, from the innermost on, how many braces are
open in the expression that the template is filled with. -/
structure Reader where
  mode : Mode
  braces : List Nat
deriving DecidableEq

/-- A reader before a script. -/
def start : Reader := ⟨.code, []⟩

def backtick : Quote := ⟨'\x60', rfl⟩

/-- Opens a brace in code. -/
def openBrace : List Nat → List Nat
  | [] => []
  | n :: ns => (n + 1) :: ns

/-- Closes a brace in code. If none is open that the expression has opened, the template goes on. -/
def closeBrace : List Nat → Reader
  | [] => ⟨.code, []⟩
  | 0 :: ns => ⟨.literal backtick ['\x7d'], ns⟩
  | (n + 1) :: ns => ⟨.code, n :: ns⟩

/-- Reads a character of code. -/
def codeStep (braces : List Nat) (c : Char) : Reader :=
  if h : opensQuote c = true then ⟨.literal ⟨c, h⟩ [c], braces⟩
  else if c == '/' then ⟨.slash, braces⟩
  else if c == '\x7b' then ⟨.code, openBrace braces⟩
  else if c == '\x7d' then closeBrace braces
  else ⟨.code, braces⟩

/-- Reads a character of a literal, and collects the literal if it is the last. -/
def literalStep (braces : List Nat) (quote : Quote) (text : Text) (c : Char) : Reader × List Text :=
  if c == '\\' then (⟨.escaped quote (text ++ [c]), braces⟩, [])
  else if c == quote.1 then (⟨.code, braces⟩, [text ++ [c]])
  else (⟨if c == '$' && quote.1 == '\x60' then .dollar (text ++ [c]) else .literal quote (text ++ [c]), braces⟩, [])

/-- Reads a character of a block comment that does not close it. -/
def blockStep (c : Char) : Mode :=
  if c == '*' then .star else .blockComment

/-- Reads one character. -/
def Reader.step : Reader → Char → Reader × List Text
  | ⟨.code, braces⟩, c => (codeStep braces c, [])
  | ⟨.slash, braces⟩, c =>
    (if c == '/' then ⟨.lineComment, braces⟩ else if c == '*' then ⟨.blockComment, braces⟩ else codeStep braces c, [])
  | ⟨.literal quote text, braces⟩, c => literalStep braces quote text c
  | ⟨.escaped quote text, braces⟩, c => (⟨.literal quote (text ++ [c]), braces⟩, [])
  | ⟨.dollar text, braces⟩, c =>
    if c == '\x7b' then (⟨.code, 0 :: braces⟩, [text ++ [c]]) else literalStep braces backtick text c
  | ⟨.lineComment, braces⟩, c => (⟨if Script.isLineEnd c then .code else .lineComment, braces⟩, [])
  | ⟨.blockComment, braces⟩, c => (⟨blockStep c, braces⟩, [])
  | ⟨.star, braces⟩, c => (⟨if c == '/' then .code else blockStep c, braces⟩, [])

/-- Reads a text: where the reader is behind it, and the literals that it has collected. -/
def Reader.read : Reader → Text → Reader × List Text
  | r, [] => (r, [])
  | r, c :: t => (((r.step c).1.read t).1, (r.step c).2 ++ ((r.step c).1.read t).2)

/-- The literals of a text, in order. -/
def literalsOf (t : Text) : List Text :=
  (start.read t).2

example : literalsOf "a: 'x\\'y' /* 'z' */ + \x60b$\x7bf(\x7b c: \x22\x22 \x7d)\x7d\\$\x7b\x60".toList =
    ["'x\\'y'".toList, "\x60b$\x7b".toList, "\x22\x22".toList, "\x7d\\$\x7b\x60".toList] := by decide +kernel

@[simp] theorem read_nil (r : Reader) : r.read [] = (r, []) := rfl

theorem read_cons (r : Reader) (c : Char) (t : Text) :
    r.read (c :: t) = (((r.step c).1.read t).1, (r.step c).2 ++ ((r.step c).1.read t).2) := rfl

/-- A reader that stops can be sent on. -/
theorem read_append (r : Reader) (s t : Text) :
    r.read (s ++ t) = (((r.read s).1.read t).1, (r.read s).2 ++ ((r.read s).1.read t).2) := by
  induction s generalizing r with
  | nil => rfl
  | cons c s ih => simp only [List.cons_append, read_cons, ih, List.append_assoc]

/-- What is read in the same way may be put in front of a text. -/
theorem read_append_congr {r : Reader} {s s' : Text} (h : r.read s = r.read s') (t : Text) :
    r.read (s ++ t) = r.read (s' ++ t) := by
  rw [read_append, h, ← read_append]

/-- What leads nowhere may be left out. -/
theorem read_append_of {r r' : Reader} {s : Text} (h : r.read s = (r', [])) (t : Text) :
    r.read (s ++ t) = r'.read t := by
  rw [read_append, h]
  rfl

/-! ## Inside of literals -/

/-- The quote that ends the literal that a reader is inside of. -/
def Mode.quote? : Mode → Option Quote
  | .literal quote _ | .escaped quote _ => some quote
  | .dollar _ => some backtick
  | _ => none

theorem literalStep_blank {c : Char} (h : isBlankChar c = true) (braces : List Nat) (quote : Quote) (text : Text) :
    literalStep braces quote text c = (⟨.literal quote (text ++ [c]), braces⟩, []) := by
  simp [literalStep, ne_of_isBlankChar (d := '\\') h (by decide), quote_ne_blank quote h,
    ne_of_isBlankChar (d := '$') h (by decide)]

/-- A blank goes on with a literal. -/
theorem step_blank_literal {m : Mode} {quote : Quote} (hm : m.quote? = some quote) (braces : List Nat) {c : Char}
    (hc : isBlankChar c = true) :
    ∃ text, Reader.step ⟨m, braces⟩ c = (⟨.literal quote (text ++ [c]), braces⟩, []) := by
  cases m with
  | literal quote' text =>
    obtain rfl := Option.some.inj hm
    exact ⟨text, literalStep_blank hc braces quote' text⟩
  | escaped quote' text =>
    obtain rfl := Option.some.inj hm
    exact ⟨text, rfl⟩
  | dollar text =>
    obtain rfl := Option.some.inj hm
    refine ⟨text, ?_⟩
    rw [Reader.step, if_neg (by simpa using ne_of_isBlankChar (d := '\x7b') hc (by decide)), literalStep_blank hc]
  | _ => cases hm

theorem read_blank_literal : ∀ {t : Text}, isBlank t = true → ∀ (quote : Quote) (text : Text) (braces : List Nat),
    Reader.read ⟨.literal quote text, braces⟩ t = (⟨.literal quote (text ++ t), braces⟩, [])
  | [], _, _, _, _ => by rw [List.append_nil]; rfl
  | c :: t, h, quote, text, braces => by
    obtain ⟨hc, ht⟩ := isBlank_cons.1 h
    rw [read_cons, Reader.step, literalStep_blank hc, read_blank_literal ht, List.append_assoc]
    rfl

/-- The end of a line goes on with a literal. -/
theorem read_newline_literal {m : Mode} {quote : Quote} (hm : m.quote? = some quote) (braces : List Nat) :
    ∃ text, Reader.read ⟨m, braces⟩ ['\n'] = (⟨.literal quote (text ++ ['\n']), braces⟩, []) := by
  obtain ⟨text, hstep⟩ := step_blank_literal hm braces (c := '\n') (by decide)
  exact ⟨text, by rw [read_cons, hstep]; rfl⟩

/-- So do blanks before the end of a line. -/
theorem read_lineEnd_literal {m : Mode} {quote : Quote} (hm : m.quote? = some quote) {margin : Text}
    (hblank : isBlank margin = true) (braces : List Nat) :
    ∃ text, Reader.read ⟨m, braces⟩ (margin ++ ['\n']) = (⟨.literal quote (text ++ ['\n']), braces⟩, []) := by
  cases margin with
  | nil => exact read_newline_literal hm braces
  | cons c margin =>
    obtain ⟨hc, hmargin⟩ := isBlank_cons.1 hblank
    obtain ⟨text, hstep⟩ := step_blank_literal hm braces hc
    refine ⟨text ++ [c] ++ margin, ?_⟩
    rw [List.cons_append, read_cons, hstep, read_blank_literal (isBlank_append_newline hmargin),
      List.append_assoc _ margin]
    rfl

/-! ## Outside of literals -/

/-- A reader is outside of literals, and outside of comments as well if this is strict. -/
def Mode.isFree (strict : Bool) : Mode → Bool
  | .code | .slash => true
  | .lineComment | .blockComment | .star => !strict
  | .literal .. | .escaped .. | .dollar .. => false

theorem quote?_eq_none {m : Mode} : m.quote? = none ↔ m.isFree false = true := by
  cases m <;> simp [Mode.quote?, Mode.isFree]

theorem isFree_of_isFree {m : Mode} {strict : Bool} (h : m.isFree strict = true) : m.isFree false = true := by
  cases m with
  | literal | escaped | dollar => cases h
  | _ => rfl

/-- A character that leaves a reader where it is outside of literals, but for what it opens by a slash. -/
def isSteady (c : Char) : Bool :=
  isInert c && c != '\x7b' && c != '\x7d'

theorem ne_of_isSteady {c d : Char} (hc : isSteady c = true) (hd : isSteady d = false) : c ≠ d := by
  rintro rfl
  rw [hc] at hd
  cases hd

theorem isSteady_of_isBlankChar {c : Char} (h : isBlankChar c = true) : isSteady c = true := by
  simp [isSteady, isInert_of_isBlankChar h, ne_of_isBlankChar (d := '\x7b') h (by decide),
    ne_of_isBlankChar (d := '\x7d') h (by decide)]

theorem all_isSteady_of_isBlank {t : Text} (h : isBlank t = true) : t.all isSteady = true :=
  List.all_eq_true.2 fun c hc => isSteady_of_isBlankChar (List.all_eq_true.1 h c hc)

theorem codeStep_steady {c : Char} (h : isSteady c = true) (braces : List Nat) :
    codeStep braces c = ⟨.code, braces⟩ := by
  obtain ⟨⟨hinert, hopen⟩, hclose⟩ : (isInert c = true ∧ c ≠ '\x7b') ∧ c ≠ '\x7d' := by simpa [isSteady] using h
  have hslash : c ≠ '/' := ne_of_isInert hinert (by decide)
  simp [codeStep, opensQuote_of_isInert hinert, hslash, hopen, hclose]

/-- A reader at the beginning of a line outside of literals. -/
def Reader.AtLine (r : Reader) : Prop :=
  r.mode = .code ∨ r.mode = .blockComment

/-- Outside of literals a steady character is nothing before the end of a line. -/
theorem step_steady {strict : Bool} {r : Reader} (hr : r.mode.isFree strict = true) {c : Char}
    (hc : isSteady c = true) : (r.step c).1.mode.isFree strict = true ∧ (r.step c).2 = [] ∧
      (r.step c).1.step '\n' = r.step '\n' := by
  obtain ⟨mode, braces⟩ := r
  have hcode := fun d hd braces => codeStep_steady (c := d) hd braces
  have hnewline : isSteady '\n' = true := by decide
  have hslash : c ≠ '/' := ne_of_isSteady hc (by decide)
  have hstar : c ≠ '*' := ne_of_isSteady hc (by decide)
  cases mode with
  | code => simp [Reader.step, hcode c hc, Mode.isFree]
  | slash => simp [Reader.step, hcode c hc, hslash, hstar, hcode '\n' hnewline, Mode.isFree]
  | lineComment =>
    have hend : Script.isLineEnd '\n' = true := rfl
    cases hc' : Script.isLineEnd c with
    | true => simp [Reader.step, hc', hend, hcode '\n' hnewline, Mode.isFree]
    | false => exact ⟨by simpa [Reader.step, hc', Mode.isFree] using hr, rfl, by simp [Reader.step, hc', hend]⟩
  | blockComment =>
    refine ⟨by simpa [Reader.step, blockStep, hstar, Mode.isFree] using hr, rfl, ?_⟩
    simp [Reader.step, blockStep, hstar]
  | star =>
    refine ⟨by simpa [Reader.step, blockStep, hslash, hstar, Mode.isFree] using hr, rfl, ?_⟩
    simp [Reader.step, blockStep, hslash, hstar]
  | literal | escaped | dollar => cases hr

/-- Outside of literals steady characters are nothing before the end of a line. -/
theorem read_steady {strict : Bool} : ∀ {t : Text} {r : Reader}, r.mode.isFree strict = true → t.all isSteady = true →
    (r.read t).1.mode.isFree strict = true ∧ r.read (t ++ ['\n']) = r.read ['\n']
  | [], _, hr, _ => ⟨hr, rfl⟩
  | c :: t, r, hr, h => by
    obtain ⟨hc, ht⟩ : isSteady c = true ∧ t.all isSteady = true := by simpa using h
    obtain ⟨hfree, hnone, hnewline⟩ := step_steady hr hc
    obtain ⟨hend, hread⟩ := read_steady hfree ht
    refine ⟨hend, ?_⟩
    rw [List.cons_append, read_cons, hread, hnone, read_cons, hnewline, ← read_cons]
    rfl

/-- Steady characters are nothing at the beginning of a line. -/
theorem read_steady_atLine : ∀ {t : Text} {r : Reader}, r.AtLine → t.all isSteady = true → r.read t = (r, [])
  | [], _, _, _ => rfl
  | c :: t, r, hr, h => by
    obtain ⟨hc, ht⟩ : isSteady c = true ∧ t.all isSteady = true := by simpa using h
    have hstep : r.step c = (r, []) := by
      obtain ⟨mode, braces⟩ := r
      have hstar : c ≠ '*' := ne_of_isSteady hc (by decide)
      obtain rfl | rfl : mode = .code ∨ mode = .blockComment := hr
      · simp [Reader.step, codeStep_steady hc]
      · simp [Reader.step, blockStep, hstar]
    rw [read_cons, hstep, read_steady_atLine hr ht]
    rfl

/-- Blanks neither open nor close a literal. -/
theorem isFree_step_blank (r : Reader) {c : Char} (hc : isBlankChar c = true) :
    (r.step c).1.mode.isFree false = r.mode.isFree false := by
  obtain ⟨mode, braces⟩ := r
  cases hquote : mode.quote? with
  | none =>
    have hfree := quote?_eq_none.1 hquote
    rw [hfree, (step_steady (r := ⟨mode, braces⟩) hfree (isSteady_of_isBlankChar hc)).1]
  | some quote =>
    obtain ⟨text, hstep⟩ := step_blank_literal hquote braces hc
    have hnot : mode.isFree false = false := by
      rw [Bool.eq_false_iff, ne_eq, ← quote?_eq_none, hquote]
      simp
    rw [hstep, hnot]
    rfl

theorem isFree_read_blank : ∀ {t : Text} (r : Reader), isBlank t = true →
    (r.read t).1.mode.isFree false = r.mode.isFree false
  | [], _, _ => rfl
  | c :: t, r, h => by
    obtain ⟨hc, ht⟩ := isBlank_cons.1 h
    rw [read_cons, isFree_read_blank _ ht, isFree_step_blank r hc]

/-- Behind the end of a line outside of literals a reader is at the beginning of one. -/
theorem read_newline {r : Reader} (hr : r.mode.isFree false = true) :
    (r.read ['\n']).1.AtLine ∧ (r.read ['\n']).2 = [] := by
  obtain ⟨mode, braces⟩ := r
  have hcode := codeStep_steady (c := '\n') (by decide) braces
  cases mode with
  | code => simp [read_cons, Reader.step, hcode, Reader.AtLine]
  | slash => simp [read_cons, Reader.step, hcode, Reader.AtLine]
  | lineComment => exact ⟨.inl rfl, rfl⟩
  | blockComment => exact ⟨.inr rfl, rfl⟩
  | star => exact ⟨.inr rfl, rfl⟩
  | literal | escaped | dollar => cases hr

/-- Behind the end of a line of code a reader is in code. -/
theorem read_newline_code {r : Reader} (hr : r.mode.isFree true = true) :
    r.read ['\n'] = (⟨.code, r.braces⟩, []) := by
  obtain ⟨mode, braces⟩ := r
  have hcode := codeStep_steady (c := '\n') (by decide) braces
  cases mode with
  | code => simp [read_cons, Reader.step, hcode]
  | slash => simp [read_cons, Reader.step, hcode]
  | _ => cases hr

/-! ## Lines -/

/-- Each of the lines ends outside of literals, and outside of comments as well if this is strict. -/
def Reader.endsFree (strict : Bool) : Reader → List Text → Bool
  | _, [] => true
  | r, l :: ls => (r.read (trimEnd l)).1.mode.isFree strict && (r.read (l ++ ['\n'])).1.endsFree strict ls

theorem endsFree_append (strict : Bool) (ks ls : List Text) (r : Reader) : r.endsFree strict (ks ++ ls) =
    (r.endsFree strict ks && (r.read (unlines ks)).1.endsFree strict ls) := by
  induction ks generalizing r with
  | nil => rfl
  | cons k ks ih =>
    rw [List.cons_append, Reader.endsFree, ih, Reader.endsFree, Bool.and_assoc, unlines_cons,
      read_append r (k ++ ['\n'])]

/-- Outside of literals the blanks behind a line do not matter. -/
theorem read_trimEnd {strict : Bool} {r : Reader} {l : Text} (h : (r.read (trimEnd l)).1.mode.isFree strict = true) :
    r.read (l ++ ['\n']) = r.read (trimEnd l ++ ['\n']) := by
  obtain ⟨margin, hl, hblank⟩ := trimEnd_append_blank l
  conv => lhs; rw [hl]
  rw [List.append_assoc, read_append, (read_steady h (all_isSteady_of_isBlank hblank)).2, ← read_append]

/-- At the beginning of a line outside of literals blanks do not matter. -/
theorem read_trimEnd_trim {r : Reader} (hr : r.AtLine) (l t : Text) :
    r.read (trimEnd l ++ t) = r.read (trim l ++ t) := by
  have hsplit := takeWhile_append_trimStart (trimEnd l)
  rw [trimStart_trimEnd] at hsplit
  rw [← hsplit, List.append_assoc]
  exact read_append_of (read_steady_atLine hr (all_isSteady_of_isBlank List.all_takeWhile)) _

theorem atLine_read {strict : Bool} {r : Reader} {l : Text} (h : (r.read (trimEnd l)).1.mode.isFree strict = true) :
    (r.read (l ++ ['\n'])).1.AtLine := by
  rw [read_trimEnd h, read_append]
  exact (read_newline (isFree_of_isFree h)).1

/-- Lines that end outside of literals may lose the blanks around them. -/
theorem read_trim {strict : Bool} : ∀ {ls : List Text} {r : Reader}, r.AtLine → r.endsFree strict ls = true →
    r.read (unlines (ls.map trim)) = r.read (unlines ls)
  | [], _, _, _ => rfl
  | l :: ls, r, hr, h => by
    obtain ⟨hl, hls⟩ : (r.read (trimEnd l)).1.mode.isFree strict = true ∧
        (r.read (l ++ ['\n'])).1.endsFree strict ls = true := by simpa [Reader.endsFree] using h
    have hline : r.read (trim l ++ ['\n']) = r.read (l ++ ['\n']) := by
      rw [read_trimEnd hl, read_trimEnd_trim hr]
    rw [List.map_cons, unlines_cons, unlines_cons, read_append_congr hline, read_append, read_trim (atLine_read hl) hls,
      ← read_append]

theorem endsFree_trim {strict : Bool} : ∀ {ls : List Text} {r : Reader}, r.AtLine →
    r.endsFree strict (ls.map trim) = r.endsFree strict ls
  | [], _, _ => rfl
  | l :: ls, r, hr => by
    have hfirst : r.read (trimEnd (trim l)) = r.read (trimEnd l) := by
      have htrim : trimEnd (trim l) = trim l := trimEnd_of_getLast? fun _ hc => ends_trim.2 hc
      have hread := read_trimEnd_trim hr l []
      rwa [List.append_nil, List.append_nil, ← htrim, eq_comm] at hread
    rw [List.map_cons, Reader.endsFree, Reader.endsFree, hfirst]
    cases hl : (r.read (trimEnd l)).1.mode.isFree strict with
    | false => rfl
    | true =>
      have hline : r.read (trim l ++ ['\n']) = r.read (l ++ ['\n']) := by
        rw [read_trimEnd hl, read_trimEnd_trim hr]
      rw [hline, endsFree_trim (atLine_read hl)]

/-- **Lines that end outside of literals may be laid out in any way.** -/
theorem read_layout {strict : Bool} {ks ls : List Text} (htrim : ks.map trim = ls.map trim) {r : Reader}
    (hr : r.AtLine) (h : r.endsFree strict ls = true) :
    r.read (unlines ks) = r.read (unlines ls) ∧ r.endsFree strict ks = true := by
  have hks : r.endsFree strict ks = true := by rw [← endsFree_trim hr, htrim, endsFree_trim hr, h]
  exact ⟨by rw [← read_trim hr hks, htrim, read_trim hr h], hks⟩

/-- A comma may be put behind lines that end outside of literals. -/
theorem read_comma {strict : Bool} {ls : List Text} {l : Text} {r : Reader}
    (h : r.endsFree strict (ls ++ [trimEnd l]) = true) :
    r.read (unlines (ls ++ [trimEnd l ++ [',']])) = r.read (unlines (ls ++ [trimEnd l])) ∧
      r.endsFree strict (ls ++ [trimEnd l ++ [',']]) = true := by
  have htrim : trimEnd (trimEnd l) = trimEnd l := trimEnd_of_getLast? fun _ hc => dropEndWhile_getLast? hc
  have hcomma : trimEnd (trimEnd l ++ [',']) = trimEnd l ++ [','] := trimEnd_concat (by decide)
  rw [endsFree_append, Bool.and_eq_true] at h
  obtain ⟨hls, hl⟩ := h
  have hl : ((r.read (unlines ls)).1.read (trimEnd l)).1.mode.isFree strict = true := by
    simpa [Reader.endsFree, htrim] using hl
  obtain ⟨hfree, hread⟩ := read_steady hl (show [','].all isSteady = true by decide)
  constructor
  · have hlast : (r.read (unlines ls)).1.read (trimEnd l ++ ([','] ++ ['\n'])) =
        (r.read (unlines ls)).1.read (trimEnd l ++ ['\n']) := by
      rw [read_append, hread, ← read_append]
    have hunlines : ∀ k : Text, unlines [k] = k ++ ['\n'] := fun k => by simp [unlines]
    rw [unlines_append, unlines_append, read_append, read_append r, hunlines, hunlines, List.append_assoc, hlast]
  · rw [endsFree_append, hls, Reader.endsFree, hcomma, read_append, hfree]
    rfl

/-! ## Lines that end within a literal -/

/-- Puts a text before what has been read of a literal. -/
def Mode.prepend (s : Text) : Mode → Mode
  | .literal quote text => .literal quote (s ++ text)
  | .escaped quote text => .escaped quote (s ++ text)
  | .dollar text => .dollar (s ++ text)
  | m => m

theorem quote?_prepend (s : Text) (m : Mode) : (m.prepend s).quote? = m.quote? := by
  cases m <;> rfl

/-- A character of a literal goes on with it or ends it, whatever has been read of it. -/
theorem step_prepend {m : Mode} {quote : Quote} (hm : m.quote? = some quote) (braces : List Nat) (c : Char) :
    (∃ m' : Mode, m'.quote? = some quote ∧
      ∀ s, Reader.step ⟨m.prepend s, braces⟩ c = (⟨m'.prepend s, braces⟩, [])) ∨
    ∃ r x, ∀ s, Reader.step ⟨m.prepend s, braces⟩ c = (r, [s ++ x]) := by
  have hliteral : ∀ (quote : Quote) (text : Text),
      (∃ m' : Mode, m'.quote? = some quote ∧
        ∀ s, literalStep braces quote (s ++ text) c = (⟨m'.prepend s, braces⟩, [])) ∨
      ∃ r x, ∀ s, literalStep braces quote (s ++ text) c = (r, [s ++ x]) := by
    intro quote text
    by_cases hbackslash : c = '\\'
    · exact .inl ⟨.escaped quote (text ++ [c]), rfl, fun s => by simp [literalStep, hbackslash, Mode.prepend]⟩
    · by_cases hquote : c = quote.1
      · exact .inr ⟨⟨.code, braces⟩, text ++ [c], fun s => by
          rw [literalStep, if_neg (by simpa using hbackslash), if_pos (by simpa using hquote), List.append_assoc]⟩
      · by_cases hdollar : c = '$' ∧ quote.1 = '\x60'
        · refine .inl ⟨.dollar (text ++ [c]), congrArg some (Subtype.ext hdollar.2.symm), fun s => ?_⟩
          rw [literalStep, if_neg (by simpa using hbackslash), if_neg (by simpa using hquote),
            if_pos (by simpa using hdollar), List.append_assoc]
          rfl
        · refine .inl ⟨.literal quote (text ++ [c]), rfl, fun s => ?_⟩
          rw [literalStep, if_neg (by simpa using hbackslash), if_neg (by simpa using hquote),
            if_neg (by simpa using hdollar), List.append_assoc]
          rfl
  cases m with
  | literal quote' text =>
    obtain rfl := Option.some.inj hm
    exact hliteral quote' text
  | escaped quote' text =>
    obtain rfl := Option.some.inj hm
    exact .inl ⟨.literal quote' (text ++ [c]), rfl, fun s => by simp [Reader.step, Mode.prepend]⟩
  | dollar text =>
    obtain rfl := Option.some.inj hm
    by_cases hbrace : c = '\x7b'
    · exact .inr ⟨⟨.code, 0 :: braces⟩, text ++ [c], fun s => by
        rw [Mode.prepend, Reader.step, if_pos (by simpa using hbrace), List.append_assoc]⟩
    · have hstep : ∀ s, Reader.step ⟨(Mode.dollar text).prepend s, braces⟩ c =
          literalStep braces backtick (s ++ text) c := fun s => by
        rw [Mode.prepend, Reader.step, if_neg (by simpa using hbrace)]
      simpa only [hstep] using hliteral backtick text
  | _ => cases hm

/-- A text goes on with a literal or ends it, whatever has been read of the literal. -/
theorem read_prepend : ∀ (t : Text) {m : Mode} {quote : Quote}, m.quote? = some quote → ∀ braces : List Nat,
    (∃ m' : Mode, m'.quote? = some quote ∧
      ∀ s, Reader.read ⟨m.prepend s, braces⟩ t = (⟨m'.prepend s, braces⟩, [])) ∨
    ∃ r x xs, ∀ s, Reader.read ⟨m.prepend s, braces⟩ t = (r, (s ++ x) :: xs)
  | [], m, quote, hm, _ => .inl ⟨m, hm, fun _ => rfl⟩
  | c :: t, m, quote, hm, braces => by
    rcases step_prepend hm braces c with ⟨m', hm', hstep⟩ | ⟨r, x, hstep⟩
    · rcases read_prepend t hm' braces with ⟨m'', hm'', hread⟩ | ⟨r, x, xs, hread⟩
      · exact .inl ⟨m'', hm'', fun s => by rw [read_cons, hstep, hread]; rfl⟩
      · exact .inr ⟨r, x, xs, fun s => by rw [read_cons, hstep, hread]; rfl⟩
    · exact .inr ⟨(r.read t).1, x, (r.read t).2, fun s => by rw [read_cons, hstep]; rfl⟩

/-- Two readers at the beginning of a line, of which one has read the lines before as they were and one has read them
laid out: at the same place outside of literals, or both in a literal. -/
inductive Shifted : Reader → Reader → Prop
  | same {r : Reader} (h : r.AtLine) : Shifted r r
  | within (quote : Quote) (text text' : Text) (braces : List Nat) :
    Shifted ⟨.literal quote (text ++ ['\n']), braces⟩ ⟨.literal quote (text' ++ ['\n']), braces⟩

theorem Shifted.eq_start {r : Reader} (h : Shifted start r) : r = start := by
  cases h
  rfl

theorem mode_of_atLine {r : Reader} (hr : r.AtLine) : r.mode.isFree false = true := by
  obtain ⟨mode, braces⟩ := r
  obtain rfl | rfl : mode = .code ∨ mode = .blockComment := hr <;> rfl

/-- Blanks before the end of a line make no difference but within a literal. -/
theorem shifted_lineEnd (r : Reader) {margin : Text} (hblank : isBlank margin = true) :
    Shifted (r.read (margin ++ ['\n'])).1 (r.read ['\n']).1 ∧
      (r.read (margin ++ ['\n'])).2 = [] ∧ (r.read ['\n']).2 = [] := by
  obtain ⟨mode, braces⟩ := r
  cases hquote : mode.quote? with
  | none =>
    have hfree := quote?_eq_none.1 hquote
    have hread := (read_steady (r := ⟨mode, braces⟩) hfree (all_isSteady_of_isBlank hblank)).2
    obtain ⟨hline, hnone⟩ := read_newline (r := ⟨mode, braces⟩) hfree
    rw [hread]
    exact ⟨.same hline, hnone, hnone⟩
  | some quote =>
    obtain ⟨text, hread⟩ := read_lineEnd_literal hquote hblank braces
    obtain ⟨text', hread'⟩ := read_newline_literal hquote braces
    rw [hread, hread']
    exact ⟨.within quote text text' braces, rfl, rfl⟩

/-- A line is read up to the blanks behind it, and then to its end. -/
theorem read_line {l margin : Text} (hl : l = trimEnd l ++ margin) (r : Reader) : r.read (l ++ ['\n']) =
    (((r.read (trimEnd l)).1.read (margin ++ ['\n'])).1,
      (r.read (trimEnd l)).2 ++ ((r.read (trimEnd l)).1.read (margin ++ ['\n'])).2) := by
  conv => lhs; rw [hl, List.append_assoc, read_append]

theorem not_atLine_literal {quote : Quote} {text : Text} {braces : List Nat} :
    ¬Reader.AtLine ⟨.literal quote text, braces⟩ := by
  rintro (h | h) <;> cases h

/-- What two readers make of a line that is laid out for one of them. If they collect the same and are outside of
literals behind the line, they are so before it and at its end. -/
def ShiftsLine (indent l : Text) (r r' : Reader) : Prop :=
  Shifted (r.read (l ++ ['\n'])).1 (r'.read (trimEnd (indent ++ l) ++ ['\n'])).1 ∧
    (r.read (l ++ ['\n'])).2.length = (r'.read (trimEnd (indent ++ l) ++ ['\n'])).2.length ∧
    ((r.read (l ++ ['\n'])).2 = (r'.read (trimEnd (indent ++ l) ++ ['\n'])).2 →
      (r.read (l ++ ['\n'])).1.AtLine → r.AtLine ∧ (r.read (trimEnd l)).1.mode.isFree false = true)

section Shifted

variable {indent : Text} (hindent : IsIndent indent)

include hindent

/-- Outside of literals. -/
theorem shiftsLine_same {r : Reader} (hr : r.AtLine) (l : Text) : ShiftsLine indent l r r := by
  obtain ⟨margin, hl, hblank⟩ := trimEnd_append_blank l
  have hlaid : r.read (trimEnd (indent ++ l) ++ ['\n']) = r.read (trimEnd l ++ ['\n']) := by
    rw [read_trimEnd_trim hr, read_trimEnd_trim hr, trim_blank_append hindent.blank]
  obtain ⟨hend, hnone, hnone'⟩ := shifted_lineEnd (r.read (trimEnd l)).1 hblank
  rw [ShiftsLine, read_line hl, hlaid, read_append r (trimEnd l), hnone, hnone']
  refine ⟨hend, rfl, fun _ hline => ⟨hr, ?_⟩⟩
  have hfree := mode_of_atLine hline
  rwa [isFree_read_blank _ (isBlank_append_newline hblank)] at hfree

/-- A blank line within a literal. -/
theorem shiftsLine_blank (quote : Quote) (text text' : Text) (braces : List Nat) {l : Text} (h : isBlank l = true) :
    ShiftsLine indent l ⟨.literal quote text, braces⟩ ⟨.literal quote text', braces⟩ := by
  have hnil : trimEnd (indent ++ l) = [] := by
    rw [trimEnd_eq_nil_iff, isBlank_append, hindent.blank, h]
    rfl
  obtain ⟨s, hread⟩ := read_lineEnd_literal (m := .literal quote text) rfl h braces
  obtain ⟨s', hread'⟩ := read_newline_literal (m := .literal quote text') rfl braces
  rw [ShiftsLine, hnil, List.nil_append, hread, hread']
  exact ⟨.within quote s s' braces, rfl, fun _ hline => absurd hline not_atLine_literal⟩

variable (hne : indent ≠ [])

include hne

/-- A line within a literal of which the text before the line ends with a newline. -/
theorem shiftsLine_within (quote : Quote) (text text' : Text) (braces : List Nat) {l : Text} (h : ¬isBlank l = true) :
    ShiftsLine indent l ⟨.literal quote (text ++ ['\n']), braces⟩ ⟨.literal quote text', braces⟩ := by
  obtain ⟨margin, hl, hblank⟩ := trimEnd_append_blank l
  have hprepend : ∀ s, (⟨(Mode.literal quote []).prepend s, braces⟩ : Reader) = ⟨.literal quote s, braces⟩ :=
    fun s => by rw [Mode.prepend, List.append_nil]
  have hlaid : Reader.read ⟨.literal quote text', braces⟩ (trimEnd (indent ++ l) ++ ['\n']) =
      Reader.read ⟨.literal quote (text' ++ indent), braces⟩ (trimEnd l ++ ['\n']) := by
    rw [trimEnd_append_of_not_isBlank h, List.append_assoc]
    exact read_append_of (read_blank_literal hindent.blank ..) _
  rw [ShiftsLine, read_line hl, hlaid, read_append _ (trimEnd l)]
  rcases read_prepend (trimEnd l) (m := .literal quote []) rfl braces with ⟨m, hm, hread⟩ | ⟨r, x, xs, hread⟩
  · -- The literal goes on behind the line.
    simp only [hprepend] at hread
    obtain ⟨s, hend⟩ := read_lineEnd_literal ((quote?_prepend (text ++ ['\n']) m).trans hm) hblank braces
    obtain ⟨s', hend'⟩ := read_newline_literal ((quote?_prepend (text' ++ indent) m).trans hm) braces
    rw [hread, hread, hend, hend']
    exact ⟨.within quote s s' braces, rfl, fun _ hline => absurd hline not_atLine_literal⟩
  · -- The literal ends in the line. The indentation has become part of it.
    simp only [hprepend] at hread
    obtain ⟨hend, hnone, hnone'⟩ := shifted_lineEnd r hblank
    rw [hread, hread, hnone, hnone']
    refine ⟨hend, rfl, fun heq => ?_⟩
    have hsame : text ++ ['\n'] = text' ++ indent := List.append_cancel_right (List.cons.inj heq).1
    have hlast : some '\n' = indent.getLast? := by
      have hlasts := congrArg List.getLast? hsame
      rwa [List.getLast?_concat, List.getLast?_append, Option.or_of_isSome (by simpa using hne)] at hlasts
    exact absurd (List.mem_of_getLast? hlast.symm) hindent.line

theorem shiftsLine {r r' : Reader} (h : Shifted r r') (l : Text) : ShiftsLine indent l r r' := by
  cases h with
  | same hr => exact shiftsLine_same hindent hr l
  | within quote text text' braces =>
    by_cases hl : isBlank l = true
    · exact shiftsLine_blank hindent quote _ _ braces hl
    · exact shiftsLine_within hindent hne quote text _ braces hl

/-- **Lines that are laid out have as many literals as they had, and the same ones only if none of the lines ends within
a literal.** -/
theorem shifted_layout : ∀ (ls : List Text) {r r' : Reader}, Shifted r r' →
    Shifted (r.read (unlines ls)).1 (r'.read (unlines (layout indent ls))).1 ∧
      (r.read (unlines ls)).2.length = (r'.read (unlines (layout indent ls))).2.length ∧
      ((r.read (unlines ls)).2 = (r'.read (unlines (layout indent ls))).2 → (r.read (unlines ls)).1.AtLine →
        r.AtLine ∧ r.endsFree false ls = true)
  | [], _, _, h => ⟨h, rfl, fun _ hline => ⟨hline, rfl⟩⟩
  | l :: ls, r, r', h => by
    obtain ⟨hfirst, hlength, hsame⟩ := shiftsLine hindent hne h l
    obtain ⟨hrest, hlength', hsame'⟩ := shifted_layout ls hfirst
    have hcons : layout indent (l :: ls) = trimEnd (indent ++ l) :: layout indent ls := rfl
    rw [hcons, unlines_cons, unlines_cons, read_append r, read_append r']
    refine ⟨hrest, by rw [List.length_append, List.length_append, hlength, hlength'], fun heq hend => ?_⟩
    obtain ⟨hline, hlines⟩ := List.append_inj heq hlength
    obtain ⟨hbehind, hends⟩ := hsame' hlines hend
    obtain ⟨hbefore, hfree⟩ := hsame hline hbehind
    exact ⟨hbefore, by rw [Reader.endsFree, hfree, hends]; rfl⟩

end Shifted

/-! ## Comments -/

section Comments

variable (braces : List Nat)

/-- What does not end a line does not end a line comment. -/
theorem read_lineText : ∀ {t : Text}, t.any Script.isLineEnd = false →
    Reader.read ⟨.lineComment, braces⟩ t = (⟨.lineComment, braces⟩, [])
  | [], _ => rfl
  | c :: t, h => by
    obtain ⟨hc, ht⟩ : Script.isLineEnd c = false ∧ t.any Script.isLineEnd = false := by simpa using h
    rw [read_cons, Reader.step, if_neg (by simp [hc]), read_lineText ht]
    rfl

/-- A line comment and the end of its line. -/
theorem read_lineComment {t : Text} (h : t.any Script.isLineEnd = false) :
    Reader.read ⟨.code, braces⟩ (CommentKind.line.marker ++ t ++ ['\n']) = (⟨.code, braces⟩, []) := by
  have hopen : Reader.read ⟨.code, braces⟩ CommentKind.line.marker = (⟨.lineComment, braces⟩, []) := rfl
  rw [List.append_assoc, read_append_of hopen, read_append_of (read_lineText braces h)]
  rfl

/-- A text without a closing marker does not end a block comment. -/
theorem read_blockText : ∀ t : Text,
    (¬blockClose <:+: t → ∃ m, (m = .blockComment ∨ m = .star) ∧
      Reader.read ⟨.blockComment, braces⟩ t = (⟨m, braces⟩, [])) ∧
    (¬blockClose <:+: '*' :: t → ∃ m, (m = .blockComment ∨ m = .star) ∧
      Reader.read ⟨.star, braces⟩ t = (⟨m, braces⟩, []))
  | [] => ⟨fun _ => ⟨_, .inl rfl, rfl⟩, fun _ => ⟨_, .inr rfl, rfl⟩⟩
  | c :: t => by
    obtain ⟨hblock, hstar⟩ := read_blockText t
    have hstep : ¬blockClose <:+: c :: t → ∃ m, (m = .blockComment ∨ m = .star) ∧
        Reader.read ⟨blockStep c, braces⟩ t = (⟨m, braces⟩, []) := by
      intro h
      by_cases hc : c = '*'
      · subst hc
        exact hstar h
      · rw [blockStep, if_neg (by simpa using hc)]
        exact hblock fun hs => h (hs.trans (List.suffix_cons _ _).isInfix)
    constructor
    · intro h
      rw [read_cons]
      exact hstep h
    · intro h
      have hslash : c ≠ '/' := by
        rintro rfl
        exact h (List.prefix_append blockClose t).isInfix
      rw [read_cons, Reader.step, if_neg (by simpa using hslash)]
      exact hstep fun hs => h (hs.trans (List.suffix_cons _ _).isInfix)

/-- A block comment. -/
theorem read_blockComment {t : Text} (h : ¬blockClose <:+: t) :
    Reader.read ⟨.code, braces⟩ (CommentKind.block.marker ++ (t ++ blockClose)) = (⟨.code, braces⟩, []) := by
  have hopen : Reader.read ⟨.code, braces⟩ CommentKind.block.marker = (⟨.blockComment, braces⟩, []) := rfl
  obtain ⟨m, hm, hread⟩ := (read_blockText braces t).1 h
  rw [read_append_of hopen, read_append_of hread]
  rcases hm with rfl | rfl <;> rfl

/-- Lines that hold a block comment. -/
theorem read_holds {ls : List Text} {t : Text} (h : Holds ls (.block, t)) :
    Reader.read ⟨.code, braces⟩ (unlines ls) = (⟨.code, braces⟩, []) := by
  have hindent : ∀ {s : Text}, IsIndent s → Reader.read ⟨.code, braces⟩ s = (⟨.code, braces⟩, []) := fun hs =>
    read_steady_atLine (.inl rfl) (all_isSteady_of_isBlank hs.blank)
  have hnewline : Reader.read ⟨.code, braces⟩ ['\n'] = (⟨.code, braces⟩, []) := rfl
  cases h with
  | @short s e _ hs he =>
    cases he with
    | block hline ht =>
      have hsplit : unlines [s ++ (CommentKind.block.marker ++ (t ++ blockClose))] =
          s ++ (CommentKind.block.marker ++ (t ++ blockClose) ++ ['\n']) := by simp [unlines]
      rw [hsplit, read_append_of (hindent hs), read_append_of (read_blockComment braces ht), hnewline]
  | @long s first inside last hs hlines =>
    obtain ⟨hfirst, hrest⟩ := List.forall_mem_cons.1 hlines
    obtain ⟨hinside, hlast⟩ := List.forall_mem_append.1 hrest
    have hinner : ¬blockClose <:+: first ++ inside.flatMap ('\n' :: ·) ++ '\n' :: last :=
      not_infix_append_newline (not_infix_lines hfirst.2 fun k hk => (hinside k hk).2)
        (List.forall_mem_singleton.1 hlast).2
    have hsplit : unlines ((s ++ (CommentKind.block.marker ++ first)) :: (inside ++ [last ++ blockClose])) =
        s ++ (CommentKind.block.marker ++ (first ++ inside.flatMap ('\n' :: ·) ++ '\n' :: last ++ blockClose) ++
          ['\n']) := by
      rw [unlines_eq (by simp), joinLines_eq_flatMap]
      simp
    rw [hsplit, read_append_of (hindent hs), read_append_of (read_blockComment braces hinner), hnewline]

end Comments

/-! ## Comments that are put back -/

/-- A comment does not end before its line does: no character of a line comment ends a line. -/
def endsWithLine (c : Comment) : Bool :=
  match c.kind with
  | .line => !c.text.any Script.isLineEnd
  | .block => true

section Restored

variable {c : Comment} (hc : IsTaken c) (hline : endsWithLine c = true)

include hline

theorem isLineEnd_of_line (hkind : c.kind = .line) : (' ' :: c.text).any Script.isLineEnd = false := by
  simp only [endsWithLine, hkind, Bool.not_eq_true'] at hline
  rw [List.any_cons, hline]
  rfl

include hc

/-- A comment behind code is nothing before the end of the line. -/
theorem read_trailing {r : Reader} (hr : r.mode.isFree true = true) :
    r.read (' ' :: c.trailing ++ ['\n']) = r.read ['\n'] := by
  have hspace : r.read [' '] = (⟨.code, r.braces⟩, []) := by
    obtain ⟨mode, braces⟩ := r
    cases mode with
    | code | slash => rfl
    | _ => cases hr
  rw [read_newline_code hr, ← List.singleton_append, List.append_assoc, read_append_of hspace]
  cases hkind : c.kind with
  | line =>
    rw [trailing_of_line hkind]
    exact read_lineComment r.braces (isLineEnd_of_line hline hkind)
  | block =>
    rw [trailing_of_block hkind,
      read_append_of (read_blockComment r.braces (not_infix_spaced (not_infix_squeezed hkind hc.sound)))]
    rfl

/-- A comment on lines of its own is nothing in code. -/
theorem read_standalone {outer indent : Text} (houter : IsIndent outer) (hindent : IsIndent indent)
    (braces : List Nat) :
    Reader.read ⟨.code, braces⟩ (unlines ((c.standalone indent).map (outer ++ ·))) = (⟨.code, braces⟩, []) := by
  cases hkind : c.kind with
  | line =>
    have hlines : unlines ((c.standalone indent).map (outer ++ ·)) =
        (outer ++ indent) ++ (CommentKind.line.marker ++ (' ' :: c.text) ++ ['\n']) := by
      simp [Comment.standalone, hkind, CommentKind.marker, unlines]
    have hmargin : Reader.read ⟨.code, braces⟩ (outer ++ indent) = (⟨.code, braces⟩, []) :=
      read_steady_atLine (.inl rfl) (all_isSteady_of_isBlank (houter.append hindent).blank)
    rw [hlines, read_append_of hmargin, read_lineComment braces (isLineEnd_of_line hline hkind)]
  | block =>
    obtain ⟨r, hholds, hplain, -⟩ := holds_standalone houter hindent hc
    obtain ⟨kind, t⟩ := r
    obtain rfl : kind = .block := by
      rw [Comment.remark, hkind] at hplain
      cases kind with
      | line => cases hplain
      | block => rfl
    exact read_holds braces hholds

end Restored

theorem read_standalones {outer indent : Text} (houter : IsIndent outer) (hindent : IsIndent indent)
    (braces : List Nat) : ∀ {cs : List Comment}, (∀ c ∈ cs, IsTaken c ∧ endsWithLine c = true) →
      Reader.read ⟨.code, braces⟩ (unlines ((cs.flatMap (·.standalone indent)).map (outer ++ ·))) =
        (⟨.code, braces⟩, [])
  | [], _ => rfl
  | c :: cs, h => by
    obtain ⟨⟨hc, hline⟩, hcs⟩ := List.forall_mem_cons.1 h
    rw [List.flatMap_cons, List.map_append, unlines_append,
      read_append_of (read_standalone hc hline houter hindent braces), read_standalones houter hindent braces hcs]

end Literals
end StyleHoist
