import Mathlib.Data.List.Forall2
import StyleHoist.Proofs.Comment.Fixpoint
import StyleHoist.Proofs.Comment.Outline

/-!
# What stands around comments

Where comments are left out of a body, its code stays on its lines (`codeLines`), so that every comment has code before
it on its line and lines of code above and below it. Taking comments out goes through the lines as they are written; the
two walks over a body are put side by side here.

- `take_codeLines`, `drop_codeLines`: a comment stands among the lines of code where it stands among the lines of the
  body.
- `follows_strip`: the scan meets the comments one after the other, each with the code before it on its line, and of
  each line it keeps the code.
- `outline_stripComments`: what is left of a body without its comments are its lines of code.
-/

namespace StyleHoist

open Text Listing

/-! ## Lines of a text -/

theorem length_splitLines : ∀ t : Text, (splitLines t).length = t.count '\n' + 1
  | [] => rfl
  | c :: t => by
    have ih := length_splitLines t
    obtain ⟨l, ls, hlines⟩ := List.exists_cons_of_ne_nil (splitLines_ne_nil t)
    by_cases hc : c = '\n'
    · simp [splitLines, hc, ih]
    · rw [hlines] at ih
      simpa [splitLines, hc, hlines] using ih

theorem count_of_isLine {l : Text} (h : IsLine l) : l.count '\n' = 0 :=
  List.count_eq_zero.2 h

/-- There are as many newlines in a text as there are lines behind its first. -/
theorem count_lines {l : Text} {ls : List Text} (hl : IsLine l) (hls : ∀ k ∈ ls, IsLine k) :
    (l ++ ls.flatMap ('\n' :: ·)).count '\n' = ls.length := by
  have hlength := length_splitLines (joinLines (l :: ls))
  rw [splitLines_joinLines (by simp) (List.forall_mem_cons.2 ⟨hl, hls⟩), joinLines_eq_flatMap,
    List.length_cons] at hlength
  exact (Nat.succ.inj hlength).symm

/-- What stands on the last line of a text. -/
def lastLine (t : Text) : Text :=
  (splitLines t).getLast (splitLines_ne_nil t)

theorem splitLines_eq_concat (t : Text) : splitLines t = (splitLines t).dropLast ++ [lastLine t] :=
  (List.dropLast_concat_getLast (splitLines_ne_nil t)).symm

theorem lastLine_of_eq {t l : Text} {ls : List Text} (h : splitLines t = ls ++ [l]) : lastLine t = l := by
  simp [lastLine, h]

theorem isLine_lastLine (t : Text) : IsLine (lastLine t) :=
  isLine_of_mem_splitLines (List.getLast_mem _)

theorem lastLine_append (t : Text) {l : Text} (h : IsLine l) : lastLine (t ++ l) = lastLine t ++ l :=
  lastLine_of_eq (splitLines_append (splitLines_of_isLine h) (splitLines_eq_concat t))

theorem lastLine_append_newline (t u : Text) : lastLine (t ++ '\n' :: u) = lastLine u := by
  have hlines : splitLines (t ++ '\n' :: u) = splitLines t ++ (splitLines u).dropLast ++ [lastLine u] := by
    rw [splitLines_append_newline, List.append_assoc, ← splitLines_eq_concat]
  exact lastLine_of_eq hlines

/-- Newlines end the last line of a text. -/
theorem lastLine_append_newlines (t : Text) (n : Nat) : lastLine (t ++ List.replicate (n + 1) '\n') = [] := by
  rw [List.replicate_succ', ← List.append_assoc]
  exact lastLine_append_newline _ []

theorem isBlank_newlines (n : Nat) : isBlank (List.replicate n '\n') = true := by
  have hnewline : isBlankChar '\n' = true := by decide
  simp [isBlank, hnewline]

theorem outline_append_newlines (t u : Text) (n : Nat) :
    outline (t ++ (List.replicate (n + 1) '\n' ++ u)) = outline t ++ outline u := by
  rw [List.replicate_succ, List.cons_append, outline_append_newline, outline_blank_append (isBlank_newlines n)]

theorem outlineOf_keepCode {code : Text} (h : IsLine code) : outlineOf (keepCode code) = outline code := by
  rw [outline, splitLines_of_isLine h]
  unfold keepCode
  split
  · rename_i hblank
    rw [outlineOf_cons_of_isBlank hblank]
  · have htrim : trim (trimEnd code) = trim code := by
      obtain ⟨margin, heq, hmargin⟩ := trimEnd_append_blank code
      conv => rhs; rw [heq, trim_append_of_isBlank hmargin]
    simp [outlineOf, htrim]

namespace Lexer

/-! ## Code in its place -/

/-- What is left of a piece where comments are left out: code, and the newlines of a comment. -/
def Piece.left : Piece → Text
  | .code c => [c]
  | .comment s => List.replicate (s.text.count '\n') '\n'

/-- What is left of pieces without comments. -/
def leftOf (ps : List Piece) : Text :=
  ps.flatMap Piece.left

/-- The lines of a body without its comments, each in its place. -/
def codeLines (body : Text) : List Text :=
  splitLines (leftOf (piecesOf body))

theorem leftOf_cons (p : Piece) (ps : List Piece) : leftOf (p :: ps) = p.left ++ leftOf ps := rfl

theorem leftOf_codePieces (t : Text) (ps : List Piece) : leftOf (codePieces t ++ ps) = t ++ leftOf ps := by
  have hcode : leftOf (codePieces t) = t := by
    induction t with
    | nil => rfl
    | cons c t ih => exact congrArg (c :: ·) ih
  rw [leftOf, List.flatMap_append]
  exact congrArg (· ++ leftOf ps) hcode

/-- The line on which a comment ends. -/
def Sighting.endLine (s : Sighting) : Nat :=
  (s.ending.map (·.line)).getD s.start.line

/-- The lines below a comment. -/
def Sighting.linesBelow (s : Sighting) (lines : List Text) : List Text :=
  lines.drop s.endLine

/-- The lines above a comment, the nearest first. -/
def Sighting.linesAbove (s : Sighting) (lines : List Text) : List Text :=
  (lines.take (s.start.line - 1)).reverse

/-- A comment in a body, and what is left of the body before it and behind it. -/
structure Occurrence where
  seen : Sighting
  before : Text
  behind : Text
deriving DecidableEq, Repr

/-- The code before the comment on its line. -/
def Occurrence.code (o : Occurrence) : Text :=
  lastLine o.before

/-- The code of the lines below the comment. -/
def Occurrence.codeBelow (o : Occurrence) : List Text :=
  (splitLines o.behind).tail

/-- The code of the lines above the comment, the nearest first. -/
def Occurrence.codeAbove (o : Occurrence) : List Text :=
  (splitLines o.before).dropLast.reverse

/-- The comments among pieces, `before` being left of what stands before these. -/
def occurrencesFrom (before : Text) : List Piece → List Occurrence
  | [] => []
  | .code c :: ps => occurrencesFrom (before ++ [c]) ps
  | .comment s :: ps => ⟨s, before, leftOf ps⟩ :: occurrencesFrom (before ++ (Piece.comment s).left) ps

/-- The comments of a body, each with the code around it. -/
def occurrences (body : Text) : List Occurrence :=
  occurrencesFrom [] (piecesOf body)

theorem occurrencesFrom_codePieces (before t : Text) (ps : List Piece) :
    occurrencesFrom before (codePieces t ++ ps) = occurrencesFrom (before ++ t) ps := by
  induction t generalizing before with
  | nil => rw [List.append_nil]; rfl
  | cons c t ih =>
    have hcons : occurrencesFrom before (codePieces (c :: t) ++ ps) =
        occurrencesFrom (before ++ [c]) (codePieces t ++ ps) := rfl
    rw [hcons, ih, List.append_assoc, List.singleton_append]

/-- Each comment stands somewhere in what is left. -/
theorem append_of_mem_occurrencesFrom {o : Occurrence} : ∀ {ps : List Piece} {before : Text},
    o ∈ occurrencesFrom before ps → o.before ++ (Piece.comment o.seen).left ++ o.behind = before ++ leftOf ps
  | [], _, h => by cases h
  | .code c :: ps, before, h => by
    rw [@append_of_mem_occurrencesFrom _ ps _ h, leftOf_cons, List.append_assoc]
    rfl
  | .comment s :: ps, before, h => by
    rcases List.mem_cons.1 h with rfl | h
    · rw [leftOf_cons, List.append_assoc]
    · rw [@append_of_mem_occurrencesFrom _ ps _ h, leftOf_cons, List.append_assoc]

/-- A comment stands on its lines: there are as many before it as are left, and as many in it. -/
structure Occurrence.IsPlaced (o : Occurrence) : Prop where
  start : o.seen.start.line = o.before.count '\n' + 1
  last : o.seen.endLine = o.seen.start.line + o.seen.text.count '\n'

section Placed

variable {body : Text} {o : Occurrence} (hmem : o ∈ occurrences body) (ho : o.IsPlaced)

include hmem

theorem codeLines_eq : codeLines body =
    splitLines (o.before ++ (List.replicate (o.seen.text.count '\n') '\n' ++ o.behind)) := by
  rw [codeLines, ← List.nil_append (leftOf (piecesOf body)), ← append_of_mem_occurrencesFrom hmem, List.append_assoc]
  rfl

include ho

/-- The lines of code above a comment are those above it. -/
theorem take_codeLines : o.seen.linesAbove (codeLines body) = o.codeAbove := by
  obtain ⟨m, ms, hms⟩ := List.exists_cons_of_ne_nil
    (splitLines_ne_nil (List.replicate (o.seen.text.count '\n') '\n' ++ o.behind))
  have hlength : (splitLines o.before).dropLast.length = o.before.count '\n' := by
    rw [List.length_dropLast, length_splitLines, Nat.add_sub_cancel]
  rw [Sighting.linesAbove, codeLines_eq hmem, splitLines_append hms (splitLines_eq_concat o.before), ho.start,
    Nat.add_sub_cancel, ← hlength, List.take_left, Occurrence.codeAbove]

/-- The lines of code below a comment are those below it. -/
theorem drop_codeLines : o.seen.linesBelow (codeLines body) = o.codeBelow := by
  obtain ⟨m, ms, hms⟩ := List.exists_cons_of_ne_nil (splitLines_ne_nil o.behind)
  have hlines := splitLines_append hms
    (splitLines_eq_concat (o.before ++ List.replicate (o.seen.text.count '\n') '\n'))
  have hlength : (splitLines (o.before ++ List.replicate (o.seen.text.count '\n') '\n')).dropLast.length + 1 =
      o.seen.endLine := by
    rw [List.length_dropLast, length_splitLines, List.count_append, List.count_replicate_self, ho.last, ho.start]
    omega
  rw [Sighting.linesBelow, codeLines_eq hmem, ← List.append_assoc, hlines, ← hlength, ← List.drop_drop, List.drop_left,
    Occurrence.codeBelow, hms]
  rfl

end Placed

/-! ## The walk -/

/-- A rule by which a comment is tied to a property: the key of the code before it comes first, then that of the lines
below it, then, if it spans lines, that of the lines above it. `key?` is the key that is found among lines. -/
def tieBy (key? : List Text → Option Text) (code : Text) (below above : List Text) (spansLines : Bool) :
    Option Text × Placement :=
  match leadingKey? (trim code) with
  | some name => (some name, .sameLine)
  | none =>
    match key? below with
    | some name => (some name, .before)
    | none =>
      match if spansLines then key? above else none with
      | some name => (some name, .after)
      | none => (none, .before)

/-- What a comment is tied to by the lines as they are written. -/
def Occurrence.tiedIn (lines : List Text) (o : Occurrence) : Option Text × Placement :=
  tieBy nearestKey? o.code (o.seen.linesBelow lines) (o.seen.linesAbove lines) o.seen.ending.isSome

/-- What a comment is tied to. -/
def tieOf (c : Comment) : Option Text × Placement :=
  (c.property, c.placement)

/-- A comment that is taken out is this one of those that a lexer sees, tied as the lines tell. -/
structure Meets (lines : List Text) (c : Comment) (o : Occurrence) : Prop where
  seen : c.sighting = o.seen
  tied : tieOf c = o.tiedIn lines

/-- From some place on, `before` being left of what stands before it, the scan of lines meets the comments that a lexer
sees one after the other, and of each line it keeps the code. -/
structure Follows (lines : List Text) (before : Text) (pieces : List Piece) (kept : List Text)
    (comments : List Comment) : Prop where
  met : List.Forall₂ (Meets lines) comments (occurrencesFrom before pieces)
  placed : ∀ o ∈ occurrencesFrom before pieces, o.IsPlaced
  outlined : outlineOf kept = outline (lastLine before ++ leftOf pieces)

section Follows

variable {lines kept : List Text} {before : Text} {pieces : List Piece} {comments : List Comment}

/-- At the end of a body its last line is kept. -/
theorem follows_nil (h : outlineOf kept = outline (lastLine before)) : Follows lines before [] kept [] where
  met := .nil
  placed := by simp [occurrencesFrom]
  outlined := by rw [h, leftOf, List.flatMap_nil, List.append_nil]

/-- Code on a line is taken along. -/
theorem Follows.code {t : Text} (h : Follows lines (before ++ t) pieces kept comments) (ht : IsLine t) :
    Follows lines before (codePieces t ++ pieces) kept comments where
  met := by
    rw [occurrencesFrom_codePieces]
    exact h.met
  placed := by
    rw [occurrencesFrom_codePieces]
    exact h.placed
  outlined := by rw [h.outlined, lastLine_append _ ht, leftOf_codePieces, List.append_assoc]

/-- At the end of a line its code is kept. -/
theorem Follows.newline (h : Follows lines (before ++ ['\n']) pieces kept comments) {kept' : List Text}
    (hkept : outlineOf kept' = outline (lastLine before)) :
    Follows lines before (.code '\n' :: pieces) (kept' ++ kept) comments where
  met := h.met
  placed := h.placed
  outlined := by
    rw [outlineOf_append, h.outlined, hkept, lastLine_append_newline, leftOf_cons]
    exact (outline_append_newline _ _).symm

section Comment

variable {s : Sighting} {c : Comment} (hseen : c.sighting = s)
  (htie : tieOf c = tieBy nearestKey? (lastLine before) (s.linesBelow lines) (s.linesAbove lines) s.ending.isSome)
  (hstart : s.start.line = before.count '\n' + 1) (hlast : s.endLine = s.start.line + s.text.count '\n')

include hseen htie hstart hlast

/-- At a comment that is tied as the lines tell. -/
theorem Follows.comment (h : Follows lines (before ++ (Piece.comment s).left) pieces kept comments) {kept' : List Text}
    (hkept : outlineOf kept' = outline (lastLine before ++ ((Piece.comment s).left ++ leftOf pieces))) :
    Follows lines before (.comment s :: pieces) kept' (c :: comments) where
  met := .cons ⟨hseen, htie⟩ h.met
  placed := List.forall_mem_cons.2 ⟨⟨hstart, hlast⟩, h.placed⟩
  outlined := by rw [hkept, leftOf_cons]

/-- Around a comment on one line the code of the line goes on. -/
theorem Follows.comment_line (hs : IsLine s.text) (h : Follows lines before pieces kept comments) :
    Follows lines before (.comment s :: pieces) kept (c :: comments) := by
  have hleft : (Piece.comment s).left = [] := by
    rw [Piece.left, count_of_isLine hs]
    rfl
  refine Follows.comment hseen htie hstart hlast (by rwa [hleft, List.append_nil]) ?_
  rw [hleft, List.nil_append, h.outlined]

/-- Before a comment that reaches another line the code of its line ends. -/
theorem Follows.comment_lines {n : Nat} (hs : s.text.count '\n' = n + 1)
    (h : Follows lines (before ++ List.replicate (n + 1) '\n') pieces kept comments) {kept' : List Text}
    (hkept : outlineOf kept' = outline (lastLine before)) :
    Follows lines before (.comment s :: pieces) (kept' ++ kept) (c :: comments) := by
  have hleft : (Piece.comment s).left = List.replicate (n + 1) '\n' := by rw [Piece.left, hs]
  refine Follows.comment hseen htie hstart hlast (hleft ▸ h) ?_
  rw [hleft, outlineOf_append, h.outlined, hkept, lastLine_append_newlines, outline_append_newlines, List.nil_append]

/-- A comment at the end of the body. -/
theorem follows_last (hkept : outlineOf kept = outline (lastLine before)) :
    Follows lines before [.comment s] kept [c] := by
  have hend : Follows lines (before ++ (Piece.comment s).left) [] [lastLine (before ++ (Piece.comment s).left)] [] :=
    follows_nil (by rw [outline, splitLines_of_isLine (isLine_lastLine _)])
  refine Follows.comment hseen htie hstart hlast hend ?_
  rw [hkept]
  exact (outline_append_blank (by simpa [leftOf, Piece.left] using isBlank_newlines _) _).symm

end Comment

end Follows

/-- The scan follows the lexer from a place at which it takes up a line. Of the line `done` has been scanned, and `code`
is what is kept of that. -/
def GoesBy (lines : List Text) (n : Nat) (done code rest : Text) (b : Bool) : Prop :=
  lines[n]? = some (done ++ rest) → (done = [] → code = []) → ∀ before : Text, lastLine before = code →
    before.count '\n' = n →
      Follows lines before (run (modeOf (openQuote b)) ⟨n + 1, done.length + 1⟩ (rest ++ linesBehind lines n))
        (strip lines n done code rest b).1 (strip lines n done code rest b).2

section Strip

variable {lines kept : List Text} {n : Nat} {before : Text} {b : Bool}

theorem GoesBy.nextLine (h : ∀ l, lines[n + 1]? = some l → GoesBy lines (n + 1) [] [] l b)
    (hcount : before.count '\n' = n) (hkept : outlineOf kept = outline (lastLine before)) :
    Follows lines before (runBreak b (n + 1) (linesBehind lines n)) (kept ++ (stripLines lines (n + 1) b).1)
      (stripLines lines (n + 1) b).2 := by
  cases hl : lines[n + 1]? with
  | none =>
    rw [linesBehind_of_none hl, stripLines, hl, List.append_nil]
    exact follows_nil hkept
  | some l =>
    rw [runBreak_linesBehind b hl, stripLines, hl]
    refine Follows.newline (h l hl hl (fun _ => rfl) _ (lastLine_append_newline before []) ?_) hkept
    rw [List.count_append, hcount]
    rfl

/-- Code of a line behind what stands before it. -/
theorem lastLine_along {code t : Text} (ht : IsLine t) (hcode : lastLine before = code)
    (hcount : before.count '\n' = n) :
    lastLine (before ++ t) = code ++ t ∧ (before ++ t).count '\n' = n ∧
      outlineOf (keepCode (code ++ t)) = outline (lastLine (before ++ t)) := by
  have hlast : lastLine (before ++ t) = code ++ t := by rw [lastLine_append _ ht, hcode]
  refine ⟨hlast, ?_, ?_⟩
  · rw [List.count_append, count_of_isLine ht, hcount, Nat.add_zero]
  · rw [hlast]
    exact outlineOf_keepCode (hlast ▸ isLine_lastLine _)

theorem isLine_before (hlines : ∀ l ∈ lines, IsLine l) {done rest before after : Text} {kind : CommentKind}
    (hn : lines[n]? = some (done ++ rest)) (hfind : findMarker (openQuote b) rest = .found before kind after) :
    IsLine before := fun hm =>
  isLine_rest hlines hn (by rw [eq_of_findMarker hfind]; simp [hm])

section Cases

variable {done code rest before' after inner rest' : Text}

/-- A line without a marker. -/
theorem goesBy_clear (hlines : ∀ l ∈ lines, IsLine l) {b' : Bool} (hfind : findMarker (openQuote b) rest = .clear b')
    (hnext : ∀ l, lines[n + 1]? = some l → GoesBy lines (n + 1) [] [] l b') : GoesBy lines n done code rest b := by
  intro hn hdone before hcode hcount
  have hrest := isLine_rest hlines hn
  obtain ⟨hlast, hcount', hkept⟩ := lastLine_along hrest hcode hcount
  rw [strip_clear hfind, run_of_findMarker_clear (atBreak_linesBehind lines n) hrest hfind]
  refine Follows.code (GoesBy.nextLine hnext hcount' ?_) hrest
  split
  · rename_i hempty
    rw [hlast, hdone (List.isEmpty_iff.1 hempty), List.nil_append, outline, splitLines_of_isLine hrest]
  · exact hkept

/-- A line with a line comment. -/
theorem goesBy_line (hlines : ∀ l ∈ lines, IsLine l)
    (hfind : findMarker (openQuote b) rest = .found before' .line after)
    (hnext : ∀ l, lines[n + 1]? = some l → GoesBy lines (n + 1) [] [] l false) :
    GoesBy lines n done code rest b := by
  intro hn _ before hcode hcount
  obtain ⟨hafter, -, hrun⟩ := run_of_found hlines hn hfind
  have hbefore := isLine_before hlines hn hfind
  obtain ⟨hlast, hcount', hkept⟩ := lastLine_along hbefore hcode hcount
  have htext : IsLine (trim after) := fun hm => hafter ((infix_trim after).subset hm)
  rw [hrun, strip_line hfind, commentMode, run_lineComment (atBreak_linesBehind lines n) _ _ _ hafter,
    List.nil_append]
  refine Follows.code (Follows.comment_line (by rfl) ?_ ?_ ?_ htext (GoesBy.nextLine hnext hcount' hkept)) hbefore
  · rw [hlast]
    rfl
  · rw [hcount']
  · rw [count_of_isLine htext]
    rfl

/-- A line with a block that is closed on it. -/
theorem goesBy_block (hlines : ∀ l ∈ lines, IsLine l) (hinner : ¬blockClose <:+: inner)
    (hfind : findMarker (openQuote b) rest = .found before' .block (inner ++ blockClose ++ rest'))
    (hnext : GoesBy lines n (done ++ before' ++ "/*".toList ++ inner ++ blockClose) (code ++ before') rest' false) :
    GoesBy lines n done code rest b := by
  intro hn _ before hcode hcount
  obtain ⟨hafter, hline, hrun⟩ := run_of_found hlines hn hfind
  have hbefore := isLine_before hlines hn hfind
  obtain ⟨hlast, hcount', -⟩ := lastLine_along hbefore hcode hcount
  have htext : IsLine inner := fun hm => hafter (by simp [hm])
  have hbehind := hnext (by rw [hline]; simp [CommentKind.marker]) (by simp [blockClose_eq]) _ hlast hcount'
  rw [length_block] at hbehind
  rw [hrun, strip_block hfind (splitOn?_blockClose rest' hinner), commentMode, List.append_assoc _ rest',
    run_closed _ hinner htext]
  refine Follows.code (Follows.comment_line (by rfl) ?_ ?_ ?_ htext hbehind) hbefore
  · rw [hlast]
    rfl
  · rw [hcount']
  · rw [count_of_isLine htext]
    rfl

/-- A line with a block that ends on a later line. -/
theorem goesBy_opened (hlines : ∀ l ∈ lines, IsLine l) {inside outside : List Text}
    (hfind : findMarker (openQuote b) rest = .found before' .block after) (hopen : ¬blockClose <:+: after)
    (hdrop : lines.drop (n + 1) = inside ++ (inner ++ blockClose ++ rest') :: outside)
    (hinside : ∀ l ∈ inside, ¬blockClose <:+: l) (hinner : ¬blockClose <:+: inner)
    (hnext : GoesBy lines (n + (inside.length + 1)) (inner ++ blockClose) [] rest' false) :
    GoesBy lines n done code rest b := by
  intro hn _ before hcode hcount
  obtain ⟨hafter, -, hrun⟩ := run_of_found hlines hn hfind
  have hbefore := isLine_before hlines hn hfind
  obtain ⟨hlast, hcount', hkept⟩ := lastLine_along hbefore hcode hcount
  have htext : (after ++ (inside.flatMap ('\n' :: ·) ++ '\n' :: inner)).count '\n' = inside.length + 1 := by
    have hmem : ∀ l ∈ inside ++ (inner ++ blockClose ++ rest') :: outside, IsLine l := fun l hl =>
      hlines l (List.mem_of_mem_drop (hdrop ▸ hl))
    have hinnerLine : IsLine inner := fun hm => hmem (inner ++ blockClose ++ rest') (by simp) (by simp [hm])
    have hall : ∀ l ∈ inside ++ [inner], IsLine l := List.forall_mem_append.2
      ⟨fun l hl => hmem l (List.mem_append_left _ hl), List.forall_mem_singleton.2 hinnerLine⟩
    simpa using count_lines hafter hall
  have hbehind := hnext (linesBehind_of_drop hdrop).1 (fun _ => rfl)
    (before ++ before' ++ List.replicate (inside.length + 1) '\n') (lastLine_append_newlines _ _)
    (by rw [List.count_append, hcount', List.count_replicate_self])
  rw [hrun, strip_open hfind (splitOn?_eq_none hopen) hdrop hinside hinner, commentMode,
    run_open hlines hafter hopen hdrop hinside hinner]
  refine Follows.code (Follows.comment_lines (by rfl) ?_ ?_ ?_ htext hbehind hkept) hbefore
  · rw [hlast]
    rfl
  · rw [hcount']
  · rw [htext]
    exact Nat.add_right_comm n (inside.length + 1) 1

/-- A line with a block that is not closed. -/
theorem goesBy_unclosed (hlines : ∀ l ∈ lines, IsLine l)
    (hfind : findMarker (openQuote b) rest = .found before' .block after) (hopen : ¬blockClose <:+: after)
    (hall : ∀ l ∈ lines.drop (n + 1), ¬blockClose <:+: l) : GoesBy lines n done code rest b := by
  intro hn _ before hcode hcount
  obtain ⟨hafter, hline, hrun⟩ := run_of_found hlines hn hfind
  have hbefore := isLine_before hlines hn hfind
  obtain ⟨hlast, hcount', hkept⟩ := lastLine_along hbefore hcode hcount
  rw [hrun, strip_unclosed hfind (splitOn?_eq_none hopen) hall, commentMode, ← length_marker,
    run_endless hlines hline hopen hall]
  refine Follows.code (follows_last (by rfl) ?_ ?_ ?_ hkept) hbefore
  · rw [hlast]
    rfl
  · rw [hcount']
  · rw [linesBehind, count_lines hafter fun l hl => hlines l (List.mem_of_mem_drop hl)]
    exact Nat.add_right_comm n _ 1

end Cases

/-- **The scan of lines follows the lexer, from every place at which it takes up a line.** -/
theorem follows_strip (hlines : ∀ l ∈ lines, IsLine l) (n : Nat) (done code rest : Text) (b : Bool) :
    GoesBy lines n done code rest b := by
  refine strip_induction lines ?_ ?_ ?_ ?_ ?_ n done code rest b
  · intro n done code rest b b' hfind hnext
    exact goesBy_clear hlines hfind hnext
  · intro n done code rest b before after hfind hnext
    exact goesBy_line hlines hfind hnext
  · intro n done code rest b before inner rest' hinner hfind hnext
    exact goesBy_block hlines hinner hfind hnext
  · intro n done code rest b before after inside inner rest' outside hfind hopen hdrop hinside hinner hnext
    exact goesBy_opened hlines hfind hopen hdrop hinside hinner hnext
  · intro n done code rest b before after hfind hopen hall
    exact goesBy_unclosed hlines hfind hopen hall

end Strip

end Lexer

/-! ## Bodies -/

theorem follows_stripLines (body : Text) : Lexer.Follows (splitLines body) [] (Lexer.piecesOf body)
    (stripLines (splitLines body) 0 false).1 (stripComments body).comments := by
  obtain ⟨l, hfirst, hbody, hlines⟩ := exists_firstLine body
  have hfollows := Lexer.follows_strip (fun _ hl => isLine_of_mem_splitLines hl) 0 [] [] l false hfirst (fun _ => rfl)
    [] rfl rfl
  rw [hbody, ← hlines] at hfollows
  rw [stripComments_eq]
  exact hfollows

/-- The comments that are taken out are those that a lexer sees, tied as the lines of the body tell. -/
theorem meets_stripComments (body : Text) :
    List.Forall₂ (Lexer.Meets (splitLines body)) (stripComments body).comments (Lexer.occurrences body) :=
  (follows_stripLines body).met

theorem isPlaced_of_mem_occurrences {body : Text} {o : Lexer.Occurrence} (h : o ∈ Lexer.occurrences body) :
    o.IsPlaced :=
  (follows_stripLines body).placed o h

/-- What is left of a body without its comments are its lines of code. -/
theorem outline_stripComments (body : Text) :
    outline (stripComments body).cleaned = outlineOf (Lexer.codeLines body) := by
  have hcleaned : (stripComments body).cleaned = tidy (stripLines (splitLines body) 0 false).1 := by
    rw [stripComments_eq]
  rw [hcleaned, outline_tidy (Lexer.quoted_stripLines body).isLine, (follows_stripLines body).outlined]
  rfl

end StyleHoist
