import StyleHoist.Proofs.Comment.Kept

/-!
# The tokens that are left when comments are taken out

Comments are taken out of a body line by line, and the lines that are kept are tidied. A reader of the script finds the
same words in what is left as in the body, but for comments (`words_stripComments`), if the body can be scanned line by
line: quotations end on their lines, line comments with them, and templates have no blank lines in a row and no blanks
at the end of a line with a comment (`LineByLine`). The scan puts nothing in the place of a comment. So the tokens are
those of the body just if no comment is all that keeps two of them apart (`stripComments_keepsTokens_iff`).

- `follows_clear`, `follows_line`, `follows_block`, `follows_opened`, `follows_unclosed`: what a reader finds from a
  place on is what the scan keeps from there on, in each way in which the scan can go on.
- `exists_kept`: of a line in a template that is not blank something is kept.
-/

namespace StyleHoist
namespace Tokens

open Text Listing

/-! ## Lines of a body -/

/-- What a reader is inside of at the start of a line. -/
def modeAt (lines : List Text) (n : Nat) : Mode :=
  (Mode.read .code (unlines (lines.take n))).1

theorem modeAt_add {lines ls rest : List Text} {n : Nat} (h : lines.drop n = ls ++ rest) :
    modeAt lines (n + ls.length) = ((modeAt lines n).read (unlines ls)).1 := by
  rw [modeAt, List.take_add, h, List.take_left, unlines_append, read_append, modeAt]

/-- Lines that can be scanned one by one for comments, since nothing goes on over the end of a line but templates and
block comments, and no template has margins that tidying lines would take away. -/
structure LineByLine (lines : List Text) : Prop where
  /-- A quotation ends on its line. -/
  quotations : ∀ n ≤ lines.length, (modeAt lines n).inQuotation = false
  /-- A line comment ends with its line, but for blanks. -/
  lineComments : ∀ n (hn : n < lines.length) before c behind, lines[n] = before ++ c :: behind →
    ((modeAt lines n).read before).1 = .lineComment → Script.isLineEnd c = true → isBlank behind = true
  /-- A blank line in a template stands before one that is not blank. -/
  blankLines : ∀ n (hn : n < lines.length), isBlank lines[n] = true → lines[n + 1]?.all isBlank = true →
    (modeAt lines n).inLiteral = false
  /-- A line with a comment that ends in a template does not end in blanks. -/
  margins : ∀ n (hn : n < lines.length), .comment ∈ ((modeAt lines n).read lines[n]).2 →
    ((modeAt lines n).read lines[n]).1.inLiteral = true → trimEnd lines[n] = lines[n]

/-- Where newlines are the only ends of lines, line comments end with their lines. -/
theorem lineComments_of_newlines {body : Text} (h : (body.filter Script.isLineEnd).all (· == '\n') = true) :
    ∀ n (hn : n < (splitLines body).length) before c behind, (splitLines body)[n] = before ++ c :: behind →
      ((modeAt (splitLines body) n).read before).1 = .lineComment → Script.isLineEnd c = true →
        isBlank behind = true := by
  intro n hn before c behind hline _ hc
  have hmem : (splitLines body)[n] ∈ splitLines body := List.getElem_mem hn
  have hbody : c ∈ body := (infix_of_mem_splitLines hmem).subset (by rw [hline]; simp)
  obtain rfl : c = '\n' := by simpa using List.all_eq_true.1 h c (List.mem_filter.2 ⟨hbody, hc⟩)
  exact absurd (by rw [hline]; simp) (isLine_of_mem_splitLines hmem)

/-! ## The scan of a body -/

section Body

variable {lines : List Text}

/-- Code that is not blank is kept. -/
theorem keepCode_of_not_isBlank {s : Text} (h : isBlank s = false) (more : List Text) :
    ∃ k ks, keepCode s ++ more = k :: ks ∧ isBlank k = false :=
  ⟨trimEnd s, more, by rw [keepCode, if_neg (by simp [h])]; rfl, by rw [isBlank_trimEnd, h]⟩

/-- A template is not left over blanks. -/
theorem not_isBlank_of_findMarker {rest before after : Text} {kind : CommentKind} (hrest : IsLine rest)
    (h : findMarker (openQuote true) rest = .found before kind after) : isBlank before = false := by
  obtain ⟨xs, hread, -⟩ := read_of_findMarker_found hrest h
  have hbefore : IsLine before := fun hm => hrest (eq_of_findMarker h ▸ by simp [hm])
  cases hblank : isBlank before with
  | false => rfl
  | true =>
    have hliteral : (Mode.read (.quoted '\x60') before).1.inLiteral = true :=
      inLiteral_read_blank rfl (by decide) hblank hbefore
    rw [show Mode.read (.quoted '\x60') before = (.code, xs) from hread] at hliteral
    cases hliteral

/-- Something is kept of a line of which code has been kept, and of a line in a template that is not blank. -/
def KeepsSome (lines : List Text) (n : Nat) (done code rest : Text) (b : Bool) : Prop :=
  lines[n]? = some (done ++ rest) → (isBlank code = false ∧ done ≠ [] ∨ done = [] ∧ b = true ∧ isBlank rest = false) →
    ∃ k ks, (strip lines n done code rest b).1 = k :: ks ∧ isBlank k = false

theorem exists_kept (hlines : ∀ l ∈ lines, IsLine l) (n : Nat) (done code rest : Text) (b : Bool) :
    KeepsSome lines n done code rest b := by
  have hsolid : ∀ {n : Nat} {done code rest before after : Text} {b : Bool} {kind : CommentKind},
      lines[n]? = some (done ++ rest) → findMarker (openQuote b) rest = .found before kind after →
      (isBlank code = false ∧ done ≠ [] ∨ done = [] ∧ b = true ∧ isBlank rest = false) →
        isBlank (code ++ before) = false := by
    intro n done code rest before after b kind hn hfind h
    rw [isBlank_append]
    rcases h with ⟨hcode, -⟩ | ⟨-, rfl, -⟩
    · rw [hcode, Bool.false_and]
    · rw [not_isBlank_of_findMarker (isLine_rest hlines hn) hfind, Bool.and_false]
  refine strip_induction lines ?_ ?_ ?_ ?_ ?_ n done code rest b
  · intro n done code rest b b' hfind _ hn h
    rw [strip_clear hfind]
    rcases h with ⟨hcode, hdone⟩ | ⟨rfl, -, hrest⟩
    · rw [if_neg (by simpa using hdone)]
      exact keepCode_of_not_isBlank (by rw [isBlank_append, hcode, Bool.false_and]) _
    · exact ⟨rest, _, rfl, hrest⟩
  · intro n done code rest b before after hfind _ hn h
    rw [strip_line hfind]
    exact keepCode_of_not_isBlank (hsolid hn hfind h) _
  · intro n done code rest b before inner rest' hinner hfind ih hn h
    rw [strip_block hfind (splitOn?_blockClose rest' hinner)]
    refine ih ?_ (Or.inl ⟨hsolid hn hfind h, by simp [blockClose_eq]⟩)
    rw [hn, eq_of_findMarker hfind]
    simp [CommentKind.marker]
  · intro n done code rest b before after inside inner rest' outside hfind hopen hdrop hinside hinner _ hn h
    rw [strip_open hfind (splitOn?_eq_none hopen) hdrop hinside hinner]
    exact keepCode_of_not_isBlank (hsolid hn hfind h) _
  · intro n done code rest b before after hfind hopen hbehind hn h
    rw [strip_unclosed hfind (splitOn?_eq_none hopen) hbehind]
    simpa using keepCode_of_not_isBlank (hsolid hn hfind h) []

/-- From a place at which the scan takes up a line, the lines that it keeps have the words that a reader finds there but
for comments. Of the line `done` has been scanned, and `code` is what is kept of that. -/
def Follows (lines : List Text) (n : Nat) (done code rest : Text) (b : Bool) : Prop :=
  ∀ (m : Mode) (xs : List Bit), lines[n]? = some (done ++ rest) →
    ((modeAt lines n).read done).1 = modeOf (openQuote b) →
    (done ≠ [] → .comment ∈ ((modeAt lines n).read done).2 ∧ b = false) → (done = [] → code = []) →
    m.KeepsLines → m.read code = (modeOf (openQuote b), xs) → .comment ∉ xs → IsLine code →
      Gives m (xs ++ uncommented ((modeOf (openQuote b)).read (unlines (rest :: lines.drop (n + 1)))).2)
        (strip lines n done code rest b).1

theorem keepsLines_modeOf (b : Bool) : (modeOf (openQuote b)).KeepsLines := by
  cases b
  · exact Or.inl rfl
  · exact Or.inr rfl

/-- Where the scan takes up the next line. -/
theorem gives_nextLine {n : Nat} {b : Bool} (hmode : modeAt lines (n + 1) = modeOf (openQuote b))
    (hnext : ∀ l, lines[n + 1]? = some l → Follows lines (n + 1) [] [] l b) :
    Gives (modeOf (openQuote b)) (uncommented ((modeOf (openQuote b)).read (unlines (lines.drop (n + 1)))).2)
      (stripLines lines (n + 1) b).1 := by
  cases hl : lines[n + 1]? with
  | none =>
    rw [stripLines, hl, List.drop_eq_nil_of_le (List.getElem?_eq_none_iff.1 hl)]
    exact gives_nil _
  | some l =>
    obtain ⟨hn, hget⟩ := List.getElem?_eq_some_iff.1 hl
    rw [stripLines, hl, List.drop_eq_getElem_cons hn, hget]
    exact hnext l hl _ [] hl hmode (fun h => absurd rfl h) (fun _ => rfl) (keepsLines_modeOf b) rfl List.not_mem_nil
      (by simp [IsLine])

/-- A line at the start of which a reader is where the scan is. -/
theorem modeAt_next {n : Nat} {done rest : Text} {b : Bool} (hn : lines[n]? = some (done ++ rest))
    (hmode : ((modeAt lines n).read done).1 = modeOf (openQuote b)) :
    modeAt lines (n + 1) = ((modeOf (openQuote b)).read (rest ++ ['\n'])).1 := by
  obtain ⟨hlt, hget⟩ := List.getElem?_eq_some_iff.1 hn
  have hdrop : lines.drop n = [done ++ rest] ++ lines.drop (n + 1) := by
    rw [List.drop_eq_getElem_cons hlt, hget]
    rfl
  have hline : unlines [done ++ rest] = done ++ (rest ++ ['\n']) := by simp [unlines]
  rw [show n + 1 = n + [done ++ rest].length from rfl, modeAt_add hdrop, hline, read_append, hmode]

/-- Behind a blank line of a template something is kept that is not blank. -/
theorem not_all_kept (h : LineByLine lines) (hlines : ∀ l ∈ lines, IsLine l) {n : Nat} {rest : Text}
    (hn : lines[n]? = some rest) (hblank : isBlank rest = true) (hmode : modeAt lines n = .quoted '\x60') :
    (stripLines lines (n + 1) true).1.head?.all isBlank = false := by
  obtain ⟨hlt, hget⟩ := List.getElem?_eq_some_iff.1 hn
  have hnext : lines[n + 1]?.all isBlank ≠ true := by
    intro hall
    have hliteral := h.blankLines n hlt (hget ▸ hblank) hall
    rw [hmode] at hliteral
    cases hliteral
  cases hl : lines[n + 1]? with
  | none => exact absurd (by rw [hl]; rfl) hnext
  | some l =>
    have hsolid : isBlank l = false := by
      rw [hl] at hnext
      simpa using hnext
    obtain ⟨k, ks, hkept, hk⟩ := exists_kept hlines (n + 1) [] [] l true hl (Or.inr ⟨rfl, rfl, hsolid⟩)
    rw [stripLines, hl]
    simp only [hkept, List.head?_cons, Option.all_some, hk]

section Clear

variable {n : Nat} {done code rest : Text} {b b' : Bool}

/-- Over the end of a line without a marker a reader goes where the scan does. -/
theorem read_clear (h : LineByLine lines) (hlines : ∀ l ∈ lines, IsLine l) (hn : lines[n]? = some (done ++ rest))
    (hmode : ((modeAt lines n).read done).1 = modeOf (openQuote b))
    (hfind : findMarker (openQuote b) rest = .clear b') :
    ∃ ys, (modeOf (openQuote b)).read (rest ++ ['\n']) = (modeOf (openQuote b'), ys) ∧ .comment ∉ ys ∧
      modeAt lines (n + 1) = modeOf (openQuote b') := by
  obtain ⟨hlt, -⟩ := List.getElem?_eq_some_iff.1 hn
  have hmode' := modeAt_next hn hmode
  obtain ⟨ys, hread, hys⟩ := read_of_findMarker_clear (isLine_rest hlines hn) hfind fun q hq => by
    have hquotation := h.quotations (n + 1) hlt
    rw [hmode', hq] at hquotation
    simpa [Mode.inQuotation] using hquotation
  exact ⟨ys, hread, hys, by rw [hmode', hread]⟩

/-- A blank line in a template stands before one of which something is kept. -/
theorem calm_line (h : LineByLine lines) (hlines : ∀ l ∈ lines, IsLine l) (hn : lines[n]? = some rest)
    (hmode : modeAt lines n = modeOf (openQuote b)) {ys : List Bit}
    (hread : (modeOf (openQuote b)).read (rest ++ ['\n']) = (modeOf (openQuote b'), ys)) (hblank : isBlank rest = true)
    (hall : (stripLines lines (n + 1) b').1.head?.all isBlank = true) : modeOf (openQuote b) = .code := by
  cases b with
  | false => rfl
  | true =>
    have htemplate := read_template_blank (isBlank_append_newline hblank)
    rw [show Mode.read (.quoted '\x60') (rest ++ ['\n']) = _ from hread] at htemplate
    obtain rfl : b' = true := by
      cases b' with
      | true => rfl
      | false => cases htemplate
    rw [not_all_kept h hlines hn hblank hmode] at hall
    cases hall

/-- A line with a comment that ends in a template keeps its end. -/
theorem trimEnd_kept (h : LineByLine lines) (hn : lines[n]? = some (done ++ rest))
    (hmode : ((modeAt lines n).read done).1 = modeOf (openQuote false))
    (hcomment : .comment ∈ ((modeAt lines n).read done).2)
    (hliteral : (Mode.read (modeOf (openQuote false)) rest).1.inLiteral = true) :
    trimEnd (code ++ rest) = code ++ rest := by
  obtain ⟨hlt, hget⟩ := List.getElem?_eq_some_iff.1 hn
  have hne : rest ≠ [] := by
    rintro rfl
    cases hliteral
  have hmargin := h.margins n hlt (by rw [hget, read_append]; exact List.mem_append_left _ hcomment)
    (by rw [hget, read_append, hmode]; exact hliteral)
  rw [hget] at hmargin
  refine trimEnd_of_getLast? fun c hc => ?_
  have hlast : (trimEnd (done ++ rest)).getLast? = some c := by
    rw [hmargin, List.getLast?_append_of_ne_nil _ hne, ← hc, List.getLast?_append_of_ne_nil _ hne]
  exact dropEndWhile_getLast? hlast

/-- A line without a marker. -/
theorem follows_clear (h : LineByLine lines) (hlines : ∀ l ∈ lines, IsLine l)
    (hfind : findMarker (openQuote b) rest = .clear b')
    (hnext : ∀ l, lines[n + 1]? = some l → Follows lines (n + 1) [] [] l b') : Follows lines n done code rest b := by
  intro m xs hn hmode hdone hcode hm hread hxs hline
  obtain ⟨ys, hrest, hys, hmode'⟩ := read_clear h hlines hn hmode hfind
  have hgives := gives_nextLine hmode' hnext
  rw [strip_clear hfind, unlines_cons, read_append_of hrest, uncommented_append, uncommented_of_not_mem hys,
    ← List.append_assoc]
  by_cases hnil : done = []
  · subst hnil
    obtain rfl := hcode rfl
    obtain ⟨rfl, rfl⟩ := Prod.mk.inj hread
    exact hgives.cons hrest fun hblank hall => calm_line h hlines hn hmode hrest hblank hall
  · obtain ⟨hcomment, rfl⟩ := hdone hnil
    have hfull : m.read (code ++ rest ++ ['\n']) = (modeOf (openQuote b'), xs ++ ys) := by
      rw [List.append_assoc, read_append_of hread, hrest]
    rw [if_neg (by simpa using hnil)]
    refine hgives.keep hm (keepsLines_modeOf b') (hline.append (isLine_rest hlines hn)) hfull ?_ ?_ ?_
    · simpa using ⟨hxs, hys⟩
    · intro hblank
      rw [isBlank_append, Bool.and_eq_true] at hblank
      exact eq_code_of_isBlank hm hblank.1 hline (by rw [hread]; rfl)
    · intro hliteral
      rw [read_append_of hread] at hliteral
      exact trimEnd_kept h hn hmode hcomment hliteral

end Clear

theorem uncommented_append_spaces {xs : List Bit} (h : .comment ∉ xs) (k : Nat) :
    uncommented (xs ++ List.replicate k .space) = xs ++ List.replicate k .space :=
  uncommented_of_not_mem (by simp [h])

section Found

variable {n : Nat} {done code rest before after : Text} {b : Bool} {kind : CommentKind}

/-- What a reader is inside of behind the marker of a comment. -/
def commentMode : CommentKind → Mode
  | .line => .lineComment
  | .block => .blockComment

/-- Up to a marker a reader finds code only, and behind it is in a comment. -/
theorem read_before {m : Mode} {xs : List Bit} (hrest : IsLine rest)
    (hfind : findMarker (openQuote b) rest = .found before kind after)
    (hread : m.read code = (modeOf (openQuote b), xs)) (hxs : .comment ∉ xs) (hline : IsLine code) :
    ∃ ys, (modeOf (openQuote b)).read (before ++ kind.marker) = (commentMode kind, ys) ∧ .comment ∉ ys ∧
      m.read (code ++ before) = (.code, xs ++ ys) ∧ .comment ∉ xs ++ ys ∧ IsLine (code ++ before) := by
  obtain ⟨ys, hbefore, hys⟩ := read_of_findMarker_found hrest hfind
  have hbeforeLine : IsLine before := fun hm => hrest (eq_of_findMarker hfind ▸ by simp [hm])
  have hmarker : Mode.read .code kind.marker = (commentMode kind, []) := by
    cases kind <;> rfl
  refine ⟨ys, ?_, hys, ?_, by simpa using ⟨hxs, hys⟩, hline.append hbeforeLine⟩
  · rw [read_append_of hbefore, hmarker, List.append_nil]
  · rw [read_append_of hread, hbefore]

end Found

/-- A line with a line comment. -/
theorem follows_line (h : LineByLine lines) (hlines : ∀ l ∈ lines, IsLine l) {n : Nat}
    {done code rest before after : Text} {b : Bool} (hfind : findMarker (openQuote b) rest = .found before .line after)
    (hnext : ∀ l, lines[n + 1]? = some l → Follows lines (n + 1) [] [] l false) : Follows lines n done code rest b := by
  intro m xs hn hmode hdone hcode hm hread hxs hline
  obtain ⟨ys, hmarked, hys, hkept, hkeptComment, hkeptLine⟩ := read_before (isLine_rest hlines hn) hfind hread hxs hline
  have hsplit := eq_of_findMarker hfind
  obtain ⟨k, hcomment⟩ : ∃ k, Mode.read .lineComment (after ++ ['\n']) =
      (.code, .comment :: .space :: List.replicate k .space) := by
    refine read_lineComment fun inside c behind hafter hinside hc => ?_
    obtain ⟨hlt, hget⟩ := List.getElem?_eq_some_iff.1 hn
    refine h.lineComments n hlt (done ++ (before ++ CommentKind.line.marker ++ inside)) c behind ?_ ?_ hc
    · rw [hget, hsplit, hafter]
      simp
    · rw [read_append, hmode, read_append_of hmarked, commentMode, read_lineComment_inside hinside]
  have hread' : (modeOf (openQuote b)).read (rest ++ ['\n']) =
      (.code, ys ++ .comment :: List.replicate (k + 1) .space) := by
    rw [hsplit, List.append_assoc, read_append_of hmarked, commentMode, hcomment, List.replicate_succ]
  have hmode' := modeAt_next hn hmode
  rw [hread'] at hmode'
  have hspaces : uncommented (ys ++ .comment :: List.replicate (k + 1) .space) =
      ys ++ List.replicate (k + 1) .space := by
    rw [uncommented_append, uncommented_of_not_mem hys]
    simp [uncommented]
  have hgives := (gives_nextLine (b := false) hmode' hnext).keepCode hm hkeptLine hkept hkeptComment k
  rw [strip_line hfind, unlines_cons, read_append_of hread', uncommented_append, hspaces, ← List.append_assoc,
    ← List.append_assoc]
  exact hgives

/-- A line with a block that is closed on it. -/
theorem follows_block (hlines : ∀ l ∈ lines, IsLine l) {n : Nat} {done code rest before inner rest' : Text} {b : Bool}
    (hinner : ¬blockClose <:+: inner)
    (hfind : findMarker (openQuote b) rest = .found before .block (inner ++ blockClose ++ rest'))
    (hnext : Follows lines n (done ++ before ++ "/*".toList ++ inner ++ blockClose) (code ++ before) rest' false) :
    Follows lines n done code rest b := by
  intro m xs hn hmode hdone hcode hm hread hxs hline
  obtain ⟨ys, hmarked, hys, hkept, hkeptComment, hkeptLine⟩ := read_before (isLine_rest hlines hn) hfind hread hxs hline
  have hsplit := eq_of_findMarker hfind
  have hinnerLine : IsLine inner := fun hm => isLine_rest hlines hn (hsplit ▸ by simp [hm])
  have hclosed : (modeOf (openQuote b)).read (before ++ CommentKind.block.marker ++ (inner ++ blockClose)) =
      (.code, ys ++ [.comment]) := by
    rw [read_append_of hmarked, commentMode, read_block hinner, List.count_eq_zero_of_not_mem hinnerLine]
    rfl
  have hdone' : done ++ before ++ "/*".toList ++ inner ++ blockClose =
      done ++ (before ++ CommentKind.block.marker ++ (inner ++ blockClose)) := by simp [CommentKind.marker]
  have hgives := hnext m (xs ++ ys) (by rw [hn, hsplit, hdone']; simp)
    (by rw [hdone', read_append, hmode, hclosed]; rfl)
    (fun _ => ⟨by rw [hdone', read_append, hmode, hclosed]; simp, rfl⟩) (by simp [blockClose_eq]) hm hkept hkeptComment
    hkeptLine
  have hwhole : unlines (rest :: lines.drop (n + 1)) = before ++ CommentKind.block.marker ++ (inner ++ blockClose) ++
      unlines (rest' :: lines.drop (n + 1)) := by
    rw [hsplit, unlines_cons, unlines_cons]
    simp
  have hbits : uncommented (ys ++ [.comment]) = ys := by
    rw [uncommented_append, uncommented_of_not_mem hys]
    exact List.append_nil ys
  rw [strip_block hfind (splitOn?_blockClose rest' hinner), hwhole, read_append_of hclosed, uncommented_append, hbits,
    ← List.append_assoc]
  exact hgives

/-- A line with a block that ends on a later line. -/
theorem follows_opened (hlines : ∀ l ∈ lines, IsLine l) {n : Nat} {done code rest before after inner rest' : Text}
    {inside outside : List Text} {b : Bool} (hfind : findMarker (openQuote b) rest = .found before .block after)
    (hopen : ¬blockClose <:+: after) (hdrop : lines.drop (n + 1) = inside ++ (inner ++ blockClose ++ rest') :: outside)
    (hinside : ∀ l ∈ inside, ¬blockClose <:+: l) (hinner : ¬blockClose <:+: inner)
    (hnext : Follows lines (n + (inside.length + 1)) (inner ++ blockClose) [] rest' false) :
    Follows lines n done code rest b := by
  intro m xs hn hmode hdone hcode hm hread hxs hline
  obtain ⟨ys, hmarked, hys, hkept, hkeptComment, hkeptLine⟩ := read_before (isLine_rest hlines hn) hfind hread hxs hline
  have hsplit := eq_of_findMarker hfind
  obtain ⟨k, hblock⟩ := read_openLines hopen hinside
  have hopened : (modeOf (openQuote b)).read (before ++ CommentKind.block.marker ++ unlines (after :: inside)) =
      (.blockComment, ys ++ List.replicate (k + 1) .space) := by
    rw [read_append_of hmarked, commentMode, hblock]
  -- The line on which the block ends.
  obtain ⟨hlast, -⟩ := linesBehind_of_drop hdrop
  have hinnerLine : IsLine inner := fun hm => hlines _ (List.mem_of_getElem? hlast) (by simp [hm])
  have hclose : Mode.read .blockComment (inner ++ blockClose) = (.code, [.comment]) := by
    rw [read_block hinner, List.count_eq_zero_of_not_mem hinnerLine]
    rfl
  have hmodeLast : modeAt lines (n + (inside.length + 1)) = .blockComment := by
    obtain ⟨hlt, hget⟩ := List.getElem?_eq_some_iff.1 hn
    have hdrop' : lines.drop n = (done ++ rest) :: inside ++ (inner ++ blockClose ++ rest') :: outside := by
      rw [List.drop_eq_getElem_cons hlt, hget, hdrop]
      rfl
    have hlines' : unlines ((done ++ rest) :: inside) =
        done ++ (before ++ CommentKind.block.marker ++ unlines (after :: inside)) := by
      rw [hsplit, unlines_cons, unlines_cons]
      simp
    rw [show inside.length + 1 = ((done ++ rest) :: inside).length from rfl, modeAt_add hdrop', hlines', read_append,
      hmode, hopened]
  have hdropLast : lines.drop (n + (inside.length + 1) + 1) = outside := by
    rw [show n + (inside.length + 1) + 1 = n + 1 + (inside.length + 1) by omega, ← List.drop_drop, hdrop]
    simp
  have hgives := hnext .code [] (by rw [hlast]) (by rw [hmodeLast, hclose]; rfl)
    (fun _ => ⟨by rw [hmodeLast, hclose]; simp, rfl⟩) (by simp [blockClose_eq]) (Or.inl rfl) rfl List.not_mem_nil
    (by simp [IsLine])
  rw [hdropLast, List.nil_append] at hgives
  have hwhole : unlines (rest :: lines.drop (n + 1)) =
      before ++ CommentKind.block.marker ++ unlines (after :: inside) ++ (inner ++ blockClose ++
        unlines (rest' :: outside)) := by
    rw [hsplit, hdrop, unlines_cons, unlines_cons, unlines_append, unlines_cons, unlines_cons]
    simp
  have hspaces := uncommented_append_spaces hys (k + 1)
  have hcomment : uncommented [.comment] = [] := rfl
  rw [strip_open hfind (splitOn?_eq_none hopen) hdrop hinside hinner, hwhole, read_append_of hopened,
    read_append_of hclose, uncommented_append, hspaces, uncommented_append, hcomment, List.nil_append,
    ← List.append_assoc, ← List.append_assoc]
  exact hgives.keepCode hm hkeptLine hkept hkeptComment k

/-- A line with a block that is not closed. -/
theorem follows_unclosed (hlines : ∀ l ∈ lines, IsLine l) {n : Nat} {done code rest before after : Text} {b : Bool}
    (hfind : findMarker (openQuote b) rest = .found before .block after) (hopen : ¬blockClose <:+: after)
    (hbehind : ∀ l ∈ lines.drop (n + 1), ¬blockClose <:+: l) : Follows lines n done code rest b := by
  intro m xs hn hmode hdone hcode hm hread hxs hline
  obtain ⟨ys, hmarked, hys, hkept, hkeptComment, hkeptLine⟩ := read_before (isLine_rest hlines hn) hfind hread hxs hline
  obtain ⟨k, hblock⟩ := read_openLines hopen hbehind
  have hwhole : unlines (rest :: lines.drop (n + 1)) =
      before ++ CommentKind.block.marker ++ unlines (after :: lines.drop (n + 1)) := by
    rw [eq_of_findMarker hfind, unlines_cons, unlines_cons]
    simp
  have hspaces := uncommented_append_spaces hys (k + 1)
  have hgives := (gives_nil .code).keepCode hm hkeptLine hkept hkeptComment k
  rw [strip_unclosed hfind (splitOn?_eq_none hopen) hbehind, hwhole, read_append_of hmarked, commentMode, hblock,
    hspaces]
  simpa only [List.append_assoc, List.append_nil] using hgives

/-- **Taking comments out keeps the words of the lines.** -/
theorem follows_strip (hlines : ∀ l ∈ lines, IsLine l) (h : LineByLine lines) (n : Nat) (done code rest : Text)
    (b : Bool) : Follows lines n done code rest b := by
  refine strip_induction lines ?_ ?_ ?_ ?_ ?_ n done code rest b
  · intro n done code rest b b' hfind hnext
    exact follows_clear h hlines hfind hnext
  · intro n done code rest b before after hfind hnext
    exact follows_line h hlines hfind hnext
  · intro n done code rest b before inner rest' hinner hfind hnext
    exact follows_block hlines hinner hfind hnext
  · intro n done code rest b before after inside inner rest' outside hfind hopen hdrop hinside hinner hnext
    exact follows_opened hlines hfind hopen hdrop hinside hinner hnext
  · intro n done code rest b before after hfind hopen hbehind
    exact follows_unclosed hlines hfind hopen hbehind

end Body

theorem bitsOf_eq (t : Text) : bitsOf t = (Mode.read .code (unlines (splitLines t))).2 := by
  rw [bitsOf, unlines_eq (splitLines_ne_nil t), joinLines_splitLines]

/-- **Taking comments out of a body leaves the words that a reader finds in it, without their comments.** -/
theorem words_stripComments {body : Text} (h : LineByLine (splitLines body)) :
    words (bitsOf (stripComments body).cleaned) = words (uncommented (bitsOf body)) := by
  have hlines : ∀ l ∈ splitLines body, IsLine l := fun l hl => isLine_of_mem_splitLines hl
  obtain ⟨l, ls, hls⟩ := List.exists_cons_of_ne_nil (splitLines_ne_nil body)
  have hfirst : (splitLines body)[0]? = some l := by rw [hls]; rfl
  have hgives := follows_strip hlines h 0 [] [] l false .code [] hfirst rfl (fun h => absurd rfl h) (fun _ => rfl)
    (Or.inl rfl) rfl List.not_mem_nil (by simp [IsLine])
  have hbody : l :: (splitLines body).drop 1 = splitLines body := by rw [hls]; rfl
  have hstrip : stripLines (splitLines body) 0 false = strip (splitLines body) 0 [] [] l false := by
    rw [stripLines, hfirst]
  rw [Nat.zero_add, hbody, List.nil_append] at hgives
  rw [stripComments_eq, hstrip, words_tidy hgives.calm, bitsOf_eq, ← hgives.words_eq]
  rfl

end Tokens

open Text Tokens

/-- **Taking comments out of a body keeps its tokens just if no comment keeps tokens apart.** -/
theorem stripComments_keepsTokens_iff {body : Text} (h : LineByLine (splitLines body)) :
    tokensOf (stripComments body).cleaned = tokensOf body ↔ JoinsNothing (bitsOf body) := by
  have hwords := words_stripComments h
  have hcleaned : .comment ∉ bitsOf (stripComments body).cleaned := by
    intro hmem
    obtain ⟨w, hw, hin⟩ := mem_words_iff.2 ⟨hmem, by simp⟩
    rw [hwords] at hw
    exact not_mem_uncommented _ (mem_words_iff.1 ⟨w, hw, hin⟩).1
  rw [← tokens_uncommented_iff, tokensOf, tokensOf, tokens_of_not_mem hcleaned, hwords,
    tokens_of_not_mem (not_mem_uncommented _)]

/-- Comments between tokens and in a template, and a template with a blank line. -/
theorem stripComments_keepsTokens_templates :
    LineByLine (splitLines "a: \x60x // y\n\nz\x60, // b\n\n\nc: 'd /* e' /* f\ng */ + h".toList) ∧
      tokensOf (stripComments "a: \x60x // y\n\nz\x60, // b\n\n\nc: 'd /* e' /* f\ng */ + h".toList).cleaned =
        tokensOf "a: \x60x // y\n\nz\x60, // b\n\n\nc: 'd /* e' /* f\ng */ + h".toList := by
  have h : LineByLine (splitLines "a: \x60x // y\n\nz\x60, // b\n\n\nc: 'd /* e' /* f\ng */ + h".toList) :=
    ⟨by decide +kernel, lineComments_of_newlines (by decide +kernel), by decide +kernel, by decide +kernel⟩
  exact ⟨h, (stripComments_keepsTokens_iff h).2 (by decide +kernel)⟩

/-- A comment may be all that keeps a word from the next, and a template may hold blank lines in a row. -/
theorem not_keepsTokens_joinedWords :
    tokensOf (stripComments "a: x/* c */in y".toList).cleaned ≠ tokensOf "a: x/* c */in y".toList ∧
      tokensOf (stripComments "a: \x60x\n\n\ny\x60".toList).cleaned ≠ tokensOf "a: \x60x\n\n\ny\x60".toList := by
  decide +kernel

end StyleHoist
