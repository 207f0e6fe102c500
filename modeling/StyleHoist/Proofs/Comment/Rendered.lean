import StyleHoist.Proofs.Comment.Lexer
import StyleHoist.Proofs.Comment.Notation

/-!
# Comments that are put back

Comments that are put back among lines of code are found again by a scan, in order, each saying what it said, and the
lines of code are kept as they were. The layout of a block may change: its lines lose the blanks around them, and on the
line of a property they become one.

- `solid_standalone`, `solid_trailing`: whatever a comment says is written with it, white space aside.
- `yields_standalone`, `yields_coded`: so it is for a comment on lines of its own and for one behind code.
- `yields_restoreLines`: so it is for comments that are put among the lines of an entry.
-/

namespace StyleHoist

open Text Listing

/-! ## What is written -/

namespace Lexer

theorem solid_outlineOf (ls : List Text) : solid (outlineOf ls).flatten = solid ls.flatten := by
  induction ls with
  | nil => rfl
  | cons l ls ih =>
    rw [List.flatten_cons, solid_append, ← ih]
    by_cases hblank : trim l = []
    · have hl : solid l = [] := by rw [← solid_trim, hblank]; rfl
      simp [outlineOf, hblank, hl]
    · rw [outlineOf_cons_of_ne_nil hblank, List.flatten_cons, solid_append, solid_trim]

theorem solid_splitLines (t : Text) : solid (splitLines t).flatten = solid t := by
  rw [← solid_joinLines, joinLines_splitLines]

/-- A comment with its markers, but for the white space in it. -/
def written (c : Comment) : Text :=
  match c.kind with
  | .line => "//".toList ++ solid c.text
  | .block => "/*".toList ++ solid c.text ++ blockClose

theorem solid_trimStart (t : Text) : solid (trimStart t) = solid t := by
  conv => rhs; rw [← takeWhile_append_trimStart t, solid_append, solid_of_isBlank List.all_takeWhile, List.nil_append]

section Written

variable {indent : Text} (hindent : isBlank indent = true)

include hindent

theorem solid_blockTail : ∀ {ls : List Text}, ls ≠ [] →
    solid (blockTail indent ls).flatten = solid ls.flatten ++ blockClose
  | [last], _ => by
    have hspace : solid (' ' :: trimStart last) = solid last := by
      rw [← solid_trimStart last]
      rfl
    have hclose : solid blockClose = blockClose := by decide
    rw [blockTail_singleton, List.flatten_singleton, List.flatten_singleton, solid_append, solid_append,
      solid_of_isBlank hindent, hspace, hclose, List.nil_append]
  | l :: m :: ls, _ => by
    have hspace : solid (' ' :: trimStart l) = solid l := by
      rw [← solid_trimStart l]
      rfl
    rw [blockTail_cons_cons, List.flatten_cons, solid_append, solid_trimEnd, solid_append, solid_of_isBlank hindent,
      hspace, solid_blockTail (List.cons_ne_nil m ls), List.nil_append, ← List.append_assoc, ← solid_append]
    rfl

/-- On lines of its own a comment is written in full. -/
theorem solid_standalone (c : Comment) : solid (c.standalone indent).flatten = written c := by
  cases hkind : c.kind with
  | line =>
    have hmarker : solid "// ".toList = "//".toList := by decide
    simp only [Comment.standalone, written, hkind]
    rw [List.flatten_singleton, solid_append, solid_append, solid_of_isBlank hindent, hmarker, List.nil_append]
  | block =>
    simp only [Comment.standalone, written, hkind]
    split
    · rename_i hmulti
      split
      · rename_i hnil
        exact absurd hnil (splitLines_ne_nil _)
      · rename_i first rest hlines
        have hmarker : solid "/*".toList = "/*".toList := by decide
        have htext : solid c.text = solid first ++ solid rest.flatten := by
          rw [← solid_splitLines, hlines, List.flatten_cons, solid_append]
        rw [List.flatten_cons, solid_append, solid_trimEnd, solid_append, solid_append, solid_of_isBlank hindent, hmarker,
          solid_blockTail hindent (ne_nil_of_isMultiLine hmulti hlines), htext, List.nil_append]
        simp only [List.append_assoc]
    · have hopen : solid "/* ".toList = "/*".toList := by decide
      have hclose : solid " */".toList = blockClose := by decide
      rw [List.flatten_singleton, solid_append, solid_append, solid_append, solid_of_isBlank hindent, hopen, hclose,
        solid_trim, List.nil_append]

end Written

/-- Behind code a comment is written in full. -/
theorem solid_trailing (c : Comment) : solid c.trailing = written c := by
  cases hkind : c.kind with
  | line =>
    have hmarker : solid "// ".toList = "//".toList := by decide
    simp only [Comment.trailing, written, hkind]
    rw [solid_append, hmarker]
  | block =>
    have hopen : solid "/* ".toList = "/*".toList := by decide
    have hclose : solid " */".toList = blockClose := by decide
    have hparts : solid (joinWith [' '] (((splitLines c.text).map trim).filter fun p => !p.isEmpty)) = solid c.text := by
      rw [solid_joinWith (by decide), ← outlineOf, solid_outlineOf, solid_splitLines]
    simp only [Comment.trailing, written, hkind]
    rw [solid_append, solid_append, hopen, hclose, hparts]

end Lexer

/-! ## What lines yield -/

/-- A scan of lines, with `b` telling whether a template is open before them, keeps `kept`, finds comments that say what
those of `comments` say, and ends in code. -/
structure Yields (b : Bool) (ls kept : List Text) (comments : List Comment) : Prop where
  lines : ∀ l ∈ ls, IsLine l
  scanned : ∃ rs : List Remark, rs.map Remark.plain = comments.map (·.remark.plain) ∧
    ∀ more, scan b (ls ++ more) = (kept ++ (scan false more).1, rs ++ (scan false more).2)

theorem yields_nil : Yields false [] [] [] where
  lines := by simp
  scanned := ⟨[], rfl, fun _ => rfl⟩

theorem Yields.append {b : Bool} {ls ls' kept kept' : List Text} {comments comments' : List Comment}
    (h : Yields b ls kept comments) (h' : Yields false ls' kept' comments') :
    Yields b (ls ++ ls') (kept ++ kept') (comments ++ comments') where
  lines := List.forall_mem_append.2 ⟨h.lines, h'.lines⟩
  scanned := by
    obtain ⟨rs, hplain, hscan⟩ := h.scanned
    obtain ⟨rs', hplain', hscan'⟩ := h'.scanned
    refine ⟨rs ++ rs', by rw [List.map_append, List.map_append, hplain, hplain'], fun more => ?_⟩
    rw [List.append_assoc, hscan, hscan', List.append_assoc, List.append_assoc]

/-- Lines without a marker are kept before what other lines yield. -/
theorem Yields.prepend {b b' : Bool} {ks ls kept : List Text} {comments : List Comment} (hks : ∀ k ∈ ks, IsLine k)
    (hk : templateAfter b ks = some b') (h : Yields b' ls kept comments) :
    Yields b (ks ++ ls) (ks ++ kept) comments where
  lines := List.forall_mem_append.2 ⟨hks, h.lines⟩
  scanned := by
    obtain ⟨rs, hplain, hscan⟩ := h.scanned
    refine ⟨rs, hplain, fun more => ?_⟩
    rw [List.append_assoc, scan_append _ hk, hscan, List.append_assoc]

/-- Lines without a marker are kept. -/
theorem yields_of_templateAfter {b : Bool} {ls : List Text} (hls : ∀ l ∈ ls, IsLine l)
    (h : templateAfter b ls = some false) : Yields b ls ls [] := by
  simpa using yields_nil.prepend hls h

/-- What is found of lines that are the whole of a text. -/
theorem Yields.scan_eq {b : Bool} {ls kept : List Text} {comments : List Comment} (h : Yields b ls kept comments) :
    (scan b ls).1 = kept ∧ (scan b ls).2.map Remark.plain = comments.map (·.remark.plain) := by
  obtain ⟨rs, hplain, hscan⟩ := h.scanned
  have hall := hscan []
  rw [List.append_nil, scan_nil, List.append_nil, List.append_nil] at hall
  rw [hall]
  exact ⟨rfl, hplain⟩

/-- A comment on lines of its own is found again. -/
theorem yields_standalone {outer indent : Text} {c : Comment} (houter : IsIndent outer) (hindent : IsIndent indent)
    (hc : IsTaken c) : Yields false ((c.standalone indent).map (outer ++ ·)) [] [c] := by
  obtain ⟨r, hholds, hplain, -⟩ := holds_standalone houter hindent hc
  exact ⟨hholds.isLine, [r], by simpa using hplain, fun more => hholds.scan more⟩

/-- A comment behind code is found again, and the code is kept. -/
theorem yields_coded {b : Bool} {l : Text} (hclear : findMarker (openQuote b) l = .clear false)
    (hcode : quoteAfter (openQuote b) l = none) (hsolid : isBlank l = false) (hl : IsLine l) {c : Comment}
    (hc : IsTaken c) : Yields b [l ++ ' ' :: c.trailing] [trimEnd l] [c] := by
  obtain ⟨r, hends, hplain, -⟩ := ends_trailing hc
  have hline : IsLine (' ' :: c.trailing) := IsLine.append (s := [' ']) (by decide) hends.isLine
  have hsplit : l ++ ' ' :: c.trailing = l ++ [' '] ++ c.trailing := by simp
  refine ⟨List.forall_mem_singleton.2 (hl.append hline), [r], by simpa using hplain, fun more => ?_⟩
  rw [List.singleton_append, hsplit, hends.scan more (findMarker_behind hclear hcode), keepCode_concat_space hsolid]
  rfl

/-! ## Comments among lines -/

/-- The comments that are put back among texts, `seen` being the names that have got theirs. -/
def restored (comments : List Comment) : (seen : List Text) → List Text → List Comment
  | _, [] => []
  | seen, t :: ts =>
    match leadingKey? (trimStart t) with
    | some name =>
      if seen.contains name then restored comments seen ts
      else
        commentsOf comments name .before ++ (commentsOf comments name .sameLine).head?.toList
          ++ commentsOf comments name .after ++ restored comments (name :: seen) ts
    | none => restored comments seen ts

theorem restored_nil (seen ts : List Text) : restored [] seen ts = [] := by
  induction ts generalizing seen with
  | nil => rfl
  | cons t ts ih =>
    simp only [restored]
    split
    · split
      · exact ih seen
      · simp [commentsOf, ih]
    · exact ih seen

/-- Comments on lines of their own are found again. -/
theorem yields_standalones {outer indent : Text} (houter : IsIndent outer) (hindent : IsIndent indent) :
    ∀ {cs : List Comment}, (∀ c ∈ cs, IsTaken c) →
      Yields false ((cs.flatMap (·.standalone indent)).map (outer ++ ·)) [] cs
  | [], _ => yields_nil
  | c :: cs, h => by
    obtain ⟨hc, hcs⟩ := List.forall_mem_cons.1 h
    rw [List.flatMap_cons, List.map_append]
    exact (yields_standalone houter hindent hc).append (yields_standalones houter hindent hcs)

/-- A text with a key is not blank. -/
theorem not_isBlank_of_leadingKey? {t name : Text} (h : leadingKey? (trimStart t) = some name) : isBlank t = false := by
  rw [Bool.eq_false_iff]
  intro hblank
  have hnil : trimStart t = [] := List.dropWhile_eq_nil_iff.2 (by simpa [isBlank] using hblank)
  rw [hnil] at h
  cases h

/-- A line of code that does not end in a blank. -/
structure TrimmedCodeLine (l : Text) : Prop where
  code : CodeLine l
  line : IsLine l
  trimmed : trimEnd l = l

theorem TrimmedCodeLine.yields {l : Text} (h : TrimmedCodeLine l) : Yields false [l] [l] [] :=
  yields_of_templateAfter (by simpa using h.line) (templateAfter_of_codeLines (by simpa using h.code))

/-- **Comments that are put among lines of code are found again, and the lines are kept.** -/
theorem yields_restoreLines {comments : List Comment} (hcomments : ∀ c ∈ comments, IsTaken c) : ∀ {ls : List Text}
    (seen : List Text), (∀ l ∈ ls, TrimmedCodeLine l) →
      Yields false (restoreLines comments seen ls) ls (restored comments seen ls)
  | [], _, _ => yields_nil
  | l :: ls, seen, h => by
    obtain ⟨hl, hls⟩ := List.forall_mem_cons.1 h
    have hkept : Yields false (l :: restoreLines comments seen ls) (l :: ls) (restored comments seen ls) :=
      hl.yields.append (yields_restoreLines hcomments seen hls)
    have hindent : IsIndent (l.takeWhile isBlankChar) :=
      ⟨List.all_takeWhile, fun hm => hl.line ((List.takeWhile_prefix _).subset hm)⟩
    have hown : ∀ name placement, Yields false
        ((commentsOf comments name placement).flatMap (·.standalone (l.takeWhile isBlankChar))) []
          (commentsOf comments name placement) := fun name placement => by
      have hall := yields_standalones isIndent_nil hindent
        fun c (hc : c ∈ commentsOf comments name placement) => hcomments c (List.mem_filter.1 hc).1
      simpa using hall
    cases hname : leadingKey? (trimStart l) with
    | none =>
      simp only [restoreLines, restored, hname]
      exact hkept
    | some name =>
      by_cases hseen : seen.contains name = true
      · simp only [restoreLines, restored, hname, hseen, if_true]
        exact hkept
      · have hgroup : ∀ {coded : Text} {own : List Comment}, Yields false [coded] [l] own → Yields false
            ((commentsOf comments name .before).flatMap (·.standalone (l.takeWhile isBlankChar)) ++
              coded :: (commentsOf comments name .after).flatMap (·.standalone (l.takeWhile isBlankChar)) ++
                restoreLines comments (name :: seen) ls)
            (l :: ls) (commentsOf comments name .before ++ own ++ commentsOf comments name .after ++
              restored comments (name :: seen) ls) := by
          intro coded own hcoded
          have hall := ((hown name .before).append (hcoded.append (hown name .after))).append
            (yields_restoreLines hcomments (name :: seen) hls)
          simpa using hall
        simp only [restoreLines, restored, hname, hseen]
        cases hsame : commentsOf comments name .sameLine with
        | nil => exact hgroup hl.yields
        | cons c cs =>
          have hc : c ∈ commentsOf comments name .sameLine := hsame ▸ List.mem_cons_self
          have hcoded := yields_coded (b := false) hl.code.clear hl.code.closed (not_isBlank_of_leadingKey? hname)
            hl.line (hcomments c (List.mem_filter.1 hc).1)
          rw [hl.trimmed] at hcoded
          exact hgroup hcoded

end StyleHoist
