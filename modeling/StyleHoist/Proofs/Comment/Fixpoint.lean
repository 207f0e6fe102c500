import Mathlib.Data.List.DropRight
import StyleHoist.Proofs.Comment.Quoting

/-!
# Taking comments out twice

Where a comment is taken out, the code around it is put together, lines lose the blanks at their ends, and lines are
left out. None of this makes a new marker or opens or closes a quote: what is left holds no comment and is tidy, so
taking comments out of it leaves it as it is, and each of its characters stands in the string or the template in which
it stood (`stripComments_cleaned`).

- `quoted_strip`: from every place at which the scan takes up a line, it keeps lines without a marker.
- `tidied_tidied`: lines that are tidy stay as they are.
-/

namespace StyleHoist

open Text Listing

namespace Lexer

/-! ## The scan of a body -/

section Strip

variable {lines : List Text} {n : Nat} {b b₀ : Bool} {done code rest before after : Text}

/-- What is kept from a place on are lines without a marker, with the marks that a lexer gives from there on. Of the
line `done` has been scanned, and `code` is what is kept of that; `b₀` tells whether the line began in a template. -/
def KeepsMarks (lines : List Text) (n : Nat) (done code rest : Text) (b : Bool) : Prop :=
  ∀ b₀, lines[n]? = some (done ++ rest) → (done = [] → code = [] ∧ b₀ = b) →
    (done ≠ [] → b = false ∧ LeavesCode (openQuote b₀) code) → IsLine code →
      Quoted b₀ (strip lines n done code rest b).1
        (lineMarks (openQuote b₀) code ++ marksFrom (modeOf (openQuote b)) (rest ++ linesBehind lines n))

/-- Where the scan takes up the next line. -/
theorem quoted_nextLine (hnext : ∀ l, lines[n + 1]? = some l → KeepsMarks lines (n + 1) [] [] l b) :
    Quoted b (stripLines lines (n + 1) b).1 (breakMarks b (linesBehind lines n)) := by
  cases hl : lines[n + 1]? with
  | none =>
    rw [linesBehind_of_none hl, stripLines, hl]
    exact .nil b
  | some l =>
    have h := hnext l hl b hl (fun _ => ⟨rfl, rfl⟩) (fun hne => absurd rfl hne) List.not_mem_nil
    rw [lineMarks_nil, List.nil_append] at h
    rw [linesBehind_of_some hl, stripLines, hl]
    exact h

/-- The code of a line up to a marker: code goes on behind it, and it has the marks of its two parts. -/
theorem code_before {kind : CommentKind} (hrest : IsLine rest)
    (hfind : findMarker (openQuote b) rest = .found before kind after) (hstart : done = [] → code = [] ∧ b₀ = b)
    (hcode : done ≠ [] → b = false ∧ LeavesCode (openQuote b₀) code) (hline : IsLine code) :
    IsLine (code ++ before) ∧ LeavesCode (openQuote b₀) (code ++ before) ∧
      lineMarks (openQuote b₀) (code ++ before) =
        lineMarks (openQuote b₀) code ++ lineMarks (openQuote b) before := by
  have hbefore := leavesCode_of_findMarker (isQuote_openQuote b) hfind
  refine ⟨hline.append fun hm => hrest (by rw [eq_of_findMarker hfind]; simp [hm]), ?_⟩
  by_cases hdone : done = []
  · obtain ⟨rfl, rfl⟩ := hstart hdone
    rw [List.nil_append, lineMarks_nil, List.nil_append]
    exact ⟨hbefore, rfl⟩
  · obtain ⟨rfl, hleaves⟩ := hcode hdone
    exact ⟨hleaves.append hbefore, lineMarks_append hleaves.closed before⟩

section Cases

variable {inner rest' : Text}

/-- A line without a marker. -/
theorem keepsMarks_clear (hlines : ∀ l ∈ lines, IsLine l) {b' : Bool}
    (hfind : findMarker (openQuote b) rest = .clear b')
    (hnext : ∀ l, lines[n + 1]? = some l → KeepsMarks lines (n + 1) [] [] l b') :
    KeepsMarks lines n done code rest b := by
  intro b₀ hn hstart hcode hcodeLine
  have hmore := quoted_nextLine hnext
  rw [marks_of_clear (atBreak_linesBehind lines n) (isLine_rest hlines hn) hfind, strip_clear hfind]
  by_cases hdone : done = []
  · obtain ⟨rfl, rfl⟩ := hstart hdone
    rw [hdone, lineMarks_nil, List.nil_append]
    exact .cons (isLine_rest hlines hn) hfind hmore
  · obtain ⟨rfl, hleaves⟩ := hcode hdone
    have hclear : findMarker (openQuote b₀) (code ++ rest) = .clear b' := by
      rw [hleaves.findMarker_append, show findMarker none rest = .clear b' from hfind, MarkerScan.prepend_clear]
    rw [if_neg (by simpa using hdone), ← List.append_assoc,
      show lineMarks (openQuote false) rest = lineMarks none rest from rfl, ← lineMarks_append hleaves.closed]
    exact hmore.keepCode (hcodeLine.append (isLine_rest hlines hn)) hclear

/-- A line with a line comment. -/
theorem keepsMarks_line (hlines : ∀ l ∈ lines, IsLine l)
    (hfind : findMarker (openQuote b) rest = .found before .line after)
    (hnext : ∀ l, lines[n + 1]? = some l → KeepsMarks lines (n + 1) [] [] l false) :
    KeepsMarks lines n done code rest b := by
  intro b₀ hn hstart hcode hcodeLine
  have hrest := isLine_rest hlines hn
  obtain ⟨hline, hleaves, hmarks⟩ := code_before hrest hfind hstart hcode hcodeLine
  obtain ⟨start, hfound⟩ := marks_of_found (atBreak_linesBehind lines n) hrest hfind
  rw [hfound, commentMode, marks_lineComment (atBreak_linesBehind lines n) start _
    (isLine_of_suffix (suffix_of_findMarker hfind) hrest), ← List.append_assoc, ← hmarks, strip_line hfind]
  exact (quoted_nextLine hnext).keepCode hline hleaves.clear

/-- A line with a block that is closed on it. -/
theorem keepsMarks_block (hlines : ∀ l ∈ lines, IsLine l) (hinner : ¬blockClose <:+: inner)
    (hfind : findMarker (openQuote b) rest = .found before .block (inner ++ blockClose ++ rest'))
    (hnext : KeepsMarks lines n (done ++ before ++ "/*".toList ++ inner ++ blockClose) (code ++ before) rest' false) :
    KeepsMarks lines n done code rest b := by
  intro b₀ hn hstart hcode hcodeLine
  have hrest := isLine_rest hlines hn
  obtain ⟨hline, hleaves, hmarks⟩ := code_before hrest hfind hstart hcode hcodeLine
  obtain ⟨start, hfound⟩ := marks_of_found (atBreak_linesBehind lines n) hrest hfind
  have hn' : lines[n]? = some (done ++ before ++ "/*".toList ++ inner ++ blockClose ++ rest') := by
    rw [hn, eq_of_findMarker hfind]
    simp [CommentKind.marker]
  have hmore := hnext b₀ hn' (fun hnil => by simp [blockClose_eq] at hnil) (fun _ => ⟨rfl, hleaves⟩) hline
  rw [hfound, commentMode, List.append_assoc _ rest', (marks_block start _ inner []).1 hinner, ← List.append_assoc,
    ← hmarks, strip_block hfind (splitOn?_blockClose rest' hinner)]
  exact hmore

/-- A line with a block that ends on a later line. -/
theorem keepsMarks_opened (hlines : ∀ l ∈ lines, IsLine l) {inside outside : List Text}
    (hfind : findMarker (openQuote b) rest = .found before .block after) (hopen : ¬blockClose <:+: after)
    (hdrop : lines.drop (n + 1) = inside ++ (inner ++ blockClose ++ rest') :: outside)
    (hinside : ∀ l ∈ inside, ¬blockClose <:+: l) (hinner : ¬blockClose <:+: inner)
    (hnext : KeepsMarks lines (n + (inside.length + 1)) (inner ++ blockClose) [] rest' false) :
    KeepsMarks lines n done code rest b := by
  intro b₀ hn hstart hcode hcodeLine
  have hrest := isLine_rest hlines hn
  obtain ⟨hline, hleaves, hmarks⟩ := code_before hrest hfind hstart hcode hcodeLine
  obtain ⟨start, hfound⟩ := marks_of_found (atBreak_linesBehind lines n) hrest hfind
  obtain ⟨htext, hsplit⟩ := append_linesBehind_of_drop (n := n) hopen hdrop hinside hinner
  have hmore := hnext false (linesBehind_of_drop hdrop).1 (fun hnil => by simp [blockClose_eq] at hnil)
    (fun _ => ⟨rfl, rfl, rfl, by simp⟩) List.not_mem_nil
  rw [lineMarks_nil, List.nil_append] at hmore
  rw [hfound, commentMode, hsplit, (marks_block start _ _ []).1 htext, ← List.append_assoc, ← hmarks,
    strip_open hfind (splitOn?_eq_none hopen) hdrop hinside hinner]
  exact hmore.keepCode hline hleaves.clear

/-- A line with a block that is not closed. -/
theorem keepsMarks_unclosed (hlines : ∀ l ∈ lines, IsLine l)
    (hfind : findMarker (openQuote b) rest = .found before .block after) (hopen : ¬blockClose <:+: after)
    (hall : ∀ l ∈ lines.drop (n + 1), ¬blockClose <:+: l) : KeepsMarks lines n done code rest b := by
  intro b₀ hn hstart hcode hcodeLine
  have hrest := isLine_rest hlines hn
  obtain ⟨hline, hleaves, hmarks⟩ := code_before hrest hfind hstart hcode hcodeLine
  obtain ⟨start, hfound⟩ := marks_of_found (atBreak_linesBehind lines n) hrest hfind
  have htext : ¬blockClose <:+: after ++ linesBehind lines n := not_infix_lines hopen hall
  rw [hfound, commentMode, (marks_unclosed start _ []).1 htext, List.append_nil, ← hmarks,
    strip_unclosed hfind (splitOn?_eq_none hopen) hall]
  simpa using (Quoted.nil false).keepCode hline hleaves.clear

end Cases

/-- From every place at which the scan takes up a line, it keeps lines without a marker. -/
theorem quoted_strip (hlines : ∀ l ∈ lines, IsLine l) (n : Nat) (done code rest : Text) (b : Bool) :
    KeepsMarks lines n done code rest b := by
  refine strip_induction lines ?_ ?_ ?_ ?_ ?_ n done code rest b
  · intro n done code rest b b' hfind hnext
    exact keepsMarks_clear hlines hfind hnext
  · intro n done code rest b before after hfind hnext
    exact keepsMarks_line hlines hfind hnext
  · intro n done code rest b before inner rest' hinner hfind hnext
    exact keepsMarks_block hlines hinner hfind hnext
  · intro n done code rest b before after inside inner rest' outside hfind hopen hdrop hinside hinner hnext
    exact keepsMarks_opened hlines hfind hopen hdrop hinside hinner hnext
  · intro n done code rest b before after hfind hopen hall
    exact keepsMarks_unclosed hlines hfind hopen hall

end Strip

/-- What is kept of the lines of a body has the marks of the body. -/
theorem quoted_stripLines (body : Text) :
    Quoted false (stripLines (splitLines body) 0 false).1 (marksOf body) := by
  obtain ⟨l, hfirst, hbody, hlines⟩ := exists_firstLine body
  have h := quoted_strip (fun _ hl => isLine_of_mem_splitLines hl) 0 [] [] l false false hfirst (fun _ => ⟨rfl, rfl⟩)
    (fun hne => absurd rfl hne) List.not_mem_nil
  rw [hbody, lineMarks_nil, List.nil_append] at h
  rw [hlines]
  exact h

end Lexer

/-! ## Tidy lines -/

/-- The lines that tidying leaves. -/
def tidied (kept : List Text) : List Text :=
  ((collapseBlank true kept).reverse.dropWhile isBlank).reverse

theorem tidy_eq (kept : List Text) : tidy kept = joinLines (tidied kept) := rfl

/-- No blank line stands behind another, `b` telling whether one stands before the first. -/
def Spaced : (b : Bool) → List Text → Prop
  | _, [] => True
  | b, l :: ls => (b && isBlank l) = false ∧ Spaced (isBlank l) ls

theorem spaced_collapseBlank : ∀ (b : Bool) (ls : List Text), Spaced b (collapseBlank b ls)
  | _, [] => trivial
  | b, l :: ls => by
    rw [collapseBlank]
    split
    · rename_i h
      obtain ⟨rfl, -⟩ := Bool.and_eq_true_iff.1 h
      exact spaced_collapseBlank true ls
    · rename_i h
      exact ⟨by simpa using h, spaced_collapseBlank _ ls⟩

theorem Spaced.of_append {b : Bool} {ks ls : List Text} (h : Spaced b (ks ++ ls)) : Spaced b ks := by
  induction ks generalizing b with
  | nil => trivial
  | cons k ks ih => exact ⟨h.1, ih h.2⟩

theorem Spaced.collapseBlank {b : Bool} {ls : List Text} (h : Spaced b ls) : collapseBlank b ls = ls := by
  induction ls generalizing b with
  | nil => rfl
  | cons l ls ih => rw [StyleHoist.collapseBlank, if_neg (by simp [h.1]), ih h.2]

/-- Tidying drops blank lines from the end of lines in which no two blank ones stand in a row. -/
theorem collapseBlank_eq_tidied (kept : List Text) : ∃ margin, collapseBlank true kept = tidied kept ++ margin ∧
    ∀ l ∈ margin, isBlank l = true := by
  refine ⟨((collapseBlank true kept).reverse.takeWhile isBlank).reverse, ?_, fun l hl => ?_⟩
  · rw [tidied, ← List.reverse_append, List.takeWhile_append_dropWhile, List.reverse_reverse]
  · exact List.mem_takeWhile_imp (List.mem_reverse.1 hl)

/-- Lines that are tidy stay as they are. -/
theorem tidied_tidied (kept : List Text) : tidied (tidied kept) = tidied kept := by
  obtain ⟨margin, heq, -⟩ := collapseBlank_eq_tidied kept
  have hspaced : Spaced true (tidied kept) := (heq ▸ spaced_collapseBlank true kept).of_append
  conv => lhs; rw [tidied, hspaced.collapseBlank]
  rw [tidied, List.reverse_reverse, List.dropWhile_idempotent]

theorem Lexer.Quoted.tidied {b : Bool} {kept : List Text} {ms : List Mark} (h : Quoted b kept ms) :
    Quoted b (tidied kept) ms := by
  obtain ⟨margin, heq, hmargin⟩ := collapseBlank_eq_tidied kept
  exact (heq ▸ h.collapseBlank true).of_append_blank hmargin

/-! ## What is left -/

/-- **What is left of a body without its comments holds no comment and is left as it is, and its characters stand in the
strings and templates in which they stood.** -/
theorem stripComments_cleaned (body : Text) :
    stripComments (stripComments body).cleaned = ⟨(stripComments body).cleaned, []⟩ ∧
      Lexer.marksOf (stripComments body).cleaned = Lexer.marksOf body := by
  have hquoted := (Lexer.quoted_stripLines body).tidied
  have hcleaned : (stripComments body).cleaned = joinLines (tidied (stripLines (splitLines body) 0 false).1) := by
    rw [stripComments_eq, tidy_eq]
  have htidied := tidied_tidied (stripLines (splitLines body) 0 false).1
  rw [hcleaned]
  generalize tidied (stripLines (splitLines body) 0 false).1 = kept at hquoted htidied
  refine ⟨?_, hquoted.marksFrom⟩
  by_cases hnil : kept = []
  · rw [hnil]
    rfl
  · obtain ⟨b', htemplate⟩ := hquoted.templateAfter
    have hscan := scan_append [] htemplate
    rw [List.append_nil, scan_nil, List.append_nil] at hscan
    obtain ⟨hkept, hcomments⟩ := stripComments_scan (joinLines kept)
    rw [splitLines_joinLines hnil hquoted.isLine, hscan] at hkept hcomments
    rw [tidy_eq, htidied] at hkept
    rw [List.map_eq_nil_iff] at hcomments
    calc stripComments (joinLines kept)
        = ⟨(stripComments (joinLines kept)).cleaned, (stripComments (joinLines kept)).comments⟩ := rfl
      _ = ⟨joinLines kept, []⟩ := by rw [hkept, hcomments]

end StyleHoist
