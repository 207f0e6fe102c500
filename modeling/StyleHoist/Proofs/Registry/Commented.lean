import StyleHoist.Comment.Strip
import StyleHoist.Comment.Restore
import StyleHoist.Proofs.Registry.Layout

/-!
# Reading comments that are put back

Comments are put back where a reader is in code, and leave it there.

- `read_standalone`, `read_trailing`: so does each of the two forms in which a comment is written.
- `read_restoreLines`: so do comments that are put among lines of code.
-/

namespace StyleHoist
namespace Listing

open Text

/-! ## Comments -/

/-- A comment as it is taken out of a body: a line comment holds no newline, a block no closing marker. -/
def IsSound (c : Comment) : Prop :=
  match c.kind with
  | .line => IsLine c.text
  | .block => ¬blockClose <:+: c.text

theorem read_lineText (due : List Char) : ∀ {t : Text} (x : Text), IsLine t →
    (Place.read ⟨.lineComment x, due⟩ t).1 = ⟨.lineComment (x ++ t), due⟩
  | [], x, _ => by simp
  | c :: t, x, h => by
    obtain ⟨hc, ht⟩ := isLine_cons.1 h
    rw [read_cons]
    simp only [Place.step, beq_iff_eq, Ne.symm hc, if_false]
    rw [read_lineText due _ ht, List.append_assoc, List.singleton_append]

/-- A line comment and the newline behind it lead back to code. -/
theorem read_lineNotation (due : List Char) {t : Text} (h : IsLine t) :
    (Place.read ⟨.code, due⟩ ("// ".toList ++ t ++ ['\n'])).1 = ⟨.code, due⟩ := by
  have hopen : (Place.read ⟨.code, due⟩ "// ".toList).1 = ⟨.lineComment [' '], due⟩ := rfl
  rw [read_append_fst, read_append_fst, hopen, read_lineText due _ h]
  rfl

/-- A reader is inside of a block comment. -/
def Place.InBlock (due : List Char) (p : Place) : Prop :=
  ∃ x, p = ⟨.blockComment x, due⟩ ∨ p = ⟨.star x, due⟩

/-- A text without a closing marker does not end a block comment. -/
theorem read_blockText (due : List Char) : ∀ (t : Text),
    (∀ x, ¬blockClose <:+: t → (Place.read ⟨.blockComment x, due⟩ t).1.InBlock due) ∧
      ∀ x, ¬blockClose <:+: '*' :: t → (Place.read ⟨.star x, due⟩ t).1.InBlock due
  | [] => ⟨fun x _ => ⟨x, Or.inl rfl⟩, fun x _ => ⟨x, Or.inr rfl⟩⟩
  | c :: t => by
    obtain ⟨hblock, hstar⟩ := read_blockText due t
    have htail : ∀ {s : Text} {d : Char}, ¬blockClose <:+: d :: s → ¬blockClose <:+: s :=
      fun h hs => h (hs.trans (List.suffix_cons _ _).isInfix)
    constructor
    · intro x h
      rw [read_cons]
      by_cases hc : c = '*'
      · simp only [Place.step, hc, beq_self_eq_true, if_true]
        exact hstar x (hc ▸ h)
      · simp only [Place.step, beq_iff_eq, hc, if_false]
        exact hblock _ (htail h)
    · intro x h
      have hslash : c ≠ '/' := by
        rintro rfl
        exact h (List.prefix_append blockClose t).isInfix
      rw [read_cons]
      by_cases hc : c = '*'
      · simp only [Place.step, hc]
        exact hstar _ (hc ▸ htail h)
      · simp only [Place.step, beq_iff_eq, hslash, hc, if_false]
        exact hblock _ (htail (htail h))

theorem step_blank_inBlock {due : List Char} {p : Place} (h : p.InBlock due) {c : Char} (hc : isBlankChar c = true) :
    ∃ x, (p.step c).1 = ⟨.blockComment x, due⟩ := by
  have hne := fun d hd => ne_of_isBlankChar (d := d) hc hd
  obtain ⟨x, rfl | rfl⟩ := h
  · exact ⟨_, by simp [Place.step, hne '*' (by decide)]; rfl⟩
  · exact ⟨_, by simp [Place.step, hne '*' (by decide), hne '/' (by decide)]; rfl⟩

/-- A closing marker leads back to code. -/
theorem read_blockClose {due : List Char} {p : Place} (h : p.InBlock due) : (p.read blockClose).1 = ⟨.code, due⟩ := by
  obtain ⟨x, rfl | rfl⟩ := h <;> rfl

theorem read_spacedClose {due : List Char} {p : Place} (h : p.InBlock due) :
    (p.read " */".toList).1 = ⟨.code, due⟩ := by
  have hsplit : " */".toList = ' ' :: blockClose := rfl
  obtain ⟨x, hx⟩ := step_blank_inBlock h (c := ' ') (by decide)
  rw [hsplit, read_cons, hx]
  exact read_blockClose ⟨x, Or.inl rfl⟩

theorem read_blockOpen (due : List Char) : (Place.read ⟨.code, due⟩ "/* ".toList).1 = ⟨.blockComment [' '], due⟩ := rfl

theorem infix_of_mem_splitLines {t l : Text} (h : l ∈ splitLines t) : l <:+: t := by
  rw [← joinLines_splitLines t]
  obtain ⟨before, after, hsplit⟩ := List.append_of_mem h
  rw [hsplit]
  have hjoin : ∀ (ks : List Text) (ms : List Text), l <:+: joinLines (ks ++ l :: ms) := by
    intro ks ms
    induction ks with
    | nil =>
      cases ms with
      | nil => exact List.infix_rfl
      | cons m ms =>
        rw [List.nil_append, joinLines_cons (by simp)]
        exact (List.prefix_append _ _).isInfix
    | cons k ks ih =>
      rw [List.cons_append, joinLines_cons (by simp)]
      exact (ih.trans (List.suffix_cons '\n' _).isInfix).trans (List.suffix_append _ _).isInfix
  exact hjoin before after

theorem infix_trimStart (t : Text) : trimStart t <:+: t := (List.dropWhile_suffix _).isInfix

theorem infix_trim (t : Text) : trim t <:+: t := by
  obtain ⟨a, b, h, -⟩ := blank_append_trim t
  exact ⟨a, b, by rw [List.append_assoc, ← h]⟩

theorem not_infix_trans {s t : Text} (hs : s <:+: t) (ht : ¬blockClose <:+: t) : ¬blockClose <:+: s :=
  fun h => ht (h.trans hs)

/-- Parts of a block comment with spaces between them. -/
theorem read_joinWith_space (due : List Char) : ∀ {parts : List Text} (x : Text),
    (∀ p ∈ parts, ¬blockClose <:+: p) → (Place.read ⟨.blockComment x, due⟩ (joinWith [' '] parts)).1.InBlock due
  | [], x, _ => ⟨x, Or.inl rfl⟩
  | [p], x, h => (read_blockText due p).1 x (h p (by simp))
  | p :: q :: parts, x, h => by
    have hp := (read_blockText due p).1 x (h p (by simp))
    obtain ⟨y, hy⟩ := step_blank_inBlock hp (c := ' ') (by decide)
    have hjoin : joinWith [' '] (p :: q :: parts) = p ++ ([' '] ++ joinWith [' '] (q :: parts)) := by simp [joinWith]
    rw [hjoin, read_append_fst, read_append_fst, read_cons, hy]
    exact read_joinWith_space due y fun r hr => h r (List.mem_cons_of_mem _ hr)

/-- A comment behind code, and the newline behind it, lead back to code. -/
theorem read_trailing (due : List Char) {c : Comment} (h : IsSound c) :
    (Place.read ⟨.code, due⟩ (c.trailing ++ ['\n'])).1 = ⟨.code, due⟩ := by
  cases hkind : c.kind with
  | line =>
    simp only [IsSound, hkind] at h
    simp only [Comment.trailing, hkind]
    exact read_lineNotation due h
  | block =>
    simp only [IsSound, hkind] at h
    simp only [Comment.trailing, hkind]
    have hparts : ∀ p ∈ ((splitLines c.text).map trim).filter fun p => !p.isEmpty, ¬blockClose <:+: p := by
      intro p hp
      obtain ⟨l, hl, rfl⟩ := List.mem_map.1 (List.mem_filter.1 hp).1
      exact not_infix_trans ((infix_trim l).trans (infix_of_mem_splitLines hl)) h
    rw [read_append_fst, read_append_fst, read_append_fst, read_blockOpen,
      read_spacedClose (read_joinWith_space due _ hparts)]
    rfl

theorem isLine_trailing {c : Comment} (h : IsSound c) : IsLine c.trailing := by
  cases hkind : c.kind with
  | line =>
    simp only [IsSound, hkind] at h
    simp only [Comment.trailing, hkind]
    simpa [IsLine] using h
  | block =>
    simp only [IsSound, hkind] at h
    simp only [Comment.trailing, hkind]
    have hparts : ∀ p ∈ ((splitLines c.text).map trim).filter fun p => !p.isEmpty, IsLine p := by
      intro p hp
      obtain ⟨l, hl, rfl⟩ := List.mem_map.1 (List.mem_filter.1 hp).1
      exact fun hm => isLine_of_mem_splitLines hl ((infix_trim l).subset hm)
    generalize ((splitLines c.text).map trim).filter _ = parts at hparts
    have hjoin : IsLine (joinWith [' '] parts) := by
      induction parts with
      | nil => simp [joinWith, IsLine]
      | cons p parts ih =>
        have hrest := ih fun q hq => hparts q (List.mem_cons_of_mem _ hq)
        have hp := hparts p (by simp)
        cases parts with
        | nil => exact hp
        | cons q parts =>
          simp only [joinWith, IsLine, List.mem_append, List.mem_singleton] at hrest hp ⊢
          rintro ((hm | hm) | hm)
          · exact hp hm
          · cases hm
          · exact hrest hm
    simp only [IsLine, List.mem_append] at hjoin ⊢
    rintro ((hm | hm) | hm)
    · exact absurd hm (by decide)
    · exact hjoin hm
    · exact absurd hm (by decide)

/-- A place in a block comment is known from what it is but for the comment. -/
theorem eq_of_bare_block {p : Place} {due : List Char} (h : p.bare = ⟨.blockComment [], due⟩) :
    ∃ x, p = ⟨.blockComment x, due⟩ := by
  obtain ⟨stand, due'⟩ := p
  cases stand <;> simp_all [Place.bare, Stand.bare]

theorem read_blockIndent (due : List Char) {indent : Text} (x : Text) (hblank : isBlank indent = true) :
    ∃ y, (Place.read ⟨.blockComment x, due⟩ indent).1 = ⟨.blockComment y, due⟩ :=
  eq_of_bare_block (read_indent (p := ⟨.blockComment x, due⟩) trivial hblank)

/-- A line of a block comment with a space before it. -/
theorem read_blockLine (due : List Char) {indent l : Text} (x : Text) (hblank : isBlank indent = true)
    (h : ¬blockClose <:+: l) : (Place.read ⟨.blockComment x, due⟩ (indent ++ ' ' :: l)).1.InBlock due := by
  have hspace : isBlank (indent ++ [' ']) = true := by
    rw [isBlank, List.all_append, Bool.and_eq_true]
    exact ⟨hblank, by decide⟩
  obtain ⟨y, hy⟩ := read_blockIndent due x hspace
  have hsplit : indent ++ ' ' :: l = (indent ++ [' ']) ++ l := by simp
  rw [hsplit, read_append_fst, hy]
  exact (read_blockText due l).1 y h

/-- The last line of a block comment ends with the closing marker. -/
theorem blockTail_singleton (indent last : Text) :
    blockTail indent [last] = [indent ++ ' ' :: trimStart last ++ blockClose] := by
  have hslash : indent ++ ' ' :: trimStart last ++ blockClose = (indent ++ ' ' :: trimStart last ++ ['*']) ++ ['/'] := by
    simp [blockClose]
  have hsame : (if (trimStart last).isEmpty then " */".toList else ' ' :: trimStart last ++ "*/".toList) =
      ' ' :: trimStart last ++ blockClose := by
    split
    · rename_i hempty
      rw [List.isEmpty_iff.1 hempty]
      rfl
    · rfl
  rw [blockTail]
  simp only [hsame]
  rw [← List.append_assoc, hslash, trimEnd_concat (by decide)]

theorem blockTail_cons_cons (indent l m : Text) (ls : List Text) :
    blockTail indent (l :: m :: ls) = trimEnd (indent ++ ' ' :: trimStart l) :: blockTail indent (m :: ls) :=
  rfl

/-- A comment that spans lines has lines after its first. -/
theorem ne_nil_of_isMultiLine {c : Comment} {first : Text} {rest : List Text} (h : c.isMultiLine = true)
    (hlines : splitLines c.text = first :: rest) : rest ≠ [] := by
  rintro rfl
  have htext : first = c.text := by
    simpa [hlines, joinLines, joinWith] using joinLines_splitLines c.text
  have hnewline : c.kind = .block ∧ '\n' ∈ c.text := by simpa [Comment.isMultiLine] using h
  have hfirst : IsLine first := isLine_of_mem_splitLines (by rw [hlines]; exact List.mem_cons_self)
  exact hfirst (htext ▸ hnewline.2)

/-- The lines of a block comment after its first lead back to code. -/
theorem read_blockTail {due : List Char} {indent : Text} (hblank : isBlank indent = true) (hindent : IsLine indent) :
    ∀ {ls : List Text} (x : Text), ls ≠ [] → (∀ l ∈ ls, IsLine l ∧ ¬blockClose <:+: l) →
      (Place.read ⟨.blockComment x, due⟩ (unlines (blockTail indent ls))).1 = ⟨.code, due⟩
  | [], _, h, _ => absurd rfl h
  | [last], x, _, h => by
    obtain ⟨-, hclose⟩ := h last (by simp)
    have hsafe := not_infix_trans (infix_trimStart last) hclose
    have hlines : unlines (blockTail indent [last]) = indent ++ ' ' :: trimStart last ++ blockClose ++ ['\n'] := by
      simp [blockTail_singleton, unlines]
    rw [hlines, read_append_fst, read_append_fst, read_blockClose (read_blockLine due x hblank hsafe)]
    rfl
  | l :: m :: ls, x, _, h => by
    obtain ⟨hline, hclose⟩ := h l (by simp)
    have hcontent : IsLine (trimStart l) := fun hm => hline ((infix_trimStart l).subset hm)
    have hsafe := not_infix_trans (infix_trimStart l) hclose
    obtain ⟨y, hy⟩ : ∃ y, (Place.read ⟨.blockComment x, due⟩
        (trimEnd (indent ++ ' ' :: trimStart l) ++ ['\n'])).1 = ⟨.blockComment y, due⟩ := by
      refine eq_of_bare_block ?_
      obtain ⟨y, hy⟩ := step_blank_inBlock (read_blockLine due x hblank hsafe) (c := '\n') (by decide)
      rw [read_trimEnd _ (by simpa [IsLine] using ⟨hindent, hcontent⟩), read_append_fst, read_cons, hy]
      rfl
    rw [blockTail_cons_cons, unlines_cons, read_append_fst, hy]
    exact read_blockTail hblank hindent y (by simp) fun k hk => h k (List.mem_cons_of_mem _ hk)

/-- A comment on lines of its own leads back to code. -/
theorem read_standalone {due : List Char} {indent : Text} (hblank : isBlank indent = true) (hindent : IsLine indent)
    {c : Comment} (h : IsSound c) :
    (Place.read ⟨.code, due⟩ (unlines (c.standalone indent))).1 = ⟨.code, due⟩ := by
  have hcode : (Place.read ⟨.code, due⟩ indent).1 = ⟨.code, due⟩ := by rw [read_blank due hblank]
  cases hkind : c.kind with
  | line =>
    simp only [IsSound, hkind] at h
    simp only [Comment.standalone, hkind]
    simp only [unlines, List.flatMap_cons, List.flatMap_nil, List.append_nil, List.append_assoc]
    rw [read_append_fst, hcode, ← List.append_assoc]
    exact read_lineNotation due h
  | block =>
    simp only [IsSound, hkind] at h
    simp only [Comment.standalone, hkind]
    split
    · rename_i hmulti
      have hlines : ∀ l ∈ splitLines c.text, IsLine l ∧ ¬blockClose <:+: l := fun l hl =>
        ⟨isLine_of_mem_splitLines hl, not_infix_trans (infix_of_mem_splitLines hl) h⟩
      split
      · rename_i hnil
        exact absurd hnil (splitLines_ne_nil _)
      · rename_i first rest hsplit
        rw [hsplit] at hlines
        have hrest := ne_nil_of_isMultiLine hmulti hsplit
        obtain ⟨hfirst, hsafe⟩ := hlines first (by simp)
        obtain ⟨y, hy⟩ : ∃ y, (Place.read ⟨.code, due⟩
            (trimEnd (indent ++ "/*".toList ++ first) ++ ['\n'])).1 = ⟨.blockComment y, due⟩ := by
          have hopen : (Place.read ⟨.code, due⟩ "/*".toList).1 = ⟨.blockComment [], due⟩ := rfl
          have hblock := (read_blockText due first).1 [] hsafe
          obtain ⟨y, hy⟩ := step_blank_inBlock hblock (c := '\n') (by decide)
          refine eq_of_bare_block ?_
          rw [read_trimEnd _ (by simpa [IsLine] using ⟨hindent, hfirst⟩), read_append_fst, read_append_fst,
            read_append_fst, hcode, hopen, read_cons, hy]
          rfl
        rw [unlines_cons, read_append_fst, hy]
        exact read_blockTail hblank hindent y hrest fun l hl => hlines l (List.mem_cons_of_mem _ hl)
    · have hsafe := not_infix_trans (infix_trim c.text) h
      simp only [unlines, List.flatMap_cons, List.flatMap_nil, List.append_nil]
      rw [read_append_fst, read_append_fst, read_append_fst, read_append_fst, hcode, read_blockOpen,
        read_spacedClose ((read_blockText due _).1 _ hsafe)]
      rfl

/-! ## Comments among lines -/

/-- Lines after each of which a reader is in code, with `due` the brackets to come before them and `due'` those to come
behind them. -/
inductive CodeLines : (due : List Char) → List Text → (due' : List Char) → Prop
  | nil (due : List Char) : CodeLines due [] due
  | cons {due mid due' : List Char} {l : Text} {ls : List Text} (hline : IsLine l)
      (hread : (Place.read ⟨.code, due⟩ (l ++ ['\n'])).1 = ⟨.code, mid⟩) (hrest : CodeLines mid ls due') :
      CodeLines due (l :: ls) due'

theorem CodeLines.append {due mid due' : List Char} {ks ls : List Text} (hk : CodeLines due ks mid)
    (hl : CodeLines mid ls due') : CodeLines due (ks ++ ls) due' := by
  induction hk with
  | nil => exact hl
  | cons hline hread _ ih => exact .cons hline hread (ih hl)

theorem CodeLines.split {due due' : List Char} : ∀ {ks ls : List Text}, CodeLines due (ks ++ ls) due' →
    ∃ mid, CodeLines due ks mid ∧ CodeLines mid ls due'
  | [], _, h => ⟨due, .nil due, h⟩
  | _ :: _, _, .cons hline hread hrest =>
    have ⟨mid, hk, hl⟩ := hrest.split
    ⟨mid, .cons hline hread hk, hl⟩

theorem CodeLines.read {due due' : List Char} {ls : List Text} (h : CodeLines due ls due') :
    (Place.read ⟨.code, due⟩ (unlines ls)).1 = ⟨.code, due'⟩ := by
  induction h with
  | nil => rfl
  | cons _ hread _ ih => rw [unlines_cons, read_append_fst, hread, ih]

/-- A comment behind a line after which a reader is in code does not change where the reader is. -/
theorem read_coded {due mid : List Char} {l : Text} {c : Comment} (hc : IsSound c)
    (h : (Place.read ⟨.code, due⟩ (l ++ ['\n'])).1 = ⟨.code, mid⟩) :
    (Place.read ⟨.code, due⟩ (l ++ ' ' :: c.trailing ++ ['\n'])).1 = ⟨.code, mid⟩ := by
  have hsplit : l ++ ' ' :: c.trailing ++ ['\n'] = l ++ (' ' :: (c.trailing ++ ['\n'])) := by simp
  have hspace : ∀ due, (codeStep due ' ').1 = ⟨.code, due⟩ := fun due => by rw [codeStep_blank due (by decide)]
  have hnewline : ∀ due, (codeStep due '\n').1 = ⟨.code, due⟩ := fun due => by rw [codeStep_blank due (by decide)]
  rw [hsplit, read_append_fst, read_cons]
  rw [read_append_fst] at h
  generalize (Place.read ⟨.code, due⟩ l).1 = p at h
  obtain ⟨stand, due'⟩ := p
  replace h : (Place.step ⟨stand, due'⟩ '\n').1 = ⟨.code, mid⟩ := h
  cases stand with
  | code =>
    obtain rfl : due' = mid := by simpa [Place.step, hnewline] using h
    rw [Place.step, hspace]
    exact read_trailing _ hc
  | slash =>
    obtain rfl : due' = mid := by simpa [Place.step, hnewline] using h
    simp only [Place.step, beq_iff_eq, show (' ' : Char) ≠ '/' by decide, show (' ' : Char) ≠ '*' by decide, if_false,
      hspace]
    exact read_trailing _ hc
  | lineComment text =>
    obtain rfl : due' = mid := by simpa [Place.step] using h
    have hstep : (Place.step ⟨.lineComment text, due'⟩ ' ').1 = ⟨.lineComment (text ++ [' ']), due'⟩ := rfl
    rw [hstep, read_append_fst, read_lineText due' _ (isLine_trailing hc)]
    rfl
  | quoted q => simp [Place.step, quote_ne_blank q (c := '\n') (by decide)] at h
  | escaped q => simp [Place.step] at h
  | blockComment text => simp [Place.step] at h
  | star text => simp [Place.step] at h
  | broken => simp [Place.step] at h

/-- Comments on lines of their own. -/
theorem read_standalones {due : List Char} {indent : Text} (hblank : isBlank indent = true) (hindent : IsLine indent) :
    ∀ {cs : List Comment}, (∀ c ∈ cs, IsSound c) →
      (Place.read ⟨.code, due⟩ (unlines (cs.flatMap (·.standalone indent)))).1 = ⟨.code, due⟩
  | [], _ => rfl
  | c :: cs, h => by
    rw [List.flatMap_cons, unlines_append, read_append_fst, read_standalone hblank hindent (h c (by simp))]
    exact read_standalones hblank hindent fun d hd => h d (List.mem_cons_of_mem _ hd)

theorem codeLines_layout {due due' : List Char} {indent : Text} (hblank : isBlank indent = true)
    (hindent : IsLine indent) {ls : List Text} (h : CodeLines due ls due') : CodeLines due (layout indent ls) due' := by
  induction h with
  | nil => exact .nil _
  | @cons due mid due' l ls hline hread _ ih =>
    refine .cons (isLine_trimEnd fun hm => (List.mem_append.1 hm).elim hindent hline) ?_ ih
    refine eq_of_bare_code ((read_line_layout (p := ⟨.code, due⟩) trivial hblank hindent hline).trans ?_)
    rw [hread]
    rfl

/-- Comments that are put among lines do not change where a reader is behind them. -/
theorem read_restoreLines {comments : List Comment} (hsound : ∀ c ∈ comments, IsSound c) {due due' : List Char}
    {ls : List Text} (h : CodeLines due ls due') : ∀ seen : List Text,
    (Place.read ⟨.code, due⟩ (unlines (restoreLines comments seen ls))).1 = ⟨.code, due'⟩ := by
  induction h with
  | nil => exact fun seen => rfl
  | @cons due mid due' l ls hline hread hrest ih =>
    intro seen
    have hkept : ∀ seen, (Place.read ⟨.code, due⟩ (unlines (l :: restoreLines comments seen ls))).1 = ⟨.code, due'⟩ := by
      intro seen
      rw [unlines_cons, read_append_fst, hread, ih]
    have hblank : isBlank (l.takeWhile isBlankChar) = true := List.all_takeWhile
    have hindent : IsLine (l.takeWhile isBlankChar) := fun hm => hline ((List.takeWhile_prefix _).subset hm)
    have hown : ∀ due name placement, (Place.read ⟨.code, due⟩
        (unlines ((commentsOf comments name placement).flatMap (·.standalone (l.takeWhile isBlankChar))))).1 =
          ⟨.code, due⟩ := fun due name placement =>
      read_standalones hblank hindent fun c hc => hsound c (List.mem_filter.1 hc).1
    simp only [restoreLines]
    split
    · rename_i name _
      split
      · exact hkept seen
      · rw [List.append_assoc, unlines_append, read_append_fst, hown, List.cons_append, unlines_cons, read_append_fst,
          unlines_append]
        split
        · rename_i c cs hcs
          have hc : c ∈ commentsOf comments name .sameLine := hcs ▸ List.mem_cons_self
          rw [read_coded (hsound c (List.mem_filter.1 hc).1) hread, read_append_fst, hown]
          exact ih _
        · rw [hread, read_append_fst, hown]
          exact ih _
    · exact hkept seen

end Listing
end StyleHoist
