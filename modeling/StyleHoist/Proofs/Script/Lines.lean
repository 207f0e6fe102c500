import StyleHoist.Proofs.Comment.Scanning
import StyleHoist.Proofs.Script.Tokens

/-!
# Lines of a script

What a reader makes of a line, or of a part of one, is told by what it is inside of before it.

- `read_of_findMarker_clear`, `read_of_findMarker_found`: where the scan of a line finds no marker there is no comment,
  and before the first marker that it finds there is none.
- `read_lineComment`, `read_block`, `read_blockLines`: comments.
- `inComment_read`: a comment is left by its end only.
- `inLiteral_read_blank`: blanks end no literal.
- `read_margin`: blanks at the end of a line outside of literals and comments are white space.
-/

namespace StyleHoist
namespace Tokens

open Text Listing

/-- Behind a slash that opens no comment a reader is in code. -/
theorem read_slash {d : Char} {u : Text} (hline : d ≠ '/') (hblock : d ≠ '*') : Mode.read .slash (d :: u) =
    ((Mode.read .code (d :: u)).1, .code '/' :: (Mode.read .code (d :: u)).2) := by
  simp [read_cons, Mode.step, hline, hblock]

/-! ## Markers -/

/-- What a reader is inside of where a quote may be open. -/
def modeOf : Option Char → Mode
  | none => .code
  | some q => .quoted q

/-- Behind a character of code a reader is where the scan for a marker is. -/
theorem read_code_cons {c : Char} {t : Text} (ht : c = '/' → t ≠ []) (hline : ∀ u, c = '/' → t = '/' :: u → False)
    (hblock : ∀ u, c = '/' → t = '*' :: u → False) : ∃ x, x ≠ .comment ∧ Mode.read .code (c :: t) =
      (((modeOf (if c == '\x27' || c == '\x22' || c == '\x60' then some c else none)).read t).1,
        x :: ((modeOf (if c == '\x27' || c == '\x22' || c == '\x60' then some c else none)).read t).2) := by
  by_cases hslash : c = '/'
  · subst hslash
    obtain ⟨d, u, rfl⟩ := List.exists_cons_of_ne_nil (ht rfl)
    have hd : d ≠ '/' := fun e => hline u rfl (e ▸ rfl)
    have hd' : d ≠ '*' := fun e => hblock u rfl (e ▸ rfl)
    refine ⟨.code '/', by simp, ?_⟩
    rw [read_cons, Mode.step, show codeStep '/' = (.slash, []) from rfl, read_slash hd hd']
    rfl
  · cases hquote : c == '\x27' || c == '\x22' || c == '\x60' with
    | true =>
      have hopens : opensQuote c = true := by simpa [opensQuote] using hquote
      exact ⟨.opening c, by simp, by simp [read_cons, Mode.step, codeStep, hslash, hopens, modeOf]⟩
    | false =>
      have hopens : opensQuote c = false := by simpa [opensQuote] using hquote
      refine ⟨if isGap c then .space else .code c, by split <;> simp, ?_⟩
      simp [read_cons, Mode.step, codeStep, hslash, hopens, modeOf]

/-- Behind a character of a literal a reader is where the scan for a marker is. -/
theorem read_quoted_cons {q c : Char} {t : Text} (hbackslash : c ≠ '\\') (hc : c ≠ '\n') :
    Mode.read (.quoted q) (c :: t) = (((modeOf (if c == q then none else some q)).read t).1,
      .inside c :: ((modeOf (if c == q then none else some q)).read t).2) := by
  rw [read_cons, Mode.step, quotedStep, if_neg (by simpa using hbackslash), if_neg (by simp [hc])]
  split <;> rfl

/-- A backslash in a literal hides the next character of the line. -/
theorem read_quoted_escape {q c d : Char} {u : Text} (hd : d ≠ '\n') : Mode.read (.quoted q) ('\\' :: c :: d :: u) =
    ((Mode.read (.quoted q) (d :: u)).1, .inside '\\' :: .inside c :: (Mode.read (.quoted q) (d :: u)).2) := by
  by_cases hc : c = '\r' <;> simp [read_cons, Mode.step, quotedStep, hc, hd]

/-- Between quotes a marker is found only behind the closing one. -/
theorem ne_nil_of_findMarker {q : Char} {l before after : Text} {kind : CommentKind}
    (h : findMarker (some q) l = .found before kind after) : before ≠ [] := by
  cases l with
  | nil => cases h
  | cons c t =>
    by_cases hc : c = '\\'
    · subst hc
      cases t with
      | nil => cases h
      | cons d t =>
        obtain ⟨_, rfl, -⟩ := MarkerScan.cons_eq_found h
        exact List.cons_ne_nil _ _
    · rw [findMarker_quoted hc] at h
      obtain ⟨_, rfl, -⟩ := MarkerScan.cons_eq_found h
      exact List.cons_ne_nil _ _

/-- A quotation ends with its line, a template goes on. -/
theorem read_quoted_newline (q : Char) :
    ∃ xs, Mode.read (.quoted q) ['\n'] = (modeOf (openQuote (q == '\x60')), xs) ∧ .comment ∉ xs := by
  by_cases htemplate : q = '\x60'
  · subst htemplate
    exact ⟨[.inside '\n'], rfl, by simp⟩
  · exact ⟨[.space], by simp [read_cons, Mode.step, quotedStep, htemplate, modeOf, openQuote], by simp⟩

/-- Behind a backslash and the character it hides a quotation ends with its line. A break that is hidden with it is
read as part of the literal. -/
theorem read_quoted_escape_newline {q c : Char}
    (hends : ∀ r, (Mode.read (.quoted q) ['\\', c, '\n']).1 = .quoted r → r = '\x60') :
    ∃ xs, Mode.read (.quoted q) ['\\', c, '\n'] = (modeOf (openQuote (q == '\x60')), xs) ∧ .comment ∉ xs := by
  by_cases hreturn : c = '\r'
  · subst hreturn
    have hread : Mode.read (.quoted q) ['\\', '\r', '\n'] =
        (.quoted q, [.inside '\\', .inside '\r', .inside '\n']) := rfl
    obtain rfl := hends q (congrArg Prod.fst hread)
    exact ⟨_, hread, by simp⟩
  · obtain ⟨xs, hread, hxs⟩ := read_quoted_newline q
    have hsplit : Mode.read (.quoted q) ['\\', c, '\n'] =
        ((Mode.read (.quoted q) ['\n']).1, [.inside '\\', .inside c] ++ (Mode.read (.quoted q) ['\n']).2) := by
      simp [read_cons, Mode.step, quotedStep, hreturn]
    rw [hread] at hsplit
    exact ⟨_, hsplit, by simpa using hxs⟩

theorem exists_eq_cons_of_append_newline {t u : Text} {d : Char} (hd : d ≠ '\n') (h : t ++ ['\n'] = d :: u) :
    ∃ v, t = d :: v := by
  cases t with
  | nil => exact absurd (List.cons.inj h).1.symm hd
  | cons c t => exact ⟨t, by rw [(List.cons.inj h).1]⟩

/-- Where the scan of a line finds no marker, a reader finds no comment, and behind the line it is where the scan is. -/
theorem read_of_findMarker_clear {quote : Option Char} {l : Text} {b : Bool} (hl : IsLine l)
    (h : findMarker quote l = .clear b)
    (hends : ∀ q, ((modeOf quote).read (l ++ ['\n'])).1 = .quoted q → q = '\x60') :
    ∃ xs, (modeOf quote).read (l ++ ['\n']) = (modeOf (openQuote b), xs) ∧ .comment ∉ xs := by
  fun_induction findMarker quote l with
  | case1 quote =>
    obtain rfl := MarkerScan.clear.inj h
    cases quote with
    | none => exact ⟨[.space], rfl, by simp⟩
    | some q => exact read_quoted_newline q
  | case2 q =>
    obtain rfl := MarkerScan.clear.inj h
    have hread : Mode.read (.quoted q) ['\\', '\n'] = (.quoted q, [.inside '\\', .inside '\n']) := rfl
    obtain rfl := hends q (congrArg Prod.fst hread)
    exact ⟨_, hread, by simp⟩
  | case3 q c t ih =>
    obtain ⟨hc, ht⟩ := isLine_cons.1 (isLine_cons.1 hl).2
    replace h := MarkerScan.cons_eq_clear (MarkerScan.cons_eq_clear h)
    cases t with
    | nil =>
      obtain rfl := MarkerScan.clear.inj h
      exact read_quoted_escape_newline hends
    | cons d u =>
      have hd : d ≠ '\n' := fun e => ht (e ▸ List.mem_cons_self)
      have hread := @read_quoted_escape q c d (u ++ ['\n']) hd
      rw [modeOf, List.cons_append, List.cons_append, List.cons_append, hread] at hends ⊢
      obtain ⟨xs, hrest, hxs⟩ := ih ht h hends
      rw [modeOf, List.cons_append] at hrest
      rw [hrest]
      exact ⟨_, rfl, by simpa using hxs⟩
  | case4 q c t hlast hbackslash ih =>
    obtain ⟨hc, ht⟩ := isLine_cons.1 hl
    have hread := read_quoted_cons (q := q) (t := t ++ ['\n']) (ne_backslash hlast hbackslash) (Ne.symm hc)
    rw [modeOf, List.cons_append, hread] at hends ⊢
    obtain ⟨xs, hrest, hxs⟩ := ih ht (MarkerScan.cons_eq_clear h) hends
    rw [hrest]
    exact ⟨_, rfl, by simpa using hxs⟩
  | case5 t => cases h
  | case6 t => cases h
  | case7 c t hline hblock ih =>
    obtain ⟨hc, ht⟩ := isLine_cons.1 hl
    obtain ⟨x, hx, hread⟩ := read_code_cons (c := c) (t := t ++ ['\n']) (by simp)
      (fun u hslash hu => by
        obtain ⟨v, hv⟩ := exists_eq_cons_of_append_newline (by decide) hu
        exact hline v hslash hv)
      (fun u hslash hu => by
        obtain ⟨v, hv⟩ := exists_eq_cons_of_append_newline (by decide) hu
        exact hblock v hslash hv)
    rw [modeOf, List.cons_append, hread] at hends ⊢
    obtain ⟨xs, hrest, hxs⟩ := ih ht (MarkerScan.cons_eq_clear h) hends
    rw [hrest]
    exact ⟨_, rfl, by simpa [hx.symm] using hxs⟩

/-- Where the scan of a line finds a marker, a reader has found no comment and is in code. -/
theorem read_of_findMarker_found {quote : Option Char} {l before after : Text} {kind : CommentKind} (hl : IsLine l)
    (h : findMarker quote l = .found before kind after) :
    ∃ xs, (modeOf quote).read before = (.code, xs) ∧ .comment ∉ xs := by
  fun_induction findMarker quote l generalizing before with
  | case1 => cases h
  | case2 => cases h
  | case3 q c t ih =>
    obtain ⟨hc, ht⟩ := isLine_cons.1 (isLine_cons.1 hl).2
    obtain ⟨_, rfl, h'⟩ := MarkerScan.cons_eq_found h
    obtain ⟨before, rfl, h''⟩ := MarkerScan.cons_eq_found h'
    obtain ⟨xs, hread, hxs⟩ := ih ht h''
    obtain ⟨d, u, rfl⟩ := List.exists_cons_of_ne_nil (ne_nil_of_findMarker h'')
    have hd : d ≠ '\n' := by
      rintro rfl
      exact ht (eq_of_findMarker h'' ▸ by simp)
    rw [modeOf] at hread ⊢
    rw [read_quoted_escape hd, hread]
    exact ⟨_, rfl, by simpa using hxs⟩
  | case4 q c t hlast hbackslash ih =>
    obtain ⟨hc, ht⟩ := isLine_cons.1 hl
    obtain ⟨before, rfl, h'⟩ := MarkerScan.cons_eq_found h
    obtain ⟨xs, hread, hxs⟩ := ih ht h'
    rw [modeOf, read_quoted_cons (ne_backslash hlast hbackslash) (Ne.symm hc), hread]
    exact ⟨_, rfl, by simpa using hxs⟩
  | case5 t =>
    cases h
    exact ⟨[], rfl, List.not_mem_nil⟩
  | case6 t =>
    cases h
    exact ⟨[], rfl, List.not_mem_nil⟩
  | case7 c t hline hblock ih =>
    obtain ⟨hc, ht⟩ := isLine_cons.1 hl
    obtain ⟨before, rfl, h'⟩ := MarkerScan.cons_eq_found h
    obtain ⟨xs, hread, hxs⟩ := ih ht h'
    have hsplit := eq_of_findMarker h'
    have hbegins : ∀ u d, c = '/' → before = d :: u → t = d :: (u ++ kind.marker ++ after) := by
      rintro u d - rfl
      exact hsplit
    obtain ⟨x, hx, hcons⟩ := read_code_cons (c := c) (t := before) (fun hslash hnil => by
        subst hnil
        cases kind with
        | line => exact hline _ hslash hsplit
        | block => exact hline _ hslash hsplit)
      (fun u hslash hu => hline _ hslash (hbegins u '/' hslash hu))
      (fun u hslash hu => hblock _ hslash (hbegins u '*' hslash hu))
    rw [modeOf, hcons, hread]
    exact ⟨_, rfl, by simpa [hx.symm] using hxs⟩

/-! ## Comments -/

/-- A line comment takes the rest of its line, unless another end of a line stands in it with more behind it. -/
theorem read_lineComment : ∀ {l : Text}, (∀ before c behind, l = before ++ c :: behind →
    (∀ d ∈ before, Script.isLineEnd d = false) → Script.isLineEnd c = true → isBlank behind = true) →
      ∃ n, Mode.read .lineComment (l ++ ['\n']) = (.code, .comment :: .space :: List.replicate n .space)
  | [], _ => ⟨0, rfl⟩
  | c :: l, h => by
    cases hc : Script.isLineEnd c with
    | true =>
      refine ⟨(l ++ ['\n']).length, ?_⟩
      rw [List.cons_append, read_cons, Mode.step, if_pos hc, read_blank (isBlank_append_newline (h [] c l rfl (by simp) hc))]
      rfl
    | false =>
      obtain ⟨n, hn⟩ := read_lineComment (l := l) fun before d behind hl hbefore hd =>
        h (c :: before) d behind (by rw [hl]; rfl) (List.forall_mem_cons.2 ⟨hc, hbefore⟩) hd
      refine ⟨n, ?_⟩
      rw [List.cons_append, read_cons, Mode.step, if_neg (by simp [hc]), hn]
      rfl

/-- What does not end a line does not end a line comment. -/
theorem read_lineComment_inside : ∀ {t : Text}, (∀ c ∈ t, Script.isLineEnd c = false) →
    Mode.read .lineComment t = (.lineComment, [])
  | [], _ => rfl
  | c :: t, h => by
    obtain ⟨hc, ht⟩ := List.forall_mem_cons.1 h
    rw [read_cons, Mode.step, if_neg (by simp [hc]), read_lineComment_inside ht]
    rfl

/-- A reader is in a block comment. -/
def Mode.InBlock (m : Mode) : Prop :=
  m = .blockComment ∨ m = .star

/-- A text without a closing marker does not end a block comment. The ends of its lines are white space. -/
theorem read_blockText : ∀ t : Text,
    (¬blockClose <:+: t → ∃ m : Mode, m.InBlock ∧
      Mode.read .blockComment t = (m, List.replicate (t.count '\n') .space)) ∧
    (¬blockClose <:+: '*' :: t → ∃ m : Mode, m.InBlock ∧
      Mode.read .star t = (m, List.replicate (t.count '\n') .space))
  | [] => ⟨fun _ => ⟨_, Or.inl rfl, rfl⟩, fun _ => ⟨_, Or.inr rfl, rfl⟩⟩
  | c :: t => by
    obtain ⟨hblock, hstar⟩ := read_blockText t
    have hstep : ¬blockClose <:+: c :: t → ∃ m : Mode, m.InBlock ∧
        ((blockStep c).1.read t).1 = m ∧
          (blockStep c).2 ++ ((blockStep c).1.read t).2 = List.replicate ((c :: t).count '\n') .space := by
      intro h
      have htail : ¬blockClose <:+: t := fun hs => h (hs.trans (List.suffix_cons _ _).isInfix)
      by_cases hc : c = '*'
      · subst hc
        obtain ⟨m, hm, hread⟩ := hstar h
        exact ⟨m, hm, by simp [blockStep, hread]⟩
      · obtain ⟨m, hm, hread⟩ := hblock htail
        refine ⟨m, hm, ?_⟩
        by_cases hnewline : c = '\n' <;>
          simp [blockStep, hc, hread, hnewline, List.replicate_succ]
    constructor
    · intro h
      obtain ⟨m, hm, hfst, hsnd⟩ := hstep h
      exact ⟨m, hm, by rw [read_cons, Mode.step, hfst, hsnd]⟩
    · intro h
      have hslash : c ≠ '/' := by
        rintro rfl
        exact h (List.prefix_append blockClose t).isInfix
      obtain ⟨m, hm, hfst, hsnd⟩ := hstep fun hs => h (hs.trans (List.suffix_cons _ _).isInfix)
      refine ⟨m, hm, ?_⟩
      rw [read_cons, Mode.step, if_neg (by simpa using hslash), hfst, hsnd]

/-- A block comment ends at the first closing marker. -/
theorem read_block {inner : Text} (h : ¬blockClose <:+: inner) : Mode.read .blockComment (inner ++ blockClose) =
    (.code, List.replicate (inner.count '\n') .space ++ [.comment]) := by
  obtain ⟨m, hm, hread⟩ := (read_blockText inner).1 h
  rw [read_append_of hread]
  rcases hm with rfl | rfl <;> rfl

/-- Lines without a closing marker do not end a block comment. -/
theorem read_blockLines : ∀ {ls : List Text}, (∀ l ∈ ls, ¬blockClose <:+: l) →
    ∃ k, ls.length ≤ k ∧ Mode.read .blockComment (unlines ls) = (.blockComment, List.replicate k .space)
  | [], _ => ⟨0, Nat.le_refl _, rfl⟩
  | l :: ls, h => by
    obtain ⟨hl, hls⟩ := List.forall_mem_cons.1 h
    obtain ⟨m, hm, hread⟩ := (read_blockText l).1 hl
    obtain ⟨k, hk, hrest⟩ := read_blockLines hls
    have hnewline : m.read ['\n'] = (.blockComment, List.replicate 1 .space) := by
      rcases hm with rfl | rfl <;> rfl
    have hline : Mode.read .blockComment (l ++ ['\n']) =
        (.blockComment, List.replicate (l.count '\n' + 1) .space) := by
      rw [read_append_of hread, hnewline, List.replicate_append_replicate]
    refine ⟨l.count '\n' + 1 + k, by rw [List.length_cons]; omega, ?_⟩
    rw [unlines_cons, read_append_of hline, hrest, List.replicate_append_replicate]

/-- A line of a block comment and the lines behind it, none of which closes it. -/
theorem read_openLines {l : Text} {ls : List Text} (hl : ¬blockClose <:+: l) (hls : ∀ k ∈ ls, ¬blockClose <:+: k) :
    ∃ k, Mode.read .blockComment (unlines (l :: ls)) = (.blockComment, List.replicate (k + 1) .space) := by
  obtain ⟨k, hk, hread⟩ := read_blockLines (List.forall_mem_cons.2 ⟨hl, hls⟩)
  rw [List.length_cons] at hk
  exact ⟨k - 1, by rw [hread, Nat.sub_add_cancel (by omega)]⟩

/-! ## White space in literals and comments -/

/-- A reader is in a quotation or in a template. -/
def Mode.inLiteral : Mode → Bool
  | .quoted _ | .escaped _ | .carriage _ => true
  | _ => false

/-- A reader is in a quotation. -/
def Mode.inQuotation : Mode → Bool
  | .quoted q | .escaped q | .carriage q => q != '\x60'
  | _ => false

def Mode.inComment : Mode → Bool
  | .lineComment | .blockComment | .star => true
  | _ => false

/-- What closes a literal is a quote. -/
def Mode.isSound : Mode → Bool
  | .quoted q | .escaped q | .carriage q => opensQuote q
  | _ => true

theorem isSound_codeStep (c : Char) : (codeStep c).1.isSound = true := by
  unfold codeStep
  split
  · rfl
  · split
    · rename_i h
      exact h
    · rfl

theorem isSound_quotedStep {q : Char} (h : opensQuote q = true) (c : Char) : (quotedStep q c).1.isSound = true := by
  unfold quotedStep
  split
  · exact h
  · split
    · rfl
    · split
      · rfl
      · exact h

theorem isSound_step {m : Mode} (h : m.isSound = true) (c : Char) : (m.step c).1.isSound = true := by
  cases m with
  | code => exact isSound_codeStep c
  | slash =>
    rw [Mode.step]
    split
    · rfl
    · split
      · rfl
      · exact isSound_codeStep c
  | quoted q => exact isSound_quotedStep h c
  | escaped q =>
    rw [Mode.step]
    split <;> exact h
  | carriage q =>
    rw [Mode.step]
    split
    · exact h
    · exact isSound_quotedStep h c
  | lineComment =>
    rw [Mode.step]
    split <;> rfl
  | blockComment =>
    rw [Mode.step, blockStep]
    split <;> rfl
  | star =>
    rw [Mode.step, blockStep]
    split
    · rfl
    · split <;> rfl

theorem isSound_read : ∀ {m : Mode}, m.isSound = true → ∀ t : Text, (m.read t).1.isSound = true
  | _, h, [] => h
  | _, h, c :: t => isSound_read (isSound_step h c) t

/-- A comment is left by its end only. -/
theorem inComment_step {m : Mode} (h : m.inComment = true) (c : Char) :
    (m.step c).1.inComment = true ∨ .comment ∈ (m.step c).2 := by
  have hblock : (blockStep c).1.inComment = true := by
    unfold blockStep
    split <;> rfl
  cases m with
  | lineComment =>
    rw [Mode.step]
    split
    · exact Or.inr List.mem_cons_self
    · exact Or.inl rfl
  | blockComment => exact Or.inl hblock
  | star =>
    rw [Mode.step]
    split
    · exact Or.inr List.mem_cons_self
    · exact Or.inl hblock
  | _ => cases h

theorem inComment_read : ∀ {m : Mode}, m.inComment = true → ∀ t : Text,
    (m.read t).1.inComment = true ∨ .comment ∈ (m.read t).2
  | _, h, [] => Or.inl h
  | _, h, c :: t => by
    rcases inComment_step h c with hstep | hstep
    · rcases inComment_read hstep t with hread | hread
      · exact Or.inl hread
      · exact Or.inr (List.mem_append_right _ hread)
    · exact Or.inr (List.mem_append_left _ hstep)

/-- Blanks end no literal. -/
theorem inLiteral_read_blank : ∀ {t : Text} {m : Mode}, m.inLiteral = true → m.isSound = true → isBlank t = true →
    IsLine t → (m.read t).1.inLiteral = true
  | [], _, h, _, _, _ => h
  | c :: t, m, h, hsound, hblank, hline => by
    obtain ⟨hc, ht⟩ := isBlank_cons.1 hblank
    obtain ⟨hnewline, hline⟩ := isLine_cons.1 hline
    have hquoted : ∀ q, opensQuote q = true → (quotedStep q c).1.inLiteral = true := by
      intro q hq
      have hbackslash : c ≠ '\\' := ne_of_isBlankChar hc (by decide)
      have hne : c ≠ q := quote_ne_blank ⟨q, hq⟩ hc
      simp [quotedStep, hbackslash, hne, Ne.symm hnewline, Mode.inLiteral]
    have hstep : (m.step c).1.inLiteral = true := by
      cases m with
      | quoted q => exact hquoted q hsound
      | escaped q =>
        rw [Mode.step]
        split <;> rfl
      | carriage q =>
        rw [Mode.step, if_neg (by simpa using Ne.symm hnewline)]
        exact hquoted q hsound
      | _ => cases h
    rw [read_cons]
    exact inLiteral_read_blank hstep (isSound_step hsound c) ht hline

/-- Blanks at the end of a line outside of literals and comments are white space. -/
theorem read_margin {m : Mode} (hsound : m.isSound = true) {margin : Text} (hblank : isBlank margin = true)
    (hline : IsLine margin) (hliteral : (m.read margin).1.inLiteral = false)
    (hcomment : .comment ∉ (m.read (margin ++ ['\n'])).2)
    (hend : (m.read (margin ++ ['\n'])).1.inComment = false) :
    ∃ xs k, m.read ['\n'] = (.code, xs) ∧ m.read (margin ++ ['\n']) = (.code, xs ++ List.replicate k .space) := by
  have hall := isBlank_append_newline hblank
  have hcode : Mode.read .code (margin ++ ['\n']) = (.code, [.space] ++ List.replicate margin.length .space) := by
    rw [read_blank hall, List.length_append, List.length_singleton, List.replicate_succ]
    rfl
  have hnot : m.inComment = false := by
    cases h : m.inComment with
    | false => rfl
    | true =>
      rcases inComment_read h (margin ++ ['\n']) with hread | hread
      · rw [hread] at hend
        cases hend
      · exact absurd hread hcomment
  have hnot' : m.inLiteral = false := by
    cases h : m.inLiteral with
    | false => rfl
    | true =>
      rw [inLiteral_read_blank h hsound hblank hline] at hliteral
      cases hliteral
  cases m with
  | code => exact ⟨_, _, rfl, hcode⟩
  | slash =>
    refine ⟨[.code '/', .space], margin.length, rfl, ?_⟩
    obtain ⟨d, u, hdu⟩ : ∃ d u, margin ++ ['\n'] = d :: u :=
      List.exists_cons_of_ne_nil (List.append_ne_nil_of_right_ne_nil margin (List.cons_ne_nil '\n' []))
    rw [hdu] at hall hcode ⊢
    have hd : isBlankChar d = true := (Bool.and_eq_true_iff.1 hall).1
    rw [read_slash (ne_of_isBlankChar hd (by decide)) (ne_of_isBlankChar hd (by decide)), hcode]
    rfl
  | quoted | escaped | carriage => cases hnot'
  | lineComment | blockComment | star => cases hnot

/-- Blanks in a template belong to it. -/
theorem read_template_blank : ∀ {t : Text}, isBlank t = true →
    Mode.read (.quoted '\x60') t = (.quoted '\x60', t.map .inside)
  | [], _ => rfl
  | c :: t, h => by
    obtain ⟨hc, ht⟩ := isBlank_cons.1 h
    have hstep : quotedStep '\x60' c = (.quoted '\x60', [.inside c]) := by
      simp [quotedStep, ne_of_isBlankChar (d := '\\') hc (by decide), ne_of_isBlankChar (d := '\x60') hc (by decide)]
    rw [read_cons, Mode.step, hstep, read_template_blank ht]
    rfl

end Tokens
end StyleHoist
