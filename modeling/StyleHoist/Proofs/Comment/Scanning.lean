import StyleHoist.Proofs.Comment.Stripping

/-!
# Scanning lines

What taking comments out keeps of lines, and what the comments say that it finds, depends on these lines only, and on
whether a template is open before them (`scan`). So a step of a scan is told once, for any lines before and behind.

- `scan_clear`: a line without a marker is kept.
- `findMarker_append`: behind a line that leaves the scan in code, what follows is scanned as code.
- `CodeLine.layout`: such a line may be indented and lose the blanks at its end.
- `scan_append`: lines without a marker are kept.
-/

namespace StyleHoist

open Text Listing

/-! ## Lines on their own -/

/-- What a comment says. -/
abbrev Remark := CommentKind × Text

def Comment.remark (c : Comment) : Remark := (c.kind, c.text)

/-- What is kept, and what the comments say that are found. -/
def heard (s : Stripping) : List Text × List Remark := (s.1, s.2.map Comment.remark)

theorem heard_keep {s s' : Stripping} (h : heard s = heard s') (kept : List Text) :
    heard (kept ++ s.1, s.2) = heard (kept ++ s'.1, s'.2) := by
  simp only [heard, Prod.mk.injEq] at h ⊢
  rw [h.1, h.2]
  exact ⟨rfl, rfl⟩

theorem heard_comment {s s' : Stripping} (h : heard s = heard s') {c c' : Comment} (hc : c.remark = c'.remark) :
    heard (s.1, c :: s.2) = heard (s'.1, c' :: s'.2) := by
  simp only [heard, Prod.mk.injEq, List.map_cons] at h ⊢
  rw [h.1, h.2, hc]
  exact ⟨rfl, rfl⟩

theorem getElem?_of_drop {α : Type} {xs ys : List α} {m n : Nat} (h : xs.drop m = ys.drop n) : xs[m]? = ys[n]? := by
  have hfirst := congrArg (·[0]?) h
  simpa using hfirst

theorem drop_of_drop {α : Type} {xs ys : List α} {m n : Nat} (h : xs.drop m = ys.drop n) (k : Nat) :
    xs.drop (m + k) = ys.drop (n + k) := by
  rw [← List.drop_drop, h, List.drop_drop]

theorem isEmpty_append_blockClose (t : Text) : (t ++ blockClose).isEmpty = false := by
  rw [List.isEmpty_eq_false_iff]
  simp [blockClose_eq]

/-- What is kept and found depends on the lines that are left, and on whether part of a line has been scanned. -/
theorem heard_stripFrom {lines lines' : List Text} : ∀ {fuel n n' : Nat} {done done' code rest : Text} {b : Bool},
    lines.drop (n + 1) = lines'.drop (n' + 1) → done.isEmpty = done'.isEmpty →
      heard (stripFrom lines fuel n done code rest b) = heard (stripFrom lines' fuel n' done' code rest b)
  | 0, _, _, _, _, _, _, _, _, _ => rfl
  | fuel + 1, n, n', done, done', code, rest, b, hdrop, hdone => by
    have hnext : ∀ (l : Text) (b : Bool), heard (stripFrom lines fuel (n + 1) [] [] l b) =
        heard (stripFrom lines' fuel (n' + 1) [] [] l b) := fun l b => heard_stripFrom (drop_of_drop hdrop 1) rfl
    simp only [stripFrom, getElem?_of_drop hdrop]
    cases findMarker (if b then some '\x60' else none) rest with
    | clear b' =>
      rw [hdone]
      cases lines'[n' + 1]? with
      | none => rfl
      | some l => exact heard_keep (hnext l b') _
    | found before kind after =>
      cases kind with
      | line =>
        cases lines'[n' + 1]? with
        | none => rfl
        | some l => exact heard_comment (heard_keep (hnext l false) _) rfl
      | block =>
        dsimp only
        cases splitOn? blockClose after with
        | some parts =>
          have hclosed : ∀ t : Text, (t ++ blockClose).isEmpty = false := isEmpty_append_blockClose
          exact heard_comment (heard_stripFrom hdrop ((hclosed _).trans (hclosed _).symm)) rfl
        | none =>
          dsimp only
          rw [hdrop]
          cases (blockRest (lines'.drop (n' + 1))).closing with
          | none => rfl
          | some closing =>
            refine heard_comment (heard_keep (heard_stripFrom ?_ rfl) _) rfl
            have hlater := drop_of_drop hdrop (blockRest (lines'.drop (n' + 1))).lines
            simpa [Nat.add_right_comm] using hlater

/-- What is kept of lines, and what the comments say that are found, with `b` telling whether a template is open. -/
def scan (b : Bool) (ls : List Text) : List Text × List Remark :=
  heard (stripLines ls 0 b)

/-- A scan from a line on is a scan of the lines from there on. -/
theorem heard_stripLines (lines : List Text) (n : Nat) (b : Bool) :
    heard (stripLines lines n b) = scan b (lines.drop n) := by
  cases hl : lines[n]? with
  | none =>
    have hnil : lines.drop n = [] := List.drop_eq_nil_of_le (List.getElem?_eq_none_iff.1 hl)
    rw [stripLines, hl, hnil]
    rfl
  | some l =>
    have hfirst : (lines.drop n)[0]? = some l := by simpa using hl
    have hdrop : lines.drop (n + 1) = (lines.drop n).drop (0 + 1) := by rw [List.drop_drop]
    have hleft : leftOver lines n l = leftOver (lines.drop n) 0 l := by
      rw [leftOver, leftOver, linesBehind, linesBehind, hdrop]
    rw [scan, stripLines, hl, stripLines, hfirst]
    simp only [strip, hleft]
    exact heard_stripFrom hdrop rfl

theorem scan_nil (b : Bool) : scan b [] = ([], []) := rfl

/-- Where a block ends a line, the code before it is kept. -/
theorem strip_end (lines : List Text) (n : Nat) (t code : Text) : strip lines n (t ++ blockClose) code [] false =
    (keepCode code ++ (stripLines lines (n + 1) false).1, (stripLines lines (n + 1) false).2) := by
  have hclear : findMarker (openQuote false) [] = .clear false := rfl
  rw [strip_clear hclear, isEmpty_append_blockClose, List.append_nil]
  rfl

/-- A line without a marker is kept. -/
theorem scan_clear {b b' : Bool} {l : Text} {ls : List Text} (h : findMarker (openQuote b) l = .clear b') :
    scan b (l :: ls) = (l :: (scan b' ls).1, (scan b' ls).2) := by
  have hrest := heard_stripLines (l :: ls) 1 b'
  rw [scan, stripLines, List.getElem?_cons_zero]
  simp only [strip_clear h]
  rw [List.drop_succ_cons, List.drop_zero] at hrest
  rw [← hrest]
  rfl

/-! ## Lines without comments -/

/-- Puts a text before what a scan finds. -/
def MarkerScan.prepend (t : Text) (m : MarkerScan) : MarkerScan :=
  t.foldr MarkerScan.cons m

theorem MarkerScan.prepend_cons (c : Char) (t : Text) (m : MarkerScan) :
    m.prepend (c :: t) = (m.prepend t).cons c := rfl

@[simp] theorem MarkerScan.prepend_clear (t : Text) (b : Bool) : (MarkerScan.clear b).prepend t = .clear b := by
  induction t with
  | nil => rfl
  | cons c t ih => rw [prepend_cons, ih]; rfl

@[simp] theorem MarkerScan.prepend_found (t before after : Text) (kind : CommentKind) :
    (MarkerScan.found before kind after).prepend t = .found (t ++ before) kind after := by
  induction t with
  | nil => rfl
  | cons c t ih => rw [prepend_cons, ih]; rfl

/-- The quote that is open behind a text. -/
def quoteAfter : (quote : Option Char) → Text → Option Char
  | quote, [] => quote
  | some q, '\\' :: [] => some q
  | some q, '\\' :: _ :: t => quoteAfter (some q) t
  | some q, c :: t => quoteAfter (if c == q then none else some q) t
  | none, c :: t => quoteAfter (if opensQuote c then some c else none) t

theorem quoteAfter_quoted {q c : Char} (hc : c ≠ '\\') (t : Text) :
    quoteAfter (some q) (c :: t) = quoteAfter (if c == q then none else some q) t := by
  rw [quoteAfter] <;> simp [hc]

theorem findMarker_quoted {q c : Char} (hc : c ≠ '\\') (t : Text) :
    findMarker (some q) (c :: t) = (findMarker (if c == q then none else some q) t).cons c := by
  rw [findMarker] <;> simp [hc]

theorem findMarker_escape (q c : Char) (t : Text) :
    findMarker (some q) ('\\' :: c :: t) = ((findMarker (some q) t).cons c).cons '\\' :=
  rfl

theorem findMarker_code {c : Char} {t : Text} (hline : ∀ u, c = '/' → t = '/' :: u → False)
    (hblock : ∀ u, c = '/' → t = '*' :: u → False) :
    findMarker none (c :: t) = (findMarker (if opensQuote c then some c else none) t).cons c := by
  rw [findMarker]
  · rfl
  · exact hline
  · exact hblock

/-- What follows a text does not make the scan of the text find more. -/
theorem clear_of_append {quote : Option Char} {l t : Text} {b : Bool} (h : findMarker quote (l ++ t) = .clear b) :
    ∃ b', findMarker quote l = .clear b' := by
  fun_induction findMarker quote l generalizing b with
  | case1 => exact ⟨_, rfl⟩
  | case2 => exact ⟨_, rfl⟩
  | case3 q c u ih =>
    obtain ⟨b', hu⟩ := ih (MarkerScan.cons_eq_clear (MarkerScan.cons_eq_clear h))
    exact ⟨b', by rw [hu]; rfl⟩
  | case4 q c u hlast hmore ih =>
    rw [List.cons_append, findMarker_quoted (ne_backslash hlast hmore)] at h
    obtain ⟨b', hu⟩ := ih (MarkerScan.cons_eq_clear h)
    exact ⟨b', by rw [hu]; rfl⟩
  | case5 u => cases h
  | case6 u => cases h
  | case7 c u hline hblock ih =>
    have hline' : ∀ v, c = '/' → u ++ t = '/' :: v → False := by
      rintro v rfl hv
      rw [List.cons_append, hv] at h
      cases h
    have hblock' : ∀ v, c = '/' → u ++ t = '*' :: v → False := by
      rintro v rfl hv
      rw [List.cons_append, hv] at h
      cases h
    rw [List.cons_append, findMarker_code hline' hblock'] at h
    obtain ⟨b', hu⟩ := ih (MarkerScan.cons_eq_clear h)
    exact ⟨b', by rw [hu]; rfl⟩

/-- Behind a text that leaves the scan in code, what follows is scanned as code, unless the two make a marker. -/
theorem findMarker_append {quote : Option Char} {l t : Text} {b : Bool} (h : findMarker quote l = .clear b)
    (hquote : quoteAfter quote l = none)
    (hjoin : l.getLast? = some '/' → (∀ u, t ≠ '/' :: u) ∧ ∀ u, t ≠ '*' :: u) :
    findMarker quote (l ++ t) = (findMarker none t).prepend l := by
  have htail : ∀ {c : Char} {u : Text}, ((c :: u).getLast? = some '/' → (∀ v, t ≠ '/' :: v) ∧ ∀ v, t ≠ '*' :: v) →
      u.getLast? = some '/' → (∀ v, t ≠ '/' :: v) ∧ ∀ v, t ≠ '*' :: v := fun hjoin hlast =>
    hjoin (by rw [List.getLast?_cons, hlast]; rfl)
  fun_induction findMarker quote l generalizing b with
  | case1 quote =>
    obtain rfl : quote = none := hquote
    rfl
  | case2 q => cases hquote
  | case3 q c u ih =>
    have hrest := ih (MarkerScan.cons_eq_clear (MarkerScan.cons_eq_clear h)) hquote (htail (htail hjoin))
    rw [MarkerScan.prepend_cons, MarkerScan.prepend_cons, ← hrest]
    rfl
  | case4 q c u hlast hmore ih =>
    have hc := ne_backslash hlast hmore
    rw [quoteAfter_quoted hc] at hquote
    rw [MarkerScan.prepend_cons, ← ih (MarkerScan.cons_eq_clear h) hquote (htail hjoin)]
    exact findMarker_quoted hc _
  | case5 u => cases h
  | case6 u => cases h
  | case7 c u hline' hblock' ih =>
    have hbegins : ∀ {d : Char}, (c = '/' → u = [] → ∀ v, t ≠ d :: v) → (∀ v, c = '/' → u = d :: v → False) →
        ∀ v, c = '/' → u ++ t = d :: v → False := by
      intro d ht hu v hc hv
      cases u with
      | nil => exact ht hc rfl v hv
      | cons e u =>
        obtain ⟨rfl, -⟩ := List.cons.inj hv
        exact hu u hc rfl
    have hend : c = '/' → u = [] → (∀ v, t ≠ '/' :: v) ∧ ∀ v, t ≠ '*' :: v := fun hc hu =>
      hjoin (by rw [hc, hu]; rfl)
    rw [quoteAfter] at hquote
    rw [MarkerScan.prepend_cons, ← ih (MarkerScan.cons_eq_clear h) hquote (htail hjoin)]
    exact findMarker_code (hbegins (fun hc hu => (hend hc hu).1) hline') (hbegins (fun hc hu => (hend hc hu).2) hblock')

/-- A character that neither is part of a marker nor opens, closes or hides anything. -/
def isInert (c : Char) : Bool :=
  c != '/' && c != '*' && c != '\\' && !opensQuote c

theorem isInert_of_isBlankChar {c : Char} (h : isBlankChar c = true) : isInert c = true := by
  have hne := fun d hd => ne_of_isBlankChar (d := d) h hd
  simp [isInert, opensQuote, hne '/' (by decide), hne '*' (by decide), hne '\\' (by decide), hne '\x27' (by decide),
    hne '\x22' (by decide), hne '\x60' (by decide)]

theorem all_isInert_of_isBlank {t : Text} (h : isBlank t = true) : t.all isInert = true := by
  rw [isBlank, List.all_eq_true] at h
  exact List.all_eq_true.2 fun c hc => isInert_of_isBlankChar (h c hc)

theorem ne_of_isInert {c d : Char} (h : isInert c = true) (hd : isInert d = false) : c ≠ d := by
  rintro rfl
  rw [h] at hd
  cases hd

theorem opensQuote_of_isInert {c : Char} (h : isInert c = true) : opensQuote c = false := by
  simp only [isInert, Bool.and_eq_true, Bool.not_eq_true'] at h
  exact h.2

/-- A quote, if any. -/
def IsQuote (quote : Option Char) : Prop :=
  ∀ q ∈ quote, opensQuote q = true

theorem isQuote_openQuote (b : Bool) : IsQuote (openQuote b) := by
  cases b <;> simp [IsQuote, openQuote]
  decide

/-- Behind a character between quotes the quote is the same, or there is none. -/
theorem IsQuote.ite {q : Char} (h : IsQuote (some q)) (c : Char) : IsQuote (if c == q then none else some q) := by
  split
  · simp [IsQuote]
  · exact h

/-- Behind a character of code there is a quote just if the character is one. -/
theorem isQuote_ite (c : Char) : IsQuote (if opensQuote c then some c else none) := by
  split <;> simp_all [IsQuote]

/-- Inert characters before a text do not matter. -/
theorem findMarker_inert_append {quote : Option Char} (hquote : IsQuote quote) {s : Text} (hs : s.all isInert = true)
    (t : Text) : findMarker quote (s ++ t) = (findMarker quote t).prepend s ∧
      quoteAfter quote (s ++ t) = quoteAfter quote t := by
  induction s with
  | nil => exact ⟨rfl, rfl⟩
  | cons c s ih =>
    obtain ⟨hc, hs⟩ : isInert c = true ∧ s.all isInert = true := by simpa using hs
    obtain ⟨hfind, hafter⟩ := ih hs
    have hslash : c ≠ '/' := ne_of_isInert hc (by decide)
    cases quote with
    | none =>
      have hopen := opensQuote_of_isInert hc
      rw [List.cons_append, findMarker_code (fun _ h _ => hslash h) (fun _ h _ => hslash h), quoteAfter, hopen,
        MarkerScan.prepend_cons, ← hfind, ← hafter]
      exact ⟨rfl, rfl⟩
    | some q =>
      have hbackslash : c ≠ '\\' := ne_of_isInert hc (by decide)
      have hq : c ≠ q := by
        rintro rfl
        exact absurd (hquote c rfl) (by simp [opensQuote_of_isInert hc])
      rw [List.cons_append, findMarker_quoted hbackslash, quoteAfter_quoted hbackslash, MarkerScan.prepend_cons,
        ← hfind, ← hafter]
      simp [hq]

/-- Inert characters leave the scan where it is. -/
theorem clear_of_inert {quote : Option Char} (hquote : IsQuote quote) {t : Text} (ht : t.all isInert = true) :
    findMarker quote t = .clear (quote == some '\x60') ∧ quoteAfter quote t = quote := by
  obtain ⟨hfind, hafter⟩ := findMarker_inert_append hquote ht []
  rw [List.append_nil] at hfind hafter
  rw [hfind, hafter]
  cases quote <;> simp [findMarker, quoteAfter]

/-- Inert characters behind a text do not matter. -/
theorem clear_append_inert {quote : Option Char} (hquote : IsQuote quote) {l t : Text} {b : Bool}
    (ht : t.all isInert = true) (h : findMarker quote l = .clear b) :
    findMarker quote (l ++ t) = .clear b ∧ quoteAfter quote (l ++ t) = quoteAfter quote l := by
  fun_induction findMarker quote l generalizing b with
  | case1 quote =>
    obtain rfl := MarkerScan.clear.inj h
    exact clear_of_inert hquote ht
  | case2 q =>
    obtain rfl := MarkerScan.clear.inj h
    cases t with
    | nil => exact ⟨rfl, rfl⟩
    | cons c t =>
      obtain ⟨hfind, hafter⟩ := clear_of_inert hquote (Bool.and_eq_true_iff.1 ht).2
      rw [List.singleton_append, findMarker_escape, hfind]
      exact ⟨by simp [MarkerScan.cons], hafter⟩
  | case3 q c u ih =>
    obtain ⟨hfind, hafter⟩ := ih hquote (MarkerScan.cons_eq_clear (MarkerScan.cons_eq_clear h))
    rw [List.cons_append, List.cons_append, findMarker_escape, hfind]
    exact ⟨rfl, hafter⟩
  | case4 q c u hlast hmore ih =>
    have hc := ne_backslash hlast hmore
    obtain ⟨hfind, hafter⟩ := ih (hquote.ite c) (MarkerScan.cons_eq_clear h)
    rw [List.cons_append, findMarker_quoted hc, hfind, quoteAfter_quoted hc, quoteAfter_quoted hc]
    exact ⟨rfl, hafter⟩
  | case5 u => cases h
  | case6 u => cases h
  | case7 c u hline hblock ih =>
    have hbegins : ∀ {d : Char}, isInert d = false → (∀ v, c = '/' → u = d :: v → False) → ∀ v, c = '/' →
        u ++ t = d :: v → False := by
      intro d hd hu v hc hv
      cases u with
      | nil =>
        rw [List.nil_append] at hv
        rw [hv, List.all_cons, hd] at ht
        cases ht
      | cons e u =>
        obtain ⟨rfl, -⟩ := List.cons.inj hv
        exact hu u hc rfl
    obtain ⟨hfind, hafter⟩ := ih (isQuote_ite c) (MarkerScan.cons_eq_clear h)
    rw [List.cons_append, findMarker_code (hbegins (by decide) hline) (hbegins (by decide) hblock), quoteAfter,
      quoteAfter]
    exact ⟨congrArg (MarkerScan.cons c) hfind, hafter⟩

/-- The layout of a line does not matter. -/
theorem clear_layout {b b' : Bool} {indent l : Text} (hindent : isBlank indent = true)
    (h : findMarker (openQuote b) l = .clear b') :
    findMarker (openQuote b) (trimEnd (indent ++ l)) = .clear b' ∧
      quoteAfter (openQuote b) (trimEnd (indent ++ l)) = quoteAfter (openQuote b) l := by
  obtain ⟨hfind, hafter⟩ := findMarker_inert_append (isQuote_openQuote b) (all_isInert_of_isBlank hindent) l
  rw [h, MarkerScan.prepend_clear] at hfind
  obtain ⟨margin, heq, hmargin⟩ := trimEnd_append_blank (indent ++ l)
  have hclear := hfind
  rw [heq] at hclear
  obtain ⟨b'', htrim⟩ := clear_of_append hclear
  obtain ⟨hfind', hafter'⟩ := clear_append_inert (isQuote_openQuote b) (all_isInert_of_isBlank hmargin) htrim
  rw [← heq] at hfind' hafter'
  rw [hfind] at hfind'
  exact ⟨by rw [htrim, MarkerScan.clear.inj hfind'], hafter'.symm.trans hafter⟩

/-! ## Lines of code -/

/-- A line without a marker that ends in code. -/
structure CodeLine (l : Text) : Prop where
  clear : findMarker none l = .clear false
  closed : quoteAfter none l = none

instance (l : Text) : Decidable (CodeLine l) :=
  decidable_of_iff (findMarker none l = .clear false ∧ quoteAfter none l = none)
    ⟨fun h => ⟨h.1, h.2⟩, fun h => ⟨h.1, h.2⟩⟩

theorem CodeLine.layout {indent l : Text} (hindent : isBlank indent = true) (h : CodeLine l) :
    CodeLine (trimEnd (indent ++ l)) :=
  have ⟨hclear, hafter⟩ := clear_layout (b := false) hindent h.clear
  ⟨hclear, hafter.trans h.closed⟩

theorem CodeLine.comma {l : Text} (h : CodeLine l) : CodeLine (l ++ [',']) :=
  have ⟨hclear, hafter⟩ := clear_append_inert (isQuote_openQuote false) (t := [',']) (by decide) h.clear
  ⟨hclear, hafter.trans h.closed⟩

/-- Whether a template is open behind lines, if none of them has a marker. -/
def templateAfter : Bool → List Text → Option Bool
  | b, [] => some b
  | b, l :: ls =>
    match findMarker (openQuote b) l with
    | .clear b' => templateAfter b' ls
    | .found .. => none

theorem templateAfter_cons {b b' : Bool} {l : Text} {ls : List Text} (h : templateAfter b (l :: ls) = some b') :
    ∃ m, findMarker (openQuote b) l = .clear m ∧ templateAfter m ls = some b' := by
  rw [templateAfter] at h
  cases hfind : findMarker (openQuote b) l with
  | clear m =>
    rw [hfind] at h
    exact ⟨m, rfl, h⟩
  | found before kind after =>
    rw [hfind] at h
    cases h

theorem templateAfter_append {b : Bool} {ks ls : List Text} :
    templateAfter b (ks ++ ls) = (templateAfter b ks).bind (templateAfter · ls) := by
  induction ks generalizing b with
  | nil => rfl
  | cons k ks ih =>
    simp only [List.cons_append, templateAfter]
    cases findMarker (openQuote b) k with
    | clear b' => exact ih
    | found before kind after => rfl

/-- Lines without a marker are kept. -/
theorem scan_append {b' : Bool} (more : List Text) : ∀ {ls : List Text} {b : Bool}, templateAfter b ls = some b' →
    scan b (ls ++ more) = (ls ++ (scan b' more).1, (scan b' more).2)
  | [], b, h => by
    obtain rfl := Option.some.inj h
    rfl
  | l :: ls, b, h => by
    obtain ⟨m, hl, hls⟩ := templateAfter_cons h
    rw [List.cons_append, scan_clear hl, scan_append more hls]
    rfl

/-- The layout of lines does not matter. -/
theorem templateAfter_layout {b' : Bool} {indent : Text} (hindent : isBlank indent = true) :
    ∀ {ls : List Text} {b : Bool}, templateAfter b ls = some b' → templateAfter b (layout indent ls) = some b'
  | [], _, h => h
  | l :: ls, b, h => by
    obtain ⟨m, hl, hls⟩ := templateAfter_cons h
    have hcons : layout indent (l :: ls) = trimEnd (indent ++ l) :: layout indent ls := rfl
    rw [hcons, templateAfter, (clear_layout hindent hl).1]
    exact templateAfter_layout hindent hls

theorem templateAfter_of_codeLines : ∀ {ls : List Text}, (∀ l ∈ ls, CodeLine l) → templateAfter false ls = some false
  | [], _ => rfl
  | l :: ls, h => by
    obtain ⟨hl, hls⟩ := List.forall_mem_cons.1 h
    have hclear : findMarker (openQuote false) l = .clear false := hl.clear
    rw [templateAfter, hclear]
    exact templateAfter_of_codeLines hls

/-! ## Bodies -/

/-- Taking comments out of a body is scanning its lines. -/
theorem stripComments_scan (body : Text) : (stripComments body).cleaned = tidy (scan false (splitLines body)).1 ∧
    (stripComments body).comments.map Comment.remark = (scan false (splitLines body)).2 := by
  rw [stripComments_eq]
  exact ⟨rfl, rfl⟩

theorem collapseBlank_concat {l : Text} (hl : isBlank l = true) : ∀ (b : Bool) (ls : List Text),
    ∃ ending, collapseBlank b (ls ++ [l]) = collapseBlank b ls ++ ending ∧ ∀ k ∈ ending, isBlank k = true
  | b, [] => by
    cases b with
    | true => exact ⟨[], by simp [collapseBlank, hl], by simp⟩
    | false => exact ⟨[l], by simp [collapseBlank], by simpa using hl⟩
  | b, k :: ls => by
    simp only [List.cons_append, collapseBlank]
    split
    · exact collapseBlank_concat hl true ls
    · obtain ⟨ending, heq, hending⟩ := collapseBlank_concat hl (isBlank k) ls
      exact ⟨ending, by rw [heq, List.cons_append], hending⟩

/-- Blank lines at the ends of a body do not matter. -/
theorem tidy_between (ls : List Text) {l : Text} (hl : isBlank l = true) : tidy ([] :: (ls ++ [l])) = tidy ls := by
  obtain ⟨ending, heq, hending⟩ := collapseBlank_concat hl true ls
  have hfirst : collapseBlank true ([] :: (ls ++ [l])) = collapseBlank true (ls ++ [l]) := rfl
  have hdrop : (ending.reverse ++ (collapseBlank true ls).reverse).dropWhile isBlank =
      (collapseBlank true ls).reverse.dropWhile isBlank :=
    List.dropWhile_append_of_pos fun k hk => hending k (List.mem_reverse.1 hk)
  rw [tidy, hfirst, heq, List.reverse_append, hdrop, tidy]

end StyleHoist
