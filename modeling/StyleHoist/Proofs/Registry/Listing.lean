import StyleHoist.Comment.Basic
import StyleHoist.Proofs.Text.Parts
import StyleHoist.Registry.Scan

/-!
# Reading a registry body

What the body of a registry lists. A reader goes through the body one character at a time. It tells code from quotations
and comments as the scan for the closing brace does, it keeps the brackets that are still to be closed, and it takes a
comma in code for the end of an entry if none is. What it reads is a list of bits: characters of code, commas that end
entries, and comments. The code between two commas is an entry.

- `read_append`: a reader that stops can be sent on.
- `closeBody?_of_read`: the scan for the closing brace ends where a reader finds all brackets closed.
- `pieces_append`: pieces that meet become one.
- `entriesIn_eq_some_iff`: a body lists what stands before its commas, and what stands behind the last unless blank.
-/

namespace StyleHoist
namespace Listing

open Text

/-! ## The reader -/

/-- A character that opens and closes a quotation. -/
abbrev Quote := { c : Char // opensQuote c = true }

/-- What a reader is inside of. -/
inductive Stand
  | code
  /-- Behind a slash in code, which may open a comment. -/
  | slash
  | quoted (quote : Quote)
  /-- Behind a backslash between quotes. -/
  | escaped (quote : Quote)
  | lineComment (text : Text)
  | blockComment (text : Text)
  /-- Behind a star in a block comment. -/
  | star (text : Text)
  /-- Behind a bracket that closes none. -/
  | broken
deriving DecidableEq, Repr

/-- What a reader reads. -/
inductive Bit
  | code (c : Char)
  /-- The end of an entry. -/
  | comma
  /-- A comment with what it says: trimmed for a line comment, verbatim for a block. -/
  | comment (kind : CommentKind) (text : Text)
deriving DecidableEq, Repr

/-- Where a reader is: what it is inside of, and the brackets that are still to come, the innermost first. -/
structure Place where
  stand : Stand
  due : List Char
deriving DecidableEq, Repr

/-- The start of a body. A reader that has come back to it has read a text in which all brackets are closed. -/
def start : Place := ⟨.code, []⟩

/-- The bracket that closes what `c` opens. -/
def closer? (c : Char) : Option Char :=
  if c == '\x7b' then some '\x7d' else if c == '(' then some ')' else if c == '[' then some ']' else none

/-- Whether `c` closes a bracket. -/
def closes (c : Char) : Bool :=
  c == '\x7d' || c == ')' || c == ']'

/-- Reads a bracket that closes another. -/
def closeStep (c : Char) : List Char → Place × List Bit
  | [] => (⟨.broken, []⟩, [])
  | d :: due => if d == c then (⟨.code, due⟩, [.code c]) else (⟨.broken, d :: due⟩, [])

/-- Reads a character of code. -/
def codeStep (due : List Char) (c : Char) : Place × List Bit :=
  if c == '/' then (⟨.slash, due⟩, [])
  else if h : opensQuote c = true then (⟨.quoted ⟨c, h⟩, due⟩, [.code c])
  else if closes c then closeStep c due
  else if c == ',' && due.isEmpty then (⟨.code, due⟩, [.comma])
  else (⟨.code, (closer? c).toList ++ due⟩, [.code c])

/-- Reads one character. -/
def Place.step : Place → Char → Place × List Bit
  | ⟨.code, due⟩, c => codeStep due c
  | ⟨.slash, due⟩, c =>
    if c == '/' then (⟨.lineComment [], due⟩, [])
    else if c == '*' then (⟨.blockComment [], due⟩, [])
    else ((codeStep due c).1, .code '/' :: (codeStep due c).2)
  | ⟨.quoted q, due⟩, c =>
    (⟨if c == '\\' then .escaped q else if c == q.1 then .code else .quoted q, due⟩, [.code c])
  | ⟨.escaped q, due⟩, c => (⟨.quoted q, due⟩, [.code c])
  | ⟨.lineComment text, due⟩, c =>
    if c == '\n' then (⟨.code, due⟩, [.comment .line (trim text), .code c]) else (⟨.lineComment (text ++ [c]), due⟩, [])
  | ⟨.blockComment text, due⟩, c =>
    if c == '*' then (⟨.star text, due⟩, []) else (⟨.blockComment (text ++ [c]), due⟩, [])
  | ⟨.star text, due⟩, c =>
    if c == '/' then (⟨.code, due⟩, [.comment .block text])
    else if c == '*' then (⟨.star (text ++ ['*']), due⟩, [])
    else (⟨.blockComment (text ++ ['*', c]), due⟩, [])
  | ⟨.broken, due⟩, _ => (⟨.broken, due⟩, [])

/-- Reads a text: where the reader is behind it, and what it has read. -/
def Place.read : Place → Text → Place × List Bit
  | p, [] => (p, [])
  | p, c :: t => (((p.step c).1.read t).1, (p.step c).2 ++ ((p.step c).1.read t).2)

@[simp] theorem read_nil (p : Place) : p.read [] = (p, []) := rfl

theorem read_cons (p : Place) (c : Char) (t : Text) :
    p.read (c :: t) = (((p.step c).1.read t).1, (p.step c).2 ++ ((p.step c).1.read t).2) := rfl

/-- A reader that stops can be sent on. -/
theorem read_append (p : Place) (s t : Text) :
    p.read (s ++ t) = (((p.read s).1.read t).1, (p.read s).2 ++ ((p.read s).1.read t).2) := by
  induction s generalizing p with
  | nil => rfl
  | cons c s ih => simp only [List.cons_append, read_cons, ih, List.append_assoc]

/-- Where a reader is behind two texts. -/
theorem read_append_fst (p : Place) (s t : Text) : (p.read (s ++ t)).1 = ((p.read s).1.read t).1 := by
  rw [read_append]

theorem read_broken (due : List Char) (t : Text) : (Place.read ⟨.broken, due⟩ t).1 = ⟨.broken, due⟩ := by
  induction t with
  | nil => rfl
  | cons c t ih => exact ih

/-! ## Blanks -/

/-- White space is none of the characters that mean something to a reader. -/
theorem ne_of_isBlankChar {c d : Char} (h : isBlankChar c = true) (hd : isBlankChar d = false) : c ≠ d := by
  rintro rfl
  rw [h] at hd
  cases hd

theorem codeStep_blank (due : List Char) {c : Char} (h : isBlankChar c = true) :
    codeStep due c = (⟨.code, due⟩, [.code c]) := by
  have hne := fun d hd => ne_of_isBlankChar (d := d) h hd
  simp [codeStep, opensQuote, closes, closer?, hne '/' (by decide), hne '\x27' (by decide), hne '\x22' (by decide),
    hne '\x60' (by decide), hne '\x7b' (by decide), hne '\x7d' (by decide), hne '(' (by decide), hne ')' (by decide),
    hne '[' (by decide), hne ']' (by decide), hne ',' (by decide)]

/-- Blanks in code change nothing. -/
theorem read_blank (due : List Char) : ∀ {t : Text}, isBlank t = true →
    Place.read ⟨.code, due⟩ t = (⟨.code, due⟩, t.map .code)
  | [], _ => rfl
  | c :: t, h => by
    obtain ⟨hc, ht⟩ := isBlank_cons.1 h
    simp only [read_cons, Place.step, codeStep_blank due hc, read_blank due ht, List.map_cons, List.singleton_append]

/-! ## The closing brace -/

section Closing

variable (depth : Nat) {c : Char} {t : Text}

theorem closeBody?_nil (r : Region) : closeBody? r depth [] = none := by
  cases r <;> rfl

theorem closeBody?_plain (hclose : c ≠ '\x7d') (hopen : c ≠ '\x7b') (hquote : opensQuote c = false)
    (hline : ∀ u, t = '/' :: u → c ≠ '/') (hblock : ∀ u, t = '*' :: u → c ≠ '/') :
    closeBody? .code depth (c :: t) = (closeBody? .code depth t).map fun p => (c :: p.1, p.2) := by
  have hline' : ∀ u, c = '/' → t = '/' :: u → False := fun u hc ht => hline u ht hc
  have hblock' : ∀ u, c = '/' → t = '*' :: u → False := fun u hc ht => hblock u ht hc
  cases depth with
  | zero =>
    rw [closeBody?.eq_4 c t hline' hblock']
    simp [hclose, hopen, hquote]
  | succ depth =>
    rw [closeBody?.eq_7 c t depth hline' hblock']
    simp [hclose, hopen, hquote]

theorem closeBody?_open :
    closeBody? .code depth ('\x7b' :: t) = (closeBody? .code (depth + 1) t).map fun p => ('\x7b' :: p.1, p.2) := by
  cases depth <;> rfl

theorem closeBody?_close :
    closeBody? .code (depth + 1) ('\x7d' :: t) = (closeBody? .code depth t).map fun p => ('\x7d' :: p.1, p.2) :=
  rfl

theorem closeBody?_zero : closeBody? .code 0 ('\x7d' :: t) = some ([], t) :=
  rfl

theorem closeBody?_quote (h : opensQuote c = true) :
    closeBody? .code depth (c :: t) = (closeBody? (.quoted c) depth t).map fun p => (c :: p.1, p.2) := by
  have hquote : c = '\x27' ∨ c = '\x22' ∨ c = '\x60' := by simpa [opensQuote, or_assoc] using h
  rcases hquote with rfl | rfl | rfl <;> cases depth <;> rfl

theorem closeBody?_line : closeBody? .code depth ('/' :: '/' :: t) =
    (closeBody? .lineComment depth t).map fun p => ('/' :: '/' :: p.1, p.2) := by
  cases depth <;> rfl

theorem closeBody?_block : closeBody? .code depth ('/' :: '*' :: t) =
    (closeBody? .blockComment depth t).map fun p => ('/' :: '*' :: p.1, p.2) := by
  cases depth <;> rfl

theorem closeBody?_quoted {q : Char} (h : c ≠ '\\') : closeBody? (.quoted q) depth (c :: t) =
    (closeBody? (if c == q then .code else .quoted q) depth t).map fun p => (c :: p.1, p.2) := by
  rw [closeBody?]
  · exact fun hc _ => h hc
  · exact fun _ _ hc => absurd hc h

theorem closeBody?_escape {q : Char} : closeBody? (.quoted q) depth ('\\' :: c :: t) =
    (closeBody? (.quoted q) depth t).map fun p => ('\\' :: c :: p.1, p.2) :=
  rfl

theorem closeBody?_lineComment : closeBody? .lineComment depth (c :: t) =
    (closeBody? (if c == '\n' then .code else .lineComment) depth t).map fun p => (c :: p.1, p.2) :=
  rfl

theorem closeBody?_blockClose : closeBody? .blockComment depth ('*' :: '/' :: t) =
    (closeBody? .code depth t).map fun p => ('*' :: '/' :: p.1, p.2) :=
  rfl

theorem closeBody?_blockComment (h : ∀ u, t = '/' :: u → c ≠ '*') :
    closeBody? .blockComment depth (c :: t) =
      (closeBody? .blockComment depth t).map fun p => (c :: p.1, p.2) := by
  rw [closeBody?]
  exact fun u hc ht => h u ht hc

end Closing

/-- What the scan for the closing brace takes a reader to be inside of, and what it has yet to scan of what has been
read. -/
def Stand.region : Stand → Region × Text
  | .code => (.code, [])
  | .slash => (.code, ['/'])
  | .quoted q => (.quoted q.1, [])
  | .escaped q => (.quoted q.1, ['\\'])
  | .lineComment _ => (.lineComment, [])
  | .blockComment _ => (.blockComment, [])
  | .star _ => (.blockComment, ['*'])
  | .broken => (.code, [])

/-- How many braces are still to be closed. -/
def Place.depth (p : Place) : Nat :=
  p.due.count '\x7d'

/-- The scan for the closing brace, sent on from where a reader is, takes `body` off a text. -/
def Place.Takes (p : Place) (t body behind : Text) : Prop :=
  closeBody? p.stand.region.1 p.depth (p.stand.region.2 ++ t) = some (p.stand.region.2 ++ body, behind)

section Takes

variable {due : List Char} {c : Char} {t body behind : Text}

/-- A character that neither the scan nor the count of braces heeds. -/
theorem takes_plain {due' : List Char} (hclose : c ≠ '\x7d') (hopen : c ≠ '\x7b') (hquote : opensQuote c = false)
    (hslash : c ≠ '/') (hcount : due'.count '\x7d' = due.count '\x7d')
    (h : Place.Takes ⟨.code, due'⟩ t body behind) : Place.Takes ⟨.code, due⟩ (c :: t) (c :: body) behind := by
  simp only [Place.Takes, Place.depth, Stand.region, List.nil_append, hcount] at h ⊢
  rw [closeBody?_plain _ hclose hopen hquote (fun _ _ => hslash) (fun _ _ => hslash), h]
  rfl

/-- A bracket that closes the innermost one. -/
theorem takes_closeStep (hopen : c ≠ '\x7b') (hquote : opensQuote c = false) (hslash : c ≠ '/')
    (hbroken : (closeStep c due).1.stand ≠ .broken) (h : (closeStep c due).1.Takes t body behind) :
    Place.Takes ⟨.code, due⟩ (c :: t) (c :: body) behind := by
  cases due with
  | nil => exact absurd rfl hbroken
  | cons d due =>
    by_cases hd : d = c
    · subst hd
      simp only [closeStep, beq_self_eq_true, if_true] at h
      by_cases hbrace : d = '\x7d'
      · subst hbrace
        simp only [Place.Takes, Place.depth, Stand.region, List.nil_append, List.count_cons_self] at h ⊢
        rw [closeBody?_close, h]
        rfl
      · exact takes_plain hbrace hopen hquote hslash (List.count_cons_of_ne hbrace).symm h
    · simp [closeStep, hd] at hbroken

/-- Only an opening brace brings a closing one that is due. -/
theorem count_closer? (hopen : c ≠ '\x7b') : ((closer? c).toList ++ due).count '\x7d' = due.count '\x7d' := by
  simp only [closer?, beq_iff_eq, hopen, if_false]
  split
  · simp
  · split <;> simp

/-- A character of code is scanned as it is read. -/
theorem takes_codeStep (hbroken : (codeStep due c).1.stand ≠ .broken) (h : (codeStep due c).1.Takes t body behind) :
    Place.Takes ⟨.code, due⟩ (c :: t) (c :: body) behind := by
  unfold codeStep at h hbroken
  by_cases hslash : c = '/'
  · simpa [hslash, Place.Takes, Place.depth, Stand.region] using h
  by_cases hquote : opensQuote c = true
  · simp only [beq_iff_eq, hslash, hquote, if_false, dif_pos, Place.Takes, Place.depth, Stand.region,
      List.nil_append] at h ⊢
    simp [closeBody?_quote _ hquote, h]
  by_cases hcloses : closes c = true
  · have hopen : c ≠ '\x7b' := by
      rintro rfl
      cases hcloses
    simp only [beq_iff_eq, hslash, hquote, hcloses, if_false, if_true, Bool.false_eq_true, dite_false] at h hbroken
    exact takes_closeStep hopen (by simpa using hquote) hslash hbroken h
  have hclose : c ≠ '\x7d' := by
    rintro rfl
    exact hcloses rfl
  simp only [beq_iff_eq, hslash, hquote, hcloses, if_false, Bool.false_eq_true, dite_false] at h
  by_cases hcomma : (c == ',' && due.isEmpty) = true
  · have hopen : c ≠ '\x7b' := by
      rintro rfl
      cases hcomma
    rw [if_pos hcomma] at h
    exact takes_plain hclose hopen (by simpa using hquote) hslash rfl h
  rw [if_neg hcomma] at h
  by_cases hopen : c = '\x7b'
  · subst hopen
    have hcloser : closer? '\x7b' = some '\x7d' := by decide
    simp only [hcloser, Option.toList_some, List.singleton_append, Place.Takes, Place.depth, Stand.region,
      List.nil_append, List.count_cons_self] at h ⊢
    rw [closeBody?_open, h]
    rfl
  · exact takes_plain hclose hopen (by simpa using hquote) hslash (count_closer? hopen) h

/-- A slash in code opens a comment, or is code like what is behind it. -/
theorem takes_slash (hbroken : (Place.step ⟨.slash, due⟩ c).1.stand ≠ .broken)
    (h : (Place.step ⟨.slash, due⟩ c).1.Takes t body behind) :
    Place.Takes ⟨.slash, due⟩ (c :: t) (c :: body) behind := by
  simp only [Place.step, beq_iff_eq] at h hbroken
  by_cases hline : c = '/'
  · rw [if_pos hline] at h
    simp only [Place.Takes, Place.depth, Stand.region, List.nil_append] at h ⊢
    simp [hline, closeBody?_line, h]
  rw [if_neg hline] at h hbroken
  by_cases hblock : c = '*'
  · rw [if_pos hblock] at h
    simp only [Place.Takes, Place.depth, Stand.region, List.nil_append] at h ⊢
    simp [hblock, closeBody?_block, h]
  rw [if_neg hblock] at h hbroken
  have hcode := takes_codeStep hbroken h
  simp only [Place.Takes, Place.depth, Stand.region, List.nil_append] at hcode ⊢
  rw [List.singleton_append, closeBody?_plain _ (by decide) (by decide) (by decide), hcode]
  · rfl
  · exact fun u hu _ => hline (List.cons.inj hu).1
  · exact fun u hu _ => hblock (List.cons.inj hu).1

theorem takes_quoted {q : Quote} (h : (Place.step ⟨.quoted q, due⟩ c).1.Takes t body behind) :
    Place.Takes ⟨.quoted q, due⟩ (c :: t) (c :: body) behind := by
  simp only [Place.step, beq_iff_eq, Place.Takes, Place.depth] at h ⊢
  by_cases hescape : c = '\\'
  · simpa [hescape, Stand.region] using h
  · simp only [hescape, if_false] at h
    split at h <;> rename_i hclose <;> simp only [Stand.region, List.nil_append] at h ⊢ <;>
      rw [closeBody?_quoted _ hescape] <;> simp [hclose, h]

theorem takes_lineComment {text : Text} (h : (Place.step ⟨.lineComment text, due⟩ c).1.Takes t body behind) :
    Place.Takes ⟨.lineComment text, due⟩ (c :: t) (c :: body) behind := by
  simp only [Place.step, Place.Takes, Place.depth] at h ⊢
  split at h <;> rename_i hbreak <;> simp only [Stand.region, List.nil_append] at h ⊢ <;>
    simp [closeBody?_lineComment, hbreak, h]

theorem takes_blockComment {text : Text} (h : (Place.step ⟨.blockComment text, due⟩ c).1.Takes t body behind) :
    Place.Takes ⟨.blockComment text, due⟩ (c :: t) (c :: body) behind := by
  simp only [Place.step, beq_iff_eq, Place.Takes, Place.depth] at h ⊢
  by_cases hstar : c = '*'
  · simpa [hstar, Stand.region] using h
  · simp only [hstar, if_false, Stand.region, List.nil_append] at h ⊢
    simp [closeBody?_blockComment _ (fun _ _ => hstar), h]

/-- A star in a block comment ends it before a slash, and is kept before another star. -/
theorem takes_star {text : Text} (h : (Place.step ⟨.star text, due⟩ c).1.Takes t body behind) :
    Place.Takes ⟨.star text, due⟩ (c :: t) (c :: body) behind := by
  simp only [Place.step, beq_iff_eq, Place.Takes, Place.depth] at h ⊢
  by_cases hslash : c = '/'
  · simp only [hslash, if_true, Stand.region, List.nil_append] at h ⊢
    simp [closeBody?_blockClose, h]
  have hopen : ∀ u : Text, c :: t = '/' :: u → '*' ≠ '*' := fun u hu _ => hslash (List.cons.inj hu).1
  by_cases hstar : c = '*'
  · simp only [hslash, if_false, Stand.region] at h ⊢
    rw [List.singleton_append, closeBody?_blockComment _ hopen]
    simpa [hstar] using h
  · simp only [hslash, hstar, if_false, Stand.region, List.nil_append] at h ⊢
    rw [List.singleton_append, closeBody?_blockComment _ hopen, closeBody?_blockComment _ (fun _ _ => hstar), h]
    rfl

/-- Any character is scanned as it is read. -/
theorem takes_step {p : Place} (hbroken : (p.step c).1.stand ≠ .broken) (h : (p.step c).1.Takes t body behind) :
    p.Takes (c :: t) (c :: body) behind := by
  obtain ⟨stand, due⟩ := p
  cases stand with
  | code => exact takes_codeStep hbroken h
  | slash => exact takes_slash hbroken h
  | quoted q => exact takes_quoted h
  | escaped q =>
    simp only [Place.step, Place.Takes, Place.depth, Stand.region, List.nil_append] at h ⊢
    simp [closeBody?_escape, h]
  | lineComment text => exact takes_lineComment h
  | blockComment text => exact takes_blockComment h
  | star text => exact takes_star h
  | broken => exact absurd rfl hbroken

end Takes

/-- The scan for the closing brace goes through what a reader reads, up to where all brackets are closed. -/
theorem takes_of_read (behind : Text) : ∀ (t : Text) (p : Place), (p.read t).1 = start →
    p.Takes (t ++ '\x7d' :: behind) t behind
  | [], p, h => by
    have hp : p = start := h
    rw [hp]
    rfl
  | c :: t, p, h => by
    have hbroken : (p.step c).1.stand ≠ .broken := by
      intro hstand
      have hp : (p.step c).1 = ⟨.broken, (p.step c).1.due⟩ := by rw [← hstand]
      rw [read_cons, hp] at h
      exact absurd ((read_broken _ t).symm.trans h) (by simp [start])
    exact takes_step hbroken (takes_of_read behind t _ h)

/-- **A body in which a reader finds all brackets closed ends where the scan for the closing brace ends it.** -/
theorem closeBody?_of_read {body : Text} (h : (start.read body).1 = start) (behind : Text) :
    closeBody? .code 0 (body ++ '\x7d' :: behind) = some (body, behind) :=
  takes_of_read behind body start h

/-! ## Pieces -/

/-- What stands between commas. -/
def pieces : List Bit → List (List Bit)
  | [] => [[]]
  | .comma :: xs => [] :: pieces xs
  | x :: xs =>
    match pieces xs with
    | [] => [[x]]
    | p :: ps => (x :: p) :: ps

theorem pieces_ne_nil (xs : List Bit) : pieces xs ≠ [] := by
  unfold pieces
  split
  · simp
  · simp
  · split <;> simp

/-- The last piece and those before it. -/
theorem exists_pieces_eq (xs : List Bit) : ∃ ps p, pieces xs = ps ++ [p] :=
  ⟨_, _, (List.dropLast_concat_getLast (pieces_ne_nil xs)).symm⟩

theorem pieces_comma (xs : List Bit) : pieces (.comma :: xs) = [] :: pieces xs := rfl

theorem pieces_cons {x : Bit} {xs p : List Bit} {ps : List (List Bit)} (hx : x ≠ .comma) (h : pieces xs = p :: ps) :
    pieces (x :: xs) = (x :: p) :: ps := by
  cases x with
  | comma => exact absurd rfl hx
  | code c => simp [pieces, h]
  | comment kind text => simp [pieces, h]

/-- Without commas there is one piece. -/
theorem pieces_of_not_mem : ∀ {xs : List Bit}, .comma ∉ xs → pieces xs = [xs]
  | [], _ => rfl
  | x :: xs, h =>
    pieces_cons (fun e => h (by simp [e])) (pieces_of_not_mem fun hm => h (List.mem_cons_of_mem _ hm))

/-- Where two readings meet, the last piece of the one and the first piece of the other become one. -/
theorem pieces_append {p q ys : List Bit} {qs : List (List Bit)} (hy : pieces ys = q :: qs) :
    ∀ {xs : List Bit} {ps : List (List Bit)}, pieces xs = ps ++ [p] → pieces (xs ++ ys) = ps ++ (p ++ q) :: qs
  | [], ps, hx => by
    cases ps with
    | nil =>
      obtain rfl : p = [] := by simpa [pieces, eq_comm] using hx
      exact hy
    | cons a ps => simp [pieces] at hx
  | x :: xs, ps, hx => by
    obtain ⟨p₀, ps₀, hxs⟩ := List.exists_cons_of_ne_nil (pieces_ne_nil xs)
    by_cases hcomma : x = .comma
    · subst hcomma
      cases ps with
      | nil => simp [pieces_comma, hxs] at hx
      | cons a ps =>
        obtain ⟨rfl, hxs⟩ : a = [] ∧ pieces xs = ps ++ [p] := by simpa [pieces_comma, eq_comm] using hx
        rw [List.cons_append, pieces_comma, pieces_append hy hxs, List.cons_append]
    · rw [pieces_cons hcomma hxs] at hx
      cases ps with
      | nil =>
        obtain ⟨rfl, rfl⟩ : x :: p₀ = p ∧ ps₀ = [] := by simpa using hx
        exact pieces_cons hcomma (pieces_append hy (show pieces xs = [] ++ [p₀] from hxs))
      | cons a ps =>
        obtain ⟨rfl, rfl⟩ : x :: p₀ = a ∧ ps₀ = ps ++ [p] := by simpa using hx
        exact pieces_cons hcomma (pieces_append hy (show pieces xs = (p₀ :: ps) ++ [p] from hxs))

/-- Behind bits without commas. -/
theorem pieces_append_of_not_mem {xs q ys : List Bit} {qs : List (List Bit)} (hx : .comma ∉ xs)
    (hy : pieces ys = q :: qs) : pieces (xs ++ ys) = (xs ++ q) :: qs :=
  pieces_append hy (show pieces xs = [] ++ [xs] from pieces_of_not_mem hx)

/-- Where there is one piece there are no commas. -/
theorem not_mem_of_pieces {xs p : List Bit} (h : pieces xs = [p]) : .comma ∉ xs := by
  intro hm
  obtain ⟨before, after, rfl⟩ := List.append_of_mem hm
  obtain ⟨ps, q, hq⟩ := exists_pieces_eq before
  have hlength := congrArg List.length ((pieces_append (pieces_comma after) hq).symm.trans h)
  have hpos := List.length_pos_iff.2 (pieces_ne_nil after)
  simp only [List.length_append, List.length_cons, List.length_nil] at hlength
  omega

/-! ## Entries -/

/-- A bit as code. A comment stands for a blank. -/
def Bit.text : Bit → Text
  | .code c => [c]
  | .comma => [',']
  | .comment _ _ => [' ']

/-- The code of a piece without blanks around it. -/
def codeOf (xs : List Bit) : Text :=
  trim (xs.flatMap Bit.text)

theorem codeOf_eq_nil_iff {xs : List Bit} : codeOf xs = [] ↔ isBlank (xs.flatMap Bit.text) = true :=
  trim_eq_nil_iff

/-- The code of a body behind its last comma. -/
def lastCode (body : Text) : Text :=
  codeOf ((pieces (start.read body).2).getLastD [])

theorem lastCode_eq {body : Text} {ps : List (List Bit)} {p : List Bit} (h : pieces (start.read body).2 = ps ++ [p]) :
    lastCode body = codeOf p := by
  simp [lastCode, h]

/-- Codes without the last one if that is blank. -/
def dropBlankLast (codes : List Text) : List Text :=
  if codes.getLast? = some [] then codes.dropLast else codes

/-- The entries that a body lists, as code without comments: what stands before its commas, and what stands behind the
last one unless it is blank. A body in which brackets do not match or an entry is blank lists none. -/
def entriesIn (body : Text) : Option (List Text) :=
  if (start.read body).1 = start then
    let listed := dropBlankLast ((pieces (start.read body).2).map codeOf)
    if [] ∈ listed then none else some listed
  else none

/-- The comment that a bit is. -/
def Bit.comment? : Bit → Option (CommentKind × Text)
  | .comment kind text => some (kind, text)
  | _ => none

/-- The comments of a body. -/
def commentsIn (body : Text) : List (CommentKind × Text) :=
  (start.read body).2.filterMap Bit.comment?

theorem dropBlankLast_concat (codes : List Text) (last : Text) :
    dropBlankLast (codes ++ [last]) = codes ++ if last = [] then [] else [last] := by
  by_cases h : last = [] <;> simp [dropBlankLast, h]

/-- What a body lists, piece by piece. -/
theorem entriesIn_eq_some_iff {body : Text} {ps : List (List Bit)} {p : List Bit} {entries : List Text}
    (hpieces : pieces (start.read body).2 = ps ++ [p]) : entriesIn body = some entries ↔
      (start.read body).1 = start ∧ (∀ q ∈ ps, codeOf q ≠ []) ∧
        entries = ps.map codeOf ++ if codeOf p = [] then [] else [codeOf p] := by
  have hlast : [] ∉ (if codeOf p = [] then [] else [codeOf p] : List Text) := by
    split
    · exact List.not_mem_nil
    · rename_i h
      exact fun hm => h (List.mem_singleton.1 hm).symm
  have hmem : [] ∈ ps.map codeOf ++ (if codeOf p = [] then [] else [codeOf p]) ↔ ∃ q ∈ ps, codeOf q = [] := by
    rw [List.mem_append, List.mem_map]
    exact ⟨fun h => h.resolve_right hlast, Or.inl⟩
  simp only [entriesIn, hpieces, List.map_append, List.map_cons, List.map_nil, dropBlankLast_concat]
  by_cases hread : (start.read body).1 = start
  · by_cases hblank : ∃ q ∈ ps, codeOf q = []
    · rw [if_pos hread, if_pos (hmem.2 hblank)]
      obtain ⟨q, hq, hcode⟩ := hblank
      exact ⟨fun h => (by cases h), fun h => absurd hcode (h.2.1 q hq)⟩
    · rw [if_pos hread, if_neg fun h => hblank (hmem.1 h), Option.some.injEq]
      exact ⟨fun h => ⟨hread, fun q hq hcode => hblank ⟨q, hq, hcode⟩, h.symm⟩, fun h => h.2.2.symm⟩
  · rw [if_neg hread]
    exact ⟨fun h => (by cases h), fun h => absurd h.1 hread⟩

end Listing
end StyleHoist
