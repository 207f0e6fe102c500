import Mathlib.Data.List.SplitBy
import StyleHoist.Proofs.Registry.Layout
import StyleHoist.Script.Scan

/-!
# The tokens of a script

A script is read one character at a time. A reader tells code from literals, that is quotations and templates, and from
comments. What it reads is a list of bits: white space, comments, and characters of code and of literals. The bits
between white space are words; the code in a word is cut into tokens by the scanner of the grammar, and a literal is a
token. There are no regular expressions and no text between markup tags, and what a template interpolates is part of the
template.

- `read_append`: a reader that stops can be sent on.
- `words_append_space`: white space ends a word.
- `literals_append`: the literals of two texts, the second of which does not go on in a literal.
-/

namespace StyleHoist
namespace Tokens

open Text Listing

/-! ## The reader -/

/-- What a reader is inside of. -/
inductive Mode
  | code
  /-- Behind a slash in code, which may open a comment. -/
  | slash
  /-- In a quotation or in a template. -/
  | quoted (quote : Char)
  /-- Behind a backslash in a literal. -/
  | escaped (quote : Char)
  /-- Behind an escaped carriage return, which may be half of the end of a line. -/
  | carriage (quote : Char)
  | lineComment
  | blockComment
  /-- Behind a star in a block comment. -/
  | star
deriving DecidableEq, Repr

/-- What a reader reads. -/
inductive Bit
  /-- A character of white space, or the end of a line in a block comment. -/
  | space
  /-- The end of a comment. -/
  | comment
  | code (c : Char)
  /-- The quote that opens a literal. -/
  | opening (quote : Char)
  /-- A character of a literal behind its first. -/
  | inside (c : Char)
deriving DecidableEq, Repr

/-- White space of a script, and what is white space to those who trim its lines. -/
def isGap (c : Char) : Bool :=
  Script.isSpace c || Script.isLineEnd c || isBlankChar c

/-- Reads a character of code. -/
def codeStep (c : Char) : Mode × List Bit :=
  if c == '/' then (.slash, [])
  else if opensQuote c then (.quoted c, [.opening c])
  else (.code, [if isGap c then .space else .code c])

/-- Reads a character of a literal. The end of a line ends a quotation, but not a template. -/
def quotedStep (quote c : Char) : Mode × List Bit :=
  if c == '\\' then (.escaped quote, [.inside c])
  else if c == '\n' && quote != '\x60' then (.code, [.space])
  else (if c == quote then .code else .quoted quote, [.inside c])

/-- Reads a character of a block comment that does not close it. -/
def blockStep (c : Char) : Mode × List Bit :=
  (if c == '*' then .star else .blockComment, if c == '\n' then [.space] else [])

/-- Reads one character. -/
def Mode.step : Mode → Char → Mode × List Bit
  | .code, c => codeStep c
  | .slash, c =>
    if c == '/' then (.lineComment, [])
    else if c == '*' then (.blockComment, [])
    else ((codeStep c).1, .code '/' :: (codeStep c).2)
  | .quoted q, c => quotedStep q c
  | .escaped q, c => (if c == '\r' then .carriage q else .quoted q, [.inside c])
  | .carriage q, c => if c == '\n' then (.quoted q, [.inside c]) else quotedStep q c
  | .lineComment, c => if Script.isLineEnd c then (.code, [.comment, .space]) else (.lineComment, [])
  | .blockComment, c => blockStep c
  | .star, c => if c == '/' then (.code, [.comment]) else blockStep c

/-- Reads a text: what the reader is inside of behind it, and what it has read. -/
def Mode.read : Mode → Text → Mode × List Bit
  | m, [] => (m, [])
  | m, c :: t => (((m.step c).1.read t).1, (m.step c).2 ++ ((m.step c).1.read t).2)

@[simp] theorem read_nil (m : Mode) : m.read [] = (m, []) := rfl

theorem read_cons (m : Mode) (c : Char) (t : Text) :
    m.read (c :: t) = (((m.step c).1.read t).1, (m.step c).2 ++ ((m.step c).1.read t).2) := rfl

/-- A reader that stops can be sent on. -/
theorem read_append (m : Mode) (s t : Text) :
    m.read (s ++ t) = (((m.read s).1.read t).1, (m.read s).2 ++ ((m.read s).1.read t).2) := by
  induction s generalizing m with
  | nil => rfl
  | cons c s ih => simp only [List.cons_append, read_cons, ih, List.append_assoc]

/-- A reader that stops can be sent on from where it is known to be. -/
theorem read_append_of {m m' : Mode} {s : Text} {xs : List Bit} (h : m.read s = (m', xs)) (t : Text) :
    m.read (s ++ t) = ((m'.read t).1, xs ++ (m'.read t).2) := by
  rw [read_append, h]

/-- White space in code. -/
theorem codeStep_gap {c : Char} (h : isBlankChar c = true) : codeStep c = (.code, [.space]) := by
  have hgap : isGap c = true := by simp [isGap, h]
  have hne := fun d hd => ne_of_isBlankChar (d := d) h hd
  simp [codeStep, opensQuote, hgap, hne '/' (by decide), hne '\x27' (by decide), hne '\x22' (by decide),
    hne '\x60' (by decide)]

theorem read_blank : ∀ {t : Text}, isBlank t = true →
    Mode.read .code t = (.code, List.replicate t.length .space)
  | [], _ => rfl
  | c :: t, h => by
    obtain ⟨hc, ht⟩ := isBlank_cons.1 h
    rw [read_cons, Mode.step, codeStep_gap hc, read_blank ht]
    rfl

/-! ## Words -/

/-- What stands between bits of white space. -/
def words (xs : List Bit) : List (List Bit) :=
  (xs.splitOn .space).filter fun w => !w.isEmpty

theorem splitOn_space (xs : List Bit) : List.splitOn .space (.space :: xs) = [] :: xs.splitOn .space := by
  rw [List.splitOn_cons_eq_if_modifyHead, if_pos (beq_self_eq_true _)]

theorem splitOn_cons {x : Bit} (hx : x ≠ .space) (xs : List Bit) :
    (x :: xs).splitOn .space = (xs.splitOn .space).modifyHead (x :: ·) := by
  rw [List.splitOn_cons_eq_if_modifyHead, if_neg (by simpa using hx)]

/-- What stands before the first white space, and the rest. -/
theorem exists_splitOn_eq (xs : List Bit) : ∃ p ps, xs.splitOn .space = p :: ps :=
  List.exists_cons_of_ne_nil (List.splitOn_ne_nil _ xs)

@[simp] theorem words_nil : words [] = [] := rfl

/-- White space ends a word. -/
theorem words_append_space (xs ys : List Bit) : words (xs ++ .space :: ys) = words xs ++ words ys := by
  rw [words, List.splitOn_append_cons_self, List.filter_append]
  rfl

@[simp] theorem words_space (xs : List Bit) : words (.space :: xs) = words xs :=
  words_append_space [] xs

theorem words_spaces (n : Nat) (xs : List Bit) : words (List.replicate n .space ++ xs) = words xs := by
  induction n with
  | zero => rfl
  | succ n ih => rw [List.replicate_succ, List.cons_append, words_space, ih]

/-- What is empty between two bits of white space gives nothing. -/
theorem flatMap_words {β : Type} {f : List Bit → List β} (hf : f [] = []) (xs : List Bit) :
    (words xs).flatMap f = (xs.splitOn .space).flatMap f := by
  rw [words]
  induction xs.splitOn .space with
  | nil => rfl
  | cons p ps ih =>
    cases p with
    | nil => rw [List.flatMap_cons, hf, List.nil_append, ← ih]; rfl
    | cons x p => rw [List.filter_cons_of_pos rfl, List.flatMap_cons, List.flatMap_cons, ih]

/-- The words of bits are the bits that are no white space. -/
theorem flatten_words (xs : List Bit) : (words xs).flatten = xs.filter (· != .space) := by
  rw [← List.flatMap_id, flatMap_words rfl, List.flatMap_id]
  induction xs with
  | nil => rfl
  | cons x xs ih =>
    obtain ⟨p, ps, hps⟩ := exists_splitOn_eq xs
    by_cases hx : x = .space
    · subst hx
      rw [splitOn_space, List.flatten_cons, ih]
      rfl
    · rw [hps] at ih
      rw [splitOn_cons hx, hps, List.filter_cons_of_pos (by simpa using hx), ← ih]
      rfl

theorem mem_words_iff {xs : List Bit} {x : Bit} : (∃ w ∈ words xs, x ∈ w) ↔ x ∈ xs ∧ x ≠ .space := by
  rw [← List.mem_flatten, flatten_words, List.mem_filter, bne_iff_ne]

/-! ## Tokens -/

/-- A token: one that the scanner of the grammar finds, or a literal. -/
inductive Lexeme
  | token (kind : Script.Token) (text : Text)
  | literal (text : Text)
deriving DecidableEq, Repr

/-- How a token is written. -/
def Lexeme.text : Lexeme → Text
  | .token _ text => text
  | .literal text => text

/-- The token with which code begins, and its length. The longest operator is taken, also of those that begin with a
closing angle bracket, which the scanner leaves to the grammar. -/
def scanToken (t : Text) : Script.Token × Nat :=
  match Script.Punct.ofText Script.gtTable t with
  | some (p, _, rest) => (.punct p, t.length - rest.length)
  | none => ((Script.scanCode t).token, t.length - (Script.scanCode t).rest.length)

/-- Cuts code in which there is no white space into tokens, none of which is empty. As many steps suffice as there are
characters. -/
def scanTokens : Nat → Text → List Lexeme
  | 0, _ => []
  | _ + 1, [] => []
  | fuel + 1, c :: t =>
    let more := (scanToken (c :: t)).2 - 1
    .token (scanToken (c :: t)).1 (c :: t.take more) :: scanTokens fuel (t.drop more)

/-- The character that a bit is. -/
def Bit.char? : Bit → Option Char
  | .code c | .opening c | .inside c => some c
  | .space | .comment => none

/-- Whether two bits in a row belong to the same run of code or to the same literal. -/
def Bit.joins : Bit → Bit → Bool
  | .code _, .code _ => true
  | .opening _, .inside _ => true
  | .inside _, .inside _ => true
  | _, _ => false

/-- The tokens of a run of code, or the literal. -/
def lexGroup (g : List Bit) : List Lexeme :=
  let text := g.filterMap Bit.char?
  match g with
  | .code _ :: _ => scanTokens text.length text
  | _ => [.literal text]

/-- The tokens of a word. -/
def lexWord (w : List Bit) : List Lexeme :=
  (w.splitBy Bit.joins).flatMap lexGroup

/-- A bit with white space in the place of a comment. -/
def Bit.spaced : Bit → Bit
  | .comment => .space
  | x => x

/-- The tokens among bits, each comment being read as white space. -/
def tokens (xs : List Bit) : List Lexeme :=
  (words (xs.map Bit.spaced)).flatMap lexWord

/-- What a reader reads of a whole text. -/
def bitsOf (t : Text) : List Bit :=
  (Mode.read .code (t ++ ['\n'])).2

/-- The tokens of a text. -/
def tokensOf (t : Text) : List Lexeme :=
  tokens (bitsOf t)

example : tokensOf "a: 'x y' /* z */ >>= 1".toList =
    [.token (.word .plain ['a']) ['a'], .token (.punct .colon) [':'], .literal "'x y'".toList,
      .token (.punct .shrAssign) ">>=".toList, .token .number ['1']] := by decide +kernel

/-! ## Comments between tokens -/

/-- Bits without comments. -/
def uncommented (xs : List Bit) : List Bit :=
  xs.filter (· != .comment)

/-- No comment keeps tokens apart that would be others without it: each word has the same tokens with its comments and
without them. -/
def JoinsNothing (xs : List Bit) : Prop :=
  ∀ w ∈ words xs, lexWord (uncommented w) = tokens w

instance (xs : List Bit) : Decidable (JoinsNothing xs) :=
  inferInstanceAs (Decidable (∀ w ∈ words xs, lexWord (uncommented w) = tokens w))

theorem uncommented_append (xs ys : List Bit) : uncommented (xs ++ ys) = uncommented xs ++ uncommented ys :=
  List.filter_append xs ys

theorem uncommented_of_not_mem {xs : List Bit} (h : .comment ∉ xs) : uncommented xs = xs :=
  List.filter_eq_self.2 fun x hx => by simpa using fun e : x = .comment => h (e ▸ hx)

theorem not_mem_uncommented (xs : List Bit) : .comment ∉ uncommented xs := by
  simp [uncommented]

theorem splitOn_uncommented (xs : List Bit) :
    (uncommented xs).splitOn .space = (xs.splitOn .space).map uncommented := by
  induction xs with
  | nil => rfl
  | cons x xs ih =>
    obtain ⟨p, ps, h⟩ := exists_splitOn_eq xs
    rw [h, List.map_cons] at ih
    cases x with
    | space =>
      rw [uncommented, List.filter_cons_of_pos (by decide), ← uncommented, splitOn_space, ih, splitOn_space, h]
      rfl
    | comment =>
      rw [uncommented, List.filter_cons_of_neg (by decide), ← uncommented, ih, splitOn_cons (by simp), h]
      rfl
    | _ =>
      rw [uncommented, List.filter_cons_of_pos (by simp), ← uncommented, splitOn_cons (by simp), ih,
        splitOn_cons (by simp), h]
      rfl

/-- The tokens of bits whose comments are left out, word by word. -/
theorem flatMap_words_uncommented (xs : List Bit) :
    (words (uncommented xs)).flatMap lexWord = (words xs).flatMap fun w => lexWord (uncommented w) := by
  rw [flatMap_words rfl, flatMap_words rfl, splitOn_uncommented, List.flatMap_map]

theorem tokens_append_space (xs ys : List Bit) : tokens (xs ++ .space :: ys) = tokens xs ++ tokens ys := by
  have hmap : (xs ++ .space :: ys).map Bit.spaced = xs.map Bit.spaced ++ .space :: ys.map Bit.spaced :=
    List.map_append
  rw [tokens, hmap, words_append_space, List.flatMap_append]
  rfl

/-- The tokens of bits, word by word. -/
theorem tokens_eq_flatMap (xs : List Bit) : tokens xs = (words xs).flatMap tokens := by
  suffices h : ∀ before, tokens (before ++ xs) = ((xs.splitOn .space).modifyHead (before ++ ·)).flatMap tokens by
    obtain ⟨p, ps, hps⟩ := exists_splitOn_eq xs
    have hxs := h []
    rw [hps] at hxs
    rw [flatMap_words rfl, hps]
    exact hxs
  induction xs with
  | nil => intro before; simp
  | cons x xs ih =>
    intro before
    obtain ⟨p, ps, hps⟩ := exists_splitOn_eq xs
    by_cases hx : x = .space
    · subst hx
      have hrest := ih []
      rw [hps] at hrest
      rw [tokens_append_space, splitOn_space, List.modifyHead_cons, List.flatMap_cons, List.append_nil, hps]
      exact congrArg (tokens before ++ ·) hrest
    · have hrest := ih (before ++ [x])
      rw [hps, List.append_assoc] at hrest
      rw [splitOn_cons hx, hps]
      simpa using hrest

/-! ## Tokens as they are written -/

/-- The characters of bits. -/
def charsOf (xs : List Bit) : Text :=
  xs.filterMap Bit.char?

theorem flatMap_text_scanTokens : ∀ (fuel : Nat) (t : Text), t.length ≤ fuel →
    (scanTokens fuel t).flatMap Lexeme.text = t
  | 0, t, h => (List.length_eq_zero_iff.1 (Nat.le_zero.1 h)).symm
  | _ + 1, [], _ => rfl
  | fuel + 1, c :: t, h => by
    have hrest : (t.drop ((scanToken (c :: t)).2 - 1)).length ≤ fuel := by
      rw [List.length_drop]
      have := Nat.le_of_succ_le_succ h
      omega
    rw [scanTokens, List.flatMap_cons, flatMap_text_scanTokens fuel _ hrest, Lexeme.text, List.cons_append,
      List.take_append_drop]

theorem flatMap_text_lexGroup (g : List Bit) : (lexGroup g).flatMap Lexeme.text = charsOf g := by
  unfold lexGroup
  split
  · exact flatMap_text_scanTokens _ _ (Nat.le_refl _)
  · exact List.append_nil _

/-- The tokens of a word are its characters. -/
theorem flatMap_text_lexWord (w : List Bit) : (lexWord w).flatMap Lexeme.text = charsOf w := by
  have hflat := congrArg charsOf (List.flatten_splitBy Bit.joins w)
  have hgroup : (fun g => (lexGroup g).flatMap Lexeme.text) = charsOf := funext flatMap_text_lexGroup
  rw [lexWord, List.flatMap_assoc, hgroup, ← hflat, charsOf, List.filterMap_flatten, List.flatMap_def]
  rfl

theorem charsOf_uncommented (xs : List Bit) : charsOf (uncommented xs) = charsOf xs := by
  rw [charsOf, uncommented, List.filterMap_filter]
  refine List.filterMap_congr fun x _ => ?_
  cases x <;> rfl

theorem charsOf_spaced (xs : List Bit) : charsOf (xs.map Bit.spaced) = charsOf xs := by
  rw [charsOf, List.filterMap_map]
  refine List.filterMap_congr fun x _ => ?_
  cases x <;> rfl

theorem charsOf_flatten_words (xs : List Bit) : charsOf (words xs).flatten = charsOf xs := by
  rw [flatten_words, charsOf, List.filterMap_filter]
  refine List.filterMap_congr fun x _ => ?_
  cases x <;> rfl

/-- The tokens of bits are their characters. -/
theorem flatMap_text_tokens (xs : List Bit) : (tokens xs).flatMap Lexeme.text = charsOf xs := by
  have hword : (fun w => (lexWord w).flatMap Lexeme.text) = charsOf := funext flatMap_text_lexWord
  have hflat : (words (xs.map Bit.spaced)).flatMap charsOf = charsOf (words (xs.map Bit.spaced)).flatten := by
    rw [charsOf, List.filterMap_flatten, List.flatMap_def]
    rfl
  rw [tokens, List.flatMap_assoc, hword, hflat, charsOf_flatten_words, charsOf_spaced]

/-- No token of code is empty. -/
theorem text_ne_nil_of_mem_scanTokens : ∀ {fuel : Nat} {t : Text} {x : Lexeme}, x ∈ scanTokens fuel t → x.text ≠ []
  | 0, _, _, h => by cases h
  | _ + 1, [], _, h => by cases h
  | _ + 1, _ :: _, x, h => by
    rcases List.mem_cons.1 h with rfl | h
    · exact List.cons_ne_nil _ _
    · exact text_ne_nil_of_mem_scanTokens h

/-- No token of a word is empty. -/
theorem text_ne_nil_of_mem_lexWord {w : List Bit} (hw : ∀ x ∈ w, x ≠ .space ∧ x ≠ .comment) {y : Lexeme}
    (hy : y ∈ lexWord w) : y.text ≠ [] := by
  obtain ⟨g, hg, hy⟩ := List.mem_flatMap.1 hy
  unfold lexGroup at hy
  split at hy
  · exact text_ne_nil_of_mem_scanTokens hy
  · obtain rfl := List.mem_singleton.1 hy
    obtain ⟨x, xs, rfl⟩ := List.exists_cons_of_ne_nil (List.ne_nil_of_mem_splitBy hg)
    have hx : x ∈ w := by
      rw [← List.flatten_splitBy Bit.joins w]
      exact List.mem_flatten.2 ⟨_, hg, List.mem_cons_self⟩
    obtain ⟨hspace, hcomment⟩ := hw x hx
    cases x with
    | space => exact absurd rfl hspace
    | comment => exact absurd rfl hcomment
    | _ => exact List.cons_ne_nil _ _

/-- Where the same text is cut into tokens twice, neither of which are empty, the tokens are the same. -/
theorem eq_of_text_eq {xs xs' ys ys' : List Lexeme} (h : xs ++ xs' = ys ++ ys')
    (htext : xs.flatMap Lexeme.text = ys.flatMap Lexeme.text) (hx : ∀ x ∈ xs, x.text ≠ [])
    (hy : ∀ y ∈ ys, y.text ≠ []) : xs = ys := by
  have hnil : ∀ {zs more : List Lexeme}, (zs ++ more).flatMap Lexeme.text = zs.flatMap Lexeme.text →
      (∀ z ∈ zs ++ more, z.text ≠ []) → more = [] := by
    intro zs more hflat hall
    rw [List.flatMap_append, List.append_right_eq_self, List.flatMap_eq_nil_iff] at hflat
    exact List.eq_nil_iff_forall_not_mem.2 fun z hz => hall z (List.mem_append_right _ hz) (hflat z hz)
  rcases List.append_eq_append_iff.1 h with ⟨more, rfl, -⟩ | ⟨more, rfl, -⟩
  · rw [hnil htext.symm hy, List.append_nil]
  · rw [hnil htext hx, List.append_nil]

theorem flatMap_eq_flatMap_iff {f g : List Bit → List Lexeme} : ∀ {ws : List (List Bit)},
    (∀ w ∈ ws, (f w).flatMap Lexeme.text = (g w).flatMap Lexeme.text) → (∀ w ∈ ws, ∀ x ∈ f w, x.text ≠ []) →
      (∀ w ∈ ws, ∀ x ∈ g w, x.text ≠ []) → (ws.flatMap f = ws.flatMap g ↔ ∀ w ∈ ws, f w = g w)
  | [], _, _, _ => by simp
  | w :: ws, htext, hf, hg => by
    obtain ⟨htext, htexts⟩ := List.forall_mem_cons.1 htext
    obtain ⟨hf, hfs⟩ := List.forall_mem_cons.1 hf
    obtain ⟨hg, hgs⟩ := List.forall_mem_cons.1 hg
    rw [List.flatMap_cons, List.flatMap_cons, List.forall_mem_cons, ← flatMap_eq_flatMap_iff htexts hfs hgs]
    constructor
    · intro h
      have hfirst := eq_of_text_eq h htext hf hg
      rw [hfirst] at h
      exact ⟨hfirst, List.append_cancel_left h⟩
    · rintro ⟨hfirst, hrest⟩
      rw [hfirst, hrest]

theorem tokens_of_not_mem {xs : List Bit} (h : .comment ∉ xs) : tokens xs = (words xs).flatMap lexWord := by
  have hspaced : xs.map Bit.spaced = xs := by
    refine List.map_congr_left (g := id) (fun x hx => ?_) |>.trans (List.map_id xs)
    cases x with
    | comment => exact absurd hx h
    | _ => rfl
  rw [tokens, hspaced]

/-- **Bits have the same tokens without their comments just if no comment keeps tokens apart.** -/
theorem tokens_uncommented_iff (xs : List Bit) : tokens (uncommented xs) = tokens xs ↔ JoinsNothing xs := by
  rw [tokens_of_not_mem (not_mem_uncommented xs), flatMap_words_uncommented, tokens_eq_flatMap]
  refine flatMap_eq_flatMap_iff (fun w _ => ?_) (fun w hw x hx => ?_) fun w _ x hx => ?_
  · rw [flatMap_text_lexWord, flatMap_text_tokens, charsOf_uncommented]
  · refine text_ne_nil_of_mem_lexWord (fun y hy => ⟨?_, ?_⟩) hx
    · rintro rfl
      exact (mem_words_iff.1 ⟨w, hw, (List.mem_filter.1 hy).1⟩).2 rfl
    · rintro rfl
      exact not_mem_uncommented w hy
  · obtain ⟨v, hv, hx⟩ := List.mem_flatMap.1 hx
    refine text_ne_nil_of_mem_lexWord (fun y hy => ⟨?_, ?_⟩) hx
    · rintro rfl
      exact (mem_words_iff.1 ⟨v, hv, hy⟩).2 rfl
    · rintro rfl
      obtain ⟨z, -, hz⟩ := List.mem_map.1 (mem_words_iff.1 ⟨v, hv, hy⟩).1
      cases z <;> cases hz

end Tokens
end StyleHoist
