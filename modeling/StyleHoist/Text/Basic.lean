/-!
# Text

A text is a list of characters; offsets into it count the bytes of its UTF-8 form. This module holds the operations that
every reader of text shares: sizes, cuts at a byte offset, blanks, searches and lines.

- `size_append`: sizes add up.
- `splitAt?_size`: a text cut at the size of its first part gives that part and the rest.
- `splitAt?_eq_some`: a cut loses nothing and falls at the asked offset.
- `joinLines_splitLines`: joining the lines of a text gives the text.
-/

namespace StyleHoist

/-- The characters of a file or of a part of it. -/
abbrev Text := List Char

/-- A range of byte offsets, from the first byte to just after the last. -/
structure Span where
  start : Nat
  stop : Nat
deriving DecidableEq, Repr, Inhabited

/-- Whether an offset lies in the range, both ends included. -/
def Span.touches (s : Span) (offset : Nat) : Bool :=
  s.start ≤ offset && offset ≤ s.stop

namespace Text

/-! ## Sizes and cuts -/

/-- The number of bytes of the UTF-8 form. -/
def size : Text → Nat
  | [] => 0
  | c :: t => c.utf8Size + size t

@[simp] theorem size_nil : size [] = 0 := rfl

@[simp] theorem size_cons (c : Char) (t : Text) : size (c :: t) = c.utf8Size + size t := rfl

@[simp] theorem size_append (s t : Text) : size (s ++ t) = size s + size t := by
  induction s with
  | nil => simp
  | cons c s ih => simp [ih, Nat.add_assoc]

/-- The parts before and after a byte offset, unless it splits a character or lies past the end. -/
def splitAt? : Text → Nat → Option (Text × Text)
  | t, 0 => some ([], t)
  | [], _ + 1 => none
  | c :: t, n + 1 =>
    if c.utf8Size ≤ n + 1 then (splitAt? t (n + 1 - c.utf8Size)).map fun p => (c :: p.1, p.2) else none

theorem splitAt?_zero (t : Text) : splitAt? t 0 = some ([], t) := by
  cases t <;> rfl

theorem splitAt?_size (s t : Text) : splitAt? (s ++ t) (size s) = some (s, t) := by
  induction s with
  | nil => exact splitAt?_zero t
  | cons c s ih =>
    obtain ⟨k, hk⟩ : ∃ k, c.utf8Size + size s = k + 1 := ⟨c.utf8Size + size s - 1, by have := c.utf8Size_pos; omega⟩
    have hle : c.utf8Size ≤ k + 1 := by omega
    have hsub : k + 1 - c.utf8Size = size s := by omega
    simp [hk, splitAt?, hle, hsub, ih]

theorem splitAt?_eq_some : ∀ {t : Text} {n : Nat} {a b : Text},
    splitAt? t n = some (a, b) → a ++ b = t ∧ size a = n
  | t, 0, a, b, h => by
    rw [splitAt?_zero] at h
    cases h
    exact ⟨rfl, rfl⟩
  | [], _ + 1, _, _, h => by simp [splitAt?] at h
  | c :: t, n + 1, a, b, h => by
    simp only [splitAt?] at h
    split at h
    · rename_i hle
      obtain ⟨⟨a', b'⟩, h', e⟩ := Option.map_eq_some_iff.1 h
      cases e
      obtain ⟨happ, hsize⟩ := splitAt?_eq_some h'
      exact ⟨by simp [happ], by simp [hsize]; omega⟩
    · simp at h

/-- Whether a byte offset falls between two characters or at an end of the text. -/
def isBoundary (t : Text) (offset : Nat) : Bool :=
  (splitAt? t offset).isSome

/-- The part between two byte offsets, if both are boundaries in this order. -/
def slice? (t : Text) (start stop : Nat) : Option Text :=
  if start ≤ stop then do
    let (_, rest) ← splitAt? t start
    let (part, _) ← splitAt? rest (stop - start)
    return part
  else none

/-- The text before a byte offset, or all of it if the offset is no boundary. -/
def before (t : Text) (offset : Nat) : Text :=
  ((splitAt? t offset).map (·.1)).getD t

/-- The text after a byte offset, or nothing if the offset is no boundary. -/
def after (t : Text) (offset : Nat) : Text :=
  ((splitAt? t offset).map (·.2)).getD []

/-! ## Searches -/

/-- What follows `part` in a text that begins with it. -/
def dropPart? : Text → Text → Option Text
  | [], t => some t
  | _ :: _, [] => none
  | p :: ps, c :: t => if p == c then dropPart? ps t else none

/-- Whether the text begins with `part`. -/
def beginsWith (part t : Text) : Bool :=
  (dropPart? part t).isSome

/-- Whether the text ends with `part`. -/
def endsWith (part t : Text) : Bool :=
  beginsWith part.reverse t.reverse

/-- The parts before and after the first place where `part` stands. -/
def splitOn? (part : Text) : Text → Option (Text × Text)
  | [] => if part.isEmpty then some ([], []) else none
  | c :: t =>
    match dropPart? part (c :: t) with
    | some rest => some ([], rest)
    | none => (splitOn? part t).map fun p => (c :: p.1, p.2)

/-- The byte offset of the first place where `part` stands. -/
def find? (part t : Text) : Option Nat :=
  (splitOn? part t).map fun p => size p.1

/-- Whether `part` stands anywhere in the text. -/
def mentions (part t : Text) : Bool :=
  (splitOn? part t).isSome

/-! ## Ends -/

/-- The text without the characters at its end that satisfy `p`. -/
def dropEndWhile (p : Char → Bool) (t : Text) : Text :=
  (t.reverse.dropWhile p).reverse

/-- White space: the characters with the Unicode property White_Space. -/
def isBlankChar (c : Char) : Bool :=
  let n := c.toNat
  n == 0x20 || (9 ≤ n && n ≤ 13) || n == 0x85 || n == 0xa0 || n == 0x1680 || (0x2000 ≤ n && n ≤ 0x200a)
    || n == 0x2028 || n == 0x2029 || n == 0x202f || n == 0x205f || n == 0x3000

/-- The text without white space at its start. -/
def trimStart (t : Text) : Text :=
  t.dropWhile isBlankChar

/-- The text without white space at its end. -/
def trimEnd (t : Text) : Text :=
  dropEndWhile isBlankChar t

/-- The text without white space at either end. -/
def trim (t : Text) : Text :=
  trimEnd (trimStart t)

/-- Whether the text holds white space only. -/
def isBlank (t : Text) : Bool :=
  t.all isBlankChar

/-- Spaces and tabs, the characters of an indentation. -/
def isIndentChar (c : Char) : Bool :=
  c == ' ' || c == '\t'

/-! ## Lines -/

/-- The lines of a text: what stands between its newlines. There is always at least one. -/
def splitLines : Text → List Text
  | [] => [[]]
  | c :: t =>
    if c == '\n' then [] :: splitLines t
    else
      match splitLines t with
      | [] => [[c]]
      | l :: ls => (c :: l) :: ls

/-- Parts with `sep` between neighbours. -/
def joinWith (sep : Text) : List Text → Text
  | [] => []
  | [l] => l
  | l :: ls => l ++ sep ++ joinWith sep ls

/-- Lines with newlines between them. -/
def joinLines (ls : List Text) : Text :=
  joinWith ['\n'] ls

theorem splitLines_ne_nil (t : Text) : splitLines t ≠ [] := by
  cases t with
  | nil => simp [splitLines]
  | cons c t =>
    simp only [splitLines]
    split
    · simp
    · split <;> simp

theorem joinLines_splitLines (t : Text) : joinLines (splitLines t) = t := by
  induction t with
  | nil => rfl
  | cons c t ih =>
    have hne := splitLines_ne_nil t
    simp only [splitLines]
    split
    · rename_i h
      cases hs : splitLines t with
      | nil => exact absurd hs hne
      | cons l ls =>
        rw [hs] at ih
        have hc : c = '\n' := by simpa using h
        simp [joinLines, joinWith, hc] at ih ⊢
        exact ih
    · cases hs : splitLines t with
      | nil => exact absurd hs hne
      | cons l ls =>
        rw [hs] at ih
        cases ls with
        | nil => simpa [joinLines, joinWith] using ih
        | cons m ms => simpa [joinLines, joinWith] using ih

end Text

end StyleHoist
