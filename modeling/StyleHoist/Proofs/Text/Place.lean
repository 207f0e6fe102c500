import StyleHoist.Proofs.Registry.Layout
import StyleHoist.Text.LineIndex

/-!
# Places in a text

Hosts name a place by line and column, the engine by an offset. The way from an offset to a position and back leads to
the same place unless it is at the end of a line, where carriage returns do not count as columns.

- `positionAt_eq`: the position of an offset, by the lines before it.
- `offsetAt_positionAt`: the position of a character leads back to it.
-/

namespace StyleHoist
namespace Text

open Listing

/-! ## From an offset to a position -/

theorem positionFrom_zero (p : Position) (t : Text) : positionFrom p t 0 = p := by
  cases t <;> simp [positionFrom]

theorem positionFrom_cons (p : Position) (c : Char) (t : Text) (n : Nat) :
    positionFrom p (c :: t) (c.utf8Size + n) =
      positionFrom (if c == '\n' then ⟨p.line + 1, 0⟩ else ⟨p.line, p.column + 1⟩) t n := by
  have hpos := c.utf8Size_pos
  rw [positionFrom, if_neg (by omega), if_pos (by omega), Nat.add_sub_cancel_left]

/-- Along a line the columns are counted. -/
theorem positionFrom_of_isLine {v : Text} (h : IsLine v) (b : Text) : ∀ p : Position,
    positionFrom p (v ++ b) (size v) = ⟨p.line, p.column + v.length⟩ := by
  induction v with
  | nil => exact fun p => positionFrom_zero p b
  | cons c v ih =>
    obtain ⟨hc, hv⟩ := isLine_cons.1 h
    intro p
    rw [List.cons_append, size_cons, positionFrom_cons, ih hv]
    simp [Ne.symm hc, Nat.add_assoc, Nat.add_comm 1]

/-- Behind a newline the lines before it have been counted. -/
theorem positionFrom_append_newline (u b : Text) (n : Nat) : ∀ p : Position,
    positionFrom p (u ++ '\n' :: b) (size u + (1 + n)) =
      positionFrom ⟨p.line + (splitLines u).length, 0⟩ b n := by
  induction u with
  | nil =>
    intro p
    rw [size_nil, Nat.zero_add]
    exact positionFrom_cons p '\n' b n
  | cons c u ih =>
    intro p
    rw [List.cons_append, size_cons, Nat.add_assoc, positionFrom_cons, ih]
    obtain ⟨l, ls, hls⟩ := List.exists_cons_of_ne_nil (splitLines_ne_nil u)
    by_cases hc : c = '\n'
    · simp [splitLines, hc, Nat.add_assoc, Nat.add_comm 1]
    · simp [splitLines, hc, hls]

/-- A text is a line, or has a last one. -/
theorem isLine_or_lastLine : ∀ t : Text, IsLine t ∨ ∃ u v, t = u ++ '\n' :: v ∧ IsLine v
  | [] => Or.inl List.not_mem_nil
  | c :: t => by
    rcases isLine_or_lastLine t with h | ⟨u, v, rfl, hv⟩
    · by_cases hc : c = '\n'
      · exact Or.inr ⟨[], t, by rw [hc, List.nil_append], h⟩
      · exact Or.inl (by simpa [IsLine, Ne.symm hc] using h)
    · exact Or.inr ⟨c :: u, v, rfl, hv⟩

theorem unlines_splitLines (t : Text) : unlines (splitLines t) = t ++ ['\n'] := by
  rw [unlines_eq (splitLines_ne_nil t), joinLines_splitLines]

/-- The position of a character, by the lines of the text. -/
theorem positionAt_eq {a b : Text} {c : Char} (hc : c ≠ '\n') : ∃ ls v l ms,
    splitLines (a ++ c :: b) = ls ++ (v ++ c :: l) :: ms ∧ a = unlines ls ++ v ∧
      positionAt (a ++ c :: b) (size a) = ⟨ls.length, v.length⟩ := by
  obtain ⟨l, ms, hms⟩ := List.exists_cons_of_ne_nil (splitLines_ne_nil b)
  have hlast : ∀ {v : Text}, IsLine v → splitLines (v ++ c :: b) = (v ++ c :: l) :: ms := by
    intro v hv
    have hline : IsLine (v ++ [c]) := by simpa [IsLine, Ne.symm hc] using hv
    simpa using splitLines_append_of_isLine hline hms
  rcases isLine_or_lastLine a with ha | ⟨u, v, rfl, hv⟩
  · exact ⟨[], a, l, ms, hlast ha, rfl, by simp [positionAt, positionFrom_of_isLine ha]⟩
  · refine ⟨splitLines u, v, l, ms, ?_, by simp [unlines_splitLines], ?_⟩
    · rw [List.append_assoc, List.cons_append, splitLines_append_newline, hlast hv]
    · have hsize : size (u ++ '\n' :: v) = size u + (1 + size v) := by
        rw [size_append, size_cons]
        rfl
      rw [positionAt, hsize, List.append_assoc, List.cons_append, positionFrom_append_newline,
        positionFrom_of_isLine hv]
      simp

/-! ## And back -/

theorem lineStart_append (ls : List Text) {ms : List Text} (h : ms ≠ []) :
    lineStart (ls ++ ms) ls.length = size (unlines ls) := by
  induction ls with
  | nil =>
    obtain ⟨m, ms, rfl⟩ := List.exists_cons_of_ne_nil h
    rfl
  | cons l ls ih =>
    simp only [List.cons_append, List.length_cons, lineStart, ih, unlines_cons, size_append]
    rfl

/-- What is dropped at the end of a text goes no further than a character that is kept. -/
theorem take_dropEndWhile {p : Char → Bool} {c : Char} (hc : p c = false) (v l : Text) :
    (dropEndWhile p (v ++ c :: l)).take v.length = v := by
  obtain ⟨dropped, hdropped, hall⟩ := dropEndWhile_append p (v ++ c :: l)
  rcases List.append_eq_append_iff.1 hdropped with ⟨m, hm, -⟩ | ⟨m, -, hm⟩
  · rw [hm, List.take_left]
  · rw [hm] at hall
    simp [hc] at hall

/-- **The position of a character that ends no line leads back to it.** -/
theorem offsetAt_positionAt {a b : Text} {c : Char} (hnewline : c ≠ '\n') (hreturn : c ≠ '\r') :
    offsetAt (a ++ c :: b) (positionAt (a ++ c :: b) (size a)) = size a := by
  obtain ⟨ls, v, l, ms, hlines, ha, hposition⟩ := positionAt_eq (a := a) (b := b) hnewline
  have hcount : ls.length < lineCount (a ++ c :: b) := by
    rw [lineCount, hlines]
    simp
  have htext : (lineText (a ++ c :: b) ls.length).take v.length = v := by
    rw [lineText, hlines, List.getElem?_append_right (Nat.le_refl _), Nat.sub_self]
    exact take_dropEndWhile (by simpa using hreturn) v l
  rw [hposition, offsetAt, if_pos hcount, htext, hlines, lineStart_append ls (List.cons_ne_nil _ _), ← size_append,
    ← ha]

/-- Columns count characters, and a column at the end of a line is one of its end. -/
example : offsetAt "éé\r\nb".toList (positionAt "éé\r\nb".toList 2) = 2 ∧
    offsetAt "éé\r\nb".toList (positionAt "éé\r\nb".toList 5) = 4 := by decide

end Text
end StyleHoist
