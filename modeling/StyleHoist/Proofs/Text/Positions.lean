import StyleHoist.Proofs.Text.Place

/-!
# Positions and offsets

A place between two characters is described by the lines before it and the part of its own line before it
(`exists_lines`), and so is its position (`positionAt_lines`). Positions therefore grow with offsets, a position leads
to a place between characters, and the way from one to the other and back loses no more than what a position cannot
tell: where in a character an offset lies, and where among the carriage returns at the end of a line.

- `lineStarts`: the table of the offsets at which lines start, in which a line is looked up.
- `positionAt_lines`, `offsetAt_lines`: the two ways, by the lines of the text.
- `positionsInvert`: they undo each other up to clamping, and every lookup finds something.
-/

namespace StyleHoist

/-- A position comes before another, or is the same. -/
instance : LE Position := ⟨fun p q => p.line < q.line ∨ p.line = q.line ∧ p.column ≤ q.column⟩

theorem Position.le_iff {p q : Position} : p ≤ q ↔ p.line < q.line ∨ p.line = q.line ∧ p.column ≤ q.column := Iff.rfl

theorem Position.le_refl (p : Position) : p ≤ p := Or.inr ⟨rfl, Nat.le_refl _⟩

theorem Position.le_trans {p q r : Position} (hpq : p ≤ q) (hqr : q ≤ r) : p ≤ r := by
  rw [Position.le_iff] at *
  omega

namespace Text

open Listing

/-! ## The table of lines -/

/-- The offsets behind the newlines of a text that stands at `offset`. -/
def startsFrom : (offset : Nat) → Text → List Nat
  | _, [] => []
  | offset, c :: t => if c == '\n' then (offset + 1) :: startsFrom (offset + 1) t else startsFrom (offset + c.utf8Size) t

/-- The offsets at which the lines of a text start. -/
def lineStarts (t : Text) : List Nat :=
  0 :: startsFrom 0 t

/-- The offset at which a line ends: that of its newline, or the end of the text. -/
def lineStop (t : Text) (line : Nat) : Nat :=
  match (lineStarts t)[line + 1]? with
  | some next => next - 1
  | none => size t

theorem utf8Size_newline : '\n'.utf8Size = 1 := by decide

theorem startsFrom_of_isLine : ∀ {l : Text}, IsLine l → ∀ (offset : Nat) (t : Text),
    startsFrom offset (l ++ t) = startsFrom (offset + size l) t
  | [], _, offset, t => by simp
  | c :: l, h, offset, t => by
    obtain ⟨hc, hl⟩ := isLine_cons.1 h
    rw [List.cons_append, startsFrom, if_neg (by simpa using Ne.symm hc), startsFrom_of_isLine hl, size_cons,
      Nat.add_assoc]

theorem startsFrom_newline (offset : Nat) (t : Text) :
    startsFrom offset ('\n' :: t) = (offset + 1) :: startsFrom (offset + 1) t := rfl

/-- A line starts where the lines before it end. -/
theorem lineStarts_getElem? {ls : List Text} (hls : ∀ l ∈ ls, IsLine l) (t : Text) :
    (lineStarts (unlines ls ++ t))[ls.length]? = some (size (unlines ls)) := by
  suffices h : ∀ offset, (offset :: startsFrom offset (unlines ls ++ t))[ls.length]? =
      some (offset + size (unlines ls)) by simpa [lineStarts] using h 0
  induction ls with
  | nil => exact fun _ => rfl
  | cons l ls ih =>
    intro offset
    obtain ⟨hl, hrest⟩ := List.forall_mem_cons.1 hls
    rw [unlines_cons, List.append_assoc, List.append_assoc, startsFrom_of_isLine hl, List.singleton_append,
      startsFrom_newline, List.length_cons, List.getElem?_cons_succ, ih hrest]
    simp only [size_append, size_cons, size_nil, utf8Size_newline]
    exact congrArg some (by omega)

theorem length_startsFrom (t : Text) (offset : Nat) : (startsFrom offset t).length + 1 = lineCount t := by
  induction t generalizing offset with
  | nil => rfl
  | cons c t ih =>
    obtain ⟨l, ls, hls⟩ := List.exists_cons_of_ne_nil (splitLines_ne_nil t)
    simp only [lineCount, hls] at ih
    simp only [startsFrom, lineCount, splitLines, hls]
    split <;> simp [ih]

theorem lt_of_mem_startsFrom : ∀ {t : Text} {offset n : Nat}, n ∈ startsFrom offset t → offset < n
  | c :: t, offset, n, h => by
    simp only [startsFrom] at h
    split at h
    · rcases List.mem_cons.1 h with rfl | h
      · exact Nat.lt_succ_self _
      · exact Nat.lt_of_succ_lt (lt_of_mem_startsFrom h)
    · exact Nat.lt_of_le_of_lt (Nat.le_add_right _ _) (lt_of_mem_startsFrom h)

/-- The table is sorted. -/
theorem pairwise_startsFrom : ∀ (t : Text) (offset : Nat), (offset :: startsFrom offset t).Pairwise (· < ·) := by
  intro t offset
  refine List.pairwise_cons.2 ⟨fun n hn => lt_of_mem_startsFrom hn, ?_⟩
  induction t generalizing offset with
  | nil => exact List.Pairwise.nil
  | cons c t ih =>
    simp only [startsFrom]
    split
    · exact List.pairwise_cons.2 ⟨fun n hn => lt_of_mem_startsFrom hn, ih _⟩
    · exact ih _

/-! ## Places by lines -/

/-- What stands before a place: lines, and a part of a line. -/
theorem exists_lines (a : Text) : ∃ ls v, a = unlines ls ++ v ∧ (∀ l ∈ ls, IsLine l) ∧ IsLine v := by
  rcases isLine_or_lastLine a with ha | ⟨u, v, rfl, hv⟩
  · exact ⟨[], a, rfl, by simp, ha⟩
  · exact ⟨splitLines u, v, by simp [unlines_splitLines], fun l hl => isLine_of_mem_splitLines hl, hv⟩

/-- The lines of a text around a place. -/
theorem splitLines_around {ls : List Text} {v : Text} (hls : ∀ l ∈ ls, IsLine l) (hv : IsLine v) {b m : Text}
    {ms : List Text} (hb : splitLines b = m :: ms) : splitLines (unlines ls ++ v ++ b) = ls ++ (v ++ m) :: ms := by
  refine splitLines_append hb ?_
  rw [← joinLines_concat]
  refine splitLines_joinLines (by simp) fun l hl => ?_
  rcases List.mem_append.1 hl with hl | hl
  · exact hls l hl
  · exact List.mem_singleton.1 hl ▸ hv

theorem splitLines_head? : ∀ t : Text, ∃ ms, splitLines t = t.takeWhile (· != '\n') :: ms
  | [] => ⟨[], rfl⟩
  | c :: t => by
    obtain ⟨ms, hms⟩ := splitLines_head? t
    by_cases hc : c = '\n' <;> simp [splitLines, hc, hms]

/-- **The position of a place counts the lines before it and the characters of its line before it.** -/
theorem positionAt_lines {ls : List Text} {v : Text} (hls : ∀ l ∈ ls, IsLine l) (hv : IsLine v) (b : Text) :
    positionAt (unlines ls ++ v ++ b) (size (unlines ls ++ v)) = ⟨ls.length, v.length⟩ := by
  suffices h : ∀ p : Position, positionFrom p (unlines ls ++ v ++ b) (size (unlines ls ++ v)) =
      if ls = [] then ⟨p.line, p.column + v.length⟩ else ⟨p.line + ls.length, v.length⟩ by
    rw [positionAt, h]
    split
    · simp_all
    · simp
  induction ls with
  | nil => exact fun p => positionFrom_of_isLine hv b p
  | cons l ls ih =>
    intro p
    obtain ⟨hl, hrest⟩ := List.forall_mem_cons.1 hls
    have hsize : size (unlines (l :: ls) ++ v) = size l + (1 + size (unlines ls ++ v)) := by
      simp only [unlines_cons, size_append, size_cons, size_nil, utf8Size_newline]
      omega
    have htext : unlines (l :: ls) ++ v ++ b = l ++ '\n' :: (unlines ls ++ v ++ b) := by
      simp [unlines_cons]
    rw [hsize, htext, positionFrom_append_newline, ih hrest, splitLines_of_isLine hl, if_neg (List.cons_ne_nil _ _)]
    split
    · simp_all
    · simp only [List.length_cons, List.length_nil, Position.mk.injEq, and_true]
      omega

/-- The offset of a position is found in its line. -/
theorem offsetAt_lines {t m : Text} {ls ms : List Text} (ht : splitLines t = ls ++ m :: ms) (column : Nat) :
    offsetAt t ⟨ls.length, column⟩ = size (unlines ls ++ (dropEndWhile (· == '\r') m).take column) := by
  have hcount : ls.length < lineCount t := by
    rw [lineCount, ht]
    simp
  rw [offsetAt, if_pos hcount, lineText, ht, lineStart_append ls (List.cons_ne_nil _ _), size_append]
  simp

/-! ## There and back -/

/-- Whether nothing but carriage returns stands before the next newline or the end of a text. -/
def returnsFollow (t : Text) : Bool :=
  (t.takeWhile (· != '\n')).all (· == '\r')

theorem dropEndWhile_unlines_append (ls : List Text) (v : Text) :
    dropEndWhile (· == '\r') (unlines ls ++ v) = unlines ls ++ dropEndWhile (· == '\r') v := by
  rcases List.eq_nil_or_concat ls with rfl | ⟨ks, l, rfl⟩
  · rfl
  · have hend : unlines (ks.concat l) = unlines ks ++ l ++ ['\n'] := by simp [unlines]
    rw [hend, List.append_assoc _ ['\n'], List.singleton_append, dropEndWhile_append_cons _ (by decide)]
    simp

/-- A place leads back to itself, and one behind carriage returns that end a line to the first of them. -/
theorem offsetAt_positionAt_size (a b : Text) : offsetAt (a ++ b) (positionAt (a ++ b) (size a)) =
    if returnsFollow b then size (dropEndWhile (· == '\r') a) else size a := by
  obtain ⟨ls, v, rfl, hls, hv⟩ := exists_lines a
  obtain ⟨ms, hms⟩ := splitLines_head? b
  rw [positionAt_lines hls hv, offsetAt_lines (splitLines_around hls hv hms), dropEndWhile_unlines_append]
  split
  · rename_i hreturns
    obtain ⟨ending, hending, -⟩ := dropEndWhile_append (· == '\r') v
    have hle : (dropEndWhile (· == '\r') v).length ≤ v.length := by
      have := congrArg List.length hending
      simp only [List.length_append] at this
      omega
    rw [dropEndWhile_append_of_all hreturns, List.take_of_length_le hle]
  · rename_i hreturns
    obtain ⟨c, hc, hnot⟩ : ∃ c ∈ b.takeWhile (· != '\n'), (c == '\r') = false := by
      simpa [returnsFollow] using hreturns
    obtain ⟨x, y, hxy⟩ := List.append_of_mem hc
    have hkept : dropEndWhile (· == '\r') (v ++ x ++ c :: y) = v ++ (x ++ c :: dropEndWhile (· == '\r') y) := by
      rw [dropEndWhile_append_cons (p := (· == '\r')) (v ++ x) hnot, List.append_assoc]
    rw [hxy, ← List.append_assoc, hkept, List.take_left]

theorem exists_line {t : Text} {line : Nat} (h : line < lineCount t) : ∃ ls m ms, splitLines t = ls ++ m :: ms ∧
    ls.length = line :=
  ⟨(splitLines t).take line, _, _, by rw [← List.drop_eq_getElem_cons h, List.take_append_drop],
    List.length_take_of_le (Nat.le_of_lt h)⟩

/-- What stands before a line and behind it. -/
theorem eq_of_splitLines_eq {t m : Text} {ls ms : List Text} (ht : splitLines t = ls ++ m :: ms) :
    t = unlines ls ++ m ++ ms.flatMap ('\n' :: ·) ∧ (∀ l ∈ ls, IsLine l) ∧ IsLine m := by
  have hlines : ∀ l ∈ ls ++ m :: ms, IsLine l := fun l hl => isLine_of_mem_splitLines (ht ▸ hl)
  refine ⟨?_, fun l hl => hlines l (List.mem_append_left _ hl), hlines m (by simp)⟩
  rw [List.append_assoc, ← joinLines_eq_flatMap, ← joinLines_append (List.cons_ne_nil m ms), ← ht, joinLines_splitLines]

/-- The position of a line and a column leads to a place in that line. -/
theorem exists_place {t : Text} {line : Nat} (h : line < lineCount t) (column : Nat) :
    ∃ a b, t = a ++ b ∧ offsetAt t ⟨line, column⟩ = size a ∧
      positionAt t (size a) = ⟨line, min column (lineText t line).length⟩ := by
  obtain ⟨ls, m, ms, ht, rfl⟩ := exists_line h
  obtain ⟨htext, hls, hm⟩ := eq_of_splitLines_eq ht
  obtain ⟨ending, hending, -⟩ := dropEndWhile_append (· == '\r') m
  have hline : lineText t ls.length = dropEndWhile (· == '\r') m := by
    rw [lineText, ht]
    simp
  have hoffset := offsetAt_lines ht column
  rw [hline, hoffset]
  generalize dropEndWhile (· == '\r') m = text at hending
  have hsplit : t = unlines ls ++ text.take column ++ (text.drop column ++ (ending ++ ms.flatMap ('\n' :: ·))) := by
    rw [htext, hending]
    conv => lhs; rw [← List.take_append_drop column text]
    simp only [List.append_assoc]
  have hcolumn : IsLine (text.take column) := fun hmem =>
    hm (hending ▸ List.mem_append_left _ (List.mem_of_mem_take hmem))
  refine ⟨_, _, hsplit, rfl, ?_⟩
  conv => lhs; rw [hsplit]
  rw [positionAt_lines hls hcolumn, List.length_take]

/-! ## Offsets that are no places -/

/-- Each character goes on along its line or to the next. -/
theorem le_next (p : Position) (c : Char) : p ≤ if c == '\n' then ⟨p.line + 1, 0⟩ else ⟨p.line, p.column + 1⟩ := by
  split
  · exact Or.inl (Nat.lt_succ_self _)
  · exact Or.inr ⟨rfl, Nat.le_succ _⟩

theorem le_positionFrom (p : Position) (t : Text) (n : Nat) : p ≤ positionFrom p t n := by
  induction t generalizing p n with
  | nil => exact p.le_refl
  | cons c t ih =>
    simp only [positionFrom]
    split
    · exact p.le_refl
    · split
      · exact Position.le_trans (le_next p c) (ih _ _)
      · exact p.le_refl

/-- A later offset has no earlier position. -/
theorem positionFrom_mono (t : Text) {m n : Nat} (h : m ≤ n) (p : Position) :
    positionFrom p t m ≤ positionFrom p t n := by
  induction t generalizing p m n with
  | nil => exact p.le_refl
  | cons c t ih =>
    by_cases hm : c.utf8Size ≤ m
    · have hpos := c.utf8Size_pos
      simp only [positionFrom, if_neg (show ¬m = 0 by omega), if_neg (show ¬n = 0 by omega), if_pos hm,
        if_pos (Nat.le_trans hm h)]
      exact ih (Nat.sub_le_sub_right h _) _
    · have hstay : positionFrom p (c :: t) m = p := by
        simp only [positionFrom]
        split <;> rfl
      rw [hstay]
      exact le_positionFrom p _ n

/-- An offset before the end of the next character has the position of the place before that character. -/
theorem positionFrom_floor : ∀ {a b : Text} {n : Nat}, size a ≤ n → (∀ c, b.head? = some c → n < size a + c.utf8Size) →
    ∀ p, positionFrom p (a ++ b) n = positionFrom p (a ++ b) (size a)
  | [], [], _, _, _, _ => rfl
  | [], c :: b, n, _, hhead, p => by
    have hn : ¬c.utf8Size ≤ n := by simpa using hhead c rfl
    simp only [List.nil_append, positionFrom, size_nil, if_neg hn]
    split <;> simp
  | c :: a, b, n, hle, hhead, p => by
    rw [size_cons] at hle hhead
    obtain ⟨k, rfl⟩ : ∃ k, n = c.utf8Size + k := ⟨n - c.utf8Size, by omega⟩
    have hhead' : ∀ d, b.head? = some d → k < size a + d.utf8Size := fun d hd => by
      have := hhead d hd
      omega
    rw [List.cons_append, size_cons, positionFrom_cons, positionFrom_cons, positionFrom_floor (by omega) hhead']

/-- The place at which the character of an offset begins, or the end. -/
theorem exists_floor : ∀ (t : Text) (n : Nat), ∃ a b, t = a ++ b ∧ size a ≤ n ∧
    ∀ c, b.head? = some c → n < size a + c.utf8Size
  | [], n => ⟨[], [], rfl, Nat.zero_le n, by simp⟩
  | c :: t, n => by
    by_cases hn : c.utf8Size ≤ n
    · obtain ⟨a, b, rfl, hle, hhead⟩ := exists_floor t (n - c.utf8Size)
      refine ⟨c :: a, b, rfl, by rw [size_cons]; omega, fun d hd => ?_⟩
      have := hhead d hd
      rw [size_cons]
      omega
    · exact ⟨[], c :: t, rfl, Nat.zero_le n, by simpa using hn⟩

/-! ## Lookups -/

/-- The next line starts behind the newline of a line, unless that is the last. -/
theorem lineStarts_next {t m : Text} {ls ms : List Text} (ht : splitLines t = ls ++ m :: ms) :
    (lineStarts t)[ls.length + 1]? = if ms = [] then none else some (size (unlines ls ++ m) + 1) := by
  obtain ⟨htext, hls, hm⟩ := eq_of_splitLines_eq ht
  cases ms with
  | nil =>
    have hlength : (lineStarts t).length = ls.length + 1 := by
      rw [lineStarts, List.length_cons, length_startsFrom, lineCount, ht]
      simp
    rw [if_pos rfl, List.getElem?_eq_none (Nat.le_of_eq hlength)]
  | cons m' ms =>
    have hls' : ∀ l ∈ ls ++ [m], IsLine l := by simpa [or_imp, forall_and] using ⟨hls, hm⟩
    have hsplit : t = unlines (ls ++ [m]) ++ (m' ++ ms.flatMap ('\n' :: ·)) := by
      rw [htext]
      simp [unlines]
    have hstart := lineStarts_getElem? hls' (m' ++ ms.flatMap ('\n' :: ·))
    rw [← hsplit, List.length_append, List.length_singleton] at hstart
    rw [if_neg (List.cons_ne_nil m' ms), hstart]
    simp [unlines, utf8Size_newline, Nat.add_assoc]

/-- The line of an offset is the last that starts there or before. -/
theorem lineStarts_lineAt (t : Text) (n : Nat) : ∃ start, (lineStarts t)[lineAt t n]? = some start ∧ start ≤ n ∧
    ∀ next, (lineStarts t)[lineAt t n + 1]? = some next → n < next := by
  obtain ⟨a, b, rfl, hle, hhead⟩ := exists_floor t n
  have hfloor : positionAt (a ++ b) n = positionAt (a ++ b) (size a) := positionFrom_floor hle hhead _
  obtain ⟨ls, v, rfl, hls, hv⟩ := exists_lines a
  obtain ⟨m, ms, hms⟩ := List.exists_cons_of_ne_nil (splitLines_ne_nil b)
  rw [lineAt, hfloor, positionAt_lines hls hv, lineStarts_next (splitLines_around hls hv hms)]
  refine ⟨size (unlines ls), ?_, by rw [size_append] at hle; omega, fun next hnext => ?_⟩
  · rw [List.append_assoc]
    exact lineStarts_getElem? hls _
  · obtain ⟨m', ms, rfl⟩ : ∃ m' ms', ms = m' :: ms' := by
      cases ms with
      | nil => cases hnext
      | cons m' ms => exact ⟨m', ms, rfl⟩
    obtain rfl : size (unlines ls ++ (v ++ m)) + 1 = next := by simpa using hnext
    have hb : b = m ++ '\n' :: joinLines (m' :: ms) := by
      rw [← joinLines_splitLines b, hms, joinLines_cons (List.cons_ne_nil m' ms)]
    -- The character of the offset is one of the line or its newline.
    rw [← List.append_assoc, size_append]
    cases m with
    | nil => simpa [utf8Size_newline] using hhead '\n' (by rw [hb]; rfl)
    | cons c m =>
      have := hhead c (by rw [hb]; rfl)
      rw [size_cons]
      omega

theorem lineStop_eq {t m : Text} {ls ms : List Text} (ht : splitLines t = ls ++ m :: ms) :
    lineStop t ls.length = size (unlines ls ++ m) := by
  obtain ⟨htext, -, -⟩ := eq_of_splitLines_eq ht
  rw [lineStop, lineStarts_next ht]
  split
  · rename_i next hnext
    split at hnext
    · cases hnext
    · obtain rfl := Option.some.inj hnext
      exact Nat.add_sub_cancel _ _
  · rename_i hnone
    split at hnone
    · rename_i hms
      rw [htext, hms]
      simp
    · cases hnone

theorem slice?_append (a b c : Text) : slice? (a ++ b ++ c) (size a) (size (a ++ b)) = some b := by
  have hsize : size (a ++ b) - size a = size b := by
    rw [size_append]
    omega
  rw [slice?, if_pos (by rw [size_append]; omega), List.append_assoc, splitAt?_size, hsize]
  simp [splitAt?_size]

/-- Both ends of a line are places of the text, and what stands between them is the line. -/
theorem slice?_line {t : Text} {line : Nat} (h : line < lineCount t) : ∃ start m, (lineStarts t)[line]? = some start ∧
    slice? t start (lineStop t line) = some m ∧ lineText t line = dropEndWhile (· == '\r') m := by
  obtain ⟨ls, m, ms, ht, rfl⟩ := exists_line h
  obtain ⟨htext, hls, hm⟩ := eq_of_splitLines_eq ht
  refine ⟨size (unlines ls), m, ?_, ?_, ?_⟩
  · rw [htext, List.append_assoc]
    exact lineStarts_getElem? hls _
  · rw [lineStop_eq ht]
    conv => lhs; rw [htext]
    exact slice?_append _ _ _
  · rw [lineText, ht]
    simp

/-- The column of a place is what is counted from the start of its line on. -/
theorem slice?_column (a b : Text) : ∃ start v, (lineStarts (a ++ b))[lineAt (a ++ b) (size a)]? = some start ∧
    slice? (a ++ b) start (size a) = some v ∧ (positionAt (a ++ b) (size a)).column = v.length := by
  obtain ⟨ls, v, rfl, hls, hv⟩ := exists_lines a
  rw [lineAt, positionAt_lines hls hv]
  refine ⟨size (unlines ls), v, ?_, slice?_append _ _ _, rfl⟩
  rw [List.append_assoc]
  exact lineStarts_getElem? hls _

/-! ## The laws -/

/-- Offsets and positions of a text undo each other up to clamping. -/
structure PositionsInvert (t : Text) : Prop where
  /-- A later offset has no earlier position. -/
  monotone : ∀ m n, m ≤ n → positionAt t m ≤ positionAt t n
  /-- An offset inside a character has the position of the character. -/
  inside : ∀ a c b n, t = a ++ c :: b → size a ≤ n → n < size a + c.utf8Size → positionAt t n = positionAt t (size a)
  /-- An offset past the end has the position of the end. -/
  past : ∀ n, size t ≤ n → positionAt t n = positionAt t (size t)
  /-- A place leads back to itself, and one behind carriage returns that end a line to the first of them. -/
  back : ∀ a b, t = a ++ b → offsetAt t (positionAt t (size a)) =
    if returnsFollow b then size (dropEndWhile (· == '\r') a) else size a
  /-- A position leads back to itself, but for a column past the end of its line. -/
  forth : ∀ line column, line < lineCount t →
    positionAt t (offsetAt t ⟨line, column⟩) = ⟨line, min column (lineText t line).length⟩
  /-- A line past the last leads to the end. -/
  below : ∀ line column, lineCount t ≤ line → offsetAt t ⟨line, column⟩ = size t
  /-- A position leads to a place between characters, or to an end of the text. -/
  boundary : ∀ p, isBoundary t (offsetAt t p) = true
  /-- Every line is in the table. -/
  table : (lineStarts t).length = lineCount t ∧ (lineStarts t).Pairwise (· < ·)
  /-- The line of an offset is the last in the table that starts there or before. -/
  line : ∀ n, ∃ start, (lineStarts t)[lineAt t n]? = some start ∧ start ≤ n ∧
    ∀ next, (lineStarts t)[lineAt t n + 1]? = some next → n < next
  /-- The part of a line before a place can be cut out, and its characters make the column. -/
  column : ∀ a b, t = a ++ b → ∃ start v, (lineStarts t)[lineAt t (size a)]? = some start ∧
    slice? t start (size a) = some v ∧ (positionAt t (size a)).column = v.length
  /-- Every line can be cut out. -/
  content : ∀ line < lineCount t, ∃ start m, (lineStarts t)[line]? = some start ∧
    slice? t start (lineStop t line) = some m ∧ lineText t line = dropEndWhile (· == '\r') m

/-- **Offsets and positions undo each other up to clamping, in every text.** -/
theorem positionsInvert (t : Text) : PositionsInvert t where
  monotone m n h := positionFrom_mono t h _
  inside a c b n ht hle hlt := by
    have hhead : ∀ d, (c :: b).head? = some d → n < size a + d.utf8Size := fun d hd => Option.some.inj hd ▸ hlt
    rw [ht]
    exact positionFrom_floor hle hhead _
  past n h := by
    have := positionFrom_floor (b := []) h (by simp) ⟨0, 0⟩
    rwa [List.append_nil] at this
  back a b ht := ht ▸ offsetAt_positionAt_size a b
  forth line column h := by
    obtain ⟨a, b, -, hoffset, hposition⟩ := exists_place h column
    rw [hoffset, hposition]
  below line column h := offsetAt_of_lineCount_le h
  boundary p := by
    by_cases h : p.line < lineCount t
    · obtain ⟨a, b, ht, hoffset, -⟩ := exists_place h p.column
      exact isBoundary_iff.2 ⟨a, b, ht, hoffset.symm⟩
    · rw [offsetAt_of_lineCount_le (Nat.not_lt.1 h)]
      exact isBoundary_iff.2 ⟨t, [], (List.append_nil t).symm, rfl⟩
  table := ⟨length_startsFrom t 0, pairwise_startsFrom t 0⟩
  line n := lineStarts_lineAt t n
  column a b ht := ht ▸ slice?_column a b
  content line h := slice?_line h

/-- Places among the carriage returns at the end of a line have columns of their own, and lead to the first. -/
example : (positionAt "é\r\r\nb".toList 3, offsetAt "é\r\r\nb".toList ⟨0, 2⟩) = (⟨0, 2⟩, 2) := by decide

end Text
end StyleHoist
