import StyleHoist.Proofs.Comment.Stripped

/-!
# The steps of taking comments out

Taking comments out goes through a body line by line. The bound on the number of its steps does not matter once it
exceeds what is left of the body (`stripFrom_fuel`), so the scan of the rest of a line (`strip`) and of a body from a
line on (`stripLines`) are given by one equation for each thing that a line can hold: nothing but code (`strip_clear`),
a line comment (`strip_line`), a block that is closed on the line (`strip_block`), one that is closed on a later line
(`strip_open`) and one that is not closed (`strip_unclosed`).

- `eq_of_findMarker`: a marker that is found splits the line.
- `exists_closing`: a block ends on the first line that holds a closing marker, if there is one.
-/

namespace StyleHoist

open Text Listing

/-! ## Lines behind a line -/

/-- What is left of a line is one. -/
theorem isLine_rest {lines : List Text} (hlines : ∀ l ∈ lines, IsLine l) {n : Nat} {done rest : Text}
    (hn : lines[n]? = some (done ++ rest)) : IsLine rest := fun hm =>
  hlines _ (List.mem_of_getElem? hn) (List.mem_append_right _ hm)

/-- What stands behind a line among lines: those after it, each with the newline before it. -/
def linesBehind (lines : List Text) (n : Nat) : Text :=
  (lines.drop (n + 1)).flatMap ('\n' :: ·)

theorem linesBehind_of_some {lines : List Text} {n : Nat} {l : Text} (h : lines[n + 1]? = some l) :
    linesBehind lines n = '\n' :: l ++ linesBehind lines (n + 1) := by
  obtain ⟨hn, rfl⟩ := List.getElem?_eq_some_iff.1 h
  rw [linesBehind, List.drop_eq_getElem_cons hn]
  rfl

theorem linesBehind_of_none {lines : List Text} {n : Nat} (h : lines[n + 1]? = none) : linesBehind lines n = [] := by
  rw [linesBehind, List.drop_eq_nil_of_le (List.getElem?_eq_none_iff.1 h)]
  rfl

/-- A line among those behind a line. -/
theorem linesBehind_of_drop {lines inside outside : List Text} {n : Nat} {l : Text}
    (h : lines.drop (n + 1) = inside ++ l :: outside) : lines[n + (inside.length + 1)]? = some l ∧
      linesBehind lines n = inside.flatMap ('\n' :: ·) ++ '\n' :: l ++ linesBehind lines (n + (inside.length + 1)) := by
  have hplace : ∀ k, n + (inside.length + 1) + k = n + 1 + (inside.length + k) := fun k => by omega
  constructor
  · rw [show n + (inside.length + 1) = n + 1 + inside.length from hplace 0, ← List.getElem?_drop, h]
    simp
  · have hbehind : lines.drop (n + 1 + (inside.length + 1)) = outside := by
      rw [← List.drop_drop, h]
      simp
    rw [linesBehind, linesBehind, hplace, hbehind, h]
    simp

/-- A body is its first line and what stands behind it. -/
theorem append_linesBehind {body l : Text} {ls : List Text} (h : splitLines body = l :: ls) :
    l ++ linesBehind (splitLines body) 0 = body := by
  rw [linesBehind, h, List.drop_succ_cons, List.drop_zero, ← joinLines_eq_flatMap, ← h, joinLines_splitLines]

/-! ## Markers -/

/-- How a comment begins. -/
def CommentKind.marker : CommentKind → Text
  | .line => "//".toList
  | .block => "/*".toList

theorem MarkerScan.cons_eq_found {c : Char} {m : MarkerScan} {before after : Text} {kind : CommentKind}
    (h : m.cons c = .found before kind after) : ∃ rest, before = c :: rest ∧ m = .found rest kind after := by
  cases m with
  | clear => cases h
  | found b k a =>
    cases h
    exact ⟨b, rfl, rfl⟩

theorem MarkerScan.cons_eq_clear {c : Char} {m : MarkerScan} {b : Bool} (h : m.cons c = .clear b) : m = .clear b := by
  cases m with
  | clear => exact h
  | found => cases h

/-- A character that is not read as the start of an escape. -/
theorem ne_backslash {c : Char} {t : Text} (hlast : c = '\\' → t = [] → False)
    (hmore : ∀ d u, c = '\\' → t = d :: u → False) : c ≠ '\\' := by
  intro hc
  cases t with
  | nil => exact hlast hc rfl
  | cons d u => exact hmore d u hc rfl

/-- A marker that is found splits a line. -/
theorem eq_of_findMarker {quote : Option Char} {l before after : Text} {kind : CommentKind}
    (h : findMarker quote l = .found before kind after) : l = before ++ kind.marker ++ after := by
  fun_induction findMarker quote l generalizing before with
  | case1 => cases h
  | case2 => cases h
  | case3 q c t ih =>
    obtain ⟨_, rfl, h'⟩ := MarkerScan.cons_eq_found h
    obtain ⟨_, rfl, h''⟩ := MarkerScan.cons_eq_found h'
    simp [ih h'']
  | case4 q c t _ _ ih =>
    obtain ⟨_, rfl, h'⟩ := MarkerScan.cons_eq_found h
    simp [ih h']
  | case5 t =>
    cases h
    rfl
  | case6 t =>
    cases h
    rfl
  | case7 c t _ _ ih =>
    obtain ⟨_, rfl, h'⟩ := MarkerScan.cons_eq_found h
    simp [ih h']

/-- A closing marker that is not found does not stand in a text. -/
theorem not_infix_of_splitOn?_eq_none {part t : Text} (h : splitOn? part t = none) : ¬part <:+: t := by
  intro hin
  have hsome := isSome_splitOn? hin
  rw [h] at hsome
  cases hsome

/-- A closing marker is found where none stands before it. -/
theorem splitOn?_blockClose : ∀ {inner : Text} (rest : Text), ¬blockClose <:+: inner →
    splitOn? blockClose (inner ++ blockClose ++ rest) = some (inner, rest)
  | [], rest, _ => by simp [blockClose_eq, splitOn?, dropPart?]
  | c :: inner, rest, h => by
    have ih := splitOn?_blockClose rest fun hin => h (hin.trans (List.suffix_cons c inner).isInfix)
    have hnone : dropPart? blockClose (c :: (inner ++ blockClose ++ rest)) = none := by
      rw [Option.eq_none_iff_forall_ne_some]
      intro tail htail
      have heq := eq_append_of_dropPart? htail
      rw [blockClose_eq] at heq
      obtain ⟨rfl, htext⟩ := List.cons.inj heq
      cases inner with
      | nil => cases htext
      | cons d inner =>
        obtain ⟨rfl, -⟩ := List.cons.inj htext
        exact h (List.prefix_append blockClose inner).isInfix
    simp only [List.cons_append, splitOn?, hnone, ih, Option.map_some]

/-- A block comment ends on the first line that holds a closing marker, if there is one. -/
theorem exists_closing (ls : List Text) : (∃ inside inner rest outside,
    ls = inside ++ (inner ++ blockClose ++ rest) :: outside ∧ (∀ l ∈ inside, ¬blockClose <:+: l) ∧
      ¬blockClose <:+: inner) ∨ ∀ l ∈ ls, ¬blockClose <:+: l := by
  induction ls with
  | nil => exact Or.inr (by simp)
  | cons l ls ih =>
    cases hsplit : splitOn? blockClose l with
    | some parts =>
      refine Or.inl ⟨[], parts.1, parts.2, ls, ?_, by simp, not_infix_of_splitOn? blockClose_ne_nil hsplit⟩
      rw [List.nil_append, ← eq_append_of_splitOn? hsplit]
    | none =>
      have hl := not_infix_of_splitOn?_eq_none hsplit
      rcases ih with ⟨inside, inner, rest, outside, rfl, hinside, hinner⟩ | hall
      · exact Or.inl ⟨l :: inside, inner, rest, outside, rfl, by simpa using ⟨hl, hinside⟩, hinner⟩
      · exact Or.inr (by simpa using ⟨hl, hall⟩)

theorem splitOn?_eq_none {part t : Text} (h : ¬part <:+: t) : splitOn? part t = none := by
  cases hsplit : splitOn? part t with
  | none => rfl
  | some parts =>
    refine absurd ?_ h
    rw [eq_append_of_splitOn? hsplit]
    exact ⟨parts.1, parts.2, rfl⟩

theorem blockRest_closed {inner : Text} (rest : Text) (outside : List Text) (hinner : ¬blockClose <:+: inner) :
    ∀ {inside : List Text}, (∀ l ∈ inside, ¬blockClose <:+: l) →
      blockRest (inside ++ (inner ++ blockClose ++ rest) :: outside) =
        ⟨inside.flatMap ('\n' :: ·) ++ '\n' :: inner, inside.length + 1, some (inner ++ blockClose, rest)⟩
  | [], _ => by simp only [List.nil_append, blockRest, splitOn?_blockClose rest hinner]; rfl
  | l :: inside, h => by
    obtain ⟨hl, hinside⟩ := List.forall_mem_cons.1 h
    simp only [List.cons_append, blockRest, splitOn?_eq_none hl,
      blockRest_closed rest outside hinner hinside]
    simp

theorem blockRest_unclosed : ∀ {ls : List Text}, (∀ l ∈ ls, ¬blockClose <:+: l) →
    blockRest ls = ⟨ls.flatMap ('\n' :: ·), ls.length, none⟩
  | [], _ => rfl
  | l :: ls, h => by
    obtain ⟨hl, hls⟩ := List.forall_mem_cons.1 h
    simp only [blockRest, splitOn?_eq_none hl, blockRest_unclosed hls]
    simp

/-! ## The bound on the number of steps -/

/-- What is left of a body on a line and behind it. -/
def leftOver (lines : List Text) (n : Nat) (rest : Text) : Nat :=
  rest.length + (linesBehind lines n).length

theorem leftOver_next {lines : List Text} {n : Nat} {l : Text} (rest : Text) (h : lines[n + 1]? = some l) :
    leftOver lines (n + 1) l < leftOver lines n rest := by
  simp only [leftOver, linesBehind_of_some h, List.cons_append, List.length_cons, List.length_append]
  omega

theorem leftOver_closed (lines : List Text) (n : Nat) {quote : Option Char} {rest before after inner rest' : Text}
    (hfound : findMarker quote rest = .found before .block after)
    (hclose : splitOn? blockClose after = some (inner, rest')) :
    leftOver lines n rest' < leftOver lines n rest := by
  have hrest := congrArg List.length (eq_of_findMarker hfound)
  have hafter := congrArg List.length (eq_append_of_splitOn? hclose)
  simp only [List.length_append, blockClose_eq, List.length_cons] at hrest hafter
  simp only [leftOver]
  omega

/-- Behind the end of a block less is left. -/
theorem leftOver_open {lines inside outside : List Text} {n : Nat} {inner rest' : Text} (rest : Text)
    (hlines : lines.drop (n + 1) = inside ++ (inner ++ blockClose ++ rest') :: outside) :
    leftOver lines (n + (inside.length + 1)) rest' < leftOver lines n rest := by
  simp only [leftOver, (linesBehind_of_drop hlines).2, List.length_append, List.length_cons]
  omega

/-- A bound on the number of steps that exceeds what is left does not matter. -/
theorem stripFrom_fuel (lines : List Text) : ∀ {fuel fuel' n : Nat} {done code rest : Text} {inTemplate : Bool},
    leftOver lines n rest < fuel → leftOver lines n rest < fuel' →
      stripFrom lines fuel n done code rest inTemplate = stripFrom lines fuel' n done code rest inTemplate
  | 0, _, _, _, _, _, _, h, _ => absurd h (Nat.not_lt_zero _)
  | _ + 1, 0, _, _, _, _, _, _, h => absurd h (Nat.not_lt_zero _)
  | fuel + 1, fuel' + 1, n, done, code, rest, inTemplate, h, h' => by
    have hnext : ∀ {l : Text} (b : Bool), lines[n + 1]? = some l →
        stripFrom lines fuel (n + 1) [] [] l b = stripFrom lines fuel' (n + 1) [] [] l b := by
      intro l b hl
      have hless := leftOver_next rest hl
      exact stripFrom_fuel lines (by omega) (by omega)
    simp only [stripFrom]
    split
    · cases hl : lines[n + 1]? with
      | none => rfl
      | some l => simp only [hnext _ hl]
    · cases hl : lines[n + 1]? with
      | none => rfl
      | some l => simp only [hnext _ hl]
    · rename_i before after hfound
      split
      · rename_i inner rest' hclose
        have hless := leftOver_closed lines n hfound hclose
        rw [stripFrom_fuel lines (hless.trans_le (Nat.le_of_lt_succ h)) (hless.trans_le (Nat.le_of_lt_succ h'))]
      · rcases exists_closing (lines.drop (n + 1)) with ⟨inside, inner, rest', outside, hlines, hinside, hinner⟩ | hall
        · have hless := leftOver_open rest hlines
          simp only [hlines, blockRest_closed rest' outside hinner hinside]
          rw [stripFrom_fuel lines (hless.trans_le (Nat.le_of_lt_succ h)) (hless.trans_le (Nat.le_of_lt_succ h'))]
        · simp only [blockRest_unclosed hall]

/-! ## Steps -/

/-- Scans the rest of a line and the lines after it. -/
def strip (lines : List Text) (n : Nat) (done code rest : Text) (inTemplate : Bool) : Stripping :=
  stripFrom lines (leftOver lines n rest + 1) n done code rest inTemplate

/-- Scans lines from a line on. -/
def stripLines (lines : List Text) (n : Nat) (inTemplate : Bool) : Stripping :=
  match lines[n]? with
  | some l => strip lines n [] [] l inTemplate
  | none => ([], [])

/-- The quote that is open at the start of a line. -/
def openQuote (inTemplate : Bool) : Option Char :=
  if inTemplate then some '\x60' else none

section Steps

variable {lines : List Text} {n : Nat} {done code rest before after : Text} {inTemplate : Bool}

/-- Behind a line the scan goes on with the next one. -/
theorem stripFrom_next (lines : List Text) (n : Nat) (rest : Text) (b : Bool) :
    (match lines[n + 1]? with
      | some l => stripFrom lines (leftOver lines n rest) (n + 1) [] [] l b
      | none => ([], [])) = stripLines lines (n + 1) b := by
  simp only [stripLines]
  cases hl : lines[n + 1]? with
  | none => rfl
  | some l => exact stripFrom_fuel lines (leftOver_next rest hl) (Nat.lt_succ_self _)

/-- A line without a marker is kept. -/
theorem strip_clear {b : Bool} (h : findMarker (openQuote inTemplate) rest = .clear b) :
    strip lines n done code rest inTemplate =
      ((if done.isEmpty then [rest] else keepCode (code ++ rest)) ++ (stripLines lines (n + 1) b).1,
        (stripLines lines (n + 1) b).2) := by
  rw [openQuote] at h
  simp only [strip, stripFrom, h]
  exact congrArg (fun next : Stripping =>
    ((if done.isEmpty then [rest] else keepCode (code ++ rest)) ++ next.1, next.2))
    (stripFrom_next lines n rest b)

/-- A line comment takes the rest of its line. -/
theorem strip_line (h : findMarker (openQuote inTemplate) rest = .found before .line after) :
    strip lines n done code rest inTemplate =
      (keepCode (code ++ before) ++ (stripLines lines (n + 1) false).1,
        ⟨.line, trim after, n + 1, (done ++ before).length + 1, none,
          (associate lines (code ++ before) n n false).1, (associate lines (code ++ before) n n false).2⟩
          :: (stripLines lines (n + 1) false).2) := by
  rw [openQuote] at h
  simp only [strip, stripFrom, h]
  exact congrArg (fun next : Stripping => (keepCode (code ++ before) ++ next.1,
    ⟨.line, trim after, n + 1, (done ++ before).length + 1, none,
      (associate lines (code ++ before) n n false).1, (associate lines (code ++ before) n n false).2⟩
      :: next.2)) (stripFrom_next lines n rest false)

/-- Behind a block that is closed on its line the scan goes on in code. -/
theorem strip_block {inner rest' : Text} (h : findMarker (openQuote inTemplate) rest = .found before .block after)
    (hclose : splitOn? blockClose after = some (inner, rest')) :
    strip lines n done code rest inTemplate =
      ((strip lines n (done ++ before ++ "/*".toList ++ inner ++ blockClose) (code ++ before) rest' false).1,
        ⟨.block, inner, n + 1, (done ++ before).length + 1, none,
          (associate lines (code ++ before) n n false).1, (associate lines (code ++ before) n n false).2⟩
          :: (strip lines n (done ++ before ++ "/*".toList ++ inner ++ blockClose) (code ++ before) rest'
            false).2) := by
  have hless := leftOver_closed lines n h hclose
  rw [openQuote] at h
  conv => lhs; simp only [strip, stripFrom, h, hclose]
  rw [stripFrom_fuel lines hless (Nat.lt_succ_self _)]
  rfl

/-- Where a block ends on a later line, the scan goes on in code. -/
theorem strip_open {inside outside : List Text} {inner rest' : Text}
    (h : findMarker (openQuote inTemplate) rest = .found before .block after) (hopen : splitOn? blockClose after = none)
    (hlines : lines.drop (n + 1) = inside ++ (inner ++ blockClose ++ rest') :: outside)
    (hinside : ∀ l ∈ inside, ¬blockClose <:+: l) (hinner : ¬blockClose <:+: inner) :
    strip lines n done code rest inTemplate =
      (keepCode (code ++ before) ++ (strip lines (n + (inside.length + 1)) (inner ++ blockClose) [] rest' false).1,
        ⟨.block, after ++ (inside.flatMap ('\n' :: ·) ++ '\n' :: inner), n + 1, (done ++ before).length + 1,
          some (n + (inside.length + 1) + 1, (inner ++ blockClose).length),
          (associate lines (code ++ before) n (n + (inside.length + 1)) true).1,
          (associate lines (code ++ before) n (n + (inside.length + 1)) true).2⟩
          :: (strip lines (n + (inside.length + 1)) (inner ++ blockClose) [] rest' false).2) := by
  have hless := leftOver_open rest hlines
  rw [openQuote] at h
  conv => lhs; simp only [strip, stripFrom, h, hopen, hlines, blockRest_closed rest' outside hinner hinside]
  rw [stripFrom_fuel lines hless (Nat.lt_succ_self _)]
  rfl

/-- A block that is not closed takes all that is left. -/
theorem strip_unclosed (h : findMarker (openQuote inTemplate) rest = .found before .block after)
    (hopen : splitOn? blockClose after = none) (hlines : ∀ l ∈ lines.drop (n + 1), ¬blockClose <:+: l) :
    strip lines n done code rest inTemplate =
      (keepCode (code ++ before),
        [⟨.block, after ++ linesBehind lines n, n + 1, (done ++ before).length + 1,
          some (n + (lines.drop (n + 1)).length + 1, (lines[n + (lines.drop (n + 1)).length]?.getD []).length),
          (associate lines (code ++ before) n (n + (lines.drop (n + 1)).length) true).1,
          (associate lines (code ++ before) n (n + (lines.drop (n + 1)).length) true).2⟩]) := by
  rw [openQuote] at h
  simp only [strip, stripFrom, h, hopen, blockRest_unclosed hlines, List.append_nil]
  rfl

end Steps

/-- What holds of every place at which the scan takes up a line, if it holds of each place once it holds of those to
which the scan goes on from there. -/
theorem strip_induction (lines : List Text)
    {motive : (n : Nat) → (done code rest : Text) → (inTemplate : Bool) → Prop}
    (clear : ∀ n done code rest b b', findMarker (openQuote b) rest = .clear b' →
      (∀ l, lines[n + 1]? = some l → motive (n + 1) [] [] l b') → motive n done code rest b)
    (line : ∀ n done code rest b before after, findMarker (openQuote b) rest = .found before .line after →
      (∀ l, lines[n + 1]? = some l → motive (n + 1) [] [] l false) → motive n done code rest b)
    (block : ∀ n done code rest b before inner rest', ¬blockClose <:+: inner →
      findMarker (openQuote b) rest = .found before .block (inner ++ blockClose ++ rest') →
      motive n (done ++ before ++ "/*".toList ++ inner ++ blockClose) (code ++ before) rest' false →
      motive n done code rest b)
    (opened : ∀ n done code rest b before after inside inner rest' outside,
      findMarker (openQuote b) rest = .found before .block after → ¬blockClose <:+: after →
      lines.drop (n + 1) = inside ++ (inner ++ blockClose ++ rest') :: outside → (∀ l ∈ inside, ¬blockClose <:+: l) →
      ¬blockClose <:+: inner → motive (n + (inside.length + 1)) (inner ++ blockClose) [] rest' false →
      motive n done code rest b)
    (unclosed : ∀ n done code rest b before after, findMarker (openQuote b) rest = .found before .block after →
      ¬blockClose <:+: after → (∀ l ∈ lines.drop (n + 1), ¬blockClose <:+: l) → motive n done code rest b)
    (n : Nat) (done code rest : Text) (b : Bool) : motive n done code rest b := by
  have ih : ∀ n' done' code' rest' b', leftOver lines n' rest' < leftOver lines n rest →
      motive n' done' code' rest' b' := fun n' done' code' rest' b' _ =>
    strip_induction lines clear line block opened unclosed n' done' code' rest' b'
  cases hfind : findMarker (openQuote b) rest with
  | clear b' => exact clear _ _ _ _ _ _ hfind fun l hl => ih _ _ _ _ _ (leftOver_next rest hl)
  | found before kind after =>
    cases kind with
    | line => exact line _ _ _ _ _ _ _ hfind fun l hl => ih _ _ _ _ _ (leftOver_next rest hl)
    | block =>
      cases hclose : splitOn? blockClose after with
      | some parts =>
        have hless := leftOver_closed lines n hfind hclose
        obtain rfl := eq_append_of_splitOn? hclose
        exact block _ _ _ _ _ _ _ _ (not_infix_of_splitOn? blockClose_ne_nil hclose) hfind (ih _ _ _ _ _ hless)
      | none =>
        have hopen := not_infix_of_splitOn?_eq_none hclose
        rcases exists_closing (lines.drop (n + 1)) with ⟨inside, inner, rest', outside, hlines, hinside, hinner⟩ | hall
        · have hless := leftOver_open rest hlines
          exact opened _ _ _ _ _ _ _ _ _ _ _ hfind hopen hlines hinside hinner (ih _ _ _ _ _ hless)
        · exact unclosed _ _ _ _ _ _ _ hfind hopen hall
termination_by leftOver lines n rest

theorem nearestKey?_of_isSkippable {l : Text} (h : isSkippable (trim l) = true) (ls : List Text) :
    nearestKey? (l :: ls) = nearestKey? ls := by
  rw [nearestKey?, List.map_cons, List.dropWhile_cons_of_pos h, nearestKey?]

/-- A body begins with a line, with which its scan begins. -/
theorem exists_firstLine (body : Text) : ∃ l, (splitLines body)[0]? = some l ∧
    l ++ linesBehind (splitLines body) 0 = body ∧
      stripLines (splitLines body) 0 false = strip (splitLines body) 0 [] [] l false := by
  obtain ⟨l, ls, hls⟩ := List.exists_cons_of_ne_nil (splitLines_ne_nil body)
  have hfirst : (splitLines body)[0]? = some l := by rw [hls]; rfl
  exact ⟨l, hfirst, append_linesBehind hls, by rw [stripLines, hfirst]⟩

/-- Comments are taken out of a body from its first line on. -/
theorem stripComments_eq (body : Text) : stripComments body =
    ⟨tidy (stripLines (splitLines body) 0 false).1, (stripLines (splitLines body) 0 false).2⟩ := by
  obtain ⟨l, ls, hls⟩ := List.exists_cons_of_ne_nil (splitLines_ne_nil body)
  have hleft : leftOver (splitLines body) 0 l = body.length := by
    rw [leftOver, ← List.length_append, append_linesBehind hls]
  have hfirst : stripFrom (splitLines body) (body.length + 2) 0 [] [] l false =
      stripLines (splitLines body) 0 false := by
    simp only [stripLines, strip]
    rw [hls, List.getElem?_cons_zero, ← hls]
    exact stripFrom_fuel _ (by omega) (Nat.lt_succ_self _)
  simp only [stripComments]
  rw [← hfirst]
  simp [hls]

end StyleHoist
