import StyleHoist.Proofs.Registry.Listing

/-!
# Reading lines

What a reader finds in a text does not depend on how its lines are laid out. Blanks around a line only matter to what
comments say, so places are compared but for that (`Place.bare`).

- `read_layout`: lines may be indented and lose the blanks at their ends.
- `Closed.nested`: a text in which all brackets are closed is read in the same way inside of brackets.
-/

namespace StyleHoist
namespace Listing

open Text

/-! ## Places but for comments -/

/-- What a reader is inside of, but for what a comment says. -/
def Stand.bare : Stand → Stand
  | .lineComment _ => .lineComment []
  | .blockComment _ => .blockComment []
  | .star _ => .star []
  | s => s

/-- Where a reader is, but for what a comment says. -/
def Place.bare (p : Place) : Place := ⟨p.stand.bare, p.due⟩

theorem step_bare (p : Place) (c : Char) : (p.bare.step c).1.bare = (p.step c).1.bare := by
  obtain ⟨stand, due⟩ := p
  cases stand with
  | lineComment text => by_cases hc : c = '\n' <;> simp [Place.bare, Stand.bare, Place.step, hc]
  | blockComment text => by_cases hc : c = '*' <;> simp [Place.bare, Stand.bare, Place.step, hc]
  | star text =>
    by_cases hc : c = '/'
    · simp [Place.bare, Stand.bare, Place.step, hc]
    · by_cases hc' : c = '*' <;> simp [Place.bare, Stand.bare, Place.step, hc, hc']
  | _ => rfl

/-- What follows does not depend on what a comment says. -/
theorem read_bare (p : Place) (t : Text) : (p.bare.read t).1.bare = (p.read t).1.bare := by
  induction t generalizing p with
  | nil =>
    obtain ⟨stand, due⟩ := p
    cases stand <;> rfl
  | cons c t ih => rw [read_cons, read_cons, ← ih, step_bare, ih]

theorem read_congr {p q : Place} (h : p.bare = q.bare) (t : Text) : (p.read t).1.bare = (q.read t).1.bare := by
  rw [← read_bare, h, read_bare]

/-- A place in code is known from what it is but for comments. -/
theorem eq_of_bare_code {p : Place} {due : List Char} (h : p.bare = ⟨.code, due⟩) : p = ⟨.code, due⟩ := by
  obtain ⟨stand, due'⟩ := p
  cases stand <;> simp_all [Place.bare, Stand.bare]

/-! ## Layout -/

/-- Text without a newline. -/
def IsLine (l : Text) : Prop := '\n' ∉ l

instance (l : Text) : Decidable (IsLine l) := inferInstanceAs (Decidable ('\n' ∉ l))

theorem isLine_cons {c : Char} {l : Text} : IsLine (c :: l) ↔ '\n' ≠ c ∧ IsLine l := by
  simp [IsLine]

theorem IsLine.append {s t : Text} (hs : IsLine s) (ht : IsLine t) : IsLine (s ++ t) := fun hm =>
  (List.mem_append.1 hm).elim hs ht

theorem quote_ne_blank (q : Quote) {c : Char} (hc : isBlankChar c = true) : c ≠ q.1 := by
  refine ne_of_isBlankChar hc ?_
  have := q.2
  simp only [opensQuote, Bool.or_eq_true, beq_iff_eq] at this
  rcases this with (h | h) | h <;> rw [h] <;> decide

/-- A blank before the end of a line leads to where the end of the line leads. -/
theorem step_blank_newline (p : Place) {c : Char} (hc : isBlankChar c = true) (hline : c ≠ '\n') :
    ((p.step c).1.step '\n').1.bare = (p.step '\n').1.bare := by
  have hne := fun d hd => ne_of_isBlankChar (d := d) hc hd
  obtain ⟨stand, due⟩ := p
  have hnewline : codeStep due '\n' = (⟨.code, due⟩, [.code '\n']) := codeStep_blank due (by decide)
  cases stand with
  | code => simp [Place.step, codeStep_blank due hc]
  | slash => simp [Place.step, codeStep_blank due hc, hne '/' (by decide), hne '*' (by decide), hnewline]
  | quoted q => simp [Place.step, hne '\\' (by decide), quote_ne_blank q hc]
  | escaped q => simp [Place.step, quote_ne_blank q (c := '\n') (by decide)]
  | lineComment text => simp [Place.step, hline]
  | blockComment text => simp [Place.step, hne '*' (by decide), Place.bare, Stand.bare]
  | star text => simp [Place.step, hne '/' (by decide), hne '*' (by decide), Place.bare, Stand.bare]
  | broken => rfl

/-- Blanks at the end of a line do not matter. -/
theorem read_blank_newline (p : Place) : ∀ {margin : Text}, isBlank margin = true → IsLine margin →
    (p.read (margin ++ ['\n'])).1.bare = (p.step '\n').1.bare
  | [], _, _ => rfl
  | c :: margin, hblank, hline => by
    obtain ⟨hc, hmargin⟩ := isBlank_cons.1 hblank
    obtain ⟨hne, hline⟩ : '\n' ≠ c ∧ '\n' ∉ margin := by simpa [IsLine] using hline
    rw [List.cons_append, read_cons, read_blank_newline _ hmargin hline]
    exact step_blank_newline p hc (Ne.symm hne)

theorem read_trimEnd (p : Place) {l : Text} (h : IsLine l) :
    (p.read (trimEnd l ++ ['\n'])).1.bare = (p.read (l ++ ['\n'])).1.bare := by
  obtain ⟨margin, hl, hblank⟩ := trimEnd_append_blank l
  have hmargin : IsLine margin := fun hm => h (hl ▸ List.mem_append_right _ hm)
  conv => rhs; rw [hl, List.append_assoc, read_append_fst, read_blank_newline _ hblank hmargin]
  rw [read_append_fst]
  rfl

/-- A reader at the start of a line is not in the middle of something that spans two characters. -/
def Place.AtLine (p : Place) : Prop :=
  match p.stand with
  | .code | .quoted _ | .blockComment _ | .broken => True
  | _ => False

theorem atLine_step_newline (p : Place) : (p.step '\n').1.AtLine := by
  obtain ⟨stand, due⟩ := p
  have hnewline : codeStep due '\n' = (⟨.code, due⟩, [.code '\n']) := codeStep_blank due (by decide)
  cases stand with
  | code => simp [Place.step, hnewline, Place.AtLine]
  | slash => simp [Place.step, hnewline, Place.AtLine]
  | quoted q => simp [Place.step, quote_ne_blank q (c := '\n') (by decide), Place.AtLine]
  | _ => simp [Place.step, Place.AtLine]

theorem atLine_of_bare {p q : Place} (h : p.bare = q.bare) (hp : p.AtLine) : q.AtLine := by
  obtain ⟨stand, due⟩ := p
  obtain ⟨stand', due'⟩ := q
  cases stand <;> cases stand' <;> simp_all [Place.bare, Stand.bare, Place.AtLine]

/-- Blanks at the start of a line do not matter. -/
theorem read_indent {p : Place} (h : p.AtLine) {indent : Text} (hblank : isBlank indent = true) :
    (p.read indent).1.bare = p.bare := by
  induction indent generalizing p with
  | nil => rfl
  | cons c indent ih =>
    obtain ⟨hc, hindent⟩ := isBlank_cons.1 hblank
    have hne := fun d hd => ne_of_isBlankChar (d := d) hc hd
    have hstep : (p.step c).1.bare = p.bare := by
      obtain ⟨stand, due⟩ := p
      cases stand with
      | code => simp [Place.step, codeStep_blank due hc]
      | quoted q => simp [Place.step, hne '\\' (by decide), quote_ne_blank q hc]
      | blockComment text => simp [Place.step, hne '*' (by decide), Place.bare, Stand.bare]
      | broken => rfl
      | _ => exact absurd h (by simp [Place.AtLine])
    rw [read_cons, ih (atLine_of_bare hstep.symm h) hindent, hstep]

/-- Lines with an indentation and no blanks at their ends. -/
def layout (indent : Text) (lines : List Text) : List Text :=
  lines.map fun l => trimEnd (indent ++ l)

/-- Lines with a newline behind each. -/
def unlines (lines : List Text) : Text :=
  lines.flatMap (· ++ ['\n'])

theorem unlines_cons (l : Text) (ls : List Text) : unlines (l :: ls) = l ++ ['\n'] ++ unlines ls := rfl

theorem unlines_append (ks ls : List Text) : unlines (ks ++ ls) = unlines ks ++ unlines ls := List.flatMap_append

theorem read_line_layout {p : Place} (hp : p.AtLine) {indent l : Text} (hblank : isBlank indent = true)
    (hindent : IsLine indent) (hl : IsLine l) :
    (p.read (trimEnd (indent ++ l) ++ ['\n'])).1.bare = (p.read (l ++ ['\n'])).1.bare := by
  have hline : IsLine (indent ++ l) := fun hm => (List.mem_append.1 hm).elim hindent hl
  rw [read_trimEnd p hline, List.append_assoc, read_append_fst]
  exact read_congr (read_indent hp hblank) _

theorem atLine_read_newline (p : Place) (l : Text) : (p.read (l ++ ['\n'])).1.AtLine := by
  rw [read_append_fst]
  exact atLine_step_newline _

/-- The layout of lines does not matter. -/
theorem read_layout {indent : Text} (hblank : isBlank indent = true) (hindent : IsLine indent) :
    ∀ {lines : List Text} {p : Place}, p.AtLine → (∀ l ∈ lines, IsLine l) →
      (p.read (unlines (layout indent lines))).1.bare = (p.read (unlines lines)).1.bare
  | [], _, _, _ => rfl
  | l :: lines, p, hp, hlines => by
    have hl := hlines l (by simp)
    have hfirst := read_line_layout hp hblank hindent hl
    have hrest := read_layout hblank hindent (atLine_read_newline p l) fun m hm => hlines m (List.mem_cons_of_mem _ hm)
    have hcons : layout indent (l :: lines) = trimEnd (indent ++ l) :: layout indent lines := rfl
    rw [hcons, unlines_cons, unlines_cons, read_append_fst p (_ ++ ['\n']), read_append_fst p (l ++ ['\n'])]
    exact (read_congr hfirst _).trans hrest

/-! ## Nesting -/

/-- A text that is read without ending in a bracket that closes none is read in the same way inside of brackets, where
no comma ends an entry. -/
theorem codeStep_nested {ds due : List Char} {c : Char} (hds : ds ≠ []) (h : (codeStep due c).1.stand ≠ .broken) :
    (codeStep (due ++ ds) c).1 = ⟨(codeStep due c).1.stand, (codeStep due c).1.due ++ ds⟩ ∧
      .comma ∉ (codeStep (due ++ ds) c).2 := by
  unfold codeStep at h ⊢
  split
  · simp
  · split
    · simp
    · split
      · rename_i hslash hquote hcloses
        cases due with
        | nil => simp [hslash, hquote, hcloses, closeStep] at h
        | cons d due =>
          by_cases hd : d = c
          · simp [closeStep, hd]
          · simp [hslash, hquote, hcloses, closeStep, hd] at h
      · split
        · rename_i hcomma
          simp [hds] at hcomma
        · split
          · rename_i hcomma
            simp only [Bool.and_eq_true, beq_iff_eq, List.isEmpty_iff] at hcomma
            simp [hcomma.1, hcomma.2, closer?]
          · simp

theorem step_nested {ds : List Char} {p : Place} {c : Char} (hds : ds ≠ []) (h : (p.step c).1.stand ≠ .broken) :
    (Place.step ⟨p.stand, p.due ++ ds⟩ c).1 = ⟨(p.step c).1.stand, (p.step c).1.due ++ ds⟩ ∧
      .comma ∉ (Place.step ⟨p.stand, p.due ++ ds⟩ c).2 := by
  obtain ⟨stand, due⟩ := p
  cases stand with
  | code => exact codeStep_nested hds h
  | slash =>
    simp only [Place.step] at h ⊢
    split
    · simp
    · split
      · simp
      · rename_i hline hblock
        simp only [hline, hblock, if_false, Bool.false_eq_true] at h
        obtain ⟨hplace, hcomma⟩ := codeStep_nested hds h
        exact ⟨hplace, by simpa using hcomma⟩
  | quoted q => simp [Place.step]
  | escaped q => simp [Place.step]
  | lineComment text => by_cases hc : c = '\n' <;> simp [Place.step, hc]
  | blockComment text => by_cases hc : c = '*' <;> simp [Place.step, hc]
  | star text =>
    by_cases hc : c = '/'
    · simp [Place.step, hc]
    · by_cases hc' : c = '*' <;> simp [Place.step, hc, hc']
  | broken => simp [Place.step]

theorem read_nested {ds : List Char} (hds : ds ≠ []) : ∀ {t : Text} {p : Place}, (p.read t).1.stand ≠ .broken →
    (Place.read ⟨p.stand, p.due ++ ds⟩ t).1 = ⟨(p.read t).1.stand, (p.read t).1.due ++ ds⟩ ∧
      .comma ∉ (Place.read ⟨p.stand, p.due ++ ds⟩ t).2
  | [], p, _ => ⟨rfl, List.not_mem_nil⟩
  | c :: t, p, h => by
    have hstep : (p.step c).1.stand ≠ .broken := by
      intro hb
      have hp : (p.step c).1 = ⟨.broken, (p.step c).1.due⟩ := by rw [← hb]
      rw [read_cons, hp] at h
      exact h (congrArg Place.stand (read_broken _ t))
    obtain ⟨hplace, hcomma⟩ := step_nested hds hstep
    obtain ⟨hplace', hcomma'⟩ := read_nested hds (t := t) (p := (p.step c).1) h
    rw [read_cons, hplace]
    exact ⟨hplace', fun hm => (List.mem_append.1 hm).elim hcomma hcomma'⟩

/-- A text in which all brackets are closed. -/
def Closed (t : Text) : Prop := (start.read t).1 = start

theorem Closed.append {s t : Text} (hs : Closed s) (ht : Closed t) : Closed (s ++ t) := by
  rw [Closed, read_append_fst, hs]
  exact ht

theorem closed_newline : Closed ['\n'] := rfl

/-- Inside of brackets such a text has no commas that end entries. -/
theorem Closed.nested {t : Text} (h : Closed t) {ds : List Char} (hds : ds ≠ []) :
    (Place.read ⟨.code, ds⟩ t).1 = ⟨.code, ds⟩ ∧ .comma ∉ (Place.read ⟨.code, ds⟩ t).2 := by
  have hclosed : (start.read t).1 = start := h
  have hnested := read_nested hds (p := start) (t := t) (by rw [hclosed]; simp [start])
  rw [hclosed] at hnested
  exact hnested

/-! ## Lines -/

theorem isLine_of_mem_splitLines : ∀ {t l : Text}, l ∈ splitLines t → IsLine l
  | [], l, h => by
    have hl : l = [] := by simpa [splitLines] using h
    simp [IsLine, hl]
  | c :: t, l, h => by
    simp only [splitLines] at h
    split at h
    · rcases List.mem_cons.1 h with rfl | h
      · simp [IsLine]
      · exact isLine_of_mem_splitLines h
    · rename_i hc
      have hc : '\n' ≠ c := fun e => hc (by simpa using e.symm)
      split at h
      · have hl : l = [c] := by simpa using h
        simpa [IsLine, hl] using hc
      · rename_i m ms hms
        rcases List.mem_cons.1 h with rfl | h
        · have hm : IsLine m := isLine_of_mem_splitLines (t := t) (by rw [hms]; simp)
          simpa [IsLine, hc] using hm
        · exact isLine_of_mem_splitLines (t := t) (by rw [hms]; exact List.mem_cons_of_mem _ h)

theorem splitLines_of_isLine : ∀ {t : Text}, IsLine t → splitLines t = [t]
  | [], _ => rfl
  | c :: t, h => by
    obtain ⟨hc, ht⟩ := isLine_cons.1 h
    simp [splitLines, Ne.symm hc, splitLines_of_isLine ht]

theorem splitLines_append_of_isLine : ∀ {s : Text}, IsLine s → ∀ {t l : Text} {ls : List Text},
    splitLines t = l :: ls → splitLines (s ++ t) = (s ++ l) :: ls
  | [], _, _, _, _, h => h
  | c :: s, hs, t, l, ls, h => by
    obtain ⟨hc, hs⟩ := isLine_cons.1 hs
    simp [splitLines, Ne.symm hc, splitLines_append_of_isLine hs h]

theorem splitLines_append_newline : ∀ (s t : Text), splitLines (s ++ '\n' :: t) = splitLines s ++ splitLines t
  | [], t => by simp [splitLines]
  | c :: s, t => by
    have ih := splitLines_append_newline s t
    obtain ⟨l, ls, hls⟩ := List.exists_cons_of_ne_nil (splitLines_ne_nil s)
    simp only [List.cons_append, splitLines, ih, hls]
    split <;> rfl

theorem joinLines_cons {l : Text} {ls : List Text} (h : ls ≠ []) : joinLines (l :: ls) = l ++ '\n' :: joinLines ls := by
  obtain ⟨m, ms, rfl⟩ := List.exists_cons_of_ne_nil h
  simp [joinLines, joinWith]

theorem joinLines_eq_flatMap : ∀ (l : Text) (ls : List Text), joinLines (l :: ls) = l ++ ls.flatMap ('\n' :: ·)
  | l, [] => by simp [joinLines, joinWith]
  | l, m :: ls => by
    rw [joinLines_cons (List.cons_ne_nil m ls), joinLines_eq_flatMap m ls, List.flatMap_cons, List.cons_append]

theorem joinLines_append {ls : List Text} (h : ls ≠ []) : ∀ ks : List Text,
    joinLines (ks ++ ls) = unlines ks ++ joinLines ls
  | [] => rfl
  | k :: ks => by
    rw [List.cons_append, joinLines_cons (by simp [h]), joinLines_append h ks, unlines_cons]
    simp

theorem joinLines_concat (ls : List Text) (l : Text) : joinLines (ls ++ [l]) = unlines ls ++ l :=
  joinLines_append (List.cons_ne_nil l []) ls

theorem unlines_eq {ls : List Text} (h : ls ≠ []) : unlines ls = joinLines ls ++ ['\n'] := by
  rw [← List.dropLast_concat_getLast h, joinLines_concat, unlines_append]
  simp [unlines]

theorem splitLines_joinLines : ∀ {ls : List Text}, ls ≠ [] → (∀ l ∈ ls, IsLine l) → splitLines (joinLines ls) = ls
  | [], h, _ => absurd rfl h
  | [l], _, h => splitLines_of_isLine (h l (by simp))
  | l :: m :: ls, _, h => by
    rw [joinLines_cons (by simp), splitLines_append_newline, splitLines_of_isLine (h l (by simp)),
      splitLines_joinLines (by simp) fun k hk => h k (List.mem_cons_of_mem _ hk)]
    rfl

/-- The last line of a text and the first line of the text behind it become one. -/
theorem splitLines_append {t m : Text} {ms : List Text} (ht : splitLines t = m :: ms) : ∀ {ls : List Text} {s l : Text},
    splitLines s = ls ++ [l] → splitLines (s ++ t) = ls ++ (l ++ m) :: ms
  | [], s, l, hs => by
    have hl : IsLine l := isLine_of_mem_splitLines (t := s) (by simp [hs])
    rw [← joinLines_splitLines s, hs]
    exact splitLines_append_of_isLine hl ht
  | k :: ls, s, l, hs => by
    have hmem : ∀ j ∈ k :: (ls ++ [l]), IsLine j := fun j hj => isLine_of_mem_splitLines (t := s) (hs ▸ hj)
    obtain ⟨hk, hrest⟩ := List.forall_mem_cons.1 hmem
    have hs' : s = k ++ '\n' :: joinLines (ls ++ [l]) := by
      rw [← joinLines_splitLines s, hs, List.cons_append, joinLines_cons (by simp)]
    rw [hs', List.append_assoc, List.cons_append, splitLines_append_newline, splitLines_of_isLine hk,
      splitLines_append ht (splitLines_joinLines (by simp) hrest)]
    rfl

theorem isLine_trimEnd {l : Text} (h : IsLine l) : IsLine (trimEnd l) := by
  obtain ⟨margin, heq, -⟩ := trimEnd_append_blank l
  exact fun hm => h (heq ▸ List.mem_append_left _ hm)

end Listing
end StyleHoist
