import StyleHoist.Proofs.Script.Lines

/-!
# Lines that are kept

Of the lines of a body some are kept, and tidied afterwards. Lines have the words of bits (`Gives`) if a reader finds
those words in them, wherever both stand.

- `Gives.keep`: of a line that ends outside of a literal, the blanks at its end need not be kept.
- `words_tidy`: tidying lines keeps their words, unless blank lines are left out in a template.
-/

namespace StyleHoist
namespace Tokens

open Text Listing

/-! ## Lines that are kept -/

/-- What a reader is inside of where lines are kept: code or a template. -/
def Mode.KeepsLines (m : Mode) : Prop :=
  m = .code ∨ m = .quoted '\x60'

/-- A blank line that is the last, or stands before another, stands in code. -/
def Calm : Mode → List Text → Prop
  | _, [] => True
  | m, l :: ls =>
    (isBlank l = true → ls.head?.all isBlank = true → m = .code) ∧ Calm (m.read (l ++ ['\n'])).1 ls

/-- Lines that are read on from somewhere have the words of bits, wherever both stand; in code they stand behind white
space. Blank lines among them may be left out. -/
structure Gives (m : Mode) (xs : List Bit) (kept : List Text) : Prop where
  words : ∀ before : List Bit, (m = .code → ∃ bs, before = bs ++ [.space]) →
    words (before ++ xs) = words (before ++ (m.read (unlines kept)).2)
  calm : Calm m kept

/-- White space ends a line behind which a reader is in code. -/
theorem exists_concat_space {m : Mode} {l : Text} {xs : List Bit} (h : m.read (l ++ ['\n']) = (.code, xs)) :
    ∃ ys, xs = ys ++ [.space] := by
  rw [read_append] at h
  obtain ⟨hmode, rfl⟩ := Prod.ext_iff.1 h
  have hstep : ∃ ys, ((m.read l).1.read ['\n']).2 = ys ++ [.space] := by
    have hquoted : ∀ {q : Char}, (quotedStep q '\n').1 = .code → ∃ ys, (quotedStep q '\n').2 = ys ++ [.space] := by
      intro q hq
      by_cases htemplate : q = '\x60'
      · subst htemplate
        cases hq
      · exact ⟨[], by simp [quotedStep, htemplate]⟩
    revert hmode
    generalize (m.read l).1 = p
    intro hmode
    cases p with
    | code => exact ⟨[], rfl⟩
    | slash => exact ⟨[.code '/'], rfl⟩
    | quoted q =>
      obtain ⟨ys, hys⟩ := hquoted hmode
      exact ⟨ys, by rw [read_cons, Mode.step, read_nil, List.append_nil, hys]⟩
    | lineComment => exact ⟨[.comment], rfl⟩
    | _ => cases hmode
  obtain ⟨ys, hys⟩ := hstep
  exact ⟨(m.read l).2 ++ ys, by rw [hys, List.append_assoc]⟩

section Gives

variable {m m' : Mode} {xs ys : List Bit} {l : Text} {more : List Text}

theorem gives_nil (m : Mode) : Gives m [] [] :=
  ⟨fun _ _ => rfl, trivial⟩

/-- A line that is kept as it is. -/
theorem Gives.cons (h : Gives m' ys more) (hread : m.read (l ++ ['\n']) = (m', xs))
    (hcalm : isBlank l = true → more.head?.all isBlank = true → m = .code) : Gives m (xs ++ ys) (l :: more) where
  words before _ := by
    rw [unlines_cons, read_append_of hread, ← List.append_assoc, ← List.append_assoc]
    refine h.words (before ++ xs) fun hcode => ?_
    obtain ⟨zs, rfl⟩ := exists_concat_space (hcode ▸ hread)
    exact ⟨before ++ zs, by rw [List.append_assoc]⟩
  calm := ⟨hcalm, by rw [hread]; exact h.calm⟩

/-- White space between lines of code does not matter. -/
theorem Gives.spaces (h : Gives .code ys more) (n : Nat) : Gives .code (List.replicate n .space ++ ys) more where
  words before hbefore := by
    obtain ⟨bs, rfl⟩ := hbefore rfl
    rw [← h.words _ hbefore, List.append_assoc, List.append_assoc]
    exact (words_append_space bs _).trans ((congrArg _ (words_spaces n ys)).trans (words_append_space bs ys).symm)
  calm := h.calm

end Gives

/-- Blank code stands in code if it ends there. -/
theorem eq_code_of_isBlank {m : Mode} {s : Text} (hm : m.KeepsLines) (hs : isBlank s = true) (hline : IsLine s)
    (hread : (m.read s).1.inLiteral = false) : m = .code := by
  rcases hm with rfl | rfl
  · rfl
  · rw [inLiteral_read_blank rfl (by decide) hs hline] at hread
    cases hread

theorem Mode.KeepsLines.isSound {m : Mode} (h : m.KeepsLines) : m.isSound = true := by
  rcases h with rfl | rfl <;> decide

theorem Mode.KeepsLines.inComment {m : Mode} (h : m.KeepsLines) : m.inComment = false := by
  rcases h with rfl | rfl <;> rfl

/-- Code that is kept of a line. -/
theorem Gives.keep {m m' : Mode} {s : Text} {xs ys : List Bit} {more : List Text} (h : Gives m' ys more)
    (hm : m.KeepsLines) (hm' : m'.KeepsLines) (hline : IsLine s) (hread : m.read (s ++ ['\n']) = (m', xs))
    (hcomment : .comment ∉ xs) (hblank : isBlank s = true → m = .code)
    (hmargin : (m.read s).1.inLiteral = true → trimEnd s = s) : Gives m (xs ++ ys) (keepCode s ++ more) := by
  cases hs : isBlank s with
  | true =>
    obtain rfl := hblank hs
    rw [read_blank (isBlank_append_newline hs)] at hread
    obtain ⟨rfl, rfl⟩ := Prod.ext_iff.1 hread
    rw [keepCode, if_pos hs]
    exact h.spaces _
  | false =>
    rw [keepCode, if_neg (by simp [hs])]
    obtain ⟨margin, hsplit, hmarginBlank⟩ := trimEnd_append_blank s
    have hsolid : isBlank (trimEnd s) = true → more.head?.all isBlank = true → m = .code := by
      intro hend _
      rw [isBlank_trimEnd, hs] at hend
      cases hend
    by_cases hend : trimEnd s = s
    · rw [hend] at hsolid ⊢
      exact h.cons hread hsolid
    · have hmarginLine : IsLine margin := fun hm => hline (hsplit ▸ List.mem_append_right _ hm)
      have hliteral : (m.read s).1.inLiteral = false := by
        cases hlit : (m.read s).1.inLiteral with
        | false => rfl
        | true => exact absurd (hmargin hlit) hend
      rw [hsplit, List.append_assoc, read_append] at hread
      rw [hsplit, read_append] at hliteral
      obtain ⟨hmode, rfl⟩ := Prod.ext_iff.1 hread
      obtain ⟨zs, k, hnewline, hread'⟩ := read_margin (isSound_read hm.isSound (trimEnd s)) hmarginBlank hmarginLine
        hliteral (fun hc => hcomment (List.mem_append_right _ hc)) (by rw [hmode]; exact hm'.inComment)
      rw [hread'] at hmode ⊢
      obtain rfl : m' = .code := hmode.symm
      have hline' : m.read (trimEnd s ++ ['\n']) = (.code, (m.read (trimEnd s)).2 ++ zs) := by
        rw [read_append, hnewline]
      simpa only [List.append_assoc, List.singleton_append] using (h.spaces k).cons hline' hsolid

/-- Code that is kept of a line, where white space follows on it. -/
theorem Gives.keepCode {m : Mode} {s : Text} {xs ys : List Bit} {more : List Text} (h : Gives .code ys more)
    (hm : m.KeepsLines) (hline : IsLine s) (hread : m.read s = (.code, xs)) (hcomment : .comment ∉ xs) (k : Nat) :
    Gives m (xs ++ List.replicate (k + 1) .space ++ ys) (keepCode s ++ more) := by
  have hliteral : (m.read s).1.inLiteral = false := by rw [hread]; rfl
  have hnewline : m.read (s ++ ['\n']) = (.code, xs ++ [.space]) := by
    rw [read_append_of hread]
    rfl
  have hkept := (h.spaces k).keep hm (Or.inl rfl) hline hnewline (by simpa using hcomment)
    (fun hs => eq_code_of_isBlank hm hs hline hliteral) (fun hlit => by rw [hliteral] at hlit; cases hlit)
  simpa [List.replicate_succ] using hkept

/-! ## Tidying -/

/-- Blank lines in a row stand in code and may become one. -/
theorem gives_collapseBlank : ∀ {ls : List Text} {m : Mode} {b : Bool}, Calm m ls →
    (b = true → ls.head?.all isBlank = true → m = .code) → Gives m (m.read (unlines ls)).2 (collapseBlank b ls)
  | [], m, _, _, _ => gives_nil m
  | l :: ls, m, b, ⟨hcalm, hrest⟩, hb => by
    rw [unlines_cons, read_append]
    by_cases hdrop : (b && isBlank l) = true
    · obtain ⟨rfl, hl⟩ := Bool.and_eq_true_iff.1 hdrop
      obtain rfl := hb rfl hl
      rw [read_blank (isBlank_append_newline hl)] at hrest ⊢
      rw [collapseBlank, if_pos hdrop]
      exact (gives_collapseBlank hrest fun _ _ => rfl).spaces _
    · rw [collapseBlank, if_neg hdrop]
      have hhead : isBlank l = true → (collapseBlank (isBlank l) ls).head?.all isBlank = true →
          ls.head?.all isBlank = true := by
        intro hl hall
        cases ls with
        | nil => rfl
        | cons k ks =>
          cases hk : isBlank k with
          | true => exact hk
          | false =>
            rw [collapseBlank, hk, Bool.and_false, if_neg (by simp)] at hall
            exact absurd (hall.symm.trans hk) (by decide)
      refine (gives_collapseBlank hrest fun hl hall => ?_).cons rfl fun hl hall => hcalm hl (hhead hl hall)
      rw [hcalm hl hall, read_blank (isBlank_append_newline hl)]

/-- Blank lines at the end stand in code and may be left out. -/
theorem gives_append_blank : ∀ {ls margin : List Text} {m : Mode}, (∀ l ∈ margin, isBlank l = true) →
    Calm m (ls ++ margin) → Gives m (m.read (unlines (ls ++ margin))).2 ls
  | [], [], m, _, _ => gives_nil m
  | [], l :: margin, m, hmargin, ⟨hcalm, _⟩ => by
    obtain ⟨hl, hrest⟩ := List.forall_mem_cons.1 hmargin
    have hall : margin.head?.all isBlank = true := by
      cases margin with
      | nil => rfl
      | cons k ks => exact (List.forall_mem_cons.1 hrest).1
    obtain rfl := hcalm hl hall
    have hblank : isBlank (unlines (l :: margin)) = true := by
      rw [isBlank, unlines, List.all_flatMap, List.all_eq_true]
      exact fun k hk => isBlank_append_newline (hmargin k hk)
    rw [List.nil_append, read_blank hblank, ← List.append_nil (List.replicate _ _)]
    exact (gives_nil .code).spaces _
  | l :: ls, margin, m, hmargin, ⟨hcalm, hrest⟩ => by
    rw [List.cons_append, unlines_cons, read_append]
    refine (gives_append_blank hmargin hrest).cons rfl fun hl hall => hcalm hl ?_
    cases ls with
    | nil =>
      cases margin with
      | nil => rfl
      | cons k ks => exact (List.forall_mem_cons.1 hmargin).1
    | cons k ks => exact hall

theorem Gives.words_eq {xs : List Bit} {kept : List Text} (h : Gives .code xs kept) :
    Tokens.words xs = Tokens.words (Mode.read .code (unlines kept)).2 := by
  have hspaced := h.words [.space] fun _ => ⟨[], rfl⟩
  exact hspaced

/-- Tidying lines keeps their words. -/
theorem words_tidy {kept : List Text} (h : Calm .code kept) :
    words (bitsOf (tidy kept)) = words (Mode.read .code (unlines kept)).2 := by
  have hcollapsed := gives_collapseBlank (b := true) h fun _ _ => rfl
  have hsplit := congrArg List.reverse
    (List.takeWhile_append_dropWhile (p := isBlank) (l := (collapseBlank true kept).reverse))
  rw [List.reverse_append, List.reverse_reverse] at hsplit
  have hblank : ∀ l ∈ ((collapseBlank true kept).reverse.takeWhile isBlank).reverse, isBlank l = true := fun l hl =>
    List.all_eq_true.1 List.all_takeWhile l (List.mem_reverse.1 hl)
  have hdropped := gives_append_blank hblank (hsplit ▸ hcollapsed.calm)
  rw [hsplit] at hdropped
  rw [hcollapsed.words_eq, hdropped.words_eq, bitsOf, tidy]
  cases hend : ((collapseBlank true kept).reverse.dropWhile isBlank).reverse with
  | nil => rfl
  | cons l ls => rw [unlines_eq (List.cons_ne_nil l ls)]

end Tokens
end StyleHoist
