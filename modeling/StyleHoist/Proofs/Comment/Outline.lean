import StyleHoist.Proofs.Comment.Scanning

/-!
# Outlines

Texts are compared by their outlines: their lines without the white space around them, those that are blank left out.

- `outline_trim`: white space around a text does not matter.
- `outline_tidy`: tidying leaves the outline of lines as it is.
-/

namespace StyleHoist

open Text Listing

/-- Lines without the white space around them, those that are blank left out. -/
def outlineOf (ls : List Text) : List Text :=
  (ls.map trim).filter fun l => !l.isEmpty

/-- The lines of a text without the white space around them, those that are blank left out. -/
def outline (t : Text) : List Text :=
  outlineOf (splitLines t)

theorem outlineOf_append (ks ls : List Text) : outlineOf (ks ++ ls) = outlineOf ks ++ outlineOf ls := by
  simp [outlineOf]

theorem outlineOf_cons_of_isBlank {l : Text} (h : isBlank l = true) (ls : List Text) :
    outlineOf (l :: ls) = outlineOf ls := by
  simp [outlineOf, trim_eq_nil_iff.2 h]

theorem outlineOf_cons_of_ne_nil {l : Text} (h : trim l ≠ []) (ls : List Text) :
    outlineOf (l :: ls) = trim l :: outlineOf ls := by
  simp [outlineOf, h]

theorem outlineOf_of_isBlank {ls : List Text} (h : ∀ l ∈ ls, isBlank l = true) : outlineOf ls = [] := by
  induction ls with
  | nil => rfl
  | cons l ls ih =>
    obtain ⟨hl, hls⟩ := List.forall_mem_cons.1 h
    rw [outlineOf_cons_of_isBlank hl, ih hls]

/-! ## Texts -/

theorem outline_joinLines {ls : List Text} (h : ∀ l ∈ ls, IsLine l) : outline (joinLines ls) = outlineOf ls := by
  by_cases hnil : ls = []
  · rw [hnil]
    rfl
  · rw [outline, splitLines_joinLines hnil h]

theorem outline_blank_append {s : Text} (hs : isBlank s = true) (t : Text) : outline (s ++ t) = outline t := by
  induction s with
  | nil => rfl
  | cons c s ih =>
    obtain ⟨hc, hs⟩ := isBlank_cons.1 hs
    rw [← ih hs, List.cons_append]
    obtain ⟨l, ls, hlines⟩ := List.exists_cons_of_ne_nil (splitLines_ne_nil (s ++ t))
    by_cases hnewline : c = '\n'
    · rw [hnewline, outline, show splitLines ('\n' :: (s ++ t)) = [] :: splitLines (s ++ t) from rfl]
      exact outlineOf_cons_of_isBlank rfl _
    · have hsplit : splitLines (c :: (s ++ t)) = (c :: l) :: ls := by simp [splitLines, hnewline, hlines]
      have htrim : trim (c :: l) = trim l := trim_blank_append (show isBlank [c] = true by simpa [isBlank] using hc)
      rw [outline, outline, hsplit, hlines, outlineOf, outlineOf, List.map_cons, List.map_cons, htrim]

theorem outline_of_isBlank {s : Text} (hs : isBlank s = true) : outline s = [] := by
  rw [← List.append_nil s, outline_blank_append hs]
  rfl

theorem outline_append_newline (s t : Text) : outline (s ++ '\n' :: t) = outline s ++ outline t := by
  rw [outline, splitLines_append_newline, outlineOf_append]
  rfl

theorem outline_append_blank {s : Text} (hs : isBlank s = true) (t : Text) : outline (t ++ s) = outline t := by
  have hline : ∀ {m : Text}, IsLine m → isBlank m = true → outline (t ++ m) = outline t := by
    intro m hm hblank
    obtain ⟨ls, l, hlines⟩ : ∃ ls l, splitLines t = ls ++ [l] :=
      ⟨_, _, (List.dropLast_concat_getLast (splitLines_ne_nil t)).symm⟩
    have hsplit : splitLines (t ++ m) = ls ++ [l ++ m] := splitLines_append (splitLines_of_isLine hm) hlines
    rw [outline, outline, hsplit, hlines, outlineOf_append, outlineOf_append]
    simp [outlineOf, trim_append_of_isBlank hblank]
  -- The first newline of the white space ends the last line of the text.
  have hsplit : s.takeWhile (· != '\n') ++ s.dropWhile (· != '\n') = s := List.takeWhile_append_dropWhile
  have hfirst : IsLine (s.takeWhile (· != '\n')) := fun hm => by simpa using List.mem_takeWhile_imp hm
  have hblank : isBlank (s.takeWhile (· != '\n')) = true ∧ isBlank (s.dropWhile (· != '\n')) = true := by
    rw [isBlank, isBlank, ← Bool.and_eq_true, ← List.all_append, hsplit]
    exact hs
  rw [← hsplit, ← List.append_assoc]
  cases hrest : s.dropWhile (· != '\n') with
  | nil => rw [List.append_nil, hline hfirst hblank.1]
  | cons c r =>
    have hc : c = '\n' := by
      have hnot := List.head?_dropWhile_not (· != '\n') s
      simpa [hrest] using hnot
    have hr : isBlank r = true := by
      have hcr := hblank.2
      rw [hrest, isBlank, List.all_cons, Bool.and_eq_true] at hcr
      exact hcr.2
    rw [hc, outline_append_newline, hline hfirst hblank.1, outline_of_isBlank hr, List.append_nil]

theorem outline_trim (t : Text) : outline (trim t) = outline t := by
  obtain ⟨margin, heq, hmargin⟩ := trimEnd_append_blank (trimStart t)
  rw [trim, ← outline_append_blank hmargin, ← heq]
  conv => rhs; rw [← takeWhile_append_trimStart t]
  exact (outline_blank_append List.all_takeWhile _).symm

/-! ## Tidy lines -/

theorem outlineOf_collapseBlank : ∀ (b : Bool) (ls : List Text), outlineOf (collapseBlank b ls) = outlineOf ls
  | _, [] => rfl
  | b, l :: ls => by
    simp only [collapseBlank]
    split
    · rename_i hblank
      rw [outlineOf_collapseBlank, outlineOf_cons_of_isBlank (Bool.and_eq_true_iff.1 hblank).2]
    · have hcons : ∀ ks, outlineOf (l :: ks) = outlineOf [l] ++ outlineOf ks := fun ks => outlineOf_append [l] ks
      rw [hcons, outlineOf_collapseBlank, ← hcons]

theorem mem_of_mem_collapseBlank : ∀ {b : Bool} {ls : List Text} {l : Text}, l ∈ collapseBlank b ls → l ∈ ls
  | _, [], _, h => h
  | b, k :: ls, l, h => by
    simp only [collapseBlank] at h
    split at h
    · exact List.mem_cons_of_mem _ (mem_of_mem_collapseBlank h)
    · rcases List.mem_cons.1 h with rfl | h
      · exact List.mem_cons_self
      · exact List.mem_cons_of_mem _ (mem_of_mem_collapseBlank h)

/-- Tidying leaves the outline of lines as it is. -/
theorem outline_tidy {kept : List Text} (h : ∀ l ∈ kept, IsLine l) : outline (tidy kept) = outlineOf kept := by
  have hcollapsed : outlineOf (collapseBlank true kept) = outlineOf kept := outlineOf_collapseBlank true kept
  have hmem : ∀ l ∈ collapseBlank true kept, IsLine l := fun l hl => h l (mem_of_mem_collapseBlank hl)
  rw [tidy]
  generalize collapseBlank true kept = ls at hcollapsed hmem
  have hsplit : (ls.reverse.dropWhile isBlank).reverse ++ (ls.reverse.takeWhile isBlank).reverse = ls := by
    rw [← List.reverse_append, List.takeWhile_append_dropWhile, List.reverse_reverse]
  have hdropped : outlineOf (ls.reverse.takeWhile isBlank).reverse = [] :=
    outlineOf_of_isBlank fun l hl => List.mem_takeWhile_imp (List.mem_reverse.1 hl)
  rw [outline_joinLines fun l hl => hmem l (hsplit ▸ List.mem_append_left _ hl), ← hcollapsed]
  conv => rhs; rw [← hsplit, outlineOf_append, hdropped, List.append_nil]

end StyleHoist
