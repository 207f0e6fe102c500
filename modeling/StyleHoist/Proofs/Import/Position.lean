import StyleHoist.Import.Patch
import StyleHoist.Proofs.Import.Scanning
import StyleHoist.Proofs.Text.Batch
import StyleHoist.Proofs.Text.Parts

/-!
# Where import statements stand

A scan for import statements only reports places between characters: each statement ends after a first part of the
text, and its clause stands where the scan says (`ImportStatement.StandsIn`, `standsIn_of_mem_importsIn`). Statements
follow one another, so none ends behind the last (`stop_le_endOfImports`). Hence the edit that imports the factory fits
the text and never overlaps an insertion behind the imports (`inImports_of_importEdit`).
-/

namespace StyleHoist

open Text ImportPiece

/-! ## Statements -/

/-- A clause stands in a text before an offset. -/
def ImportClause.StandsIn (t : Text) (stop : Nat) (c : ImportClause) : Prop :=
  ∃ a b, t = a ++ c.text ++ b ∧ size a = c.start ∧ c.start + size c.text ≤ stop

/-- A statement stands in a text: it ends after a first part, and its clause stands before that end. -/
structure ImportStatement.StandsIn (t : Text) (s : ImportStatement) : Prop where
  stop : isBoundary t s.stop = true
  clause : ∀ c, s.clause = some c → c.StandsIn t s.stop

theorem standsIn_of_mem_importsIn {t : Text} {s : ImportStatement} (h : s ∈ importsIn t) : s.StandsIn t := by
  obtain ⟨before, after, hs⟩ := List.append_of_mem h
  obtain ⟨front, w, back, rfl, -, -, rfl, -⟩ := exists_isScan_of_importsIn_eq hs
  refine ⟨isBoundary_iff.2 ⟨textOf front ++ w.text, textOf back, by simp, size_append _ _⟩, fun c hc => ?_⟩
  obtain ⟨clause, hclause, rfl⟩ := Option.map_eq_some_iff.1 hc
  have htext : w.text = w.lead ++ clause ++ w.tail := by rw [WrittenImport.text, hclause, Option.getD_some]
  refine ⟨textOf front ++ w.lead, w.tail ++ textOf back, by simp [htext], size_append _ _, ?_⟩
  simp only [WrittenImport.statement, htext, size_append]
  omega

/-- No statement ends behind the last one. -/
theorem stop_le_endOfImports {t : Text} {s : ImportStatement} {offset : Nat} (h : s ∈ importsIn t)
    (hend : endOfImports? t = some offset) : s.stop ≤ offset := by
  obtain ⟨last, hlast, rfl⟩ := Option.map_eq_some_iff.1 hend
  obtain ⟨before, hbefore⟩ := List.getLast?_eq_some_iff.1 hlast
  rw [hbefore] at h
  obtain ⟨front, w, back, -, -, rfl, rfl, -⟩ := exists_isScan_of_importsIn_eq hbefore
  rcases List.mem_append.1 h with h | h
  · have hstop : s.stop ≤ size (textOf front) := by simpa using stop_le_of_mem_statementsOf h
    exact Nat.le_trans hstop (Nat.le_add_right _ _)
  · obtain rfl := List.mem_singleton.1 h
    exact Nat.le_refl _

theorem isBoundary_endOfImports {t : Text} {offset : Nat} (h : endOfImports? t = some offset) :
    isBoundary t offset = true := by
  obtain ⟨last, hlast, rfl⟩ := Option.map_eq_some_iff.1 h
  exact (standsIn_of_mem_importsIn (List.mem_of_getLast? hlast)).stop

/-! ## The edit -/

/-- The range of an edit lies in a text and ends before the imports of the text end, or begins there. -/
structure Span.InImports (t : Text) (s : Span) : Prop where
  fits : s.Fits t
  apart : ∀ offset, endOfImports? t = some offset → s.Apart ⟨offset, offset⟩

theorem Span.fits_point {t : Text} {offset : Nat} (h : isBoundary t offset = true) : Span.Fits t ⟨offset, offset⟩ := by
  obtain ⟨a, b, rfl, rfl⟩ := isBoundary_iff.1 h
  exact ⟨Nat.le_refl _, by simp, h, h⟩

/-- The named list of a clause stands between its braces. -/
theorem NamedList.of_eq_braces {clause before inner : Text} (h : NamedList.of clause = .braces before inner) :
    ∃ behind, clause = before ++ '\x7b' :: inner ++ '\x7d' :: behind := by
  simp only [NamedList.of] at h
  split at h
  · cases h
  · rename_i brace behind hdrop
    split at h
    · rename_i hclose
      simp only [NamedList.braces.injEq] at h
      obtain ⟨rfl, rfl⟩ := h
      have hbrace : brace = '\x7b' := by
        have := List.head?_dropWhile_not (· != '\x7b') clause
        rw [hdrop] at this
        simpa using this
      obtain ⟨ending, hbehind, hending⟩ := dropEndWhile_append (· != '\x7d') behind
      have hlast := fun c => dropEndWhile_getLast? (p := (· != '\x7d')) (t := behind) (c := c)
      generalize dropEndWhile (· != '\x7d') behind = kept at hbehind hlast
      have hne : kept ≠ [] := by
        intro hnil
        rw [hnil, List.nil_append] at hbehind
        simp only [List.all_eq_true, ← hbehind] at hending
        simpa using hending '\x7d' (by simpa using hclose)
      have hkept : kept.dropLast ++ ['\x7d'] = kept := by
        have hc : kept.getLast hne = '\x7d' := by simpa using hlast _ (List.getLast?_eq_some_getLast hne)
        rw [← hc, List.dropLast_concat_getLast]
      refine ⟨ending, ?_⟩
      calc clause = clause.takeWhile (· != '\x7b') ++ brace :: behind := by
            rw [← hdrop, List.takeWhile_append_dropWhile]
        _ = clause.takeWhile (· != '\x7b') ++ '\x7b' :: (kept.dropLast ++ ['\x7d'] ++ ending) := by
            rw [hbrace, hkept, ← hbehind]
        _ = _ := by simp
    · split at h <;> cases h

/-- Joining a clause that stands before `stop` edits a range that ends there at the latest. -/
theorem fits_of_join {t : Text} {stop : Nat} {c : ImportClause} {e : Edit} (hc : c.StandsIn t stop)
    (h : c.join = .ok e) : e.range.Fits t ∧ e.range.stop ≤ stop := by
  obtain ⟨a, b, rfl, hstart, hstop⟩ := hc
  simp only [ImportClause.join] at h
  split at h
  · cases h
    refine ⟨Span.fits_point (isBoundary_iff.2 ⟨a ++ c.text, b, rfl, ?_⟩), hstop⟩
    simp [hstart]
  · rename_i before inner hbraces
    obtain ⟨behind, hclause⟩ := NamedList.of_eq_braces hbraces
    have hopen : '\x7b'.utf8Size = 1 := by decide
    have hclose : '\x7d'.utf8Size = 1 := by decide
    have hsize := congrArg size hclause
    simp only [size_append, size_cons, hopen, hclose] at hsize
    split at h
    · cases h
      refine ⟨⟨by simp only; omega, ?_, ?_, ?_⟩, by simp only; omega⟩
      · simp only [size_append]
        omega
      · refine isBoundary_iff.2 ⟨a ++ before, '\x7b' :: inner ++ '\x7d' :: behind ++ b, ?_, ?_⟩
        · simp [hclause]
        · simp [hstart]
      · refine isBoundary_iff.2 ⟨a ++ before ++ '\x7b' :: inner ++ ['\x7d'], behind ++ b, ?_, ?_⟩
        · simp [hclause]
        · simp only [size_append, size_cons, size_nil, hopen, hclose, hstart]
          omega
    · obtain ⟨margin, hinner, -⟩ := trimEnd_append_blank inner
      have hsizes := congrArg size hinner
      rw [size_append] at hsizes
      cases h
      refine ⟨Span.fits_point (isBoundary_iff.2
        ⟨a ++ before ++ '\x7b' :: trimEnd inner, margin ++ '\x7d' :: behind ++ b, ?_, ?_⟩), ?_⟩
      · conv => lhs; rw [hclause, hinner]
        simp
      · simp only [size_append, size_cons, hopen, hstart]
        omega
      · simp only [Edit.insertion]
        omega
  · cases h

/-- **The edit that imports the factory fits the text and stays clear of the end of the imports.** -/
theorem inImports_of_importEdit {t : Text} {e : Edit} (h : importEdit t = .ok (some e)) : e.range.InImports t := by
  simp only [importEdit] at h
  split at h
  · cases h
  · split at h
    · rename_i clause hclause
      obtain ⟨edit, hjoin, he⟩ : ∃ edit, clause.join = .ok edit ∧ edit = e := by
        cases hjoin : clause.join with
        | error fault => simp [hjoin, Except.map] at h
        | ok edit => exact ⟨edit, rfl, by simpa [hjoin, Except.map] using h⟩
      obtain ⟨s, hs, hsclause⟩ := List.mem_filterMap.1 (List.mem_of_find?_eq_some hclause)
      have hmem := (List.mem_filter.1 hs).1
      obtain ⟨hfits, hstop⟩ := fits_of_join ((standsIn_of_mem_importsIn hmem).clause clause hsclause) hjoin
      rw [he] at hfits hstop
      exact ⟨hfits, fun offset hend => Or.inl (Nat.le_trans hstop (stop_le_endOfImports hmem hend))⟩
    · split at h
      · rename_i offset hend
        cases h
        refine ⟨Span.fits_point (isBoundary_endOfImports hend), fun offset' hend' => ?_⟩
        rw [hend] at hend'
        cases hend'
        exact Or.inl (Nat.le_refl _)
      · rename_i hnone
        cases h
        refine ⟨Span.fits_point (isBoundary_size_append [] t), fun offset hend => ?_⟩
        rw [hnone] at hend
        cases hend

end StyleHoist
