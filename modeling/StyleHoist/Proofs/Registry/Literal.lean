import StyleHoist.Proofs.Comment.Stripped

/-!
# Entries of literals

Entries whose properties have literals for values: a string, a number, a boolean or `null`. Their quotes, braces and
slashes stand between quotes, so nothing in them is taken for code (`IsLiteralProperty.fits`), and an entry of such
properties with comments that were taken out of a body is sound (`NewEntry.Literal.sound`).
-/

namespace StyleHoist

open Text Listing

namespace Listing

/-! ## Literals -/

/-- Whether a text ends with the first quote in it that no backslash stands before, without a newline before. -/
def endsQuotation (q : Char) : Text → Bool
  | [] => false
  | '\\' :: c :: t => c != '\n' && endsQuotation q t
  | c :: t => if c == q then t.isEmpty else c != '\n' && c != '\\' && endsQuotation q t

/-- Whether `c` can stand in a name, a number or a keyword. -/
def isBareChar (c : Char) : Bool :=
  !isBlankChar c && !opensQuote c && c != '/' && c != '*' && c != ','

/-- A name, a number, a keyword, or a quotation on one line. -/
inductive IsLiteral : Text → Prop
  /-- Brackets occur only in an escaped name, which closes them. -/
  | bare {t : Text} (ne_nil : t ≠ []) (chars : t.all isBareChar = true) (closed : Closed t) : IsLiteral t
  | quoted {q : Char} {t : Text} (quote : opensQuote q = true) (ends : endsQuotation q t = true) : IsLiteral (q :: t)

/-- A property on one line: a key, a colon and a literal. -/
def IsLiteralProperty (code : Text) : Prop :=
  ∃ key gap gap' value, code = key ++ (gap ++ ':' :: (gap' ++ value)) ∧ IsLiteral key ∧ IsLiteral value ∧
    isBlank gap = true ∧ isBlank gap' = true ∧ IsLine code

/-- What stands behind an opening quote leads back to code. -/
theorem read_quotation (q : Quote) (due : List Char) {t : Text} (h : endsQuotation q.1 t = true) :
    (Place.read ⟨.quoted q, due⟩ t).1 = ⟨.code, due⟩ := by
  have hq : q.1 ≠ '\\' := by
    have := q.2
    simp only [opensQuote, Bool.or_eq_true, beq_iff_eq] at this
    rcases this with (h | h) | h <;> rw [h] <;> decide
  fun_induction endsQuotation q.1 t with
  | case1 => cases h
  | case2 c t ih =>
    rw [Bool.and_eq_true] at h
    simpa only [read_cons, Place.step, beq_self_eq_true, if_true] using ih h.2
  | case3 c t _ hc =>
    obtain rfl : c = q.1 := by simpa using hc
    obtain rfl : t = [] := by simpa using h
    simp [read_cons, Place.step, hq]
  | case4 c t _ hc ih =>
    simp only [Bool.and_eq_true, bne_iff_ne] at h
    simpa [read_cons, Place.step, h.1.2, hc] using ih h.2

/-- A literal is read from code to code. -/
theorem IsLiteral.closed_text {t : Text} (h : IsLiteral t) : Closed t := by
  cases h with
  | bare _ _ hclosed => exact hclosed
  | @quoted q t hquote hends =>
    have hslash : q ≠ '/' := by
      rintro rfl
      cases hquote
    have hstep : (start.step q).1 = ⟨.quoted ⟨q, hquote⟩, []⟩ := by
      simp [start, Place.step, codeStep, hslash, hquote]
    rw [Closed, read_cons, hstep]
    exact read_quotation ⟨q, hquote⟩ [] hends

/-- A literal begins neither with white space nor as a comment does. -/
theorem IsLiteral.head {t : Text} (h : IsLiteral t) :
    ∃ c u, t = c :: u ∧ isBlankChar c = false ∧ c ≠ '/' ∧ c ≠ '*' := by
  cases h with
  | bare hne hchars =>
    obtain ⟨c, u, rfl⟩ := List.exists_cons_of_ne_nil hne
    simp only [List.all_cons, isBareChar, Bool.and_eq_true, Bool.not_eq_true', bne_iff_ne] at hchars
    exact ⟨c, u, rfl, hchars.1.1.1.1.1, hchars.1.1.1.2, hchars.1.1.2⟩
  | @quoted q t hquote hends =>
    refine ⟨q, t, rfl, ?_⟩
    simp only [opensQuote, Bool.or_eq_true, beq_iff_eq] at hquote
    rcases hquote with (rfl | rfl) | rfl <;> decide

/-- **A property on one line whose value is a literal can stand in an entry.** -/
theorem IsLiteralProperty.fits {code : Text} (h : IsLiteralProperty code) (comments : List Comment) :
    Fits comments code := by
  obtain ⟨key, gap, gap', value, rfl, hkey, hvalue, hgap, hgap', hline⟩ := h
  have hcolon : Closed [':'] := rfl
  have hblank : ∀ {u : Text}, isBlank u = true → Closed u := fun hu => congrArg Prod.fst (read_blank [] hu)
  have hclosed : Closed (key ++ (gap ++ ':' :: (gap' ++ value))) :=
    hkey.closed_text.append ((hblank hgap).append (hcolon.append ((hblank hgap').append hvalue.closed_text)))
  have hcomment : isCommentLine (key ++ (gap ++ ':' :: (gap' ++ value))) = false := by
    obtain ⟨c, u, rfl, hc, hslash, hstar⟩ := hkey.head
    simp only [isCommentLine, List.cons_append, trimStart, List.dropWhile_cons_of_neg (Bool.not_eq_true _ ▸ hc)]
    simp [beginsWith, dropPart?, Ne.symm hslash, Ne.symm hstar]
  refine ⟨⟨hclosed, hcomment⟩, fun _ => ?_⟩
  rw [splitLines_of_isLine hline]
  exact .cons hline (hclosed.append closed_newline) (.nil _)

end Listing

/-! ## Entries of literals -/

/-- An entry that is built as extraction builds them: it has a proper name, one or more properties on lines of their own
whose values are literals, and comments that were taken out of a body, which may have lost their properties since. -/
structure NewEntry.Literal (e : NewEntry) : Prop where
  name : isEntryName e.name = true
  nonempty : e.properties ≠ []
  properties : ∀ p ∈ e.properties, IsLiteralProperty p
  comments : ∀ c ∈ e.comments, ∃ body, ∃ d ∈ (stripComments body).comments, c = d ∨ c = d.orphan

/-- An entry of literals is sound. -/
theorem NewEntry.Literal.sound {e : NewEntry} (h : e.Literal) : e.Sound where
  name := h.name
  properties := fun p hp => (h.properties p hp).fits e.comments
  comments := fun c hc => by
    obtain ⟨body, d, hd, rfl | rfl⟩ := h.comments c hc
    · exact (isTaken_of_mem_stripComments hd).sound
    · exact (isTaken_of_mem_stripComments hd).sound

end StyleHoist
