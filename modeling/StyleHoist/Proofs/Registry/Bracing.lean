import StyleHoist.Proofs.Registry.Layout

/-!
# Scanning for a closing brace

The scan for the brace that closes a body, one character at a time. It minds quotations, comments and braces, and no
other brackets, so it goes through any body that a registry has, also one that lists no entries.

- `closeBody?_iff`: a text is split at the first brace behind which as many braces are closed as have been opened.
- `closes_append_line`: a line behind the content of a body is scanned as code, whatever ends the content.
-/

namespace StyleHoist
namespace Bracing

open Text Listing

/-! ## The scan -/

/-- What a scan is inside of. -/
inductive Stand
  | code
  /-- Behind a slash in code, which may open a comment. -/
  | slash
  | quoted (quote : Quote)
  /-- Behind a backslash between quotes. -/
  | escaped (quote : Quote)
  | lineComment
  | blockComment
  /-- Behind a star in a block comment. -/
  | star
deriving DecidableEq, Repr

/-- Where a scan is: what it is inside of, and how many braces have been opened and not closed. -/
structure Place where
  stand : Stand
  depth : Nat
deriving DecidableEq, Repr

/-- The start of a body. -/
def start : Place := ⟨.code, 0⟩

/-- Scans a character of code, unless it closes the body. -/
def codeStep? (depth : Nat) (c : Char) : Option Place :=
  if c == '\x7d' then
    match depth with
    | 0 => none
    | depth + 1 => some ⟨.code, depth⟩
  else if c == '\x7b' then some ⟨.code, depth + 1⟩
  else if h : opensQuote c = true then some ⟨.quoted ⟨c, h⟩, depth⟩
  else if c == '/' then some ⟨.slash, depth⟩
  else some ⟨.code, depth⟩

/-- Scans one character, unless it closes the body. -/
def Place.step? : Place → Char → Option Place
  | ⟨.code, depth⟩, c => codeStep? depth c
  | ⟨.slash, depth⟩, c =>
    if c == '/' then some ⟨.lineComment, depth⟩
    else if c == '*' then some ⟨.blockComment, depth⟩
    else codeStep? depth c
  | ⟨.quoted q, depth⟩, c =>
    some ⟨if c == '\\' then .escaped q else if c == q.1 then .code else .quoted q, depth⟩
  | ⟨.escaped q, depth⟩, _ => some ⟨.quoted q, depth⟩
  | ⟨.lineComment, depth⟩, c => some ⟨if c == '\n' then .code else .lineComment, depth⟩
  | ⟨.blockComment, depth⟩, c => some ⟨if c == '*' then .star else .blockComment, depth⟩
  | ⟨.star, depth⟩, c => some ⟨if c == '/' then .code else if c == '*' then .star else .blockComment, depth⟩

/-- Scans a text, unless it closes the body. -/
def Place.scan? : Place → Text → Option Place
  | p, [] => some p
  | p, c :: t => (p.step? c).bind (·.scan? t)

/-- Splits a text at the brace that closes the body. -/
def Place.close? : Place → Text → Option (Text × Text)
  | _, [] => none
  | p, c :: t =>
    match p.step? c with
    | none => some ([], t)
    | some q => (q.close? t).map fun s => (c :: s.1, s.2)

@[simp] theorem scan?_nil (p : Place) : p.scan? [] = some p := rfl

theorem scan?_cons (p : Place) (c : Char) (t : Text) : p.scan? (c :: t) = (p.step? c).bind (·.scan? t) := rfl

/-- A scan that stops can be sent on. -/
theorem scan?_append (p : Place) (s t : Text) : p.scan? (s ++ t) = (p.scan? s).bind (·.scan? t) := by
  induction s generalizing p with
  | nil => rfl
  | cons c s ih =>
    rw [List.cons_append, scan?_cons, scan?_cons, Option.bind_assoc]
    exact congrArg _ (funext ih)

/-- Only a closing brace closes a body. -/
theorem eq_brace_of_step? {p : Place} {c : Char} (h : p.step? c = none) : c = '\x7d' := by
  obtain ⟨stand, depth⟩ := p
  have hcode : codeStep? depth c = none → c = '\x7d' := by
    intro h
    simp only [codeStep?] at h
    split at h
    · rename_i hc
      simpa using hc
    · split at h
      · cases h
      · split at h
        · cases h
        · split at h <;> cases h
  cases stand with
  | code => exact hcode h
  | slash =>
    simp only [Place.step?] at h
    split at h
    · cases h
    · split at h
      · cases h
      · exact hcode h
  | _ => cases h

/-- A text is split at a brace that closes the body, where a scan of what stands before it has come. -/
theorem close?_eq_some_iff {body behind : Text} : ∀ {t : Text} {p : Place}, p.close? t = some (body, behind) ↔
    t = body ++ '\x7d' :: behind ∧ ∃ q, p.scan? body = some q ∧ q.step? '\x7d' = none
  | [], p => by simp [Place.close?]
  | c :: t, p => by
    simp only [Place.close?]
    cases hstep : p.step? c with
    | none =>
      obtain rfl := eq_brace_of_step? hstep
      constructor
      · intro h
        cases h
        exact ⟨rfl, p, rfl, hstep⟩
      · rintro ⟨htext, q, hq, hclose⟩
        cases body with
        | nil =>
          cases htext
          rfl
        | cons d body =>
          cases htext
          simp [scan?_cons, hstep] at hq
    | some q =>
      simp only [Option.map_eq_some_iff, Prod.exists]
      constructor
      · rintro ⟨body', behind', hclose, he⟩
        cases he
        obtain ⟨rfl, last, hlast, hend⟩ := close?_eq_some_iff.1 hclose
        exact ⟨rfl, last, by rw [scan?_cons, hstep]; exact hlast, hend⟩
      · rintro ⟨htext, last, hlast, hend⟩
        cases body with
        | nil =>
          cases hlast
          cases htext
          rw [hstep] at hend
          cases hend
        | cons d body =>
          cases htext
          rw [scan?_cons, hstep] at hlast
          exact ⟨body, behind, close?_eq_some_iff.2 ⟨rfl, last, hlast, hend⟩, rfl⟩

/-! ## The same as the scan of regions -/

/-- The region in which a scan is, and what it has yet to scan of what stands before it. -/
def Stand.region : Stand → Region × Text
  | .code => (.code, [])
  | .slash => (.code, ['/'])
  | .quoted q => (.quoted q.1, [])
  | .escaped q => (.quoted q.1, ['\\'])
  | .lineComment => (.lineComment, [])
  | .blockComment => (.blockComment, [])
  | .star => (.blockComment, ['*'])

/-- The scan of regions goes on from a place as the scan of characters does. -/
def Place.GoesOn (p : Place) (t : Text) : Prop :=
  closeBody? p.stand.region.1 p.depth (p.stand.region.2 ++ t) =
    (p.close? t).map fun s => (p.stand.region.2 ++ s.1, s.2)

theorem codeStep?_quote (depth : Nat) {c : Char} (h : opensQuote c = true) :
    codeStep? depth c = some ⟨.quoted ⟨c, h⟩, depth⟩ := by
  have hne : c ≠ '\x7d' ∧ c ≠ '\x7b' := by
    refine ⟨?_, ?_⟩ <;> rintro rfl <;> simp [opensQuote] at h
  simp [codeStep?, hne, h]

theorem codeStep?_plain (depth : Nat) {c : Char} (hclose : c ≠ '\x7d') (hopen : c ≠ '\x7b')
    (hquote : opensQuote c = false) (hslash : c ≠ '/') : codeStep? depth c = some ⟨.code, depth⟩ := by
  simp [codeStep?, hclose, hopen, hquote, hslash]

/-- What a scan of a text gives is what its first step leaves to be scanned, and the first character. -/
theorem close?_cons {p q : Place} {c : Char} (h : p.step? c = some q) (t : Text) :
    p.close? (c :: t) = (q.close? t).map fun s => (c :: s.1, s.2) := by
  simp only [Place.close?, h]

/-- Where nothing before a place has yet to be scanned, both scans split a text in the same way. -/
theorem closeBody?_of_goesOn {stand : Stand} {region : Region} {depth : Nat} {t : Text}
    (hgo : Place.GoesOn ⟨stand, depth⟩ t) (h : stand.region = (region, [])) :
    closeBody? region depth t = Place.close? ⟨stand, depth⟩ t := by
  simpa only [Place.GoesOn, h, List.nil_append, Option.map_id'] using hgo

theorem goesOn_of_closeBody? {stand : Stand} {region : Region} {depth : Nat} {t : Text}
    (h : stand.region = (region, [])) (hsame : closeBody? region depth t = Place.close? ⟨stand, depth⟩ t) :
    Place.GoesOn ⟨stand, depth⟩ t := by
  simpa only [Place.GoesOn, h, List.nil_append, Option.map_id'] using hsame

section Step

variable {depth : Nat} {c : Char} {t : Text} (ih : ∀ q : Place, q.GoesOn t)

include ih

/-- A character of code is scanned in the same way. -/
theorem closeBody?_code : closeBody? .code depth (c :: t) = Place.close? ⟨.code, depth⟩ (c :: t) := by
  by_cases hclose : c = '\x7d'
  · subst hclose
    cases depth with
    | zero => simp [closeBody?_zero, Place.close?, Place.step?, codeStep?]
    | succ depth =>
      rw [close?_cons (q := ⟨.code, depth⟩) rfl, closeBody?_close, closeBody?_of_goesOn (ih ⟨.code, depth⟩) rfl]
  · by_cases hopen : c = '\x7b'
    · subst hopen
      rw [close?_cons (q := ⟨.code, depth + 1⟩) rfl, closeBody?_open,
        closeBody?_of_goesOn (ih ⟨.code, depth + 1⟩) rfl]
    · by_cases hquote : opensQuote c = true
      · rw [close?_cons (p := ⟨.code, depth⟩) (codeStep?_quote depth hquote), closeBody?_quote _ hquote,
          closeBody?_of_goesOn (ih ⟨.quoted ⟨c, hquote⟩, depth⟩) rfl]
      · have hquote : opensQuote c = false := by simpa using hquote
        by_cases hslash : c = '/'
        · subst hslash
          rw [close?_cons (q := ⟨.slash, depth⟩) rfl]
          exact ih ⟨.slash, depth⟩
        · rw [close?_cons (p := ⟨.code, depth⟩) (codeStep?_plain depth hclose hopen hquote hslash),
            closeBody?_plain _ hclose hopen hquote (fun _ _ => hslash) (fun _ _ => hslash),
            closeBody?_of_goesOn (ih ⟨.code, depth⟩) rfl]

/-- A slash in code opens a comment, or is code like what is behind it. -/
theorem goesOn_slash : Place.GoesOn ⟨.slash, depth⟩ (c :: t) := by
  simp only [Place.GoesOn, Stand.region, List.singleton_append]
  by_cases hline : c = '/'
  · subst hline
    rw [closeBody?_line, close?_cons (q := ⟨.lineComment, depth⟩) rfl,
      closeBody?_of_goesOn (ih ⟨.lineComment, depth⟩) rfl, Option.map_map]
    rfl
  · by_cases hblock : c = '*'
    · subst hblock
      rw [closeBody?_block, close?_cons (q := ⟨.blockComment, depth⟩) rfl,
        closeBody?_of_goesOn (ih ⟨.blockComment, depth⟩) rfl, Option.map_map]
      rfl
    · have hsame : Place.close? ⟨.slash, depth⟩ (c :: t) = Place.close? ⟨.code, depth⟩ (c :: t) := by
        simp [Place.close?, Place.step?, hline, hblock]
      rw [closeBody?_plain _ (by decide) (by decide) (by decide), closeBody?_code ih, hsame]
      · exact fun u hu _ => hline (List.cons.inj hu).1
      · exact fun u hu _ => hblock (List.cons.inj hu).1

theorem goesOn_quoted (q : Quote) : Place.GoesOn ⟨.quoted q, depth⟩ (c :: t) := by
  refine goesOn_of_closeBody? rfl ?_
  by_cases hescape : c = '\\'
  · subst hescape
    exact (ih ⟨.escaped q, depth⟩).trans (close?_cons (p := ⟨.quoted q, depth⟩) rfl t).symm
  · have hregion :
        (if c = q.1 then Stand.code else .quoted q).region = (if c = q.1 then .code else .quoted q.1, []) := by
      split <;> rfl
    have hgo := closeBody?_of_goesOn (ih ⟨if c = q.1 then .code else .quoted q, depth⟩) hregion
    rw [close?_cons (q := ⟨if c = q.1 then .code else .quoted q, depth⟩) (by simp [Place.step?, hescape]), ← hgo]
    simp [closeBody?_quoted _ hescape]

theorem goesOn_escaped (q : Quote) : Place.GoesOn ⟨.escaped q, depth⟩ (c :: t) := by
  simp only [Place.GoesOn, Stand.region, List.singleton_append]
  rw [close?_cons (q := ⟨.quoted q, depth⟩) rfl, ← closeBody?_of_goesOn (ih ⟨.quoted q, depth⟩) rfl, Option.map_map]
  simp [closeBody?_escape, Function.comp_def]

theorem goesOn_lineComment : Place.GoesOn ⟨.lineComment, depth⟩ (c :: t) := by
  refine goesOn_of_closeBody? rfl ?_
  have hregion : (if c = '\n' then Stand.code else .lineComment).region =
      (if c = '\n' then .code else .lineComment, []) := by
    split <;> rfl
  have hgo := closeBody?_of_goesOn (ih ⟨if c = '\n' then .code else .lineComment, depth⟩) hregion
  rw [close?_cons (q := ⟨if c = '\n' then .code else .lineComment, depth⟩) (by simp [Place.step?]), ← hgo]
  simp [closeBody?_lineComment]

theorem goesOn_blockComment : Place.GoesOn ⟨.blockComment, depth⟩ (c :: t) := by
  refine goesOn_of_closeBody? rfl ?_
  by_cases hstar : c = '*'
  · subst hstar
    exact (ih ⟨.star, depth⟩).trans (close?_cons (p := ⟨.blockComment, depth⟩) rfl t).symm
  · rw [close?_cons (q := ⟨.blockComment, depth⟩) (by simp [Place.step?, hstar]),
      ← closeBody?_of_goesOn (ih ⟨.blockComment, depth⟩) rfl, closeBody?_blockComment _ fun _ _ => hstar]

/-- A star in a block comment closes it with a slash. Behind another star the comment may still be closed. -/
theorem goesOn_star : Place.GoesOn ⟨.star, depth⟩ (c :: t) := by
  simp only [Place.GoesOn, Stand.region, List.singleton_append]
  by_cases hslash : c = '/'
  · subst hslash
    rw [close?_cons (q := ⟨.code, depth⟩) rfl, ← closeBody?_of_goesOn (ih ⟨.code, depth⟩) rfl, Option.map_map]
    simp [closeBody?_blockClose, Function.comp_def]
  · have hne : ∀ u : Text, c :: t = '/' :: u → '*' ≠ '*' := fun u hu _ => hslash (List.cons.inj hu).1
    rw [closeBody?_blockComment _ hne]
    by_cases hstar : c = '*'
    · subst hstar
      rw [close?_cons (q := ⟨.star, depth⟩) rfl]
      exact congrArg _ (ih ⟨.star, depth⟩)
    · rw [close?_cons (q := ⟨.blockComment, depth⟩) (by simp [Place.step?, hslash, hstar]),
        ← closeBody?_of_goesOn (ih ⟨.blockComment, depth⟩) rfl, closeBody?_blockComment _ fun _ _ => hstar]

end Step

/-- The scan of regions goes on as the scan of characters does. -/
theorem goesOn : ∀ (t : Text) (p : Place), p.GoesOn t
  | [], ⟨stand, depth⟩ => by
    cases stand with
    | slash => simp [Place.GoesOn, Stand.region, Place.close?, closeBody?_plain, opensQuote, closeBody?_nil]
    | escaped q => rfl
    | star => simp [Place.GoesOn, Stand.region, Place.close?, closeBody?_blockComment, closeBody?_nil]
    | _ => simp [Place.GoesOn, Stand.region, Place.close?, closeBody?_nil]
  | c :: t, ⟨stand, depth⟩ => by
    have ih : ∀ q : Place, q.GoesOn t := goesOn t
    cases stand with
    | code => exact goesOn_of_closeBody? rfl (closeBody?_code ih)
    | slash => exact goesOn_slash ih
    | quoted q => exact goesOn_quoted ih q
    | escaped q => exact goesOn_escaped ih q
    | lineComment => exact goesOn_lineComment ih
    | blockComment => exact goesOn_blockComment ih
    | star => exact goesOn_star ih

/-- A text that ends where a brace closes it. -/
def IsBody (body : Text) : Prop :=
  ∃ q, start.scan? body = some q ∧ q.step? '\x7d' = none

/-- **A text is split at the first brace behind which as many braces are closed as have been opened.** -/
theorem closeBody?_iff {t body behind : Text} :
    closeBody? .code 0 t = some (body, behind) ↔ t = body ++ '\x7d' :: behind ∧ IsBody body := by
  rw [closeBody?_of_goesOn (goesOn t start) rfl]
  exact close?_eq_some_iff

/-! ## Ends of bodies -/

/-- A brace closes a body in code, also behind a slash. -/
theorem eq_of_closes {p : Place} (h : p.step? '\x7d' = none) : p = start ∨ p = ⟨.slash, 0⟩ := by
  obtain ⟨stand, depth⟩ := p
  cases stand with
  | code =>
    cases depth with
    | zero => exact Or.inl rfl
    | succ depth => cases h
  | slash =>
    cases depth with
    | zero => exact Or.inr rfl
    | succ depth => cases h
  | _ => cases h

theorem codeStep?_blank (depth : Nat) {c : Char} (h : isBlankChar c = true) : codeStep? depth c = some ⟨.code, depth⟩ :=
  codeStep?_plain depth (ne_of_isBlankChar h (by decide)) (ne_of_isBlankChar h (by decide))
    (by
      have hne := fun d hd => ne_of_isBlankChar (d := d) h hd
      simp [opensQuote, hne '\x27' (by decide), hne '\x22' (by decide), hne '\x60' (by decide)])
    (ne_of_isBlankChar h (by decide))

/-- Blanks in code change nothing. -/
theorem scan?_blank : ∀ {t : Text}, isBlank t = true → start.scan? t = some start
  | [], _ => rfl
  | c :: t, h => by
    obtain ⟨hc, ht⟩ := isBlank_cons.1 h
    rw [scan?_cons, show start.step? c = some start from codeStep?_blank 0 hc]
    exact scan?_blank ht

/-- Where blanks lead to the end of a body, a scan was in code, behind a slash, or in a line comment. -/
theorem cases_of_scan?_blank : ∀ {margin : Text} {p q : Place}, isBlank margin = true → p.scan? margin = some q →
    q.step? '\x7d' = none → p = start ∨ p = ⟨.slash, 0⟩ ∨ p = ⟨.lineComment, 0⟩
  | [], p, q, _, hscan, h => by
    cases hscan
    exact (eq_of_closes h).imp_right Or.inl
  | c :: margin, ⟨stand, depth⟩, q, hblank, hscan, h => by
    obtain ⟨hc, hmargin⟩ := isBlank_cons.1 hblank
    have hne := fun d hd => ne_of_isBlankChar (d := d) hc hd
    rw [scan?_cons, Option.bind_eq_some_iff] at hscan
    obtain ⟨p, hstep, hscan⟩ := hscan
    have hnext := cases_of_scan?_blank hmargin hscan h
    cases stand with
    | code =>
      cases (codeStep?_blank depth hc).symm.trans hstep
      simpa [start] using hnext
    | slash =>
      have hcode : Place.step? ⟨.slash, depth⟩ c = codeStep? depth c := by
        simp [Place.step?, hne '/' (by decide), hne '*' (by decide)]
      cases (hcode.trans (codeStep?_blank depth hc)).symm.trans hstep
      exact Or.inr (Or.inl (by simpa [start] using hnext))
    | lineComment =>
      cases hstep
      by_cases hline : c = '\n' <;> simpa [hline, start] using hnext
    | quoted quote =>
      cases hstep
      simp [hne '\\' (by decide), quote_ne_blank quote hc, start] at hnext
    | escaped quote =>
      cases hstep
      simp [start] at hnext
    | blockComment =>
      cases hstep
      simp [hne '*' (by decide), start] at hnext
    | star =>
      cases hstep
      simp [hne '/' (by decide), hne '*' (by decide), start] at hnext

/-- **A line behind the content of a body is scanned as code, whatever ends the content, and whether or not a comma
stands behind it.** -/
theorem closes_append_line {content margin comma : Text} (hblank : isBlank margin = true)
    (hcomma : comma = [] ∨ comma = [',']) (h : IsBody (content ++ margin)) (t : Text) :
    start.scan? (content ++ (comma ++ '\n' :: t)) = start.scan? t := by
  obtain ⟨q, hscan, hq⟩ := h
  rw [scan?_append, Option.bind_eq_some_iff] at hscan
  obtain ⟨p, hcontent, hmargin⟩ := hscan
  rw [scan?_append, hcontent]
  rcases cases_of_scan?_blank hblank hmargin hq with rfl | rfl | rfl <;> rcases hcomma with rfl | rfl <;> rfl

/-- A comma opens no comment. -/
theorem step?_comma_ne_slash (p : Place) (depth : Nat) : p.step? ',' ≠ some ⟨.slash, depth⟩ := by
  obtain ⟨stand, depth'⟩ := p
  cases stand with
  | code => simp [Place.step?, codeStep?, opensQuote]
  | slash => simp [Place.step?, codeStep?, opensQuote]
  | quoted q =>
    simp only [Place.step?]
    split
    · simp
    · split <;> simp
  | _ => simp [Place.step?]

/-- A text in which a reader finds all brackets closed, with a comma at its end, is scanned as code. -/
theorem scan?_of_read {e : Text} (h : (Listing.start.read (e ++ [','])).1 = Listing.start) :
    start.scan? (e ++ [',']) = some start := by
  obtain ⟨-, q, hscan, hq⟩ := closeBody?_iff.1 (closeBody?_of_read h [])
  rcases eq_of_closes hq with rfl | rfl
  · exact hscan
  · rw [scan?_append, Option.bind_eq_some_iff] at hscan
    obtain ⟨p, -, hcomma⟩ := hscan
    rw [scan?_cons, Option.bind_eq_some_iff] at hcomma
    obtain ⟨q, hstep, hq⟩ := hcomma
    cases hq
    exact absurd hstep (step?_comma_ne_slash p 0)

end Bracing
end StyleHoist
