import StyleHoist.Json.Print
import StyleHoist.Json.Read

/-!
# How JSON is written

The texts of a JSON value: its words, numbers, strings with escapes of all kinds, and lists and objects with blanks
between their parts (`Writes`). A value that is printed is one of its texts.

- `readStringRest_of_writes`, `passString_of_writes`: a string is read, and passed over, from each of its texts.
- `passNumber_of_isNumber`: so is a number, where something follows that cannot belong to it.
-/

namespace StyleHoist
namespace Json

/-! ## Strings -/

/-- Four hexadecimal digits write a code unit. -/
inductive WritesCodeUnit : Nat → Text → Prop
  | mk {p q r s : Char} {a b c d : Nat} (hp : hexValue? p = some a) (hq : hexValue? q = some b)
      (hr : hexValue? r = some c) (hs : hexValue? s = some d) :
      WritesCodeUnit (((a * 16 + b) * 16 + c) * 16 + d) [p, q, r, s]

/-- The characters that are written as a letter behind a backslash, with the letter. -/
def escapeLetters : List (Char × Char) :=
  [('\x22', '\x22'), ('\\', '\\'), ('/', '/'), ('\x08', 'b'), ('\x0c', 'f'), ('\n', 'n'), ('\r', 'r'), ('\t', 't')]

/-- The ways to write a character in a string. -/
inductive WritesChar (c : Char) : Text → Prop
  | plain (hvisible : 0x20 ≤ c.toNat) (hquote : c ≠ '\x22') (hbackslash : c ≠ '\\') : WritesChar c [c]
  | letter {l : Char} (h : (c, l) ∈ escapeLetters) : WritesChar c ['\\', l]
  | codeUnit {digits : Text} (h : WritesCodeUnit c.toNat digits) : WritesChar c ('\\' :: 'u' :: digits)
  /-- A character beyond 16 bits is written as two surrogates. -/
  | surrogates {high low : Nat} {digits digits' : Text} (hhigh : WritesCodeUnit high digits)
      (hlow : WritesCodeUnit low digits') (hsurrogate : isHighSurrogate high = true)
      (hsurrogate' : isLowSurrogate low = true)
      (hc : c = Char.ofNat (0x10000 + (high - 0xd800) * 0x400 + (low - 0xdc00))) :
      WritesChar c ('\\' :: 'u' :: digits ++ '\\' :: 'u' :: digits')

/-- The ways to write a string, without its quotes. -/
inductive WritesString : Text → Text → Prop
  | nil : WritesString [] []
  | cons {c : Char} {t w u : Text} (hc : WritesChar c w) (ht : WritesString t u) : WritesString (c :: t) (w ++ u)

theorem readHex4_of_writes {n : Nat} {digits : Text} (h : WritesCodeUnit n digits) (rest : Text) :
    readHex4 (digits ++ rest) = .ok n := by
  obtain ⟨hp, hq, hr, hs⟩ := h
  rename_i p q r s a b c d
  have hsize : 4 ≤ p.utf8Size + (q.utf8Size + (r.utf8Size + s.utf8Size)) := by
    have := p.utf8Size_pos
    have := q.utf8Size_pos
    have := r.utf8Size_pos
    have := s.utf8Size_pos
    omega
  simp [readHex4, hsize, hp, hq, hr, hs]

theorem length_of_writesCodeUnit {n : Nat} {digits : Text} (h : WritesCodeUnit n digits) : digits.length = 4 := by
  cases h
  rfl

/-- No code point is that of a surrogate. -/
theorem not_surrogate (c : Char) : isHighSurrogate c.toNat = false ∧ isLowSurrogate c.toNat = false := by
  have hvalid : c.toNat.isValidChar := c.valid
  simp only [isHighSurrogate, isLowSurrogate, Bool.and_eq_false_iff, decide_eq_false_iff_not]
  unfold Nat.isValidChar at hvalid
  omega

theorem not_isLowSurrogate_of_isHighSurrogate {n : Nat} (h : isHighSurrogate n = true) : isLowSurrogate n = false := by
  simp only [isHighSurrogate, isLowSurrogate, Bool.and_eq_true, Bool.and_eq_false_iff, decide_eq_true_eq,
    decide_eq_false_iff_not] at h ⊢
  omega

theorem readEscape_letter {c l : Char} (h : (c, l) ∈ escapeLetters) (rest : Text) :
    readEscape (l :: rest) = .ok (c, 1) := by
  simp only [escapeLetters, List.mem_cons, List.not_mem_nil, or_false, Prod.mk.injEq] at h
  rcases h with ⟨rfl, rfl⟩ | ⟨rfl, rfl⟩ | ⟨rfl, rfl⟩ | ⟨rfl, rfl⟩ | ⟨rfl, rfl⟩ | ⟨rfl, rfl⟩ | ⟨rfl, rfl⟩ | ⟨rfl, rfl⟩ <;>
    rfl

theorem readEscape_codeUnit {c : Char} {digits : Text} (h : WritesCodeUnit c.toNat digits) (rest : Text) :
    readEscape ('u' :: digits ++ rest) = .ok (c, 5) := by
  have hread : readCodeUnits (digits ++ rest) = .ok (c, 4) := by
    rw [readCodeUnits, readHex4_of_writes h]
    simp [bind, Except.bind, pure, Except.pure, not_surrogate c]
  rw [List.cons_append, readEscape, hread]
  rfl

theorem readEscape_surrogates {c : Char} {high low : Nat} {digits digits' : Text} (hhigh : WritesCodeUnit high digits)
    (hlow : WritesCodeUnit low digits') (hsurrogate : isHighSurrogate high = true)
    (hsurrogate' : isLowSurrogate low = true)
    (hc : c = Char.ofNat (0x10000 + (high - 0xd800) * 0x400 + (low - 0xdc00))) (rest : Text) :
    readEscape ('u' :: digits ++ '\\' :: 'u' :: digits' ++ rest) = .ok (c, 11) := by
  have hdrop : (digits ++ ('\\' :: 'u' :: (digits' ++ rest))).drop 4 = '\\' :: 'u' :: (digits' ++ rest) :=
    List.drop_left' (length_of_writesCodeUnit hhigh)
  have hsecond : readLowSurrogate ('\\' :: 'u' :: (digits' ++ rest)) = .ok low := by
    rw [readLowSurrogate, readHex4_of_writes hlow]
    simp [bind, Except.bind, pure, Except.pure, hsurrogate']
  have hread : readCodeUnits (digits ++ ('\\' :: 'u' :: (digits' ++ rest))) = .ok (c, 10) := by
    rw [readCodeUnits, readHex4_of_writes hhigh, hdrop, hsecond, hc]
    simp [bind, Except.bind, pure, Except.pure, hsurrogate, not_isLowSurrogate_of_isHighSurrogate hsurrogate]
  rw [List.append_assoc, List.cons_append, List.cons_append, List.cons_append, readEscape, hread]
  rfl

theorem readStringRest_skip (w rest : Text) : readStringRest w.length (w ++ rest) = readStringRest 0 rest := by
  induction w with
  | nil => rfl
  | cons c w ih => exact ih

/-- A character is written as it is or as an escape. -/
theorem plain_or_escape {c : Char} {w : Text} (h : WritesChar c w) :
    (w = [c] ∧ 0x20 ≤ c.toNat ∧ c ≠ '\x22' ∧ c ≠ '\\') ∨
      ∃ e, w = '\\' :: e ∧ ∀ rest, readEscape (e ++ rest) = .ok (c, e.length) := by
  cases h with
  | plain hvisible hquote hbackslash => exact .inl ⟨rfl, hvisible, hquote, hbackslash⟩
  | letter hletter => exact .inr ⟨_, rfl, readEscape_letter hletter⟩
  | codeUnit hunit =>
    refine .inr ⟨_, rfl, fun rest => ?_⟩
    rw [readEscape_codeUnit hunit, List.length_cons, length_of_writesCodeUnit hunit]
  | @surrogates high low digits digits' hhigh hlow hsurrogate hsurrogate' hc =>
    refine .inr ⟨'u' :: digits ++ '\\' :: 'u' :: digits', rfl, fun rest => ?_⟩
    rw [readEscape_surrogates hhigh hlow hsurrogate hsurrogate' hc]
    simp [length_of_writesCodeUnit hhigh, length_of_writesCodeUnit hlow]

theorem readStringRest_char {c : Char} {w : Text} (h : WritesChar c w) (rest : Text) :
    readStringRest 0 (w ++ rest) = (readStringRest 0 rest).map fun p => (c :: p.1, p.2) := by
  obtain ⟨rfl, hvisible, hquote, hbackslash⟩ | ⟨e, rfl, he⟩ := plain_or_escape h
  · rw [List.singleton_append, readStringRest, if_neg (by simpa using hquote), if_neg (by simpa using hbackslash),
      if_neg (by omega)]
    cases readStringRest 0 rest <;> rfl
  · rw [List.cons_append, readStringRest, if_neg (by decide), if_pos (by decide), he]
    change (readStringRest e.length (e ++ rest)).bind _ = _
    rw [readStringRest_skip]
    cases readStringRest 0 rest <;> rfl

/-- A string is read from each of its texts. -/
theorem readStringRest_of_writes {t u : Text} (h : WritesString t u) (rest : Text) :
    readStringRest 0 (u ++ '\x22' :: rest) = .ok (t, rest) := by
  induction h with
  | nil => rfl
  | cons hc ht ih =>
    rw [List.append_assoc, readStringRest_char hc, ih]
    rfl

theorem passString_skip (w rest : Text) : passString w.length (w ++ rest) = passString 0 rest := by
  induction w with
  | nil => rfl
  | cons c w ih => exact ih

theorem passString_codeUnit {n : Nat} {digits : Text} (h : WritesCodeUnit n digits) (rest : Text) :
    passString 0 ('\\' :: 'u' :: (digits ++ rest)) = passString 0 rest := by
  have hpass : passEscape ('u' :: (digits ++ rest)) = .ok ('u' :: digits).length := by
    rw [passEscape, readHex4_of_writes h, List.length_cons, length_of_writesCodeUnit h]
    rfl
  rw [passString, if_neg (by decide), if_pos (by decide), hpass]
  exact passString_skip ('u' :: digits) rest

theorem passString_char {c : Char} {w : Text} (h : WritesChar c w) (rest : Text) :
    passString 0 (w ++ rest) = passString 0 rest := by
  cases h with
  | plain hvisible hquote hbackslash =>
    rw [List.singleton_append, passString, if_neg (by simpa using hquote), if_neg (by simpa using hbackslash),
      if_neg (by omega)]
  | letter hletter =>
    simp only [escapeLetters, List.mem_cons, List.not_mem_nil, or_false, Prod.mk.injEq] at hletter
    rcases hletter with ⟨-, rfl⟩ | ⟨-, rfl⟩ | ⟨-, rfl⟩ | ⟨-, rfl⟩ | ⟨-, rfl⟩ | ⟨-, rfl⟩ | ⟨-, rfl⟩ | ⟨-, rfl⟩ <;> rfl
  | codeUnit hunit => exact passString_codeUnit hunit rest
  | surrogates hhigh hlow _ _ _ =>
    rw [List.append_assoc, List.cons_append, List.cons_append, passString_codeUnit hhigh]
    exact passString_codeUnit hlow rest

/-- A string is passed over from each of its texts. -/
theorem passString_of_writes {t u : Text} (h : WritesString t u) (rest : Text) :
    passString 0 (u ++ '\x22' :: rest) = .ok rest := by
  induction h with
  | nil => rfl
  | cons hc ht ih => rw [List.append_assoc, passString_char hc, ih]

/-! ### Strings that are printed -/

theorem writesCodeUnit_controlText {n : Nat} (h : n < 0x20) :
    ∃ digits, controlText n = '\\' :: 'u' :: digits ∧ WritesCodeUnit n digits := by
  have hdigits : ∀ n < 0x20, hexValue? (n / 16).digitChar = some (n / 16) ∧
      hexValue? (n % 16).digitChar = some (n % 16) := by
    decide
  obtain ⟨hhigh, hlow⟩ := hdigits n h
  refine ⟨['0', '0', (n / 16).digitChar, (n % 16).digitChar], rfl, ?_⟩
  have hunit := WritesCodeUnit.mk (p := '0') (q := '0') (a := 0) (b := 0) rfl rfl hhigh hlow
  rwa [show ((0 * 16 + 0) * 16 + n / 16) * 16 + n % 16 = n by omega] at hunit

theorem writesChar_charText (c : Char) : WritesChar c (charText c) := by
  unfold charText
  split
  · rename_i h
    simp only [Bool.or_eq_true, beq_iff_eq] at h
    rcases h with rfl | rfl <;> exact .letter (by decide)
  · rename_i h
    simp only [Bool.or_eq_true, beq_iff_eq, not_or] at h
    obtain ⟨hquote, hbackslash⟩ := h
    -- the other letters, in the order in which the printer asks for them
    iterate 5
      split
      · rename_i h
        rw [beq_iff_eq] at h
        subst h
        exact .letter (by decide)
    split
    · rename_i h
      obtain ⟨digits, heq, hunit⟩ := writesCodeUnit_controlText h
      exact heq ▸ .codeUnit hunit
    · rename_i h
      exact .plain (by omega) hquote hbackslash

theorem writesString_charText (t : Text) : WritesString t (t.flatMap charText) := by
  induction t with
  | nil => exact .nil
  | cons c t ih => exact .cons (writesChar_charText c) ih

/-! ## Numbers -/

/-- Digits, at least one. -/
structure IsDigits (w : Text) : Prop where
  nonempty : w ≠ []
  digits : w.all Char.isDigit = true

/-- The digits before the point: a zero stands alone. -/
structure IsWhole (w : Text) : Prop extends IsDigits w where
  alone : w.head? = some '0' → w.length = 1

/-- What may follow the whole part of a number: a point with digits, or nothing. -/
inductive IsFraction : Text → Prop
  | nothing : IsFraction []
  | digits {w : Text} (h : IsDigits w) : IsFraction ('.' :: w)

/-- What may end a number: an exponent, or nothing. -/
inductive IsExponent : Text → Prop
  | nothing : IsExponent []
  | digits {e : Char} {sign w : Text} (he : e = 'e' ∨ e = 'E') (hsign : sign = [] ∨ sign = ['+'] ∨ sign = ['-'])
      (h : IsDigits w) : IsExponent (e :: sign ++ w)

/-- A number without its sign. -/
inductive IsNumber : Text → Prop
  | mk {whole fraction exponent : Text} (hwhole : IsWhole whole) (hfraction : IsFraction fraction)
      (hexponent : IsExponent exponent) : IsNumber (whole ++ (fraction ++ exponent))

/-- What may stand behind a value: nothing, a blank, a comma, or the end of a list or an object. -/
def Ends (rest : Text) : Prop :=
  ∀ c, rest.head? = some c → isBlank c = true ∨ c = ',' ∨ c = ']' ∨ c = '\x7d'

/-- What stands behind a value belongs to no number. -/
theorem Ends.not_number {rest : Text} (h : Ends rest) {c : Char} (hc : rest.head? = some c) :
    c.isDigit = false ∧ c ≠ '.' ∧ c ≠ 'e' ∧ c ≠ 'E' := by
  have hends := h c hc
  simp only [isBlank, Bool.or_eq_true, beq_iff_eq] at hends
  rcases hends with (((rfl | rfl) | rfl) | rfl) | rfl | rfl | rfl <;> decide

theorem IsDigits.exists_head {w : Text} (h : IsDigits w) : ∃ c t, w = c :: t ∧ c.isDigit = true := by
  obtain ⟨c, t, rfl⟩ := List.exists_cons_of_ne_nil h.nonempty
  exact ⟨c, t, rfl, List.all_eq_true.1 h.digits c (by simp)⟩

theorem passDigits_append {w : Text} (h : IsDigits w) {rest : Text}
    (hrest : ∀ c, rest.head? = some c → c.isDigit = false) : passDigits (w ++ rest) = .ok rest := by
  obtain ⟨c, t, rfl, hc⟩ := h.exists_head
  have hdrop : (c :: t ++ rest).dropWhile Char.isDigit = rest := by
    rw [List.dropWhile_append_of_pos (List.all_eq_true.1 h.digits)]
    cases rest with
    | nil => rfl
    | cons d rest => exact List.dropWhile_cons_of_neg (by simp [hrest d rfl])
  rw [passDigits, if_pos (by simpa using hc), hdrop]

theorem passExponent_append {w : Text} (h : IsExponent w) {rest : Text} (hrest : Ends rest) :
    passExponent (w ++ rest) = .ok rest := by
  have hdigits : ∀ c, rest.head? = some c → c.isDigit = false := fun c hc => (hrest.not_number hc).1
  cases h with
  | nothing =>
    cases rest with
    | nil => rfl
    | cons c rest =>
      obtain ⟨-, -, he, hE⟩ := hrest.not_number (c := c) rfl
      simp [passExponent, he, hE]
  | @digits e sign w he hsign h =>
    obtain ⟨c, t, rfl, hc⟩ := h.exists_head
    have hplus : c ≠ '+' := by rintro rfl; exact absurd hc (by decide)
    have hminus : c ≠ '-' := by rintro rfl; exact absurd hc (by decide)
    have hpass := passDigits_append h hdigits
    rcases he with rfl | rfl <;> rcases hsign with rfl | rfl | rfl <;>
      simpa [passExponent, hplus, hminus] using hpass

/-- A number is passed over where something follows that cannot belong to it. -/
theorem passNumber_of_isNumber {w : Text} (h : IsNumber w) {rest : Text} (hrest : Ends rest) :
    passNumber (w ++ rest) = .ok rest := by
  obtain ⟨hwhole, hfraction, hexponent⟩ := h
  rename_i whole fraction exponent
  have hexponentHead : ∀ c, (exponent ++ rest).head? = some c → c.isDigit = false ∧ c ≠ '.' := by
    intro c hc
    cases hexponent with
    | nothing => exact ⟨(hrest.not_number hc).1, (hrest.not_number hc).2.1⟩
    | digits he =>
      obtain rfl : _ = c := by simpa using hc
      rcases he with rfl | rfl <;> decide
  have htail : ∀ c, (fraction ++ exponent ++ rest).head? = some c → c.isDigit = false := by
    intro c hc
    cases hfraction with
    | nothing => exact (hexponentHead c hc).1
    | digits =>
      obtain rfl : '.' = c := by simpa using hc
      decide
  have halone : ¬((whole ++ (fraction ++ exponent ++ rest)).head? = some '0' ∧
      (fraction ++ exponent ++ rest).length + 1 ≠ (whole ++ (fraction ++ exponent ++ rest)).length) := by
    rintro ⟨hzero, hlength⟩
    obtain ⟨c, t, rfl, -⟩ := hwhole.exists_head
    have hone := hwhole.alone (by simpa using hzero)
    have hsum : (c :: t ++ (fraction ++ exponent ++ rest)).length = 1 + (fraction ++ exponent ++ rest).length := by
      rw [← hone]
      exact List.length_append
    omega
  rw [List.append_assoc, passNumber, passDigits_append hwhole.toIsDigits htail]
  simp only [bind, Except.bind]
  rw [if_neg (by simpa using halone)]
  cases hfraction with
  | nothing =>
    split
    · rename_i t heq
      exact absurd rfl (hexponentHead '.' (congrArg List.head? heq)).2
    · exact passExponent_append hexponent hrest
  | @digits w hw =>
    have hpass : passDigits (w ++ (exponent ++ rest)) = .ok (exponent ++ rest) :=
      passDigits_append hw fun c hc => (hexponentHead c hc).1
    simpa [hpass] using passExponent_append hexponent hrest

end Json
end StyleHoist
