import StyleHoist.Proofs.Text.Parts
import StyleHoist.Script.Read

/-!
# What a scan takes

A scan takes a part off the text in front of it and counts the bytes of that part. This holds of every scanner, so the
offsets of tokens are the sizes of what stands before them.

- `takes_skipGap`: what stands between tokens, and what it can begin with.
- `sound_scanCode`: a token of code is the part of the text that its scan takes, and a punctuator is spelled out there.
-/

namespace StyleHoist.Script

open Text

/-! ## Parts that are taken -/

/-- From `n` bytes on, a scan of `t` takes a part, counts up to `bytes` and leaves `rest`. -/
def Takes (n : Nat) (t : Text) (bytes : Nat) (rest : Text) : Prop :=
  ∃ part, t = part ++ rest ∧ bytes = n + size part

theorem Takes.refl (n : Nat) (t : Text) : Takes n t n t :=
  ⟨[], rfl, rfl⟩

theorem Takes.cons {n bytes : Nat} {c : Char} {t rest : Text} (h : Takes (n + c.utf8Size) t bytes rest) :
    Takes n (c :: t) bytes rest := by
  obtain ⟨part, rfl, rfl⟩ := h
  exact ⟨c :: part, rfl, by rw [size_cons, Nat.add_assoc]⟩

theorem Takes.trans {n m k : Nat} {t u v : Text} (h : Takes n t m u) (h' : Takes m u k v) : Takes n t k v := by
  obtain ⟨part, rfl, rfl⟩ := h
  obtain ⟨part', rfl, rfl⟩ := h'
  exact ⟨part ++ part', by rw [List.append_assoc], by rw [size_append, Nat.add_assoc]⟩

theorem utf8Size_of_le {c : Char} (h : c.toNat ≤ 127) : c.utf8Size = 1 := by
  exact Char.utf8Size_eq_one_iff.2 (UInt32.le_iff_toNat_le.2 h)

/-- A character of one byte is counted as one. -/
theorem Takes.one {n bytes : Nat} {c : Char} {t rest : Text} (hc : c.toNat ≤ 127) (h : Takes (n + 1) t bytes rest) :
    Takes n (c :: t) bytes rest := by
  rw [← utf8Size_of_le hc] at h
  exact h.cons

theorem toNat_le_of_digitValue {c : Char} {d : Nat} (h : digitValue c = some d) : c.toNat ≤ 127 := by
  unfold digitValue at h
  have hle : ∀ e : Char, c ≤ e → c.toNat ≤ e.toNat := fun e he => UInt32.le_iff_toNat_le.1 he
  split at h
  · rename_i hdigit
    have hnine : c ≤ '9' := by
      simp only [Char.isDigit, Bool.and_eq_true, decide_eq_true_eq] at hdigit
      exact hdigit.2
    exact (hle _ hnine).trans (by decide)
  · split at h
    · rename_i hlower
      simp only [Bool.and_eq_true, decide_eq_true_eq] at hlower
      exact (hle _ hlower.2).trans (by decide)
    · split at h
      · rename_i hupper
        simp only [Bool.and_eq_true, decide_eq_true_eq] at hupper
        exact (hle _ hupper.2).trans (by decide)
      · cases h

theorem toNat_le_of_isDigitIn {base : Nat} {c : Char} (h : isDigitIn base c = true) : c.toNat ≤ 127 := by
  unfold isDigitIn at h
  cases hd : digitValue c with
  | none => simp [hd] at h
  | some d => exact toNat_le_of_digitValue hd

theorem takes_takeBytes (p : Char → Bool) : ∀ (n : Nat) (t : Text), Takes n t (takeBytes p n t).1 (takeBytes p n t).2
  | n, [] => Takes.refl n []
  | n, c :: t => by
    rw [takeBytes]
    split
    · exact (takes_takeBytes p _ t).cons
    · exact Takes.refl n (c :: t)

/-- A character takes a part off a text as what follows it does off the rest. -/
theorem takes_char (n : Nat) (c : Char) (t : Text) : Takes n (c :: t) (n + c.utf8Size) t :=
  (Takes.refl _ _).cons

theorem takes_one {n : Nat} {c : Char} (hc : c.toNat ≤ 127) (t : Text) : Takes n (c :: t) (n + 1) t :=
  (Takes.refl _ _).one hc

/-- Whether a token is a punctuator. -/
def Token.isPunct : Token → Bool
  | .punct _ => true
  | _ => false

/-- From `n` bytes on, a scan takes a part and finds no punctuator. -/
structure Scanned.From (n : Nat) (t : Text) (s : Scanned) : Prop where
  takes : Takes n t s.bytes s.rest
  noPunct : s.token.isPunct = false

theorem Scanned.From.after {n m : Nat} {t u : Text} {s : Scanned} (h : s.From m u) (htaken : Takes n t m u) :
    s.From n t where
  takes := htaken.trans h.takes
  noPunct := h.noPunct

/-! ## Gaps -/

/-- Characters other than white space that what stands between tokens can begin with. -/
def gapStarts : List Char := ['/', '<', '-', '\ufeff']

/-- What stands between tokens: behind white space, one of few characters. -/
def IsGap (gap : Text) : Prop :=
  ∀ c ∈ (trimStart gap).head?, c ∈ gapStarts

theorem isGap_nil : IsGap [] := by
  intro c hc
  cases hc

theorem mem_gapStarts {c : Char} : c ∈ gapStarts ↔ c = '/' ∨ c = '<' ∨ c = '-' ∨ c = '\ufeff' := by
  simp [gapStarts]

theorem isBlankChar_of_mem_gapStarts {c : Char} (h : c ∈ gapStarts) : isBlankChar c = false := by
  rcases mem_gapStarts.1 h with rfl | rfl | rfl | rfl <;> decide

theorem isGap_of_start {c : Char} (h : c ∈ gapStarts) (gap : Text) : IsGap (c :: gap) := by
  intro d hd
  rw [trimStart_cons (isBlankChar_of_mem_gapStarts h)] at hd
  cases hd
  exact h

theorem isGap_cons {c : Char} (hc : isBlankChar c = true ∨ c ∈ gapStarts) {gap : Text} (h : IsGap gap) :
    IsGap (c :: gap) := by
  rcases hc with hc | hc
  · intro d hd
    rw [trimStart, List.dropWhile_cons_of_pos hc] at hd
    exact h d hd
  · exact isGap_of_start hc gap

theorem blank_of_isLineEnd {c : Char} (h : isLineEnd c = true) : isBlankChar c = true ∨ c ∈ gapStarts := by
  simp only [isLineEnd, Bool.or_eq_true, beq_iff_eq] at h
  rcases h with ((rfl | rfl) | rfl) | rfl <;> exact Or.inl (by decide)

theorem blank_of_isSpace {c : Char} (h : isSpace c = true) : isBlankChar c = true ∨ c ∈ gapStarts := by
  by_cases hmark : c.toNat = 0xfeff
  · have hc : c = '\ufeff' := Char.toNat_inj.1 hmark
    exact Or.inr (by simp [hc, gapStarts])
  · refine Or.inl ?_
    simp only [isSpace, Bool.or_eq_true, Bool.and_eq_true, beq_iff_eq, decide_eq_true_eq] at h
    simp only [isBlankChar, Bool.or_eq_true, Bool.and_eq_true, beq_iff_eq, decide_eq_true_eq]
    omega

/-- From `n` bytes on, a gap is taken off a text, or the rest of one that has begun with a comment. -/
def TakesGap (part : GapPart) (n : Nat) (t : Text) (g : Gap) : Prop :=
  ∃ gap, t = gap ++ g.rest ∧ g.bytes = n + size gap ∧ (part = .blank → IsGap gap)

/-- What begins a gap leads on to a gap or to a comment. -/
theorem TakesGap.append {part part' : GapPart} {n : Nat} {t : Text} {g : Gap} (begun : Text)
    (hstart : part = .blank → ∃ c begun', begun = c :: begun' ∧
      (c ∈ gapStarts ∨ begun' = [] ∧ isBlankChar c = true ∧ part' = .blank))
    (h : TakesGap part' (n + size begun) t g) : TakesGap part n (begun ++ t) g := by
  obtain ⟨gap, rfl, hbytes, hgap⟩ := h
  refine ⟨begun ++ gap, by rw [List.append_assoc], by rw [hbytes, size_append, Nat.add_assoc], fun hpart => ?_⟩
  obtain ⟨c, begun', rfl, hc | ⟨rfl, hc, hblank⟩⟩ := hstart hpart
  · exact isGap_of_start hc _
  · exact isGap_cons (Or.inl hc) (hgap hblank)

theorem takesGap_blank {n : Nat} {c : Char} {t : Text} {g : Gap} (hc : isBlankChar c = true ∨ c ∈ gapStarts)
    (h : TakesGap .blank (n + c.utf8Size) t g) : TakesGap .blank n (c :: t) g := by
  refine TakesGap.append [c] (fun _ => ⟨c, [], rfl, ?_⟩) h
  rcases hc with hc | hc
  · exact Or.inr ⟨rfl, hc, rfl⟩
  · exact Or.inl hc

theorem takesGap_comment {part part' : GapPart} {n : Nat} {c : Char} {t : Text} {g : Gap} (hpart : part ≠ .blank)
    (h : TakesGap part' (n + c.utf8Size) t g) : TakesGap part n (c :: t) g :=
  TakesGap.append [c] (fun hblank => absurd hblank hpart) h

/-- **What is skipped before a token is a gap.** -/
theorem takes_skipGap (part : GapPart) (n : Nat) (nl bad : Bool) (t : Text) :
    TakesGap part n t (skipGap part n nl bad t) := by
  fun_induction skipGap part n nl bad t with
  | case1 => exact ⟨[], rfl, rfl, fun _ => isGap_nil⟩
  | case2 => exact ⟨[], rfl, rfl, fun _ => isGap_nil⟩
  | case3 n nl bad t ih =>
    exact TakesGap.append "//".toList (fun _ => ⟨'/', ['/'], rfl, Or.inl (by decide)⟩) ih
  | case4 n nl bad t ih =>
    exact TakesGap.append "/*".toList (fun _ => ⟨'/', ['*'], rfl, Or.inl (by decide)⟩) ih
  | case5 n nl bad t ih =>
    exact TakesGap.append "<!--".toList (fun _ => ⟨'<', "!--".toList, rfl, Or.inl (by decide)⟩) ih
  | case6 n nl bad t ih => exact TakesGap.append "*/".toList (fun h => by cases h) ih
  | case7 n nl bad c t _ _ _ hc ih => exact takesGap_blank (blank_of_isLineEnd hc) ih
  | case8 n nl bad c t _ _ _ _ hc ih => exact takesGap_blank (blank_of_isSpace hc) ih
  | case9 n nl bad c t _ _ _ _ _ harrow ih =>
    -- The rest of a comment in the markup notation begins with a hyphen.
    have hc : c = '-' := by
      by_contra hne
      simp [beginsWith, dropPart?, Ne.symm hne] at harrow
    refine TakesGap.append [c] (fun _ => ⟨c, [], rfl, Or.inl ?_⟩) ih
    rw [hc]
    decide
  | case10 => exact ⟨[], rfl, rfl, fun _ => isGap_nil⟩
  | case11 n nl bad c t hc ih => exact takesGap_comment (fun h => by cases h) ih
  | case12 n nl bad c t hc ih => exact takesGap_comment (fun h => by cases h) ih
  | case13 n nl bad c t _ ih => exact takesGap_comment (fun h => by cases h) ih

/-! ## Numbers -/

theorem takes_scanDigits (base n : Nat) (any bad afterDigit : Bool) (t : Text) :
    Takes n t (scanDigits base n any bad afterDigit t).bytes (scanDigits base n any bad afterDigit t).rest := by
  fun_induction scanDigits base n any bad afterDigit t with
  | case1 => exact Takes.refl _ _
  | case2 n any bad afterDigit c t hc ih => exact Takes.one (toNat_le_of_isDigitIn hc) ih
  | case3 n any bad afterDigit c t _ hc ih =>
    obtain rfl : c = '_' := by simpa using hc
    exact Takes.one (by decide) ih
  | case4 => exact Takes.refl _ _

theorem from_endNumber {n : Nat} {t : Text} {s : Scanned} (h : s.From n t) : (endNumber s).From n t := by
  unfold endNumber
  split
  · exact ⟨h.takes, rfl⟩
  · exact h

theorem from_scanExponent (n : Nat) (faulty : Bool) (t : Text) : (scanExponent n faulty t).From n t := by
  cases t with
  | nil => exact ⟨Takes.refl n [], rfl⟩
  | cons e t =>
    by_cases he : e = 'e' ∨ e = 'E'
    · have hone : e.toNat ≤ 127 := by rcases he with rfl | rfl <;> decide
      have he' : (e == 'e' || e == 'E') = true := by simpa using he
      -- A sign may stand before the digits.
      have hnumber : ∀ m u, Takes (n + 1) t m u →
          Scanned.From n (e :: t) (if (scanDigits 10 m false faulty false u).any
            then endNumber ⟨.number, (scanDigits 10 m false faulty false u).bytes,
              (scanDigits 10 m false faulty false u).rest, (scanDigits 10 m false faulty false u).faulty⟩
            else ⟨.bad, (scanDigits 10 m false faulty false u).bytes,
              (scanDigits 10 m false faulty false u).rest, true⟩) := by
        intro m u h
        have hdigits := ((takes_one hone t).trans h).trans (takes_scanDigits 10 m false faulty false u)
        split
        · exact from_endNumber ⟨hdigits, rfl⟩
        · exact ⟨hdigits, rfl⟩
      simp only [scanExponent, he', if_true]
      cases t with
      | nil => exact hnumber _ _ (Takes.refl _ _)
      | cons s t =>
        by_cases hs : s = '+' ∨ s = '-'
        · have hs' : (s == '+' || s == '-') = true := by simpa using hs
          have hsign : s.toNat ≤ 127 := by rcases hs with rfl | rfl <;> decide
          simp only [hs', if_true]
          exact hnumber _ _ (takes_one hsign t)
        · have hs' : ¬(s == '+' || s == '-') = true := by simpa using hs
          simp only [hs']
          exact hnumber _ _ (Takes.refl _ _)
    · have he' : ¬(e == 'e' || e == 'E') = true := by simpa using he
      simp only [scanExponent, he']
      exact from_endNumber ⟨Takes.refl _ _, rfl⟩

theorem from_scanFraction (n : Nat) (faulty : Bool) (t : Text) : (scanFraction n faulty t).From n t := by
  unfold scanFraction
  split
  · rename_i t'
    exact (from_scanExponent ..).after ((takes_one (by decide) t').trans (takes_scanDigits ..))
  · rename_i t'
    split
    · exact from_scanExponent ..
    · exact from_endNumber ⟨takes_one (by decide) t', rfl⟩
  · exact from_scanExponent ..

theorem from_scanRadix {n : Nat} {t u : Text} (base : Nat) (h : Takes n t 2 u) : (scanRadix base u).From n t := by
  have hdigits := h.trans (takes_scanDigits base 2 false false false u)
  unfold scanRadix
  dsimp only
  split
  · exact ⟨hdigits, rfl⟩
  · split
    · rename_i t' hrest
      rw [hrest] at hdigits
      exact from_endNumber ⟨hdigits.trans (takes_one (by decide) t'), rfl⟩
    · exact from_endNumber ⟨hdigits, rfl⟩

theorem from_scanNumber (t : Text) : (scanNumber t).From 0 t := by
  unfold scanNumber
  split
  · rename_i x t'
    have hmarker : ∀ c, c.toNat ≤ 127 → x = c → Takes 0 ('0' :: x :: t') 2 t' := by
      rintro c hc rfl
      exact (takes_one (by decide) _).trans (takes_one hc t')
    have hdigits := takes_scanDigits 10 0 false false false ('0' :: x :: t')
    split
    · rename_i hx
      simp only [Bool.or_eq_true, beq_iff_eq] at hx
      rcases hx with hx | hx <;> exact from_scanRadix 16 (hmarker _ (by decide) hx)
    · split
      · rename_i hx
        simp only [Bool.or_eq_true, beq_iff_eq] at hx
        rcases hx with hx | hx <;> exact from_scanRadix 8 (hmarker _ (by decide) hx)
      · split
        · rename_i hx
          simp only [Bool.or_eq_true, beq_iff_eq] at hx
          rcases hx with hx | hx <;> exact from_scanRadix 2 (hmarker _ (by decide) hx)
        · dsimp only
          split
          · split
            · exact from_endNumber ⟨hdigits, rfl⟩
            · exact (from_scanFraction ..).after hdigits
          · exact (from_scanFraction ..).after hdigits
  · exact (from_scanFraction ..).after (takes_scanDigits ..)

/-! ## Strings, templates and regular expressions -/

theorem from_scanString (quote : Char) (part : EscapePart) (faulty : Bool) (n : Nat) (t : Text) :
    (scanString quote part faulty n t).From n t := by
  fun_induction scanString quote part faulty n t with
  | case1 => exact ⟨Takes.refl _ _, by dsimp only; split <;> rfl⟩
  | case2 part faulty n c t next outdated _ ih => exact ih.after (takes_char n c t)
  | case3 => exact ⟨Takes.refl _ _, rfl⟩
  | case4 part faulty n c t => exact ⟨takes_char n c t, rfl⟩
  | case5 => exact ⟨Takes.refl _ _, rfl⟩
  | case6 part faulty n c t _ _ _ ih => exact ih.after (takes_char n c t)

theorem from_scanTemplate (part : EscapePart) (ok : Bool) (n : Nat) (t : Text) :
    (scanTemplate part ok n t).From n t := by
  fun_induction scanTemplate part ok n t with
  | case1 => exact ⟨Takes.refl _ _, rfl⟩
  | case2 part ok n c t next outdated _ ih => exact ih.after (takes_char n c t)
  | case3 part ok n c t hc =>
    obtain rfl : c = '\x60' := by simpa using hc
    exact ⟨takes_one (by decide) t, rfl⟩
  | case4 part ok n c t _ hc =>
    simp only [Bool.and_eq_true, beq_iff_eq] at hc
    obtain ⟨rfl, hbrace⟩ := hc
    cases t with
    | nil => simp [startsWhere] at hbrace
    | cons d t =>
      obtain rfl : d = '\x7b' := by simpa [startsWhere] using hbrace
      exact ⟨(takes_one (by decide) _).trans (takes_one (by decide) t), rfl⟩
  | case5 part ok n c t _ _ _ _ ih => exact ih.after (takes_char n c t)

theorem from_scanRegex (inClass escaped : Bool) (n : Nat) (t : Text) : (scanRegex inClass escaped n t).From n t := by
  fun_induction scanRegex inClass escaped n t with
  | case1 => exact ⟨Takes.refl _ _, rfl⟩
  | case2 => exact ⟨Takes.refl _ _, rfl⟩
  | case3 inClass n c t _ ih => exact ih.after (takes_char n c t)
  | case4 inClass escaped n c t _ _ hc m rest hflags =>
    simp only [Bool.and_eq_true, beq_iff_eq] at hc
    have htaken := takes_takeBytes isIdContinue (n + 1) t
    rw [hflags] at htaken
    exact ⟨(takes_one (by rw [hc.1]; decide) t).trans htaken, rfl⟩
  | case5 inClass escaped n c t _ _ _ ih => exact ih.after (takes_char n c t)

/-! ## Words -/

theorem from_scanWord (part : WordPart) (name : Text) (escaped faulty : Bool) (n : Nat) (t : Text) :
    (scanWord part name escaped faulty n t).From n t := by
  fun_induction scanWord part name escaped faulty n t with
  | case3 name escaped faulty n c t hc ih =>
    obtain rfl : c = '\\' := by simpa using hc
    exact ih.after (takes_one (by decide) t)
  | case4 name escaped faulty n c t _ _ ih => exact ih.after (takes_char n c t)
  | case6 name escaped faulty n c t hc ih =>
    obtain rfl : c = 'u' := by simpa using hc
    exact ih.after (takes_one (by decide) t)
  | case8 name escaped faulty n c t hc ih =>
    obtain rfl : c = '\x7b' := by simpa using hc
    exact ih.after (takes_one (by decide) t)
  | case9 name escaped faulty n c t _ d hd ih => exact ih.after (takes_one (toNat_le_of_digitValue hd) t)
  | case11 due value name escaped faulty n c t d hd _ _ ih => exact ih.after (takes_one (toNat_le_of_digitValue hd) t)
  | case12 due value name escaped faulty n c t d hd _ _ ih => exact ih.after (takes_one (toNat_le_of_digitValue hd) t)
  | case14 value any name escaped faulty n c t d hd _ ih => exact ih.after (takes_one (toNat_le_of_digitValue hd) t)
  | case16 value any name escaped faulty n c t _ hc ih =>
    simp only [Bool.and_eq_true, beq_iff_eq] at hc
    exact ih.after (takes_one (by rw [hc.1]; decide) t)
  | _ => exact ⟨Takes.refl _ _, rfl⟩

/-! ## Punctuators -/

/-- The text of a punctuator is the part that has been read. -/
theorem eq_of_ofText {entries : List (Text × Punct)} {t : Text} {p : Punct} {n : Nat} {rest : Text}
    (h : Punct.ofText entries t = some (p, n, rest)) :
    ∃ part, t = part ++ rest ∧ n = size part ∧ (part, p) ∈ entries := by
  induction entries with
  | nil => cases h
  | cons entry entries ih =>
    obtain ⟨part, q⟩ := entry
    rw [Punct.ofText] at h
    split at h
    · rename_i rest' hdrop
      cases h
      exact ⟨part, eq_append_of_dropPart? hdrop, rfl, List.mem_cons_self⟩
    · obtain ⟨part, ht, hn, hmem⟩ := ih h
      exact ⟨part, ht, hn, List.mem_cons_of_mem _ hmem⟩

/-- A punctuator is spelled out by the part that its scan takes. -/
def Token.Spelled (token : Token) (part : Text) : Prop :=
  ∀ p, token = .punct p → (part, p) ∈ punctTable ++ gtTable

/-- A scan takes a part that spells its token. -/
def Scanned.Sound (t : Text) (s : Scanned) : Prop :=
  ∃ part, t = part ++ s.rest ∧ s.bytes = size part ∧ s.token.Spelled part

/-- The spelling of a token that is no punctuator does not matter. -/
theorem Scanned.From.sound {t : Text} {s : Scanned} (h : s.From 0 t) : s.Sound t := by
  obtain ⟨⟨part, ht, hbytes⟩, hnone⟩ := h
  refine ⟨part, ht, by rw [hbytes, Nat.zero_add], fun p hp => ?_⟩
  rw [hp] at hnone
  cases hnone

/-- **A scan of code takes a part that spells its token.** -/
theorem sound_scanCode (t : Text) : (scanCode t).Sound t := by
  unfold scanCode
  split
  · exact ⟨[], rfl, rfl, fun p hp => nomatch hp⟩
  · rename_i c t'
    split
    · exact (from_scanWord ..).sound
    · split
      · exact (from_scanNumber _).sound
      · split
        · rename_i hc
          have hone : c.toNat ≤ 127 := by
            simp only [Bool.or_eq_true, beq_iff_eq] at hc
            rcases hc with rfl | rfl <;> decide
          exact ((from_scanString ..).after (takes_one hone t')).sound
        · split
          · rename_i n rest hpunct
            obtain ⟨part, ht, hn, hmem⟩ := eq_of_ofText hpunct
            split
            · -- A question mark before a digit is read alone.
              have hpart : part = "?.".toList := by
                have hall : ∀ e ∈ punctTable, e.2 = .optional → e.1 = "?.".toList := by decide
                exact hall _ hmem rfl
              rw [hpart] at ht
              obtain ⟨rfl, rfl⟩ := List.cons.inj ht
              refine ⟨['?'], rfl, rfl, fun p hp => ?_⟩
              cases hp
              decide
            · exact ⟨part, ht, hn, fun p hp => by cases hp; exact List.mem_append_left _ hmem⟩
          · rename_i p n rest _ hpunct
            obtain ⟨part, ht, hn, hmem⟩ := eq_of_ofText hpunct
            exact ⟨part, ht, hn, fun q hq => by cases hq; exact List.mem_append_left _ hmem⟩
          · exact ⟨[], rfl, rfl, fun p hp => nomatch hp⟩

/-! ## Markup -/

theorem from_scanMarkupText (faulty : Bool) (n : Nat) (t : Text) : (scanMarkupText faulty n t).From n t := by
  fun_induction scanMarkupText faulty n t with
  | case3 faulty n c t _ ih => exact ih.after (takes_char n c t)
  | _ => exact ⟨Takes.refl _ _, rfl⟩

theorem from_scanMarkupString {quote : Char} (hquote : quote.toNat ≤ 127) (n : Nat) (t : Text) :
    (scanMarkupString quote n t).From n t := by
  fun_induction scanMarkupString quote n t with
  | case1 => exact ⟨Takes.refl _ _, rfl⟩
  | case2 n c t hc =>
    obtain rfl : c = quote := by simpa using hc
    exact ⟨takes_one hquote t, rfl⟩
  | case3 n c t _ ih => exact ih.after (takes_char n c t)

/-- A name in markup is a word that is spelled as the part that its scan takes. -/
theorem scanMarkupName_eq (t : Text) : ∃ w, (scanMarkupName t).token = .word .plain w ∧
    t = w ++ (scanMarkupName t).rest ∧ (scanMarkupName t).bytes = size w := by
  have htake : ∀ (p : Char → Bool) (n : Nat) (t : Text),
      (takeBytes p n t).2 = t.dropWhile p ∧ (takeBytes p n t).1 = n + size (t.takeWhile p) := by
    intro p n t
    induction t generalizing n with
    | nil => exact ⟨rfl, rfl⟩
    | cons c t ih =>
      rw [takeBytes]
      by_cases hc : p c = true
      · simp [hc, ih, Nat.add_assoc]
      · simp [hc]
  obtain ⟨hrest, hbytes⟩ := htake (fun c => isIdContinue c || c == '-') 0 t
  refine ⟨_, rfl, ?_, ?_⟩
  · rw [show (scanMarkupName t).rest = _ from hrest, List.takeWhile_append_dropWhile]
  · rw [show (scanMarkupName t).bytes = _ from hbytes, Nat.zero_add]

end StyleHoist.Script
