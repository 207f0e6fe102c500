import Mathlib.Data.List.TakeWhile
import StyleHoist.Text.Basic

/-!
# Parts of texts

A position in a text is a way to split it: an offset is a boundary if and only if it is the size of a first part
(`isBoundary_iff`). The readers of a text take parts off its start or its end; what they take and what they leave
always put together give the text (`eq_append_of_dropPart?`, `trimEnd_append_blank`).
-/

namespace StyleHoist
namespace Text

/-! ## Boundaries -/

/-- An offset is a boundary if and only if some first part has this size. -/
theorem isBoundary_iff {t : Text} {offset : Nat} : isBoundary t offset = true ↔ ∃ a b, t = a ++ b ∧ size a = offset := by
  constructor
  · intro h
    obtain ⟨⟨a, b⟩, hab⟩ := Option.isSome_iff_exists.1 h
    obtain ⟨happ, hsize⟩ := splitAt?_eq_some hab
    exact ⟨a, b, happ.symm, hsize⟩
  · rintro ⟨a, b, rfl, rfl⟩
    simp [isBoundary, splitAt?_size]

theorem isBoundary_size_append (a b : Text) : isBoundary (a ++ b) (size a) = true :=
  isBoundary_iff.2 ⟨a, b, rfl, rfl⟩

theorem before_size_append (a b : Text) : before (a ++ b) (size a) = a := by
  simp [before, splitAt?_size]

theorem after_size_append (a b : Text) : after (a ++ b) (size a) = b := by
  simp [after, splitAt?_size]

/-! ## Parts at the start -/

theorem eq_append_of_dropPart? : ∀ {part t rest : Text}, dropPart? part t = some rest → t = part ++ rest
  | [], t, rest, h => by simpa [dropPart?] using h
  | p :: ps, [], rest, h => by simp [dropPart?] at h
  | p :: ps, c :: t, rest, h => by
    simp only [dropPart?] at h
    split at h
    · rename_i hpc
      have hpc : p = c := by simpa using hpc
      rw [hpc, eq_append_of_dropPart? h, List.cons_append]
    · cases h

/-- A text is the white space at its start and what trimming leaves. -/
theorem takeWhile_append_trimStart (t : Text) : t.takeWhile isBlankChar ++ trimStart t = t :=
  List.takeWhile_append_dropWhile

theorem trimStart_blank_append {a : Text} (ha : isBlank a = true) (t : Text) : trimStart (a ++ t) = trimStart t := by
  rw [trimStart, List.dropWhile_append_of_pos (by simpa [isBlank] using ha), trimStart]

theorem trimStart_cons {c : Char} (hc : isBlankChar c = false) (t : Text) : trimStart (c :: t) = c :: t := by
  rw [trimStart, List.dropWhile_cons_of_neg (by simp [hc])]

theorem dropPart?_append (part rest : Text) : dropPart? part (part ++ rest) = some rest := by
  induction part with
  | nil => cases rest <;> rfl
  | cons c part ih => simpa [dropPart?] using ih

theorem isSome_splitOn? {part : Text} : ∀ {t : Text}, part <:+: t → (splitOn? part t).isSome = true
  | [], h => by simp [splitOn?, List.infix_nil.1 h]
  | c :: t, h => by
    simp only [splitOn?]
    split
    · rfl
    · rename_i hdrop
      rw [Option.isSome_map]
      refine isSome_splitOn? ((List.infix_cons_iff.1 h).resolve_left ?_)
      rintro ⟨rest, hrest⟩
      rw [← hrest, dropPart?_append] at hdrop
      cases hdrop

theorem eq_append_of_splitOn? {part : Text} : ∀ {t a b : Text}, splitOn? part t = some (a, b) → t = a ++ part ++ b
  | [], a, b, h => by
    simp only [splitOn?] at h
    split at h
    · rename_i hpart
      cases h
      simpa using hpart
    · cases h
  | c :: t, a, b, h => by
    simp only [splitOn?] at h
    split at h
    · rename_i rest hrest
      cases h
      exact eq_append_of_dropPart? hrest
    · obtain ⟨⟨a', b'⟩, hsplit, heq⟩ := Option.map_eq_some_iff.1 h
      cases heq
      exact congrArg (c :: ·) (eq_append_of_splitOn? hsplit)

/-- A text is split at the first place where a part stands. -/
theorem not_infix_of_splitOn? {part : Text} (hpart : part ≠ []) : ∀ {t a b : Text}, splitOn? part t = some (a, b) →
    ¬part <:+: a
  | [], a, b, h => by simp [splitOn?, hpart] at h
  | c :: t, a, b, h => by
    have htext := eq_append_of_splitOn? h
    simp only [splitOn?] at h
    split at h
    · cases h
      simpa using hpart
    · rename_i hnone
      obtain ⟨⟨a', b'⟩, hsplit, heq⟩ := Option.map_eq_some_iff.1 h
      cases heq
      intro hinfix
      rcases List.infix_cons_iff.1 hinfix with ⟨x, hx⟩ | hinfix
      · rw [htext, ← hx, List.append_assoc, List.append_assoc, dropPart?_append] at hnone
        cases hnone
      · exact not_infix_of_splitOn? hpart hsplit hinfix

/-! ## Parts at the end -/

theorem dropEndWhile_append (p : Char → Bool) (t : Text) : ∃ ending, t = dropEndWhile p t ++ ending ∧
    ending.all p = true := by
  refine ⟨(t.reverse.takeWhile p).reverse, ?_, by simp [List.all_takeWhile]⟩
  rw [dropEndWhile, ← List.reverse_append, List.takeWhile_append_dropWhile, List.reverse_reverse]

/-- What is left has no character at its end that is to be dropped. -/
theorem dropEndWhile_getLast? {p : Char → Bool} {t : Text} {c : Char} (h : (dropEndWhile p t).getLast? = some c) :
    p c = false := by
  rw [dropEndWhile, List.getLast?_reverse] at h
  have hnot := List.head?_dropWhile_not p t.reverse
  rw [h] at hnot
  exact hnot

/-- A text is what trimming its end leaves and blanks behind it. -/
theorem trimEnd_append_blank (t : Text) : ∃ margin, t = trimEnd t ++ margin ∧ isBlank margin = true :=
  dropEndWhile_append isBlankChar t

theorem isBlankChar_of_isIndentChar {c : Char} (h : isIndentChar c = true) : isBlankChar c = true := by
  simp only [isIndentChar, Bool.or_eq_true, beq_iff_eq] at h
  rcases h with rfl | rfl <;> decide

theorem isBlank_cons {c : Char} {t : Text} : isBlank (c :: t) = true ↔ isBlankChar c = true ∧ isBlank t = true := by
  simp [isBlank]

theorem isBlank_append (s t : Text) : isBlank (s ++ t) = (isBlank s && isBlank t) :=
  List.all_append

theorem isBlank_append_newline {t : Text} (h : isBlank t = true) : isBlank (t ++ ['\n']) = true := by
  rw [isBlank_append, h]
  rfl

theorem isBlank_trimEnd (t : Text) : isBlank (trimEnd t) = isBlank t := by
  obtain ⟨margin, heq, hmargin⟩ := trimEnd_append_blank t
  conv => rhs; rw [heq, isBlank_append, hmargin, Bool.and_true]

theorem prefix_trimEnd (t : Text) : trimEnd t <+: t := by
  obtain ⟨margin, heq, -⟩ := trimEnd_append_blank t
  exact ⟨margin, heq.symm⟩

theorem dropEndWhile_append_of_all {p : Char → Bool} {t ending : Text} (h : ending.all p = true) :
    dropEndWhile p (t ++ ending) = dropEndWhile p t := by
  rw [dropEndWhile, List.reverse_append, List.dropWhile_append_of_pos (by simpa using h), dropEndWhile]

theorem trimEnd_append_of_isBlank {t margin : Text} (h : isBlank margin = true) : trimEnd (t ++ margin) = trimEnd t :=
  dropEndWhile_append_of_all h

theorem trimEnd_append_trimEnd (s t : Text) : trimEnd (s ++ trimEnd t) = trimEnd (s ++ t) := by
  obtain ⟨margin, ht, hmargin⟩ := trimEnd_append_blank t
  conv => rhs; rw [ht, ← List.append_assoc, trimEnd_append_of_isBlank hmargin]

theorem trimEnd_trimEnd (t : Text) : trimEnd (trimEnd t) = trimEnd t :=
  trimEnd_append_trimEnd [] t

/-- A text that ends in no blank is left as it is. -/
theorem trimEnd_concat {t : Text} {c : Char} (h : isBlankChar c = false) : trimEnd (t ++ [c]) = t ++ [c] := by
  simp [trimEnd, dropEndWhile, h]

/-- Blanks behind a text do not matter to trimming. -/
theorem trim_append_of_isBlank {t margin : Text} (h : isBlank margin = true) : trim (t ++ margin) = trim t := by
  by_cases ht : isBlank t = true
  · have hnil : ∀ {s : Text}, isBlank s = true → trimStart s = [] := fun hs =>
      List.dropWhile_eq_nil_iff.2 (by simpa [isBlank] using hs)
    have hall : isBlank (t ++ margin) = true := by rw [isBlank, List.all_append, Bool.and_eq_true]; exact ⟨ht, h⟩
    rw [trim, trim, hnil ht, hnil hall]
  · have hne : ∃ c ∈ t, isBlankChar c = false := by
      simpa [isBlank] using ht
    have hdrop : trimStart (t ++ margin) = trimStart t ++ margin := by
      rw [trimStart, List.dropWhile_append, if_neg]
      · rfl
      · simpa [List.isEmpty_iff, List.dropWhile_eq_nil_iff] using hne
    rw [trim, hdrop, trimEnd_append_of_isBlank h, trim]

/-- Blanks before a text do not matter to trimming. -/
theorem trim_blank_append {t margin : Text} (h : isBlank margin = true) : trim (margin ++ t) = trim t := by
  rw [trim, trimStart, List.dropWhile_append_of_pos (by simpa [isBlank] using h), trim, trimStart]

theorem trimEnd_eq_nil_iff {t : Text} : trimEnd t = [] ↔ isBlank t = true := by
  simp [trimEnd, dropEndWhile, List.dropWhile_eq_nil_iff, isBlank]

/-- Trimming leaves nothing of a text if and only if it is blank. -/
theorem trim_eq_nil_iff {t : Text} : trim t = [] ↔ isBlank t = true := by
  rw [trim, trimEnd_eq_nil_iff]
  constructor
  · intro h
    rw [isBlank, ← takeWhile_append_trimStart t, List.all_append, Bool.and_eq_true]
    exact ⟨List.all_takeWhile, h⟩
  · intro h
    have hnil : trimStart t = [] := List.dropWhile_eq_nil_iff.2 (by simpa [isBlank] using h)
    rw [hnil]
    rfl

/-- Nothing is dropped from a text that ends in a character to be kept. -/
theorem dropEndWhile_of_getLast? {p : Char → Bool} {t : Text} (h : ∀ c, t.getLast? = some c → p c = false) :
    dropEndWhile p t = t := by
  cases hlast : t.getLast? with
  | none => rw [List.getLast?_eq_none_iff.1 hlast]; rfl
  | some c =>
    obtain ⟨s, rfl⟩ := List.getLast?_eq_some_iff.1 hlast
    simp [dropEndWhile, h c hlast]

theorem trimEnd_of_getLast? {t : Text} (h : ∀ c, t.getLast? = some c → isBlankChar c = false) : trimEnd t = t :=
  dropEndWhile_of_getLast? h

/-- What is dropped from the end of a text stands behind each character that is kept. -/
theorem dropEndWhile_append_cons {p : Char → Bool} (a : Text) {c : Char} (hc : p c = false) (b : Text) :
    dropEndWhile p (a ++ c :: b) = a ++ c :: dropEndWhile p b := by
  rw [dropEndWhile, List.reverse_append, List.reverse_cons, List.append_assoc, List.dropWhile_append, dropEndWhile]
  split
  · rename_i hempty
    rw [List.isEmpty_iff.1 hempty]
    simp [hc]
  · simp

/-- A text that is not blank is trimmed at its end, whatever stands before it. -/
theorem trimEnd_append_of_not_isBlank {s t : Text} (h : ¬isBlank t = true) : trimEnd (s ++ t) = s ++ trimEnd t := by
  obtain ⟨margin, ht, hmargin⟩ := trimEnd_append_blank t
  have hne : trimEnd t ≠ [] := fun hnil => h (trimEnd_eq_nil_iff.1 hnil)
  conv => lhs; rw [ht, ← List.append_assoc, trimEnd_append_of_isBlank hmargin]
  refine trimEnd_of_getLast? fun c hc => ?_
  rw [List.getLast?_append, Option.or_of_isSome (by simpa using hne)] at hc
  exact dropEndWhile_getLast? hc

/-- Behind a character that is no blank only the end is trimmed. -/
theorem trimEnd_append_cons (a : Text) {c : Char} (hc : isBlankChar c = false) (b : Text) :
    trimEnd (a ++ c :: b) = a ++ c :: trimEnd b :=
  dropEndWhile_append_cons a hc b

theorem trim_trimEnd (t : Text) : trim (trimEnd t) = trim t := by
  obtain ⟨margin, heq, hmargin⟩ := trimEnd_append_blank t
  conv => rhs; rw [heq, trim_append_of_isBlank hmargin]

/-- It does not matter which end is trimmed first. -/
theorem trimStart_trimEnd (t : Text) : trimStart (trimEnd t) = trim t := by
  refine (trimEnd_of_getLast? fun c hc => ?_).symm.trans (trim_trimEnd t)
  have hlast : (trimEnd t).getLast? = some c := by
    rw [← takeWhile_append_trimStart (trimEnd t), List.getLast?_append, hc]
    rfl
  exact dropEndWhile_getLast? hlast

theorem trim_trimStart (t : Text) : trim (trimStart t) = trim t := by
  conv => rhs; rw [← takeWhile_append_trimStart t, trim_blank_append List.all_takeWhile]

theorem trim_trim (t : Text) : trim (trim t) = trim t :=
  (trim_trimEnd (trimStart t)).trans (trim_trimStart t)

/-- A text is what trimming leaves of it and white space around that. -/
theorem blank_append_trim (t : Text) : ∃ a b, t = a ++ (trim t ++ b) ∧ isBlank a = true ∧ isBlank b = true := by
  obtain ⟨b, heq, hb⟩ := trimEnd_append_blank (trimStart t)
  refine ⟨t.takeWhile isBlankChar, b, ?_, List.all_takeWhile, hb⟩
  conv => lhs; rw [← takeWhile_append_trimStart t, heq]
  rfl

theorem trim_eq_self {t : Text} (hstart : ∀ c, t.head? = some c → isBlankChar c = false)
    (hend : ∀ c, t.getLast? = some c → isBlankChar c = false) : trim t = t := by
  have htrim : trimStart t = t := by
    cases t with
    | nil => rfl
    | cons c t => simp [trimStart, hstart c rfl]
  rw [trim, htrim, trimEnd_of_getLast? hend]

/-- A trimmed text neither begins nor ends with a blank. -/
theorem ends_trim {t : Text} {c : Char} :
    ((trim t).head? = some c → isBlankChar c = false) ∧ ((trim t).getLast? = some c → isBlankChar c = false) := by
  refine ⟨fun h => ?_, dropEndWhile_getLast?⟩
  obtain ⟨margin, heq, -⟩ := trimEnd_append_blank (trimStart t)
  have hhead : (trimStart t).head? = some c := by
    rw [heq, List.head?_append, show (trimEnd (trimStart t)).head? = some c from h]
    rfl
  have hnot := List.head?_dropWhile_not isBlankChar t
  rw [show (t.dropWhile isBlankChar).head? = some c from hhead] at hnot
  exact hnot

/-- What is trimmed of the beginning of a text stands at the beginning of what is trimmed of the text. -/
theorem trim_prefix_trim_append (s t : Text) : trim s <+: trim (s ++ t) := by
  cases hlast : (trim s).getLast? with
  | none =>
    rw [List.getLast?_eq_none_iff.1 hlast]
    exact List.nil_prefix
  | some c =>
    obtain ⟨u, hu⟩ := List.getLast?_eq_some_iff.1 hlast
    obtain ⟨a, b, hs, ha, -⟩ := blank_append_trim s
    have hsplit : s ++ t = a ++ (trim s ++ (b ++ t)) := by
      conv => lhs; rw [hs]
      simp
    have hstart : trimStart (trim s ++ (b ++ t)) = trim s ++ (b ++ t) := by
      cases hhead : trim s with
      | nil => simp [hhead] at hu
      | cons d v =>
        have hd : isBlankChar d = false := ends_trim.1 (show (trim s).head? = some d by rw [hhead]; rfl)
        simp [trimStart, hd]
    have hend : trimEnd (trim s ++ (b ++ t)) = trim s ++ trimEnd (b ++ t) := by
      rw [hu, List.append_assoc, List.singleton_append, trimEnd_append_cons u (ends_trim.2 hlast)]
      simp
    have htrim : trim (trim s ++ (b ++ t)) = trim s ++ trimEnd (b ++ t) := by rw [trim, hstart, hend]
    rw [hsplit, trim_blank_append ha, htrim]
    exact List.prefix_append ..

end Text
end StyleHoist
