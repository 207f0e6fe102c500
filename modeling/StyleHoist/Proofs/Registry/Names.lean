import Mathlib.Data.List.Dedup
import StyleHoist.Proofs.Text.Parts
import StyleHoist.Registry.Basic
import StyleHoist.Text.Identifier

/-!
# Names of entries

The names that a scan for keys counts as taken, and the names that are given to new entries.

- `mem_keysOf`: a word with a colon behind it is a key wherever a word can begin.
- `freshName_not_mem`: a generated name is none of the taken ones.
-/

namespace StyleHoist

open Text

/-! ## Keys -/

theorem isWordChar_colon : isWordChar ':' = false := by decide

/-- The white space characters. -/
def blankCodes : List Nat :=
  [0x20, 9, 10, 11, 12, 13, 0x85, 0xa0, 0x1680, 0x2000, 0x2001, 0x2002, 0x2003, 0x2004, 0x2005, 0x2006, 0x2007, 0x2008,
    0x2009, 0x200a, 0x2028, 0x2029, 0x202f, 0x205f, 0x3000]

theorem toNat_mem_blankCodes {c : Char} (h : isBlankChar c = true) : c.toNat ∈ blankCodes := by
  simp only [isBlankChar, Bool.or_eq_true, beq_iff_eq, Bool.and_eq_true, decide_eq_true_eq] at h
  simp only [blankCodes, List.mem_cons, List.not_mem_nil, or_false]
  omega

/-- White space is no part of a word. -/
theorem isWordChar_of_isBlankChar {c : Char} (h : isBlankChar c = true) : isWordChar c = false := by
  have hall : ∀ n ∈ blankCodes, isWordChar (Char.ofNat n) = false := by decide +kernel
  have := hall _ (toNat_mem_blankCodes h)
  rwa [Char.ofNat_toNat] at this

theorem isWordChar_ne {c d : Char} (hc : isWordChar c = true) (hd : isWordChar d = false) : c ≠ d := by
  rintro rfl
  rw [hc] at hd
  cases hd

theorem takeWhile_append_of_exists {p : Char → Bool} : ∀ {s : Text}, (∃ c ∈ s, p c = false) → ∀ t : Text,
    (s ++ t).dropWhile p = s.dropWhile p ++ t ∧ s.dropWhile p ≠ []
  | [], h, _ => by simp at h
  | c :: s, h, t => by
    by_cases hc : p c = true
    · have hs : ∃ d ∈ s, p d = false := by
        obtain ⟨d, hd, hp⟩ := h
        rcases List.mem_cons.1 hd with rfl | hd
        · simp [hc] at hp
        · exact ⟨d, hd, hp⟩
      simpa [hc] using takeWhile_append_of_exists hs t
    · simp [hc]

/-- A word with a colon behind it is read as a key. -/
theorem keyPart?_word {w gap rest : Text} (hne : w ≠ []) (hw : w.all isWordChar = true) (hgap : isBlank gap = true) :
    keyPart? (w ++ gap ++ ':' :: rest) = some (w, rest) := by
  have hstop : ∀ c t, gap ++ ':' :: rest = c :: t → isWordChar c = false := by
    intro c t hct
    cases gap with
    | nil =>
      cases hct
      exact isWordChar_colon
    | cons g gap =>
      cases hct
      exact isWordChar_of_isBlankChar (by simp [isBlank] at hgap; exact hgap.1)
  have htake : (w ++ (gap ++ ':' :: rest)).takeWhile isWordChar = w := by
    rw [List.takeWhile_append_of_pos (by simpa using hw)]
    cases hct : gap ++ ':' :: rest with
    | nil => simp
    | cons c t => simp [hstop c t hct]
  have hdrop : (w ++ (gap ++ ':' :: rest)).dropWhile isWordChar = gap ++ ':' :: rest := by
    rw [List.dropWhile_append_of_pos (by simpa using hw)]
    cases hct : gap ++ ':' :: rest with
    | nil => simp at hct
    | cons c t => simp [hstop c t hct]
  have htrim : trimStart (gap ++ ':' :: rest) = ':' :: rest := by
    rw [trimStart, List.dropWhile_append_of_pos (by simpa [isBlank] using hgap)]
    simp [show isBlankChar ':' = false by decide]
  simp only [keyPart?, List.append_assoc, htake, hdrop, htrim]
  simp [hne]

theorem eq_of_leadingKey? {t name : Text} (h : leadingKey? t = some name) :
    ∃ gap rest, t = name ++ (gap ++ ':' :: rest) ∧ name ≠ [] ∧ name.all isWordChar = true ∧ isBlank gap = true := by
  obtain ⟨⟨word, rest⟩, hkey, rfl⟩ := Option.map_eq_some_iff.1 h
  have ht : t.takeWhile isWordChar ++ t.dropWhile isWordChar = t := List.takeWhile_append_dropWhile
  have hall : (t.takeWhile isWordChar).all isWordChar = true := List.all_takeWhile
  simp only [keyPart?] at hkey
  generalize t.takeWhile isWordChar = w at ht hall hkey
  generalize t.dropWhile isWordChar = d at ht hkey
  split at hkey
  · rename_i rest' hrest
    split at hkey
    · cases hkey
    · rename_i hne
      cases hkey
      refine ⟨d.takeWhile isBlankChar, rest, ?_, by simpa using hne, hall, List.all_takeWhile⟩
      rw [← hrest, takeWhile_append_trimStart, ht]
  · cases hkey

/-- A text begins with a key if and only if it begins with a word and a colon, and blanks between the two. -/
theorem leadingKey?_iff {t name : Text} : leadingKey? t = some name ↔
    ∃ gap rest, t = name ++ (gap ++ ':' :: rest) ∧ name ≠ [] ∧ name.all isWordChar = true ∧ isBlank gap = true := by
  refine ⟨eq_of_leadingKey?, ?_⟩
  rintro ⟨gap, rest, rfl, hne, hword, hgap⟩
  rw [← List.append_assoc, leadingKey?, keyPart?_word hne hword hgap]
  rfl

/-- What is read as a key from a text that goes on with a word begins and ends before that word. -/
theorem keyPart?_before {u w rest name behind : Text} (hlast : ∃ c ∈ u, isWordChar c = false) (hne : w ≠ [])
    (hw : w.all isWordChar = true) (h : keyPart? (u ++ (w ++ rest)) = some (name, behind)) :
    (w ++ rest).length ≤ behind.length := by
  obtain ⟨hdrop, hleft⟩ := takeWhile_append_of_exists hlast (w ++ rest)
  simp only [keyPart?, hdrop] at h
  generalize u.dropWhile isWordChar = v at h hleft
  have hfirst : ∀ c t, w ++ rest = c :: t → isBlankChar c = false ∧ c ≠ ':' := by
    intro c t hct
    have hc : isWordChar c = true := by
      cases w with
      | nil => exact absurd rfl hne
      | cons d w =>
        cases hct
        simp at hw
        exact hw.1
    constructor
    · refine Bool.eq_false_iff.2 fun hblank => ?_
      rw [isWordChar_of_isBlankChar hblank] at hc
      cases hc
    · rintro rfl
      rw [isWordChar_colon] at hc
      cases hc
  by_cases hblank : ∃ c ∈ v, isBlankChar c = false
  · obtain ⟨htrim, hne'⟩ := takeWhile_append_of_exists hblank (w ++ rest)
    simp only [trimStart, htrim] at h
    cases hv : v.dropWhile isBlankChar with
    | nil => exact absurd hv hne'
    | cons c v' =>
      rw [hv, List.cons_append] at h
      split at h
      · rename_i heq
        cases heq
        split at h
        · cases h
        · cases h
          simp
      · cases h
  · have hall : ∀ c ∈ v, isBlankChar c = true := fun c hc => by
      simpa using fun hp => hblank ⟨c, hc, hp⟩
    rw [trimStart, List.dropWhile_append_of_pos hall] at h
    cases hct : w ++ rest with
    | nil => simp at hct; exact absurd hct.1 hne
    | cons c t =>
      obtain ⟨hb, hcolon⟩ := hfirst c t hct
      rw [hct, List.dropWhile_cons_of_neg (by simp [hb])] at h
      split at h
      · rename_i heq
        exact absurd (List.cons.inj heq).1 hcolon
      · cases h

/-- A word with a colon behind it is found as a key after any characters that are passed over before it. -/
theorem mem_keysFrom {w gap rest : Text} (hne : w ≠ []) (hw : w.all isWordChar = true) (hgap : isBlank gap = true) :
    ∀ {u : Text} {skip : Nat}, skip ≤ u.length → (∀ c, u.getLast? = some c → isWordChar c = false) →
      w ∈ keysFrom skip (u ++ (w ++ (gap ++ ':' :: rest)))
  | [], skip, hskip, _ => by
    obtain rfl : skip = 0 := by simpa using hskip
    have hkey : keyPart? (w ++ gap ++ ':' :: rest) = some (w, rest) := keyPart?_word hne hw hgap
    rw [List.append_assoc] at hkey
    cases w with
    | nil => exact absurd rfl hne
    | cons c w =>
      simp only [List.nil_append, List.cons_append] at hkey ⊢
      simp [keysFrom, hkey]
  | c :: u, skip, hskip, hlast => by
    have hlast' : ∀ d, u.getLast? = some d → isWordChar d = false := by
      intro d hd
      refine hlast d ?_
      rw [List.getLast?_cons, hd]
      rfl
    cases skip with
    | succ skip =>
      simp only [List.cons_append, keysFrom]
      exact mem_keysFrom hne hw hgap (by simpa using hskip) hlast'
    | zero =>
      simp only [List.cons_append, keysFrom]
      split
      · rename_i name behind hkey
        refine List.mem_cons_of_mem _ (mem_keysFrom hne hw hgap ?_ hlast')
        have hmem : ∃ d ∈ c :: u, isWordChar d = false :=
          ⟨_, List.getLast_mem (List.cons_ne_nil c u), hlast _ (List.getLast?_eq_some_getLast _)⟩
        have hlength := keyPart?_before (u := c :: u) hmem hne hw hkey
        simp only [List.length_append] at hlength ⊢
        omega
      · exact mem_keysFrom hne hw hgap (Nat.zero_le _) hlast'

/-- **A word with a colon behind it is found as a key unless it is the end of a longer word.** -/
theorem mem_keysOf {u w gap rest : Text} (hne : w ≠ []) (hw : w.all isWordChar = true) (hgap : isBlank gap = true)
    (hlast : ∀ c, u.getLast? = some c → isWordChar c = false) : w ∈ keysOf (u ++ (w ++ (gap ++ ':' :: rest))) :=
  mem_keysFrom hne hw hgap (Nat.zero_le _) hlast

/-! ## Proper names -/

/-- The name of an entry has letters, digits and underscores only. -/
theorem isAlphanum_of_isEntryName {name : Text} (h : isEntryName name = true) :
    ∀ c ∈ name, (c.isAlphanum || c == '_') = true := by
  cases name with
  | nil => cases h
  | cons c cs =>
    simp only [isEntryName, Bool.and_eq_true, List.all_eq_true] at h
    refine List.forall_mem_cons.2 ⟨?_, h.2⟩
    rcases Bool.or_eq_true_iff.1 h.1 with hc | hc
    · have halphanum : c.isAlphanum = true := Bool.or_eq_true_iff.2 (Or.inl hc)
      rw [halphanum, Bool.true_or]
    · rw [hc, Bool.or_true]

theorem isWordChar_of_isAlphanum {c : Char} (h : (c.isAlphanum || c == '_') = true) : isWordChar c = true := by
  have hsmall : c.toNat < 0x80 := by
    -- The bounds of upper case letters, lower case letters and digits, in the order in which they are tested.
    change ((decide (65 ≤ c.val ∧ c.val ≤ 90) || 97 ≤ c.val && c.val ≤ 122) || (48 ≤ c.val && c.val ≤ 57) ||
      c == '_') = true at h
    simp only [Bool.or_eq_true, Bool.and_eq_true, decide_eq_true_eq, beq_iff_eq, UInt32.le_iff_toNat_le] at h
    rcases h with h | rfl
    · have htoNat : c.toNat = c.val.toNat := rfl
      simp only [UInt32.reduceToNat] at h
      omega
    · decide
  rw [isWordChar, if_pos hsmall, h]

/-- The name of an entry is a word. -/
theorem isWordChar_of_isEntryName {name : Text} (h : isEntryName name = true) : name.all isWordChar = true :=
  List.all_eq_true.2 fun c hc => isWordChar_of_isAlphanum (isAlphanum_of_isEntryName h c hc)

theorem ne_nil_of_isEntryName {name : Text} (h : isEntryName name = true) : name ≠ [] := by
  rintro rfl
  cases h

/-! ## Taken names -/

theorem mem_distinctFrom {t : Text} : ∀ {ts seen : List Text}, t ∈ distinctFrom seen ts ↔ t ∈ ts ∧ t ∉ seen
  | [], seen => by simp [distinctFrom]
  | s :: ts, seen => by
    simp only [distinctFrom]
    split
    · rename_i hs
      have hs : s ∈ seen := by simpa using hs
      rw [mem_distinctFrom, List.mem_cons]
      exact ⟨fun h => ⟨Or.inr h.1, h.2⟩, fun h => ⟨h.1.resolve_left fun e => h.2 (e ▸ hs), h.2⟩⟩
    · rename_i hs
      have hs : s ∉ seen := by simpa using hs
      rw [List.mem_cons, mem_distinctFrom, List.mem_cons, List.mem_cons]
      by_cases he : t = s
      · simp [he, hs]
      · simp [he]

theorem mem_takenNames {registries : List Registry} {name : Text} :
    name ∈ takenNames registries ↔ ∃ r ∈ registries, name ∈ keysOf r.body := by
  simp [takenNames, mem_distinctFrom]

/-! ## Fresh names -/

/-- Different numbers make different names. -/
theorem numbered_inj {base : Text} {m n : Nat} (h : numbered base m = numbered base n) : m = n := by
  have hdigits : Nat.toDigits 10 m = Nat.toDigits 10 n := List.append_cancel_left h
  rw [← Nat.ofDigitChars_ten_toDigits (n := m), hdigits, Nat.ofDigitChars_ten_toDigits]

/-- If the first numbers all make taken names, there are as many different taken names. -/
theorem le_length_dedup {base : Text} {taken : List Text} {k : Nat} (h : ∀ i < k, numbered base (i + 1) ∈ taken) :
    k ≤ taken.dedup.length := by
  have hsubset : (List.range k).map (fun i => numbered base (i + 1)) ⊆ taken.dedup := by
    intro name hname
    obtain ⟨i, hi, rfl⟩ := List.mem_map.1 hname
    exact List.mem_dedup.2 (h i (List.mem_range.1 hi))
  have hnodup : ((List.range k).map fun i => numbered base (i + 1)).Nodup := by
    refine List.pairwise_map.2 (List.nodup_range.imp fun {i j} hij heq => hij ?_)
    have := numbered_inj heq
    omega
  simpa using hnodup.length_le_of_subset hsubset

/-- One of the first numbers, one more than there are taken names, makes a name that is not taken. -/
theorem exists_numbered_not_mem (base : Text) (taken : List Text) :
    ∃ i < taken.length + 1, numbered base (i + 1) ∉ taken := by
  refine Classical.byContradiction fun hnone => ?_
  have hle : taken.length + 1 ≤ taken.dedup.length :=
    le_length_dedup fun i hi => Classical.byContradiction fun h => hnone ⟨i, hi, h⟩
  have := (List.dedup_sublist taken).length_le
  omega

/-- **A generated name is none of the taken ones.** -/
theorem freshName_not_mem (base : Text) (taken : List Text) : freshName base taken ∉ taken := by
  obtain ⟨i, hi, hfree⟩ := exists_numbered_not_mem base taken
  simp only [freshName]
  cases hfind : ((List.range (taken.length + 1)).map fun i => numbered base (i + 1)).find?
      fun name => !taken.contains name with
  | some name => simpa using List.find?_some hfind
  | none =>
    have := List.find?_eq_none.1 hfind (numbered base (i + 1))
      (List.mem_map.2 ⟨i, List.mem_range.2 hi, rfl⟩)
    simp [hfree] at this

end StyleHoist
