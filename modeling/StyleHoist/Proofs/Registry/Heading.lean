import StyleHoist.Proofs.Registry.Names
import StyleHoist.Proofs.Registry.Position

/-!
# What a change leaves of the headers

A header ends with the first brace behind it, so whether a text begins with one does not depend on what stands behind
its first brace. A registry whose body is replaced is therefore found where it was, and a declaration on lines of its
own is found whatever stands before it.

- `headerPart?_append_brace`: a header does not depend on what stands behind the first brace.
- `exists_lead_of_mem_registriesFrom`: a registry is found with any body that ends where its brace closes it.
- `pairwise_start_registriesFrom`: registries are found in the order in which they start.
- `mem_registriesIn_of_declaration`: a registry that is declared on lines of its own is found.
-/

namespace StyleHoist

open Text

/-! ## Up to a brace -/

section Brace

variable {p : Char → Bool} {c : Char}

theorem dropWhile_append_cons (hc : p c = false) (rest : Text) : ∀ y : Text,
    (y ++ c :: rest).dropWhile p = y.dropWhile p ++ c :: rest
  | [] => by simp [hc]
  | d :: y => by by_cases hd : p d = true <;> simp [hd, dropWhile_append_cons hc rest y]

theorem takeWhile_append_cons (hc : p c = false) (rest : Text) : ∀ y : Text,
    (y ++ c :: rest).takeWhile p = y.takeWhile p
  | [] => by simp [hc]
  | d :: y => by by_cases hd : p d = true <;> simp [hd, takeWhile_append_cons hc rest y]

/-- A part without `c` is taken off before the first `c`. -/
theorem dropPart?_append_cons (rest : Text) : ∀ {w : Text}, c ∉ w → ∀ y : Text,
    dropPart? w (y ++ c :: rest) = (dropPart? w y).map (· ++ c :: rest)
  | [], _, y => by simp [dropPart?]
  | d :: w, hw, [] => by
    have hne : d ≠ c := fun e => hw (by simp [e])
    simp [dropPart?, hne]
  | d :: w, hw, e :: y => by
    have hw : c ∉ w := fun hm => hw (List.mem_cons_of_mem _ hm)
    by_cases hde : d = e
    · simp [dropPart?, hde, dropPart?_append_cons rest hw y]
    · simp [dropPart?, hde]

end Brace

/-- Words up to a brace do not depend on what stands behind the first brace. -/
theorem dropSpaced?_append_brace : ∀ {ws : List Text}, (∀ w ∈ ws, '\x7b' ∉ w) → ∀ y : Text, ∃ found : Option Text,
    ∀ rest, dropSpaced? (ws ++ [['\x7b']]) (y ++ '\x7b' :: rest) = found.map (· ++ rest)
  | [], _, y => by
    have htrim := fun rest => dropWhile_append_cons (p := isBlankChar) (c := '\x7b') (by decide) rest y
    cases hy : y.dropWhile isBlankChar with
    | nil =>
      refine ⟨some [], fun rest => ?_⟩
      simp [dropSpaced?, trimStart, htrim, hy, dropPart?]
    | cons c y' =>
      by_cases hc : c = '\x7b'
      · refine ⟨some (y' ++ ['\x7b']), fun rest => ?_⟩
        simp [dropSpaced?, trimStart, htrim, hy, dropPart?, hc]
      · refine ⟨none, fun rest => ?_⟩
        simp [dropSpaced?, trimStart, htrim, hy, dropPart?, Ne.symm hc]
  | w :: ws, h, y => by
    have hstep : ∀ rest, dropSpaced? (w :: ws ++ [['\x7b']]) (y ++ '\x7b' :: rest) =
        ((dropPart? w (trimStart y)).map (· ++ '\x7b' :: rest)).bind (dropSpaced? (ws ++ [['\x7b']])) := by
      intro rest
      rw [List.cons_append, dropSpaced?, trimStart, dropWhile_append_cons (by decide),
        dropPart?_append_cons rest (h w (by simp))]
      rfl
    cases hw : dropPart? w (trimStart y) with
    | none => exact ⟨none, fun rest => by rw [hstep, hw]; rfl⟩
    | some y' =>
      obtain ⟨found, hfound⟩ := dropSpaced?_append_brace (fun v hv => h v (List.mem_cons_of_mem _ hv)) y'
      refine ⟨found, fun rest => ?_⟩
      rw [hstep, hw]
      exact hfound rest

/-- **A header does not depend on what stands behind the first brace.** -/
theorem headerPart?_append_brace (y : Text) : ∃ found : Option (Text × Text),
    ∀ rest, headerPart? (y ++ '\x7b' :: rest) = found.map fun p => (p.1, p.2 ++ rest) := by
  have hconst := fun rest => dropPart?_append_cons (c := '\x7b') (w := "const".toList) rest (by decide) y
  cases hy : dropPart? "const".toList y with
  | none => exact ⟨none, fun rest => by rw [headerPart?, hconst, hy]; rfl⟩
  | some y₁ =>
    have hconst : ∀ rest, dropPart? "const".toList (y ++ '\x7b' :: rest) = some (y₁ ++ '\x7b' :: rest) := fun rest => by
      rw [hconst, hy]
      rfl
    have htrim : ∀ rest, trimStart (y₁ ++ '\x7b' :: rest) = trimStart y₁ ++ '\x7b' :: rest := fun rest =>
      dropWhile_append_cons (by decide) rest y₁
    by_cases hlength : (trimStart y₁).length = y₁.length
    · exact ⟨none, fun rest => by rw [headerPart?, hconst]; simp [htrim, hlength]⟩
    · cases hname : trimStart y₁ with
      | nil =>
        have hstart : isRegistryNameStart '\x7b' = false := by decide
        exact ⟨none, fun rest => by rw [headerPart?, hconst]; simp [htrim, hname, hstart]⟩
      | cons c cs =>
        have hstop : isRegistryNameChar '\x7b' = false := by decide
        obtain ⟨found, hfound⟩ : ∃ found : Option Text, ∀ rest,
            dropSpaced? headerWords (cs.dropWhile isRegistryNameChar ++ '\x7b' :: rest) = found.map (· ++ rest) :=
          dropSpaced?_append_brace (show ∀ w ∈ headerWords.dropLast, '\x7b' ∉ w by decide) _
        refine ⟨if isRegistryNameStart c then found.map (c :: cs.takeWhile isRegistryNameChar, ·) else none,
          fun rest => ?_⟩
        have hlength : ¬cs.length + (rest.length + 1) + 1 = y₁.length + (rest.length + 1) := by
          rw [hname, List.length_cons] at hlength
          omega
        rw [headerPart?, hconst]
        by_cases hc : isRegistryNameStart c = true
        · cases found <;> simp [htrim, hname, hlength, hc, dropWhile_append_cons hstop, takeWhile_append_cons hstop,
            hfound]
        · simp [htrim, hname, hlength, hc]

/-! ## Other bodies -/

/-- What words that end in a brace leave stands behind a brace. -/
theorem dropSpaced?_brace : ∀ {ws : List Text} {t rest : Text}, dropSpaced? (ws ++ [['\x7b']]) t = some rest →
    ∃ y, t = y ++ '\x7b' :: rest
  | [], t, rest, h => by
    simp only [List.nil_append, dropSpaced?, Option.bind_eq_some_iff, Option.some.injEq] at h
    obtain ⟨_, hbrace, rfl⟩ := h
    refine ⟨t.takeWhile isBlankChar, ?_⟩
    rw [← List.singleton_append, ← eq_append_of_dropPart? hbrace, takeWhile_append_trimStart]
  | w :: ws, t, rest, h => by
    simp only [List.cons_append, dropSpaced?, Option.bind_eq_some_iff] at h
    obtain ⟨behind, hw, hrest⟩ := h
    obtain ⟨y, rfl⟩ := dropSpaced?_brace hrest
    refine ⟨t.takeWhile isBlankChar ++ w ++ y, ?_⟩
    rw [List.append_assoc, List.append_assoc, ← eq_append_of_dropPart? hw, takeWhile_append_trimStart]

/-- A header ends with a brace, and what stands behind it does not matter. -/
theorem headerPart?_eq_brace {t name rest : Text} (h : headerPart? t = some (name, rest)) :
    ∃ y, t = y ++ '\x7b' :: rest ∧ ∀ rest', headerPart? (y ++ '\x7b' :: rest') = some (name, rest') := by
  obtain ⟨front, words, rfl, hwords⟩ := exists_words_of_headerPart? h
  obtain ⟨y, rfl⟩ := dropSpaced?_brace (show dropSpaced? (headerWords.dropLast ++ [['\x7b']]) words = _ from hwords)
  refine ⟨"const".toList ++ front ++ y, by simp only [List.append_assoc], ?_⟩
  obtain ⟨found, hfound⟩ := headerPart?_append_brace ("const".toList ++ front ++ y)
  have hrest := hfound rest
  rw [List.append_assoc _ y, h] at hrest
  obtain ⟨⟨name', f⟩, rfl, he⟩ := Option.map_eq_some_iff.1 hrest.symm
  obtain ⟨rfl, hf⟩ := Prod.mk.inj he
  obtain rfl : f = [] := List.append_left_eq_self.1 hf
  exact hfound

/-- What a scan finds from a header on. -/
theorem registriesFrom_header {c : Char} {t lead name rest : Text} (offset : Nat)
    (hsplit : c :: t = lead ++ '\x7b' :: rest) (hheader : headerPart? (c :: t) = some (name, rest)) :
    registriesFrom 0 offset (c :: t) =
      (Registry.at? name offset (offset + size lead + 1) rest).toList
        ++ registriesFrom lead.length (offset + c.utf8Size) t := by
  have hsize := congrArg size hsplit
  have hlength := congrArg List.length hsplit
  simp only [size_append, size_cons, show Char.utf8Size '\x7b' = 1 from rfl, List.length_append, List.length_cons]
    at hsize hlength
  have hentries : offset + (size (c :: t) - size rest) = offset + size lead + 1 := by
    rw [size_cons]
    omega
  have hskip : t.length - rest.length = lead.length := by omega
  rw [registriesFrom]
  simp only [hheader, hentries, hskip]

/-- The registry whose header begins a text is found first. -/
theorem mem_registriesFrom_of_header {lead name body behind : Text} (offset : Nat)
    (hheader : headerPart? (lead ++ '\x7b' :: (body ++ '\x7d' :: behind)) = some (name, body ++ '\x7d' :: behind))
    (hclose : closeBody? .code 0 (body ++ '\x7d' :: behind) = some (body, behind)) :
    ∃ stop, ⟨name, body, ⟨offset, stop⟩, offset + size (lead ++ '\x7b' :: body)⟩ ∈
      registriesFrom 0 offset (lead ++ '\x7b' :: (body ++ '\x7d' :: behind)) := by
  have hentries : offset + size lead + 1 + size body = offset + size (lead ++ '\x7b' :: body) := by
    simp only [size_append, size_cons, show Char.utf8Size '\x7b' = 1 from rfl]
    omega
  have hregistry : Registry.at? name offset (offset + size lead + 1) (body ++ '\x7d' :: behind) = some
      ⟨name, body, ⟨offset, offset + size (lead ++ '\x7b' :: body) + closingSize behind⟩,
        offset + size (lead ++ '\x7b' :: body)⟩ := by
    rw [Registry.at?, hclose, ← hentries]
    rfl
  obtain ⟨c, t, ht⟩ := List.exists_cons_of_ne_nil (show lead ++ '\x7b' :: (body ++ '\x7d' :: behind) ≠ [] by simp)
  rw [ht] at hheader ⊢
  rw [registriesFrom_header offset ht.symm hheader]
  exact ⟨_, List.mem_append_left _ (Option.mem_toList.2 hregistry)⟩

/-- A registry of a text whose body stands behind `lead` and a brace. Any body in its place that ends where its brace
closes it makes a registry of the same name at the same offset. -/
structure Registry.Opens (r : Registry) (skip offset : Nat) (lead : Text) : Prop where
  closeBrace : r.closeBrace = offset + size (lead ++ '\x7b' :: r.body)
  found : ∀ body behind, closeBody? .code 0 (body ++ '\x7d' :: behind) = some (body, behind) →
    ∃ stop, ⟨r.name, body, ⟨r.range.start, stop⟩, offset + size (lead ++ '\x7b' :: body)⟩ ∈
      registriesFrom skip offset (lead ++ '\x7b' :: (body ++ '\x7d' :: behind))

/-- A registry whose header begins the text. -/
theorem opens_of_header {c : Char} {t name rest : Text} {offset : Nat} {r : Registry}
    (hheader : headerPart? (c :: t) = some (name, rest))
    (hr : Registry.at? name offset (offset + (size (c :: t) - size rest)) rest = some r) :
    ∃ lead behind, c :: t = lead ++ '\x7b' :: (r.body ++ '\x7d' :: behind) ∧ r.Opens 0 offset lead := by
  obtain ⟨lead, hsplit, hfound⟩ := headerPart?_eq_brace hheader
  simp only [Registry.at?, Option.bind_eq_bind, Option.bind_eq_some_iff] at hr
  obtain ⟨⟨body, behind⟩, hclose, he⟩ := hr
  cases he
  obtain rfl := closeBody?_eq _ _ _ hclose
  have hbrace : Char.utf8Size '\x7b' = 1 := rfl
  refine ⟨lead, behind, hsplit, ?_, fun body' behind' hclose' => ?_⟩
  · have hsize := congrArg size hsplit
    simp only [size_append, size_cons, hbrace] at hsize ⊢
    omega
  · exact mem_registriesFrom_of_header offset (hfound _) hclose'

/-- A registry stands behind a character of its text as it does behind what follows the character. -/
theorem Registry.Opens.cons {r : Registry} {skip skip' offset : Nat} {c : Char} {lead : Text}
    (h : r.Opens skip (offset + c.utf8Size) lead)
    (hscan : ∀ t, registriesFrom skip (offset + c.utf8Size) (lead ++ '\x7b' :: t) ⊆
      registriesFrom skip' offset (c :: lead ++ '\x7b' :: t)) : r.Opens skip' offset (c :: lead) where
  closeBrace := by
    simp only [h.closeBrace, List.cons_append, size_cons]
    omega
  found := fun body behind hclose => by
    obtain ⟨stop, hmem⟩ := h.found body behind hclose
    refine ⟨stop, ?_⟩
    have hoffset : offset + size (c :: lead ++ '\x7b' :: body) =
        offset + c.utf8Size + size (lead ++ '\x7b' :: body) := by
      rw [List.cons_append, size_cons, Nat.add_assoc]
    rw [hoffset]
    exact hscan _ hmem

/-- **The body of a registry that is found can be replaced by any other that ends where its brace closes it.** -/
theorem exists_lead_of_mem_registriesFrom : ∀ {t : Text} {skip offset : Nat}, ∀ r ∈ registriesFrom skip offset t,
    ∃ lead behind, t = lead ++ '\x7b' :: (r.body ++ '\x7d' :: behind) ∧ r.Opens skip offset lead
  | [], skip, offset, r, hr => by simp [registriesFrom] at hr
  | c :: t, skip + 1, offset, r, hr => by
    obtain ⟨lead, behind, rfl, h⟩ := exists_lead_of_mem_registriesFrom (t := t) r (by simpa [registriesFrom] using hr)
    exact ⟨c :: lead, behind, rfl, h.cons fun t => by
      rw [List.cons_append, registriesFrom]
      exact List.Subset.refl _⟩
  | c :: t, 0, offset, r, hr => by
    simp only [registriesFrom] at hr
    split at hr
    · rename_i name rest hheader
      rcases List.mem_append.1 hr with hr | hr
      · exact opens_of_header hheader (Option.mem_toList.1 hr)
      · obtain ⟨lead, behind, rfl, h⟩ := exists_lead_of_mem_registriesFrom (t := t) r hr
        refine ⟨c :: lead, behind, rfl, h.cons fun t => ?_⟩
        obtain ⟨found, hfound⟩ := headerPart?_append_brace (c :: lead)
        rw [← List.cons_append, hfound] at hheader
        obtain ⟨⟨name, f⟩, rfl, he⟩ := Option.map_eq_some_iff.1 hheader
        obtain ⟨rfl, rfl⟩ := Prod.mk.inj he
        have hheader' := hfound t
        rw [List.cons_append, registriesFrom]
        rw [List.cons_append] at hheader'
        have hskip : ∀ t : Text, (lead ++ '\x7b' :: t).length - (f ++ t).length = lead.length + 1 - f.length := by
          intro t
          simp only [List.length_append, List.length_cons]
          omega
        simp only [hheader', Option.map_some, hskip]
        exact List.subset_append_right _ _
    · rename_i hheader
      obtain ⟨lead, behind, rfl, h⟩ := exists_lead_of_mem_registriesFrom (t := t) r hr
      refine ⟨c :: lead, behind, rfl, h.cons fun t => ?_⟩
      obtain ⟨found, hfound⟩ := headerPart?_append_brace (c :: lead)
      rw [← List.cons_append, hfound, Option.map_eq_none_iff] at hheader
      subst hheader
      have hheader' : headerPart? (c :: (lead ++ '\x7b' :: t)) = none := hfound t
      rw [List.cons_append, registriesFrom, hheader']
      exact List.Subset.refl _

/-! ## Starts -/

theorem start_of_at? {name rest : Text} {offset entries : Nat} {r : Registry}
    (h : Registry.at? name offset entries rest = some r) : r.range.start = offset := by
  rw [Registry.at?, Option.bind_eq_bind, Option.bind_eq_some_iff] at h
  obtain ⟨split, -, he⟩ := h
  cases he
  rfl

theorem le_start_of_mem_registriesFrom : ∀ (t : Text) (skip offset : Nat), ∀ r ∈ registriesFrom skip offset t,
    offset ≤ r.range.start
  | [], skip, offset, r, hr => by simp [registriesFrom] at hr
  | c :: t, skip + 1, offset, r, hr =>
    Nat.le_trans (Nat.le_add_right _ _) (le_start_of_mem_registriesFrom t skip _ r hr)
  | c :: t, 0, offset, r, hr => by
    simp only [registriesFrom] at hr
    split at hr
    · rcases List.mem_append.1 hr with hr | hr
      · exact Nat.le_of_eq (start_of_at? (Option.mem_toList.1 hr)).symm
      · exact Nat.le_trans (Nat.le_add_right _ _) (le_start_of_mem_registriesFrom t _ _ r hr)
    · exact Nat.le_trans (Nat.le_add_right _ _) (le_start_of_mem_registriesFrom t _ _ r hr)

/-- Registries are found in the order in which they start. -/
theorem pairwise_start_registriesFrom : ∀ (t : Text) (skip offset : Nat),
    (registriesFrom skip offset t).Pairwise fun r s => r.range.start < s.range.start
  | [], skip, offset => by simp [registriesFrom]
  | c :: t, skip + 1, offset => pairwise_start_registriesFrom t skip _
  | c :: t, 0, offset => by
    simp only [registriesFrom]
    split
    · refine List.pairwise_append.2 ⟨?_, pairwise_start_registriesFrom t _ _, fun r hr s hs => ?_⟩
      · exact Option.pairwise_toList
      · rw [start_of_at? (Option.mem_toList.1 hr)]
        exact Nat.lt_of_lt_of_le (Nat.lt_add_of_pos_right (Char.utf8Size_pos c))
          (le_start_of_mem_registriesFrom t _ _ s hs)
    · exact pairwise_start_registriesFrom t _ _

/-- **No two registries of a text start at the same offset.** -/
theorem find?_start_registriesIn {t : Text} {r : Registry} (h : r ∈ registriesIn t) :
    (registriesIn t).find? (·.range.start == r.range.start) = some r := by
  have hpairwise := pairwise_start_registriesFrom t 0 0
  rw [registriesIn] at h ⊢
  generalize registriesFrom 0 0 t = rs at h hpairwise
  induction rs with
  | nil => cases h
  | cons s rs ih =>
    obtain ⟨hs, hpairwise⟩ := List.pairwise_cons.1 hpairwise
    rcases List.mem_cons.1 h with rfl | h
    · simp
    · have hne : ¬s.range.start = r.range.start := Nat.ne_of_lt (hs r h)
      rw [List.find?_cons_of_neg (by simpa using hne)]
      exact ih h hpairwise

/-! ## Declarations -/

/-- What a declaration has between its name and its entries. -/
def factoryCall : Text := " = ".toList ++ registryFactory ++ ".create(\x7b".toList

/-- What a declaration has before its entries. -/
def openingText (name : Text) : Text := "const".toList ++ ' ' :: (name ++ factoryCall)

theorem isRegistryNameStart_of_isEntryName {c : Char} {cs : Text} (h : isEntryName (c :: cs) = true) :
    isRegistryNameStart c = true := by
  simp only [isEntryName, Bool.and_eq_true] at h
  simp only [isRegistryNameStart, h.1, Bool.true_or]

theorem isRegistryNameChar_of_isEntryName {c : Char} {cs : Text} (h : isEntryName (c :: cs) = true) :
    ∀ d ∈ cs, isRegistryNameChar d = true := by
  intro d hd
  have hword := isWordChar_of_isAlphanum (isAlphanum_of_isEntryName h d (List.mem_cons_of_mem _ hd))
  simp only [isRegistryNameChar, hword, Bool.true_or]

/-- A name does not begin with white space. -/
theorem isBlankChar_of_isRegistryNameStart {c : Char} (h : isRegistryNameStart c = true) : isBlankChar c = false := by
  refine Bool.eq_false_iff.2 fun hblank => ?_
  have hall : ∀ n ∈ blankCodes, isRegistryNameStart (Char.ofNat n) = false := by decide
  have hfalse := hall _ (toNat_mem_blankCodes hblank)
  rw [Char.ofNat_toNat, h] at hfalse
  cases hfalse

/-- A word that stands behind blanks is passed. -/
theorem dropSpaced?_word {w gap : Text} (ws : List Text) (t : Text) (hw : trimStart w = w) (hne : w ≠ [])
    (hgap : isBlank gap = true) : dropSpaced? (w :: ws) (gap ++ (w ++ t)) = dropSpaced? ws t := by
  have htrim : trimStart (gap ++ (w ++ t)) = w ++ t := by
    rw [trimStart, List.dropWhile_append_of_pos (by simpa [isBlank] using hgap)]
    cases w with
    | nil => exact absurd rfl hne
    | cons c w =>
      have hc : ¬isBlankChar c = true := fun hc => by
        rw [trimStart, List.dropWhile_cons_of_pos hc] at hw
        have hlength := congrArg List.length hw
        have hle := (List.dropWhile_suffix (l := w) isBlankChar).length_le
        rw [List.length_cons] at hlength
        omega
      exact List.dropWhile_cons_of_neg hc
  rw [dropSpaced?, htrim, dropPart?_append]
  rfl

theorem dropSpaced?_factoryCall (rest : Text) : dropSpaced? headerWords (factoryCall ++ rest) = some rest := by
  have htext : factoryCall = [' '] ++ ("=".toList ++ ([' '] ++ (registryFactory ++ ([] ++ (".".toList ++ ([] ++
      ("create".toList ++ ([] ++ ("(".toList ++ ([] ++ "\x7b".toList)))))))))) := by
    decide
  rw [htext]
  simp only [List.append_assoc, headerWords]
  rw [dropSpaced?_word _ _ (by decide) (by decide) (by decide),
    dropSpaced?_word _ _ (by decide) (by decide) (by decide), dropSpaced?_word _ _ (by decide) (by decide) (by decide),
    dropSpaced?_word _ _ (by decide) (by decide) (by decide), dropSpaced?_word _ _ (by decide) (by decide) (by decide),
    dropSpaced?_word _ _ (by decide) (by decide) (by decide), dropSpaced?]

/-- A declaration begins with a header. -/
theorem headerPart?_openingText {name : Text} (h : isEntryName name = true) (rest : Text) :
    headerPart? (openingText name ++ rest) = some (name, rest) := by
  cases name with
  | nil => cases h
  | cons c cs =>
    have hstart := isRegistryNameStart_of_isEntryName h
    have hall := isRegistryNameChar_of_isEntryName h
    have hstop : isRegistryNameChar ' ' = false := by decide
    have hwords := dropSpaced?_factoryCall rest
    have hspace : ∃ u, factoryCall = ' ' :: u := ⟨_, rfl⟩
    rw [openingText]
    generalize factoryCall = call at hwords hspace ⊢
    obtain ⟨u, rfl⟩ := hspace
    have htrim : trimStart (' ' :: (c :: cs ++ ' ' :: (u ++ rest))) = c :: (cs ++ ' ' :: (u ++ rest)) := by
      rw [trimStart, List.dropWhile_cons_of_pos (by decide), List.cons_append,
        List.dropWhile_cons_of_neg (by simp [isBlankChar_of_isRegistryNameStart hstart])]
    have htext : "const".toList ++ ' ' :: (c :: cs ++ ' ' :: u) ++ rest =
        "const".toList ++ ' ' :: (c :: cs ++ ' ' :: (u ++ rest)) := by
      simp only [List.append_assoc, List.cons_append]
    rw [htext, headerPart?, dropPart?_append, Option.bind_eq_bind, Option.bind_some, htrim]
    rw [List.cons_append] at hwords
    simp [hstart, dropWhile_append_cons hstop, takeWhile_append_cons hstop, List.dropWhile_eq_nil_iff.2 hall,
      List.takeWhile_eq_self_iff.2 hall, hwords]

/-- A text that no header which begins before its line reaches into: it begins with a word that is no part of a header
and does not follow a name. -/
structure StandsAlone (t : Text) : Prop where
  trimmed : trimStart t = t
  words : ∀ w ∈ headerWords, dropPart? w t = none
  name : ∀ c cs, t = c :: cs → dropSpaced? headerWords (cs.dropWhile isRegistryNameChar) = none

theorem dropSpaced?_before {t : Text} (htrim : trimStart t = t) : ∀ {ws : List Text},
    (∀ w ∈ ws, '\n' ∉ w ∧ dropPart? w t = none) → ∀ {u rest : Text}, dropSpaced? ws (u ++ '\n' :: t) = some rest →
      ∃ z, rest = z ++ '\n' :: t
  | [], _, u, rest, h => ⟨u, (Option.some.inj h).symm⟩
  | w :: ws, hws, u, rest, h => by
    obtain ⟨hline, hnone⟩ := hws w (by simp)
    simp only [dropSpaced?, Option.bind_eq_some_iff] at h
    obtain ⟨behind, hw, hrest⟩ := h
    by_cases hblank : ∃ c ∈ u, isBlankChar c = false
    · rw [trimStart, (takeWhile_append_of_exists hblank _).1, dropPart?_append_cons _ hline,
        Option.map_eq_some_iff] at hw
      obtain ⟨u', -, rfl⟩ := hw
      exact dropSpaced?_before htrim (fun v hv => hws v (List.mem_cons_of_mem _ hv)) hrest
    · have hblank : ∀ c ∈ u, isBlankChar c = true := fun c hc => by
        simpa using fun hp => hblank ⟨c, hc, hp⟩
      rw [trimStart, List.dropWhile_append_of_pos hblank, List.dropWhile_cons_of_pos (by decide), ← trimStart, htrim,
        hnone] at hw
      cases hw

/-- A header that begins before the line of a text that stands alone ends before it. -/
theorem headerPart?_before {t u header rest : Text} (ht : StandsAlone t)
    (h : headerPart? (u ++ '\n' :: t) = some (header, rest)) : ∃ z, rest = z ++ '\n' :: t := by
  have hlines : ∀ w ∈ headerWords, '\n' ∉ w := by decide
  obtain ⟨afterConst, c, cs, hconst, -, hname, -, -, hentries⟩ := parts_of_headerPart? h
  rw [dropPart?_append_cons _ (by decide), Option.map_eq_some_iff] at hconst
  obtain ⟨u₁, -, rfl⟩ := hconst
  by_cases hblank : ∃ d ∈ u₁, isBlankChar d = false
  · obtain ⟨htrim, hne⟩ := takeWhile_append_of_exists hblank ('\n' :: t)
    obtain ⟨d, ds, hds⟩ := List.exists_cons_of_ne_nil hne
    rw [trimStart, htrim, hds, List.cons_append] at hname
    obtain ⟨rfl, rfl⟩ := List.cons.inj hname
    rw [dropWhile_append_cons (p := isRegistryNameChar) (by decide)] at hentries
    exact dropSpaced?_before ht.trimmed (fun w hw => ⟨hlines w hw, ht.words w hw⟩) hentries
  · have hblank : ∀ d ∈ u₁, isBlankChar d = true := fun d hd => by
      simpa using fun hp => hblank ⟨d, hd, hp⟩
    rw [trimStart, List.dropWhile_append_of_pos hblank, List.dropWhile_cons_of_pos (by decide), ← trimStart,
      ht.trimmed] at hname
    rw [ht.name c cs hname] at hentries
    cases hentries

/-- What a scan finds in a text that stands alone is found whatever stands before its line. -/
theorem mem_registriesFrom_before {t : Text} (ht : StandsAlone t) {r : Registry} : ∀ {u : Text} {skip offset : Nat},
    skip ≤ u.length + 1 → r ∈ registriesFrom 0 (offset + size (u ++ ['\n'])) t →
      r ∈ registriesFrom skip offset (u ++ '\n' :: t)
  | [], 0, offset, _, h => by
    have hnone : headerPart? ('\n' :: t) = none := rfl
    rw [List.nil_append, registriesFrom, hnone]
    exact h
  | [], 1, offset, _, h => h
  | c :: u, skip + 1, offset, hskip, h => by
    rw [List.cons_append, registriesFrom]
    refine mem_registriesFrom_before ht (by simpa using hskip) ?_
    simpa only [List.cons_append, size_cons, Nat.add_assoc] using h
  | c :: u, 0, offset, _, h => by
    have hnext : ∀ skip ≤ u.length + 1, r ∈ registriesFrom skip (offset + c.utf8Size) (u ++ '\n' :: t) := by
      intro skip hskip
      refine mem_registriesFrom_before ht hskip ?_
      simpa only [List.cons_append, size_cons, Nat.add_assoc] using h
    rw [List.cons_append, registriesFrom]
    split
    · rename_i name rest hheader
      obtain ⟨z, rfl⟩ := headerPart?_before (u := c :: u) ht hheader
      refine List.mem_append_right _ (hnext _ ?_)
      simp only [List.length_append]
      omega
    · exact hnext 0 (Nat.zero_le _)

/-- The first word of a declaration, and its name. -/
theorem openingText_cons (c : Char) (cs rest : Text) :
    openingText (c :: cs) ++ rest = 'c' :: ("onst".toList ++ ' ' :: c :: (cs ++ (factoryCall ++ rest))) := by
  have hconst : "const".toList = 'c' :: "onst".toList := by decide
  rw [openingText, hconst, List.append_assoc]
  simp only [List.cons_append, List.append_assoc]

/-- A declaration stands alone. -/
theorem standsAlone_openingText {name : Text} (h : isEntryName name = true) (rest : Text) :
    StandsAlone (openingText name ++ rest) := by
  obtain ⟨c, cs, rfl⟩ := List.exists_cons_of_ne_nil (ne_nil_of_isEntryName h)
  have hstart := isRegistryNameStart_of_isEntryName h
  have hblank := isBlankChar_of_isRegistryNameStart hstart
  have hspace : isRegistryNameChar ' ' = false := by decide
  have hequals : '=' ≠ c := by
    rintro rfl
    exact absurd hstart (by decide)
  rw [openingText_cons]
  generalize cs ++ (factoryCall ++ rest) = behind
  refine ⟨List.dropWhile_cons_of_neg (by decide), fun w hw => ?_, ?_⟩
  · simp only [headerWords, List.mem_cons, List.not_mem_nil, or_false] at hw
    rcases hw with rfl | rfl | rfl | rfl | rfl | rfl <;> rfl
  · rintro d ds htext
    obtain ⟨-, rfl⟩ := List.cons.inj htext
    rw [dropWhile_append_cons hspace, show "onst".toList.dropWhile isRegistryNameChar = [] from by decide]
    have htrim : trimStart ([] ++ ' ' :: c :: behind) = c :: behind := by
      rw [trimStart, List.nil_append, List.dropWhile_cons_of_pos (by decide),
        List.dropWhile_cons_of_neg (by simp [hblank])]
    rw [headerWords, dropSpaced?, htrim]
    simp [dropPart?, hequals]

/-- **A registry that is declared on lines of its own is found, whatever stands before and behind it.** -/
theorem mem_registriesIn_of_declaration {before name body behind : Text} (hname : isEntryName name = true)
    (hbefore : before = [] ∨ ∃ u, before = u ++ ['\n'])
    (hclose : closeBody? .code 0 (body ++ '\x7d' :: behind) = some (body, behind)) :
    ∃ stop, ⟨name, body, ⟨size before, stop⟩, size (before ++ openingText name ++ body)⟩ ∈
      registriesIn (before ++ openingText name ++ body ++ '\x7d' :: behind) := by
  have hheader := headerPart?_openingText hname (body ++ '\x7d' :: behind)
  obtain ⟨lead, hlead, -⟩ := headerPart?_eq_brace hheader
  have hopening : openingText name = lead ++ ['\x7b'] :=
    List.append_cancel_right (hlead.trans (List.append_cons lead _ _))
  rw [hopening] at hheader ⊢
  simp only [List.append_assoc, List.singleton_append] at hheader ⊢
  obtain ⟨stop, hmem⟩ := mem_registriesFrom_of_header (size before) hheader hclose
  refine ⟨stop, ?_⟩
  rw [size_append]
  rcases hbefore with rfl | ⟨u, rfl⟩
  · exact hmem
  · have halone := standsAlone_openingText hname (body ++ '\x7d' :: behind)
    rw [hopening] at halone
    simp only [List.append_assoc, List.singleton_append] at halone ⊢
    refine mem_registriesFrom_before halone (Nat.zero_le _) ?_
    rw [Nat.zero_add]
    exact hmem

end StyleHoist
