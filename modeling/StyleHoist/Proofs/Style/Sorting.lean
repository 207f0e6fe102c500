import Mathlib.Algebra.Order.BigOperators.Group.List
import Mathlib.Algebra.Order.Group.Nat
import Mathlib.Data.Char
import Mathlib.Data.List.Lex
import Mathlib.Data.Prod.Lex
import StyleHoist.Proofs.Text.Batch
import StyleHoist.Proofs.Text.Parts
import StyleHoist.Style.Body

/-!
# Sorted properties

A registry takes static properties sorted by key, and by the whole text where keys agree. The key is what stands before
the first colon, without the white space around it and then without the quotes around that (`IsKeyOf`); keys are
compared in lower case. Both comparisons are lexicographic, so together they are a linear order in which only equal
texts are tied (`propertyLe_iff`, `sortedBy_injective`). A list therefore has one sorted form, whatever order it is
given in.

- `isKeyOf_iff`, `sortKey_eq`: every property has one key, and is sorted by it in lower case.
- `lowercase_of_ascii`: of texts in ASCII the lower-case form is taken letter by letter.
- `trimProperty_eq_self_iff`: a text without white space around it is trimmed just if it ends in no comma.
- `formatStatic_canonical`: sorting reorders what is taken, by key and text, to a list that depends on nothing else.
-/

namespace StyleHoist

open Text

/-! ## Keys -/

/-- What is left of a text when the characters of a kind are taken off both its ends. -/
structure StripsTo (kind : Char → Prop) (t core : Text) : Prop where
  around : ∃ a b, t = a ++ (core ++ b) ∧ (∀ c ∈ a, kind c) ∧ ∀ c ∈ b, kind c
  first : ∀ c, core.head? = some c → ¬kind c
  last : ∀ c, core.getLast? = some c → ¬kind c

theorem stripsTo_iff {p : Char → Bool} {t core : Text} :
    StripsTo (p · = true) t core ↔ core = dropEndWhile p (t.dropWhile p) := by
  constructor
  · rintro ⟨⟨a, b, rfl, ha, hb⟩, hfirst, hlast⟩
    rw [List.dropWhile_append_of_pos ha]
    cases core with
    | nil =>
      have hdrop : b.dropWhile p = [] := List.dropWhile_eq_nil_iff.2 hb
      rw [List.nil_append, hdrop]
      rfl
    | cons c core =>
      have hc : ¬p c = true := hfirst c rfl
      rw [List.cons_append, List.dropWhile_cons_of_neg hc, ← List.cons_append,
        dropEndWhile_append_of_all (List.all_eq_true.2 hb)]
      exact (dropEndWhile_of_getLast? fun d hd => by simpa using hlast d hd).symm
  · rintro rfl
    obtain ⟨b, hsplit, hb⟩ := dropEndWhile_append p (t.dropWhile p)
    refine ⟨⟨t.takeWhile p, b, ?_, fun c hc => List.mem_takeWhile_imp hc, List.all_eq_true.1 hb⟩, fun c hc => ?_,
      fun c hc => by simp [dropEndWhile_getLast? hc]⟩
    · rw [← hsplit, List.takeWhile_append_dropWhile]
    · have hhead : (t.dropWhile p).head? = some c := by rw [hsplit, List.head?_append, hc]; rfl
      have hnot := List.head?_dropWhile_not p t
      rw [hhead] at hnot
      simpa using hnot

/-- The key of a property: what stands before its first colon, without the white space around it and then without the
quotes around that. -/
def IsKeyOf (key property : Text) : Prop :=
  ∃ name rest inner, property = name ++ rest ∧ ':' ∉ name ∧ (rest = [] ∨ ∃ value, rest = ':' :: value) ∧
    StripsTo (isBlankChar · = true) name inner ∧ StripsTo (fun c => c = '\x27' ∨ c = '\x22') inner key

theorem isQuote_iff : (isQuote · = true) = fun c => c = '\x27' ∨ c = '\x22' := by
  funext c
  simp [isQuote]

/-- What stands before the first colon is read off the characters up to it. -/
theorem takeWhile_ne_colon {name rest : Text} (hname : ':' ∉ name) (hrest : rest = [] ∨ ∃ value, rest = ':' :: value) :
    (name ++ rest).takeWhile (· != ':') = name := by
  have hall : ∀ c ∈ name, (c != ':') = true := fun c hc => by
    rw [bne_iff_ne]
    rintro rfl
    exact hname hc
  rw [List.takeWhile_append_of_pos hall]
  rcases hrest with rfl | ⟨value, rfl⟩ <;> simp

/-- Every property has one key. -/
theorem isKeyOf_iff {key property : Text} : IsKeyOf key property ↔
    key = dropEndWhile isQuote ((trim (property.takeWhile (· != ':'))).dropWhile isQuote) := by
  rw [IsKeyOf, ← isQuote_iff]
  constructor
  · rintro ⟨name, rest, inner, rfl, hname, hrest, hinner, hkey⟩
    rw [takeWhile_ne_colon hname hrest, trim, trimEnd, trimStart, ← stripsTo_iff.1 hinner]
    exact stripsTo_iff.1 hkey
  · intro hkey
    refine ⟨_, property.dropWhile (· != ':'), _, List.takeWhile_append_dropWhile.symm, fun hm => ?_, ?_,
      stripsTo_iff.2 rfl, stripsTo_iff.2 hkey⟩
    · exact absurd (List.mem_takeWhile_imp hm) (by decide)
    · cases hrest : property.dropWhile (· != ':') with
      | nil => exact Or.inl rfl
      | cons c value =>
        have hnot := List.head?_dropWhile_not (· != ':') property
        rw [hrest] at hnot
        obtain rfl : c = ':' := by simpa using hnot
        exact Or.inr ⟨value, rfl⟩

/-- Properties are sorted by their keys in lower case. -/
theorem sortKey_eq {key property : Text} (h : IsKeyOf key property) : sortKey property = lowercase key := by
  rw [sortKey, ← isKeyOf_iff.1 h]

theorem exists_isKeyOf (property : Text) : ∃ key, IsKeyOf key property :=
  ⟨_, isKeyOf_iff.2 rfl⟩

theorem lowercaseAfter_of_ascii : ∀ {t : Text} (before : Text), (∀ c ∈ t, c.toNat < 0x80) →
    lowercaseAfter before t = t.map Char.toLower
  | [], _, _ => rfl
  | c :: t, before, h => by
    obtain ⟨hc, ht⟩ := List.forall_mem_cons.1 h
    have hsigma : ¬(c == 'Σ') = true := by
      rw [beq_iff_eq]
      rintro rfl
      exact absurd hc (by decide)
    rw [lowercaseAfter, if_neg hsigma, lowerChar, if_pos hc, lowercaseAfter_of_ascii (c :: before) ht]
    rfl

/-- In ASCII the lower-case form is taken letter by letter. -/
theorem lowercase_of_ascii {t : Text} (h : ∀ c ∈ t, c.toNat < 0x80) : lowercase t = t.map Char.toLower :=
  lowercaseAfter_of_ascii [] h

/-! ## The order -/

theorem textLe_iff {s t : Text} : textLe s t = true ↔ s ≤ t := by
  rw [← not_lt]
  induction s generalizing t with
  | nil => simp [textLe]
  | cons a s ih =>
    cases t with
    | nil => simp [textLe]
    | cons b t =>
      rw [List.cons_lt_cons_iff, textLe]
      by_cases hab : a = b
      · simp [hab, ih]
      · simp only [beq_iff_eq, hab, if_false, Ne.symm hab, false_and, or_false, not_lt, decide_eq_true_eq]
        exact Iff.rfl

/-- What a property is sorted by: its key in lower case and, behind it, its whole text. -/
def sortedBy (property : Text) : Text ×ₗ Text :=
  toLex (sortKey property, property)

theorem sortedBy_injective : Function.Injective sortedBy :=
  fun _ _ h => congrArg Prod.snd (toLex.injective h)

theorem propertyLe_iff {p q : Text} : propertyLe p q = true ↔ sortedBy p ≤ sortedBy q := by
  rw [sortedBy, sortedBy, Prod.Lex.toLex_le_toLex, propertyLe]
  by_cases hkey : sortKey p = sortKey q
  · simp [hkey, textLe_iff]
  · simp [hkey, textLe_iff, le_iff_lt_or_eq]

/-- A property stands no later than another one: its key in lower case comes first or, where the keys agree, its text
does. -/
def Precedes (p q : Text) : Prop :=
  ∃ key key', IsKeyOf key p ∧ IsKeyOf key' q ∧ toLex (lowercase key, p) ≤ toLex (lowercase key', q)

theorem precedes_iff {p q : Text} : Precedes p q ↔ sortedBy p ≤ sortedBy q := by
  constructor
  · rintro ⟨key, key', hkey, hkey', hle⟩
    rwa [sortedBy, sortedBy, sortKey_eq hkey, sortKey_eq hkey']
  · intro hle
    obtain ⟨key, hkey⟩ := exists_isKeyOf p
    obtain ⟨key', hkey'⟩ := exists_isKeyOf q
    rw [sortedBy, sortedBy, sortKey_eq hkey, sortKey_eq hkey'] at hle
    exact ⟨key, key', hkey, hkey', hle⟩

/-- A list sorted by key and text is determined by its elements. -/
theorem eq_of_sortedBy {ps qs : List Text} (hperm : ps.Perm qs) (hps : ps.Pairwise fun p q => sortedBy p ≤ sortedBy q)
    (hqs : qs.Pairwise fun p q => sortedBy p ≤ sortedBy q) : ps = qs :=
  hperm.eq_of_pairwise (fun _ _ _ _ hpq hqp => sortedBy_injective (le_antisymm hpq hqp)) hps hqs

theorem pairwise_sortBy_propertyLe (ps : List Text) :
    (sortBy propertyLe ps).Pairwise fun p q => sortedBy p ≤ sortedBy q := by
  have htrans : ∀ p q r, propertyLe p q = true → propertyLe q r = true → propertyLe p r = true := fun p q r hpq hqr =>
    propertyLe_iff.2 ((propertyLe_iff.1 hpq).trans (propertyLe_iff.1 hqr))
  have htotal : ∀ p q, propertyLe p q = true ∨ propertyLe q p = true := fun p q =>
    (le_total (sortedBy p) (sortedBy q)).imp propertyLe_iff.2 propertyLe_iff.2
  exact (pairwise_sortBy htrans htotal ps).imp propertyLe_iff.1

/-! ## What is sorted -/

theorem prefix_trimProperty (p : Text) : trimProperty p <+: trim p := by
  obtain ⟨commas, heq, -⟩ := dropEndWhile_append (· == ',') (trim p)
  exact (prefix_trimEnd _).trans ⟨commas, heq.symm⟩

/-- A property that has been trimmed has no white space around it. -/
theorem trim_trimProperty (p : Text) : trim (trimProperty p) = trimProperty p := by
  refine trim_eq_self (fun c hc => ?_) fun c hc => dropEndWhile_getLast? hc
  obtain ⟨rest, hrest⟩ := prefix_trimProperty p
  have hhead : (trim p).head? = some c := by rw [← hrest, List.head?_append, hc]; rfl
  exact ends_trim.1 hhead

/-- A text without white space around it is trimmed just if it ends in no comma. -/
theorem trimProperty_eq_self_iff {p : Text} (h : trim p = p) : trimProperty p = p ↔ p.getLast? ≠ some ',' := by
  constructor
  · intro hself hcomma
    obtain ⟨s, rfl⟩ := List.getLast?_eq_some_iff.1 hcomma
    have hdrop : dropEndWhile (· == ',') (trim (s ++ [','])) = dropEndWhile (· == ',') s := by
      rw [h, dropEndWhile_append_of_all (by simp)]
    obtain ⟨commas, heq, -⟩ := dropEndWhile_append (· == ',') s
    have hshort : trimProperty (s ++ [',']) <+: s := by
      rw [trimProperty, hdrop]
      exact (prefix_trimEnd _).trans ⟨commas, heq.symm⟩
    have hlength := hshort.length_le
    rw [hself, List.length_append, List.length_singleton] at hlength
    omega
  · intro hcomma
    have hkept : dropEndWhile (· == ',') p = p := by
      refine dropEndWhile_of_getLast? fun c hc => ?_
      rw [beq_eq_false_iff_ne]
      rintro rfl
      exact hcomma hc
    rw [trimProperty, h, hkept]
    exact trimEnd_of_getLast? fun c hc => ends_trim.2 (h.symm ▸ hc)

theorem mem_formatStatic {sorted : Bool} {ps : List Text} {p : Text} :
    p ∈ formatStatic sorted ps ↔ p ≠ [] ∧ ∃ q ∈ ps, trimProperty q = p := by
  cases sorted <;> simp [formatStatic, mem_sortBy, and_comm]

theorem formatStatic_perm (ps : List Text) : (formatStatic true ps).Perm (formatStatic false ps) :=
  sortBy_perm propertyLe _

/-- What is taken of a list of properties does not depend on their order. -/
theorem formatStatic_perm_of_perm {ps qs : List Text} (h : ps.Perm qs) :
    (formatStatic false ps).Perm (formatStatic false qs) :=
  (h.map trimProperty).filter _

theorem pairwise_formatStatic (ps : List Text) :
    (formatStatic true ps).Pairwise fun p q => sortedBy p ≤ sortedBy q :=
  pairwise_sortBy_propertyLe _

/-- Properties that have been taken are taken again as they are just if none of them ends in a comma: otherwise there is
less text afterwards. -/
theorem formatStatic_perm_self_iff {ps : List Text} (h : ∀ p ∈ ps, p ≠ [] ∧ trim p = p) :
    (formatStatic false ps).Perm ps ↔ ∀ p ∈ ps, p.getLast? ≠ some ',' := by
  constructor
  · intro hperm p hp hcomma
    have hle : ∀ q ∈ ps, (trimProperty q).length ≤ q.length := fun q hq => by
      conv => rhs; rw [← (h q hq).2]
      exact (prefix_trimProperty q).length_le
    have hlt : (trimProperty p).length < p.length := by
      refine lt_of_le_of_ne (hle p hp) fun hlength => ?_
      have hself : trimProperty p = trim p :=
        (prefix_trimProperty p).eq_of_length (by rw [hlength, (h p hp).2])
      exact (trimProperty_eq_self_iff (h p hp).2).1 (hself.trans (h p hp).2) hcomma
    have hless : ((ps.map trimProperty).map List.length).sum < (ps.map List.length).sum := by
      rw [List.map_map]
      exact List.sum_lt_sum _ _ hle ⟨p, hp, hlt⟩
    have hsame := hperm.flatten.length_eq
    simp only [formatStatic, Bool.false_eq_true, if_false, List.flatten_filter_not_isEmpty, List.length_flatten] at hsame
    omega
  · intro hcomma
    have hself : ps.map trimProperty = ps := by
      conv => rhs; rw [← List.map_id ps]
      exact List.map_congr_left fun p hp => (trimProperty_eq_self_iff (h p hp).2).2 (hcomma p hp)
    have hkept : formatStatic false ps = ps := by
      simp only [formatStatic, Bool.false_eq_true, if_false, hself]
      exact List.filter_eq_self.2 fun p hp => by simpa using (h p hp).1
    rw [hkept]

/-! ## Sorting -/

/-- **Sorting is canonical.** Sorted properties are those that are taken without sorting, in the order of their keys in
lower case and, where keys agree, of their texts; however the properties are given, the result is the same; and sorting
it again changes nothing exactly if none of its texts ends in a comma (none ever ends in white space). -/
theorem formatStatic_canonical (ps : List Text) :
    (formatStatic true ps).Perm (formatStatic false ps) ∧
      (formatStatic true ps).Pairwise Precedes ∧
      (∀ qs, qs.Perm ps → formatStatic true qs = formatStatic true ps) ∧
      (formatStatic true (formatStatic true ps) = formatStatic true ps ↔
        ∀ p ∈ formatStatic true ps, p.getLast? ≠ some ',') := by
  refine ⟨formatStatic_perm ps, (pairwise_formatStatic ps).imp precedes_iff.2, fun qs hperm => ?_, ?_⟩
  · have htaken := (formatStatic_perm qs).trans ((formatStatic_perm_of_perm hperm).trans (formatStatic_perm ps).symm)
    exact eq_of_sortedBy htaken (pairwise_formatStatic qs) (pairwise_formatStatic ps)
  · have htrimmed : ∀ p ∈ formatStatic true ps, p ≠ [] ∧ trim p = p := by
      intro p hp
      obtain ⟨hne, q, -, rfl⟩ := mem_formatStatic.1 hp
      exact ⟨hne, trim_trimProperty q⟩
    rw [← formatStatic_perm_self_iff htrimmed]
    constructor
    · intro hself
      exact (formatStatic_perm _).symm.trans (List.Perm.of_eq hself)
    · intro hperm
      exact eq_of_sortedBy ((formatStatic_perm _).trans hperm) (pairwise_formatStatic _) (pairwise_formatStatic ps)

-- A comma behind white space is uncovered only when the one behind it is taken off.
example : formatStatic true ["width: 100 , ,".toList, "'Align': 'x'".toList] =
    ["'Align': 'x'".toList, "width: 100 ,".toList] := by decide

end StyleHoist
