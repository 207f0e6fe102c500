import StyleHoist.Text.Edit

/-!
# Batches of edits

Which batches a text takes. An edit fits a text if its ends are in order, in bounds and on boundaries; two edits are
apart if one ends before the other begins. A batch is applied if and only if all its edits fit and any two of them are
apart (`applyEdits_ok_iff`), whatever the order in which they are listed.

The order in which edits apply only enters through `pairwise_sortBy`: of ordered edits that are apart, each ends before
the next begins (`stop_le_start_of_le`).
-/

namespace StyleHoist

/-! ## Sorting -/

section Sorting

variable {α : Type} {le : α → α → Bool}

theorem mem_sortBy {a : α} {as : List α} : a ∈ sortBy le as ↔ a ∈ as :=
  (sortBy_perm le as).mem_iff

/-- Insertion keeps a list in an order if it puts the new element where it belongs. -/
theorem pairwise_insertBy {R : α → α → Prop} (trans : ∀ a b c, R a b → R b c → R a c) {a : α} {bs : List α}
    (hle : ∀ b ∈ bs, le a b = true → R a b) (hgt : ∀ b ∈ bs, ¬le a b = true → R b a) (h : bs.Pairwise R) :
    (insertBy le a bs).Pairwise R := by
  induction bs with
  | nil => simp [insertBy]
  | cons b bs ih =>
    obtain ⟨hb, hbs⟩ := List.pairwise_cons.1 h
    simp only [insertBy]
    split
    · rename_i hab
      have hab := hle b (by simp) hab
      refine List.pairwise_cons.2 ⟨fun c hc => ?_, h⟩
      rcases List.mem_cons.1 hc with rfl | hc
      · exact hab
      · exact trans a b c hab (hb c hc)
    · rename_i hab
      have hrest := ih (fun c hc => hle c (by simp [hc])) (fun c hc => hgt c (by simp [hc])) hbs
      refine List.pairwise_cons.2 ⟨fun c hc => ?_, hrest⟩
      rcases List.mem_cons.1 ((insertBy_perm le a bs).mem_iff.1 hc) with rfl | hc
      · exact hgt b (by simp) hab
      · exact hb c hc

/-- Sorting refines what is sorted by with the order in which the list has its elements. -/
theorem pairwise_sortBy_of_pairwise {R S : α → α → Prop} (trans : ∀ a b c, R a b → R b c → R a c)
    (hle : ∀ a b, S a b → le a b = true → R a b) (hgt : ∀ a b, S a b → ¬le a b = true → R b a) {as : List α}
    (h : as.Pairwise S) : (sortBy le as).Pairwise R := by
  induction as with
  | nil => simp [sortBy]
  | cons a as ih =>
    obtain ⟨ha, has⟩ := List.pairwise_cons.1 h
    exact pairwise_insertBy trans (fun b hb => hle a b (ha b (mem_sortBy.1 hb)))
      (fun b hb => hgt a b (ha b (mem_sortBy.1 hb))) (ih has)

/-- A sorted list is ordered. -/
theorem pairwise_sortBy (trans : ∀ a b c, le a b = true → le b c = true → le a c = true)
    (total : ∀ a b, le a b = true ∨ le b a = true) (as : List α) :
    (sortBy le as).Pairwise fun a b => le a b = true :=
  pairwise_sortBy_of_pairwise trans (fun _ _ _ hab => hab) (fun a b _ hab => (total a b).resolve_left hab)
    (List.pairwise_of_forall fun _ _ => trivial)

theorem insertBy_map {β : Type} (f : α → β) (le : β → β → Bool) (a : α) (as : List α) :
    (insertBy (fun x y => le (f x) (f y)) a as).map f = insertBy le (f a) (as.map f) := by
  induction as with
  | nil => rfl
  | cons b bs ih =>
    simp only [insertBy, List.map_cons]
    split
    · rfl
    · rw [List.map_cons, ih]

/-- What a list is sorted by may be taken from its elements before or after. -/
theorem sortBy_map {β : Type} (f : α → β) (le : β → β → Bool) (as : List α) :
    (sortBy (fun x y => le (f x) (f y)) as).map f = sortBy le (as.map f) := by
  induction as with
  | nil => rfl
  | cons a as ih => simp only [sortBy, List.map_cons, insertBy_map, ih]

end Sorting

/-! ## Edits -/

/-- Two ranges are apart if one of them ends before the other begins. -/
def Span.Apart (a b : Span) : Prop :=
  a.stop ≤ b.start ∨ b.stop ≤ a.start

theorem Span.Apart.symm {a b : Span} (h : a.Apart b) : b.Apart a :=
  Or.symm h

/-- A range covers whole characters of a text: its ends are in order, in bounds and on boundaries. -/
structure Span.Fits (t : Text) (s : Span) : Prop where
  ordered : s.start ≤ s.stop
  inBounds : s.stop ≤ Text.size t
  startWhole : Text.isBoundary t s.start = true
  stopWhole : Text.isBoundary t s.stop = true

theorem Edit.le_iff {a b : Edit} : Edit.le a b = true ↔
    a.range.start < b.range.start ∨ a.range.start = b.range.start ∧ a.range.stop ≤ b.range.stop := by
  simp [Edit.le]

theorem Edit.le_trans (a b c : Edit) (hab : Edit.le a b = true) (hbc : Edit.le b c = true) : Edit.le a c = true := by
  rw [Edit.le_iff] at *
  omega

theorem Edit.le_total (a b : Edit) : Edit.le a b = true ∨ Edit.le b a = true := by
  rw [Edit.le_iff, Edit.le_iff]
  omega

/-- Of two ordered edits that are apart, the first ends before the second begins. -/
theorem Edit.stop_le_start_of_le {a b : Edit} (hle : Edit.le a b = true) (hb : b.range.start ≤ b.range.stop) :
    a.range.Apart b.range ↔ a.range.stop ≤ b.range.start := by
  rw [Edit.le_iff] at hle
  unfold Span.Apart
  omega

/-! ## Batches -/

theorem Span.fits_iff {t : Text} {s : Span} : s.Fits t ↔
    s.start ≤ s.stop ∧ s.stop ≤ Text.size t ∧ Text.isBoundary t s.start = true ∧ Text.isBoundary t s.stop = true :=
  ⟨fun h => ⟨h.ordered, h.inBounds, h.startWhole, h.stopWhole⟩, fun ⟨h₁, h₂, h₃, h₄⟩ => ⟨h₁, h₂, h₃, h₄⟩⟩

/-- A batch has no fault if its first edit has none and those after it have none behind it. -/
theorem findEditError_cons_eq_none_iff (t : Text) (done : Nat) (e : Edit) (es : List Edit) :
    findEditError t done (e :: es) = none ↔
      e.range.Fits t ∧ done ≤ e.range.start ∧ findEditError t e.range.stop es = none := by
  rw [Span.fits_iff]
  simp only [findEditError, Bool.or_eq_true, decide_eq_true_eq, Bool.not_eq_true']
  split
  · simp only [reduceCtorEq, false_iff]
    omega
  · split
    · simp only [reduceCtorEq, false_iff]
      rintro ⟨⟨-, -, hstart, hstop⟩, -⟩
      simp_all
    · split
      · simp only [reduceCtorEq, false_iff]
        omega
      · simp_all

/-- A batch in order has no fault if its edits fit and each begins after those before it have ended. -/
theorem findEditError_eq_none_iff (t : Text) : ∀ (es : List Edit) (done : Nat), findEditError t done es = none ↔
    (∀ e ∈ es, e.range.Fits t) ∧ (∀ e ∈ es, done ≤ e.range.start) ∧
      es.Pairwise fun a b => a.range.stop ≤ b.range.start
  | [], done => by simp [findEditError]
  | e :: es, done => by
    rw [findEditError_cons_eq_none_iff, findEditError_eq_none_iff t es]
    simp only [List.forall_mem_cons, List.pairwise_cons]
    constructor
    · rintro ⟨hfits, hdone, hall, hafter, hpair⟩
      refine ⟨⟨hfits, hall⟩, ⟨hdone, fun f hf => ?_⟩, hafter, hpair⟩
      have := hafter f hf
      have := hfits.ordered
      omega
    · rintro ⟨⟨hfits, hall⟩, ⟨hdone, -⟩, hafter, hpair⟩
      exact ⟨hfits, hdone, hall, hafter, hpair⟩

/-- **A batch is applied if and only if its edits fit the text and any two of them are apart.** -/
theorem applyEdits_ok_iff (t : Text) (edits : List Edit) : (∃ u, applyEdits t edits = .ok u) ↔
    (∀ e ∈ edits, e.range.Fits t) ∧ edits.Pairwise fun a b => a.range.Apart b.range := by
  have hsorted := pairwise_sortBy Edit.le_trans Edit.le_total edits
  have happly : (∃ u, applyEdits t edits = .ok u) ↔ findEditError t 0 (sortBy Edit.le edits) = none := by
    simp only [applyEdits]
    split <;> simp_all
  rw [happly, findEditError_eq_none_iff]
  simp only [mem_sortBy, Nat.zero_le, implies_true, true_and]
  refine and_congr_right fun hfits => ?_
  have hsymm : (sortBy Edit.le edits).Pairwise (fun a b => a.range.Apart b.range) ↔
      edits.Pairwise fun a b => a.range.Apart b.range :=
    (sortBy_perm Edit.le edits).pairwise_iff fun h => h.symm
  rw [← hsymm]
  have hordered : ∀ b ∈ sortBy Edit.le edits, b.range.start ≤ b.range.stop := fun b hb =>
    (hfits b (mem_sortBy.1 hb)).ordered
  constructor
  · exact fun h => h.imp fun hab => Or.inl hab
  · intro h
    refine (hsorted.and h).imp_of_mem fun {a b} _ hb hab => ?_
    exact (Edit.stop_le_start_of_le hab.1 (hordered b hb)).1 hab.2

end StyleHoist
