import StyleHoist.Proofs.Text.Batch
import StyleHoist.Style.Target

/-!
# What a cursor points at

A cursor in the value of a style attribute points at what the first such attribute in the script gives it. Only if none
gives it anything do the elements around the cursor matter: of those with a literal of their own, the one that is tried
before all others gives its first literal.

- `pairwise_elementsAround`: the order in which the elements around a cursor are tried.
- `findAt_eq_target_iff`: which literal a cursor points at.
-/

namespace StyleHoist

open Text

/-! ## Elements around a cursor -/

/-- The elements of a script with their numbers. -/
def Sites.numbered (sites : Sites) : List (Nat × ElementRange) :=
  (List.range sites.elements.length).zip sites.elements

/-- An element is tried before another: it is deeper; or as deep and starts later; or comes first of those that are
alike in both. -/
def TriedBefore (a b : Nat × ElementRange) : Prop :=
  b.2.depth < a.2.depth ∨ a.2.depth = b.2.depth ∧
    (b.2.range.start < a.2.range.start ∨ a.2.range.start = b.2.range.start ∧ a.1 < b.1)

theorem TriedBefore.trans {a b c : Nat × ElementRange} (hab : TriedBefore a b) (hbc : TriedBefore b c) :
    TriedBefore a c := by
  unfold TriedBefore at *
  omega

theorem TriedBefore.asymm {a b : Nat × ElementRange} (hab : TriedBefore a b) : ¬TriedBefore b a := by
  unfold TriedBefore at *
  omega

theorem elementLe_iff {a b : Nat × ElementRange} : elementLe a b = true ↔
    b.2.depth < a.2.depth ∨ a.2.depth = b.2.depth ∧ b.2.range.start ≤ a.2.range.start := by
  simp [elementLe]

theorem Sites.pairwise_numbered (sites : Sites) : sites.numbered.Pairwise fun a b => a.1 < b.1 :=
  List.pairwise_map.1 (by rw [Sites.numbered, List.map_fst_zip (by simp)]; exact List.pairwise_lt_range)

/-- An element is known from its number. -/
theorem Sites.eq_of_mem_numbered {sites : Sites} {e f : Nat × ElementRange} (he : e ∈ sites.numbered)
    (hf : f ∈ sites.numbered) (h : e.1 = f.1) : e = f := by
  have hordered := sites.pairwise_numbered
  obtain ⟨before, after, hsplit⟩ := List.append_of_mem he
  rw [hsplit] at hf hordered
  obtain ⟨-, he, hbefore⟩ := List.pairwise_append.1 hordered
  rcases List.mem_append.1 hf with hf | hf
  · have := hbefore f hf e (by simp)
    omega
  · rcases List.mem_cons.1 hf with rfl | hf
    · rfl
    · have := (List.pairwise_cons.1 he).1 f hf
      omega

theorem mem_elementsAround {sites : Sites} {offset : Nat} {e : Nat × ElementRange} :
    e ∈ elementsAround sites offset ↔ e ∈ sites.numbered ∧ e.2.range.touches offset = true := by
  rw [elementsAround, mem_sortBy, List.mem_filter, Sites.numbered]

/-- The elements around a cursor are listed in the order in which they are tried. -/
theorem pairwise_elementsAround (sites : Sites) (offset : Nat) :
    (elementsAround sites offset).Pairwise TriedBefore := by
  refine pairwise_sortBy_of_pairwise (R := TriedBefore) (S := fun a b => a.1 < b.1) (fun _ _ _ => TriedBefore.trans)
    (fun a b hab hle => ?_) (fun a b hab hle => ?_) (sites.pairwise_numbered.filter _)
  all_goals
    rw [elementLe_iff] at hle
    unfold TriedBefore
    omega

/-- The first result along a list comes from the element that is before all others with a result. -/
theorem findSome?_eq_some_iff_of_pairwise {α β : Type} {R : α → α → Prop} (asymm : ∀ a b, R a b → ¬R b a)
    {as : List α} (h : as.Pairwise R) {f : α → Option β} {b : β} : as.findSome? f = some b ↔
      ∃ a ∈ as, f a = some b ∧ ∀ a' ∈ as, (f a').isSome = true → a' = a ∨ R a a' := by
  rw [List.findSome?_eq_some_iff]
  constructor
  · rintro ⟨before, a, after, rfl, hab, hnone⟩
    refine ⟨a, by simp, hab, fun a' ha' hsome => ?_⟩
    rcases List.mem_append.1 ha' with ha' | ha'
    · simp [hnone a' ha'] at hsome
    · exact (List.mem_cons.1 ha').imp_right ((List.pairwise_cons.1 (List.pairwise_append.1 h).2.1).1 a')
  · rintro ⟨a, ha, hab, hfirst⟩
    obtain ⟨before, after, rfl⟩ := List.append_of_mem ha
    refine ⟨before, a, after, rfl, hab, fun x hx => Option.not_isSome_iff_eq_none.1 fun hsome => ?_⟩
    have hxa : R x a := (List.pairwise_append.1 h).2.2 x hx a (by simp)
    rcases hfirst x (by simp [hx]) hsome with rfl | hax
    · exact asymm x x hxa hxa
    · exact asymm x a hxa hax

/-! ## Which literal a cursor points at -/

/-- The first literal among the own style attributes of an element. -/
def Sites.ownLiteral? (sites : Sites) (t : Text) (n : Nat) : Option StyleTarget :=
  (sites.sites.filter fun s => s.element == some n).findSome? (Site.firstTarget? t)

/-- A cursor points at a literal. -/
inductive Sites.PointsAt (sites : Sites) (t : Text) (offset : Nat) (target : StyleTarget) : Prop
  /-- A style attribute gives it, and none before it gives anything. -/
  | value (before : List Site) (s : Site) (after : List Site) (hsplit : sites.sites = before ++ s :: after)
      (hbefore : ∀ r ∈ before, r.locate? t offset = none) (h : s.locate? t offset = some (.target target))
  /-- No style attribute gives anything, and of the elements around the cursor that have a literal of their own the one
  that is tried before all others gives it. -/
  | element (e : Nat × ElementRange) (hnone : ∀ s ∈ sites.sites, s.locate? t offset = none) (he : e ∈ sites.numbered)
      (htouches : e.2.range.touches offset = true) (h : sites.ownLiteral? t e.1 = some target)
      (hfirst : ∀ f ∈ sites.numbered, f.2.range.touches offset = true → (sites.ownLiteral? t f.1).isSome = true →
        f = e ∨ TriedBefore e f)

section Pointing

variable {sites : Sites} {t : Text} {offset : Nat} {target : StyleTarget}

/-- **Which literal a cursor points at.** -/
theorem findAt_eq_target_iff : findAt sites t offset = .target target ↔ sites.PointsAt t offset target := by
  have haround := findSome?_eq_some_iff_of_pairwise (f := fun e => sites.ownLiteral? t e.1) (b := target)
    (fun _ _ => TriedBefore.asymm) (pairwise_elementsAround sites offset)
  simp only [mem_elementsAround, and_imp] at haround
  cases hvalue : sites.sites.findSome? (Site.locate? t offset) with
  | some answer =>
    obtain ⟨before, s, after, hsplit, hs, hbefore⟩ := List.findSome?_eq_some_iff.1 hvalue
    have hfind : findAt sites t offset = answer := by simp only [findAt, hvalue]
    rw [hfind]
    constructor
    · rintro rfl
      exact .value before s after hsplit hbefore hs
    · intro h
      cases h with
      | value before' s' after' hsplit' hbefore' h =>
        have hfound := List.findSome?_eq_some_iff.2 ⟨before', s', after', hsplit', h, hbefore'⟩
        exact Option.some.inj (hvalue.symm.trans hfound)
      | element e hnone =>
        rw [hnone s (by simp [hsplit])] at hs
        cases hs
  | none =>
    have hnone := List.findSome?_eq_none_iff.1 hvalue
    have hfind : findAt sites t offset = .target target ↔
        (elementsAround sites offset).findSome? (fun e => sites.ownLiteral? t e.1) = some target := by
      cases hown : (elementsAround sites offset).findSome? (fun e => sites.ownLiteral? t e.1) with
      | some found =>
        simp only [Sites.ownLiteral?] at hown
        simp only [findAt, hvalue, hown, Located.target.injEq, Option.some.injEq]
      | none =>
        simp only [Sites.ownLiteral?] at hown
        simp only [findAt, hvalue, hown, reduceCtorEq]
    rw [hfind, haround]
    constructor
    · rintro ⟨e, ⟨he, htouches⟩, h, hfirst⟩
      exact .element e hnone he htouches h hfirst
    · intro h
      cases h with
      | value before s after hsplit hbefore h =>
        rw [hnone s (by simp [hsplit])] at h
        cases h
      | element e _ he htouches h hfirst => exact ⟨e, ⟨he, htouches⟩, h, hfirst⟩

end Pointing

end StyleHoist
