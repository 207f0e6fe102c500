import StyleHoist.Proofs.Style.Placement

/-!
# What a cursor is answered

A look-up from a cursor is a search among the literals that a bulk search lists. A style attribute with the cursor in
its value answers for itself; if none does, the elements around the cursor are asked, the most specific one first.

- `Site.answers_iff`: what a style attribute answers is what it gives.
- `findAt_answered`: the first style attribute that answers decides, else the most specific element with a literal.
-/

namespace StyleHoist

open Text

/-! ## Style attributes -/

/-- A style attribute answers a cursor in its value. -/
inductive Site.Answers (t : Text) (offset : Nat) (s : Site) : Located → Prop
  | reference (hvalue : s.value.touches offset = true) (hcontent : s.content = .member) : s.Answers t offset .reference
  | whole (object : Span) (hvalue : s.value.touches offset = true) (hcontent : s.content = .object object) :
    s.Answers t offset (.target (.make t s.attr object .wholeAttribute))
  /-- Of the objects in an array the first one with the cursor in it is meant. -/
  | element (before : List Span) (x : Span) (after : List Span) (hvalue : s.value.touches offset = true)
      (hcontent : s.content = .array (before ++ x :: after)) (hx : x.touches offset = true)
      (hbefore : ∀ y ∈ before, y.touches offset = false) :
    s.Answers t offset (.target (.make t x x .arrayElement))

section Sites

variable {sites : Sites} {s : Site} {t : Text} {offset : Nat} {answer : Located} {target : StyleTarget}

/-- What a style attribute answers is what it gives. -/
theorem Site.answers_iff : s.Answers t offset answer ↔ s.locate? t offset = some answer := by
  constructor
  · intro h
    cases h with
    | reference hvalue hcontent => simp [Site.locate?, hvalue, hcontent]
    | whole object hvalue hcontent => simp [Site.locate?, hvalue, hcontent]
    | element before x after hvalue hcontent hx hbefore =>
      have hfind : (before ++ x :: after).find? (·.touches offset) = some x :=
        List.find?_eq_some_iff_append.2 ⟨hx, before, after, rfl, fun y hy => by simp [hbefore y hy]⟩
      simp [Site.locate?, hvalue, hcontent, hfind]
  · intro h
    unfold Site.locate? at h
    split at h
    · rename_i hvalue
      split at h
      · rename_i hcontent
        cases h
        exact .reference hvalue hcontent
      · rename_i object hcontent
        cases h
        exact .whole object hvalue hcontent
      · rename_i objects hcontent
        obtain ⟨x, hfind, hx⟩ := Option.map_eq_some_iff.1 h
        obtain ⟨hx', before, after, rfl, hbefore⟩ := List.find?_eq_some_iff_append.1 hfind
        rw [← hx]
        exact .element before x after hvalue hcontent hx' fun y hy => by simpa using hbefore y hy
      · cases h
    · cases h

/-- A style attribute that answers nothing gives nothing. -/
theorem Site.not_answers_iff : (∀ a, ¬s.Answers t offset a) ↔ s.locate? t offset = none := by
  simp only [Site.answers_iff, Option.eq_none_iff_forall_ne_some, ne_eq]

/-- A literal that a style attribute answers is one of its own. -/
theorem Site.Answers.mem_targets (h : s.Answers t offset (.target target)) : target ∈ s.targets t := by
  cases h with
  | whole object hvalue hcontent => simp [Site.targets, hcontent]
  | element before x after hvalue hcontent hx hbefore => simp [Site.targets, hcontent]

/-! ## Elements -/

/-- An element is more specific than another: it is deeper, or as deep and starts later. -/
def MoreSpecific (e f : ElementRange) : Prop :=
  f.depth < e.depth ∨ e.depth = f.depth ∧ f.range.start < e.range.start

/-- An element that is tried behind another is not more specific. -/
theorem TriedBefore.not_moreSpecific {e f : Nat × ElementRange} (h : TriedBefore e f) : ¬MoreSpecific f.2 e.2 := by
  unfold TriedBefore at h
  unfold MoreSpecific
  omega

/-- The element has a literal among its own style attributes. -/
def Sites.Owns (sites : Sites) (e : Nat × ElementRange) (target : StyleTarget) (t : Text) : Prop :=
  ∃ s ∈ sites.sites, s.element = some e.1 ∧ target ∈ s.targets t

/-- The first literal of an element is one of its own. -/
theorem Sites.owns_of_ownLiteral? {e : Nat × ElementRange} (h : sites.ownLiteral? t e.1 = some target) :
    sites.Owns e target t := by
  obtain ⟨before, r, after, hsplit, hr, -⟩ := Sites.ownLiteral?_eq_some_iff.1 h
  obtain ⟨hmem, helement⟩ : r ∈ sites.sites ∧ r.element = some e.1 := by
    have hmem : r ∈ sites.sites.filter fun s => s.element == some e.1 := by simp [hsplit]
    simpa using hmem
  exact ⟨r, hmem, helement, List.mem_of_head? hr⟩

/-- An element has no literal of its own if and only if none of its style attributes holds one. -/
theorem Sites.ownLiteral?_eq_none_iff {n : Nat} : sites.ownLiteral? t n = none ↔
    ∀ r ∈ sites.sites, r.element = some n → ¬r.HasLiteral := by
  rw [← Option.not_isSome_iff_eq_none, Sites.isSome_ownLiteral?_iff]
  simp only [not_exists, not_and]

/-! ## The answer -/

/-- A cursor is answered by style attributes and elements. -/
structure Sites.Answered (sites : Sites) (t : Text) (offset : Nat) (answer : Located) : Prop where
  /-- A literal that is not empty is one of those that a bulk search lists. -/
  listed : ∀ target, answer = .target target → target.isEmpty = false → target ∈ findAll sites t
  /-- The first style attribute that answers decides. -/
  direct : ∀ before s after a, sites.sites = before ++ s :: after → (∀ r ∈ before, ∀ b, ¬r.Answers t offset b) →
    s.Answers t offset a → answer = a
  /-- If no style attribute answers, a literal belongs to an element around the cursor, and no element around the cursor
  that is more specific has a literal of its own. -/
  enclosing : (∀ s ∈ sites.sites, ∀ a, ¬s.Answers t offset a) → ∀ target, answer = .target target →
    ∃ e ∈ sites.numbered, e.2.range.touches offset = true ∧ sites.Owns e target t ∧
      ∀ f ∈ sites.numbered, f.2.range.touches offset = true → MoreSpecific f.2 e.2 →
        ∀ r ∈ sites.sites, r.element = some f.1 → ¬r.HasLiteral
  /-- Only a reference in the value of a style attribute around the cursor is answered as one. -/
  reference : answer = .reference → ∃ s ∈ sites.sites, s.content = .member ∧ s.value.touches offset = true
  /-- Nothing is found if and only if no style attribute answers and no element around the cursor has a literal. -/
  nothing : answer = .nothing ↔ (∀ s ∈ sites.sites, ∀ a, ¬s.Answers t offset a) ∧
    ∀ e ∈ sites.numbered, e.2.range.touches offset = true → ∀ r ∈ sites.sites, r.element = some e.1 → ¬r.HasLiteral

/-- The first style attribute that answers decides. -/
theorem findAt_of_answers {before after : List Site} (hsplit : sites.sites = before ++ s :: after)
    (hbefore : ∀ r ∈ before, ∀ a, ¬r.Answers t offset a) (h : s.Answers t offset answer) :
    findAt sites t offset = answer := by
  have hfound : sites.sites.findSome? (Site.locate? t offset) = some answer :=
    List.findSome?_eq_some_iff.2 ⟨before, s, after, hsplit, Site.answers_iff.1 h,
      fun r hr => Site.not_answers_iff.1 (hbefore r hr)⟩
  simp only [findAt, hfound]

/-- A style attribute answers, and none before it does, or none does. -/
theorem answers_cases (sites : Sites) (t : Text) (offset : Nat) :
    (∃ before s after a, sites.sites = before ++ s :: after ∧ (∀ r ∈ before, ∀ b, ¬r.Answers t offset b) ∧
      s.Answers t offset a) ∨ ∀ s ∈ sites.sites, ∀ a, ¬s.Answers t offset a := by
  cases hvalue : sites.sites.findSome? (Site.locate? t offset) with
  | some a =>
    obtain ⟨before, s, after, hsplit, hs, hbefore⟩ := List.findSome?_eq_some_iff.1 hvalue
    exact Or.inl ⟨before, s, after, a, hsplit, fun r hr => Site.not_answers_iff.2 (hbefore r hr),
      Site.answers_iff.2 hs⟩
  | none => exact Or.inr fun s hs => Site.not_answers_iff.2 (List.findSome?_eq_none_iff.1 hvalue s hs)

/-- Where no style attribute answers, the elements around the cursor are asked. -/
theorem findAt_of_not_answers (h : ∀ s ∈ sites.sites, ∀ a, ¬s.Answers t offset a) :
    findAt sites t offset =
      ((elementsAround sites offset).findSome? fun e => sites.ownLiteral? t e.1).elim .nothing .target := by
  have hnone : sites.sites.findSome? (Site.locate? t offset) = none :=
    List.findSome?_eq_none_iff.2 fun s hs => Site.not_answers_iff.1 (h s hs)
  simp only [findAt, hnone]
  cases hown : (elementsAround sites offset).findSome? fun e => sites.ownLiteral? t e.1 with
  | some target =>
    simp only [Sites.ownLiteral?] at hown
    simp only [hown, Option.elim]
  | none =>
    simp only [Sites.ownLiteral?] at hown
    simp only [hown, Option.elim]

/-- No element around the cursor has a literal of its own. -/
theorem elementsAround_eq_none_iff :
    (elementsAround sites offset).findSome? (fun e => sites.ownLiteral? t e.1) = none ↔
      ∀ e ∈ sites.numbered, e.2.range.touches offset = true → ∀ r ∈ sites.sites, r.element = some e.1 →
        ¬r.HasLiteral := by
  simp only [List.findSome?_eq_none_iff, mem_elementsAround, and_imp, Sites.ownLiteral?_eq_none_iff]

/-- A literal under a cursor is one of a style attribute. -/
theorem mem_targets_of_findAt (h : findAt sites t offset = .target target) :
    ∃ s ∈ sites.sites, target ∈ s.targets t := by
  cases findAt_eq_target_iff.1 h with
  | value before s after hsplit hbefore hs =>
    exact ⟨s, by simp [hsplit], (Site.answers_iff.2 hs).mem_targets⟩
  | element e hnone he htouches hown hfirst =>
    obtain ⟨s, hs, -, htarget⟩ := Sites.owns_of_ownLiteral? hown
    exact ⟨s, hs, htarget⟩

end Sites

/-- **A cursor is answered by the first style attribute that answers, else by the most specific element with a literal;
the answer is one of the literals of a bulk search.** -/
theorem findAt_answered (sites : Sites) (t : Text) (offset : Nat) :
    sites.Answered t offset (findAt sites t offset) where
  listed target h hne := by
    obtain ⟨s, hs, htarget⟩ := mem_targets_of_findAt h
    exact List.mem_filter.2 ⟨List.mem_flatMap.2 ⟨s, hs, htarget⟩, by simp [hne]⟩
  direct before s after a hsplit hbefore h := findAt_of_answers hsplit hbefore h
  enclosing hnone target h := by
    cases findAt_eq_target_iff.1 h with
    | value before s after hsplit hbefore hs =>
      exact absurd (Site.answers_iff.2 hs) (hnone s (by simp [hsplit]) _)
    | element e _ he htouches hown hfirst =>
      refine ⟨e, he, htouches, Sites.owns_of_ownLiteral? hown, fun f hf hftouches hmore r hr hrelement hliteral => ?_⟩
      rcases hfirst f hf hftouches (Sites.isSome_ownLiteral?_iff.2 ⟨r, hr, hrelement, hliteral⟩) with rfl | htried
      · unfold MoreSpecific at hmore
        omega
      · exact htried.not_moreSpecific hmore
  reference h := by
    rcases answers_cases sites t offset with ⟨before, s, after, a, hsplit, hbefore, ha⟩ | hnone
    · rw [findAt_of_answers hsplit hbefore ha] at h
      subst h
      cases ha with
      | reference hvalue hcontent => exact ⟨s, by simp [hsplit], hcontent, hvalue⟩
    · rw [findAt_of_not_answers hnone] at h
      cases hown : (elementsAround sites offset).findSome? fun e => sites.ownLiteral? t e.1 with
      | some target =>
        rw [hown] at h
        cases h
      | none =>
        rw [hown] at h
        cases h
  nothing := by
    rcases answers_cases sites t offset with ⟨before, s, after, a, hsplit, hbefore, ha⟩ | hnone
    · rw [findAt_of_answers hsplit hbefore ha]
      constructor
      · rintro rfl
        cases ha
      · exact fun h => absurd ha (h.1 s (by simp [hsplit]) a)
    · rw [findAt_of_not_answers hnone, ← elementsAround_eq_none_iff (t := t)]
      cases (elementsAround sites offset).findSome? fun e => sites.ownLiteral? t e.1 with
      | some target => simp
      | none => simpa using hnone

end StyleHoist
