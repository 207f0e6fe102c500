import StyleHoist.Proofs.Registry.Rescan

/-!
# Adding entries one by one

Entries that are added together are laid out as if each had been added alone, the text being scanned again before each.
The first entry leaves a body that ends with a comma and a line of white space (`extendedBody_entry`), and behind such a
body each further one only puts its own line (`extendedBody_of_comma`).

- `insertEach_of_comma`: what entries that are added one by one leave behind such a body.
- `insert_one_by_one`: together is the same as one by one, in a registry that is found and in one that is declared.
-/

namespace StyleHoist

open Text Listing

/-- Adds entries one after the other to the registry that starts at an offset, which is looked for again before each. -/
def insertEach (start : Nat) : Text → List Text → Option Text
  | t, [] => some t
  | t, e :: es =>
    match (registriesIn t).find? (·.range.start == start) with
    | none => none
    | some r =>
      match applyEdits t [r.insertEntries [e]] with
      | .error _ => none
      | .ok t' => insertEach start t' es

/-! ## The layout -/

/-- Behind a comma and a line of white space entries are added as they are. -/
theorem extendedBody_of_comma {r : Registry} {front margin : Text} (hbody : r.body = front ++ ',' :: margin)
    (hblank : isBlank margin = true) (hline : '\n' ∈ margin) (ts : List Text) :
    r.extendedBody ts = front ++ ',' :: ('\n' :: joinLines ts ++ margin) := by
  have hcontent : r.content = front ++ [','] := by
    rw [Registry.content, hbody, List.append_cons, trimEnd_append_of_isBlank hblank, trimEnd_concat (by decide)]
  have hmargin : r.margin = margin := by
    have hsplit : r.content ++ r.margin = front ++ [','] ++ margin := by
      rw [r.content_append_margin, hbody, ← List.append_cons]
    rw [hcontent] at hsplit
    exact List.append_cancel_left hsplit
  have hcomma : r.needsComma = false := by
    rw [Registry.needsComma, hcontent, endsWith_comma_iff.2 ⟨front, rfl⟩, Bool.not_true, Bool.and_false]
  rw [extendedBody_eq, Registry.addition, hcontent, hmargin, hcomma]
  simp [hline]

/-- White space with a newline stands behind entries that have been added. -/
theorem newline_mem_behind (r : Registry) :
    '\n' ∈ (if r.margin.contains '\n' then [] else ['\n'] : Text) ++ r.margin := by
  split
  · rename_i h
    simpa using h
  · simp

/-- Entries that are added leave a comma and a line of white space at the end of the body, each behind the first one as
a line of its own. -/
theorem extendedBody_entry (r : Registry) {e : NewEntry} (he : e.Sound) : ∃ front margin,
    isBlank margin = true ∧ '\n' ∈ margin ∧
      ∀ es : List Text, r.extendedBody (e.text :: es) = front ++ ',' :: (es.flatMap ('\n' :: ·) ++ margin) := by
  obtain ⟨-, u, hu⟩ := he.closed_text
  refine ⟨r.content ++ ((if r.needsComma then [','] else []) ++ '\n' :: u), _, isBlank_behind r, newline_mem_behind r,
    fun es => ?_⟩
  rw [extendedBody_eq, Registry.addition, joinLines_eq_flatMap, hu]
  simp only [List.append_assoc, List.cons_append, List.nil_append]

/-! ## One by one -/

/-- One entry is added to the registry in a place for bodies. -/
theorem insertEach_cons {a b : Text} {start : Nat} {name : Text} (hslot : BodySlot a b start name) {body : Text}
    (hbody : Bracing.IsBody body) (e : Text) (es : List Text) : ∃ r : Registry, r.body = body ∧
      insertEach start (a ++ body ++ '\x7d' :: b) (e :: es) =
        insertEach start (a ++ r.extendedBody [e] ++ '\x7d' :: b) es := by
  obtain ⟨r, hr, -, rfl, rfl, hclose⟩ := hslot body hbody
  refine ⟨r, rfl, ?_⟩
  rw [insertEach, find?_start_registriesIn hr]
  simp only [applyEdits_insertEntries_at hclose [e] b]

/-- Behind a comma and a line of white space each entry puts its own line. -/
theorem insertEach_of_comma {a b : Text} {start : Nat} {name : Text} (hslot : BodySlot a b start name) {margin : Text}
    (hblank : isBlank margin = true) (hline : '\n' ∈ margin) : ∀ {es : List NewEntry} {front : Text},
      (∀ e ∈ es, e.Sound) → Bracing.IsBody (front ++ ',' :: margin) →
        insertEach start (a ++ (front ++ ',' :: margin) ++ '\x7d' :: b) (textsOf es) =
          some (a ++ (front ++ ',' :: ((textsOf es).flatMap ('\n' :: ·) ++ margin)) ++ '\x7d' :: b)
  | [], front, _, _ => rfl
  | e :: es, front, h, hbody => by
    obtain ⟨r, hr, hnext⟩ := insertEach_cons hslot hbody e.text (textsOf es)
    have he := h e (by simp)
    obtain ⟨-, u, hu⟩ := he.closed_text
    have hextended := extendedBody_of_comma hr hblank hline [e.text]
    have hclosed : Bracing.IsBody (r.extendedBody (textsOf [e])) :=
      isBody_extendedBody (hr ▸ hbody) (List.forall_mem_singleton.2 he)
    have hfront : r.extendedBody [e.text] = (front ++ ',' :: '\n' :: u) ++ ',' :: margin := by
      rw [hextended]
      simp [joinLines, joinWith, hu]
    rw [textsOf_cons, hnext, hfront,
      insertEach_of_comma hslot hblank hline (fun d hd => h d (List.mem_cons_of_mem _ hd)) (hfront ▸ hclosed),
      List.flatMap_cons, hu]
    simp only [List.append_assoc, List.cons_append, List.nil_append]

/-- What an extended body is depends on the body alone. -/
theorem extendedBody_congr {r s : Registry} (h : r.body = s.body) (ts : List Text) :
    r.extendedBody ts = s.extendedBody ts := by
  obtain ⟨_, body, _, _⟩ := r
  obtain ⟨_, _, _, _⟩ := s
  cases h
  rfl

/-- The entries of a declared registry behind the first one, each as a line of its own. -/
theorem declaredBody_entry {e : NewEntry} (he : e.Sound) : ∃ front, ∀ es : List Text,
    declaredBody (e.text :: es) = front ++ ',' :: (es.flatMap ('\n' :: ·) ++ ['\n']) := by
  obtain ⟨-, u, hu⟩ := he.closed_text
  refine ⟨'\n' :: u, fun es => ?_⟩
  rw [declaredBody, joinLines_eq_flatMap, hu]
  simp only [List.append_assoc, List.cons_append, List.nil_append]

/-- **Adding entries in one batch is the same as adding them one at a time, the text being scanned again before each. In
a registry that is found all are added so, in one that is declared all behind the first.** -/
theorem insert_one_by_one {e : NewEntry} {es : List NewEntry} (h : ∀ d ∈ e :: es, d.Literal) :
    (∀ t, ∀ r ∈ registriesIn t, ∃ t', applyEdits t [r.insertEntries (textsOf (e :: es))] = .ok t' ∧
      insertEach r.range.start t (textsOf (e :: es)) = some t') ∧
    ∀ t name policy, isEntryName name = true → ∃ t₁ t',
      applyEdits t [createRegistry t name [e.text] policy] = .ok t₁ ∧
        (∃ r ∈ registriesIn t₁, r.name = name ∧ r.range.start = size (declarationSite t policy).1) ∧
        applyEdits t [createRegistry t name (textsOf (e :: es)) policy] = .ok t' ∧
        insertEach (size (declarationSite t policy).1) t₁ (textsOf es) = some t' := by
  have he : e.Sound := (h e (by simp)).sound
  have hes : ∀ d ∈ es, d.Sound := fun d hd => (h d (List.mem_cons_of_mem _ hd)).sound
  constructor
  · intro t r hr
    obtain ⟨a, b, rfl, hclose, hbody, hslot⟩ := slot_of_mem_registriesIn hr
    refine ⟨_, applyEdits_insertEntries_at hclose _ b, ?_⟩
    obtain ⟨s, hs, hnext⟩ := insertEach_cons hslot hbody e.text (textsOf es)
    obtain ⟨front, margin, hblank, hline, hextended⟩ := extendedBody_entry r he
    have hclosed : Bracing.IsBody (front ++ ',' :: margin) := by
      have hone := isBody_extendedBody hbody (List.forall_mem_singleton.2 he)
      rwa [textsOf, List.map_singleton, hextended] at hone
    have hone : s.extendedBody [e.text] = front ++ ',' :: margin := (extendedBody_congr hs _).trans (hextended [])
    rw [textsOf_cons, hnext, hone, insertEach_of_comma hslot hblank hline hes hclosed, hextended]
  · intro t name policy hname
    have hslot := slot_declarationFrame t policy hname
    obtain ⟨front, hdeclared⟩ := declaredBody_entry he
    have hclosed := isBody_declaredBody (List.forall_mem_singleton.2 he)
    obtain ⟨r, hr, hname', hstart, -⟩ := hslot _ hclosed
    refine ⟨_, _, applyEdits_createRegistry t name [e.text] policy, ⟨r, ?_, hname', hstart⟩,
      applyEdits_createRegistry t name (textsOf (e :: es)) policy, ?_⟩
    · rw [declarationText_site]
      exact hr
    · rw [textsOf, List.map_singleton, hdeclared] at hclosed
      rw [declarationText_site, declarationText_site, hdeclared, textsOf_cons, hdeclared]
      exact insertEach_of_comma hslot (by decide) (by simp) hes hclosed

/-- An entry of one property without white space. -/
def flagEntry : NewEntry := ⟨"flag".toList, ["on:true".toList], [], true⟩

theorem literal_flagEntry : flagEntry.Literal where
  name := by decide
  nonempty := by simp [flagEntry]
  properties := List.forall_mem_singleton.2 ⟨"on".toList, [], [], "true".toList, by decide,
    .bare (by decide) (by decide) rfl, .bare (by decide) (by decide) rfl, rfl, rfl, by decide⟩
  comments := fun _ hc => absurd hc List.not_mem_nil

/-- It goes with the entry of quotes and braces into the registry with a comment behind its last entry, and into one
that is declared for the two. -/
theorem insert_flag_and_quotingEntry :
    (∃ t', insertEach 0 notedRegistry (textsOf [flagEntry, quotingEntry]) = some t') ∧
    ∃ t₁ t', applyEdits notedRegistry [createRegistry notedRegistry "more".toList [flagEntry.text] .afterImports] =
        .ok t₁ ∧
      applyEdits notedRegistry
        [createRegistry notedRegistry "more".toList (textsOf [flagEntry, quotingEntry]) .afterImports] = .ok t' ∧
      insertEach 0 t₁ (textsOf [quotingEntry]) = some t' := by
  have h : ∀ e ∈ [flagEntry, quotingEntry], e.Literal :=
    List.forall_mem_cons.2 ⟨literal_flagEntry, List.forall_mem_singleton.2 literal_quotingEntry⟩
  obtain ⟨hinsert, hcreate⟩ := insert_one_by_one h
  obtain ⟨t', -, heach⟩ := hinsert notedRegistry
    ⟨"styles".toList, "\n\tbox: \x7b flex: 1 \x7d // the box\n".toList, ⟨0, 66⟩, 64⟩ (by decide +kernel)
  obtain ⟨t₁, t₂, hone, -, hboth, heach'⟩ := hcreate notedRegistry "more".toList .afterImports (by decide)
  exact ⟨⟨t', heach⟩, t₁, t₂, hone, hboth, heach'⟩

end StyleHoist
