import StyleHoist.Proofs.Registry.Listing
import StyleHoist.Proofs.Registry.Position

/-!
# Adding entries to a list

What a registry lists once entries have been added. They go behind the content of its body, with a comma before them if
the content does not end in one. That is right if and only if the last character of the content tells whether a comma is
due (`Registry.TakesEntries`): it does not where a comment ends the content.

- `content_cases`: the ways in which the content of a body ends.
- `extends_iff_takesEntries`: entries are added to a list as they should if and only if the registry takes entries.
-/

namespace StyleHoist

open Text Listing

namespace Listing

/-! ## Blanks around pieces -/

/-- Bits that leave the code around them as it is. -/
structure Idle (xs : List Bit) : Prop where
  blank : isBlank (xs.flatMap Bit.text) = true
  noComma : .comma ∉ xs
  noComment : xs.filterMap Bit.comment? = []

theorem idle_blank {t : Text} (h : isBlank t = true) : Idle (t.map Bit.code) where
  blank := by
    have ht : (t.map Bit.code).flatMap Bit.text = t := by
      rw [List.flatMap_map]
      exact List.flatMap_singleton' t
    rw [ht]
    exact h
  noComma := by simp
  noComment := by simp [List.filterMap_map, Function.comp_def, Bit.comment?]

theorem codeOf_append_idle {xs ys : List Bit} (h : Idle ys) : codeOf (xs ++ ys) = codeOf xs := by
  rw [codeOf, List.flatMap_append, trim_append_of_isBlank h.blank, codeOf]

theorem codeOf_blank_append {xs ys : List Bit} (h : isBlank (xs.flatMap Bit.text) = true) :
    codeOf (xs ++ ys) = codeOf ys := by
  rw [codeOf, List.flatMap_append, trim_blank_append h, codeOf]

/-! ## Ends of contents -/

/-- A reader is inside of a line comment. -/
def Place.InLineComment (p : Place) : Prop :=
  ∃ text due, p = ⟨.lineComment text, due⟩

/-- Where white space leads to the start, a reader was there already, or behind a slash in code, or in a line comment
that the white space ends. -/
theorem cases_of_read_blank : ∀ {margin : Text} {p : Place}, isBlank margin = true → (p.read margin).1 = start →
    p = start ∨ (p = ⟨.slash, []⟩ ∧ margin ≠ []) ∨
      ∃ text before after, p = ⟨.lineComment text, []⟩ ∧ margin = before ++ '\n' :: after ∧ '\n' ∉ before
  | [], p, _, h => Or.inl h
  | c :: margin, ⟨stand, due⟩, hblank, h => by
    obtain ⟨hc, hmargin⟩ := isBlank_cons.1 hblank
    have hne := fun d hd => ne_of_isBlankChar (d := d) hc hd
    rw [read_cons] at h
    have hnext := cases_of_read_blank hmargin h
    have hquote : ∀ q : Quote, c ≠ q.1 := fun q => hne q.1 (by
      have := q.2
      simp only [opensQuote, Bool.or_eq_true, beq_iff_eq] at this
      rcases this with (h | h) | h <;> rw [h] <;> decide)
    cases stand with
    | code =>
      simp only [Place.step, codeStep_blank due hc] at hnext
      refine Or.inl ?_
      simpa [start] using hnext
    | slash =>
      simp only [Place.step, beq_iff_eq, hne '/' (by decide), hne '*' (by decide), if_false, codeStep_blank due hc]
        at hnext
      have hdue : due = [] := by simpa [start] using hnext
      exact Or.inr (Or.inl ⟨by rw [hdue], by simp⟩)
    | quoted q => simp [Place.step, start, hne '\\' (by decide), hquote q] at hnext
    | escaped q => simp [Place.step, start] at hnext
    | lineComment text =>
      by_cases hline : c = '\n'
      · have hdue : due = [] := by simpa [Place.step, hline, start] using hnext
        exact Or.inr (Or.inr ⟨text, [], margin, by rw [hdue], by rw [hline]; rfl, List.not_mem_nil⟩)
      · simp only [Place.step, beq_iff_eq, hline, if_false] at hnext
        rcases hnext with hnext | ⟨hnext, -⟩ | ⟨text', before, after, hnext, hmargin, hbefore⟩
        · simp [start] at hnext
        · simp at hnext
        · have hdue : due = [] := by simpa using (congrArg Place.due hnext)
          refine Or.inr (Or.inr ⟨text, c :: before, after, by rw [hdue], by rw [hmargin]; rfl, ?_⟩)
          simpa [hbefore] using Ne.symm hline
    | blockComment text => simp [Place.step, start, hne '*' (by decide)] at hnext
    | star text => simp [Place.step, start, hne '/' (by decide), hne '*' (by decide)] at hnext
    | broken => simp [Place.step, start] at hnext

theorem read_newline (due : List Char) (t : Text) : Place.read ⟨.code, due⟩ ('\n' :: t) =
    ((Place.read ⟨.code, due⟩ t).1, .code '\n' :: (Place.read ⟨.code, due⟩ t).2) := by
  rw [read_cons, Place.step, codeStep_blank due (by decide)]
  rfl

theorem read_comma (t : Text) : start.read (',' :: t) = ((start.read t).1, .comma :: (start.read t).2) := rfl

/-- A comma changes what a line comment says. -/
theorem trim_comma_ne (text : Text) : trim (text ++ [',']) ≠ trim text := by
  intro h
  have hstart : trimStart (text ++ [',']) = trimStart text ++ [','] := by
    rw [trimStart, List.dropWhile_append]
    split
    · rename_i hnil
      have hnil : text.dropWhile isBlankChar = [] := List.isEmpty_iff.1 hnil
      rw [trimStart, hnil]
      rfl
    · rfl
  rw [trim, hstart, trimEnd_concat (by decide), trim] at h
  obtain ⟨ending, hending, -⟩ := trimEnd_append_blank (trimStart text)
  have hlength := congrArg List.length h
  have hlength' := congrArg List.length hending
  simp only [List.length_append, List.length_singleton] at hlength hlength'
  omega

/-- What is read of a content, and of a comma behind it. A comma that follows a line comment goes into the comment. -/
structure Ending (content : Text) (xs : List Bit) : Prop where
  newline : ∀ t, start.read (content ++ '\n' :: t) = ((start.read ('\n' :: t)).1, xs ++ (start.read ('\n' :: t)).2)
  comma : ¬(start.read content).1.InLineComment → ∀ t,
    start.read (content ++ ',' :: t) = ((start.read t).1, xs ++ .comma :: (start.read t).2)
  comment : (start.read content).1.InLineComment → ∃ zs text text', text ≠ text' ∧ xs = zs ++ [.comment .line text] ∧
    ∀ t, start.read (content ++ ',' :: '\n' :: t) =
      ((start.read ('\n' :: t)).1, zs ++ .comment .line text' :: (start.read ('\n' :: t)).2)

section Ending

variable {content : Text} {xs : List Bit}

/-- What is read behind a content goes on from where the reader is behind it. -/
theorem read_behind {p : Place} (h : start.read content = (p, xs)) (t : Text) :
    start.read (content ++ t) = ((p.read t).1, xs ++ (p.read t).2) := by
  rw [read_append, h]

theorem ending_code (h : start.read content = (start, xs)) : Ending content xs where
  newline _ := read_behind h _
  comma _ _ := read_behind h _
  comment := by
    rintro ⟨text, due, hp⟩
    rw [h] at hp
    cases hp

/-- A slash in code that opens no comment is code. -/
theorem read_slash {c : Char} (hline : c ≠ '/') (hblock : c ≠ '*') (t : Text) :
    Place.read ⟨.slash, []⟩ (c :: t) = ((start.read (c :: t)).1, .code '/' :: (start.read (c :: t)).2) := by
  simp [read_cons, Place.step, hline, hblock, start]

theorem ending_slash (h : start.read content = (⟨.slash, []⟩, xs)) : Ending content (xs ++ [.code '/']) where
  newline t := by
    rw [read_behind h, read_slash (by decide) (by decide), List.append_assoc]
    rfl
  comma _ t := by
    rw [read_behind h, read_slash (by decide) (by decide), read_comma, List.append_assoc]
    rfl
  comment := by
    rintro ⟨text, due, hp⟩
    rw [h] at hp
    cases hp

/-- A line comment goes on to the end of its line. -/
theorem read_lineComment (t : Text) : ∀ (s text : Text), '\n' ∉ s →
    Place.read ⟨.lineComment text, []⟩ (s ++ '\n' :: t) =
      ((start.read ('\n' :: t)).1, .comment .line (trim (text ++ s)) :: (start.read ('\n' :: t)).2)
  | [], text, _ => by
    rw [List.append_nil, start, read_newline]
    simp [read_cons, Place.step]
  | c :: s, text, hs => by
    have hc : c ≠ '\n' := fun e => hs (by simp [e])
    rw [List.cons_append, read_cons]
    simp only [Place.step, beq_iff_eq, hc, if_false, List.nil_append]
    rw [read_lineComment t s _ fun hm => hs (List.mem_cons_of_mem _ hm), List.append_assoc, List.singleton_append]

theorem ending_lineComment {text : Text} (h : start.read content = (⟨.lineComment text, []⟩, xs)) :
    Ending content (xs ++ [.comment .line (trim text)]) where
  newline t := by
    have hend := read_lineComment t [] text List.not_mem_nil
    rw [List.nil_append, List.append_nil] at hend
    rw [read_behind h, hend, List.append_assoc]
    rfl
  comma hnot := absurd ⟨text, [], by rw [h]⟩ hnot
  comment _ := by
    refine ⟨xs, trim text, trim (text ++ [',']), (trim_comma_ne text).symm, rfl, fun t => ?_⟩
    have hend := read_lineComment t [','] text (by decide)
    rw [List.singleton_append] at hend
    rw [read_behind h, hend]

end Ending

/-- **The content of a body in which all brackets are closed ends in code or in a line comment.** -/
theorem content_cases {content margin : Text} (hblank : isBlank margin = true)
    (h : (start.read (content ++ margin)).1 = start) :
    ∃ xs ys, (start.read (content ++ margin)).2 = xs ++ ys ∧ Idle ys ∧ Ending content xs := by
  generalize hread : start.read content = found
  obtain ⟨p, xs⟩ := found
  rw [read_behind hread] at h ⊢
  rcases cases_of_read_blank hblank h with rfl | ⟨rfl, hne⟩ | ⟨text, before, after, rfl, rfl, hbefore⟩
  · exact ⟨xs, margin.map .code, by simp only [start, read_blank [] hblank], idle_blank hblank, ending_code hread⟩
  · refine ⟨xs ++ [.code '/'], margin.map .code, ?_, idle_blank hblank, ending_slash hread⟩
    obtain ⟨c, t, rfl⟩ := List.exists_cons_of_ne_nil hne
    have hc : isBlankChar c = true := by
      simp only [isBlank, List.all_cons, Bool.and_eq_true] at hblank
      exact hblank.1
    have hcode : start.read (c :: t) = _ := read_blank [] hblank
    rw [read_slash (ne_of_isBlankChar hc (by decide)) (ne_of_isBlankChar hc (by decide)), hcode, List.append_assoc]
    rfl
  · obtain ⟨hbefore', hafter⟩ : isBlank before = true ∧ isBlank ('\n' :: after) = true := by
      simpa [isBlank] using hblank
    refine ⟨xs ++ [.comment .line (trim text)], ('\n' :: after).map .code, ?_, idle_blank hafter,
      ending_lineComment hread⟩
    have hcode : start.read ('\n' :: after) = _ := read_blank [] hafter
    rw [read_lineComment _ _ _ hbefore, trim_append_of_isBlank hbefore', hcode, List.append_assoc]
    rfl

/-! ## New entries -/

/-- A text is read as one entry and the comma behind it. -/
def IsEntry (e : Text) : Prop :=
  ∃ xs, start.read e = (start, xs ++ [.comma]) ∧ .comma ∉ xs ∧ codeOf xs ≠ []

/-- What entries list, one after the other. -/
def listedBy (entries : List Text) : List Text :=
  entries.flatMap fun e => (entriesIn e).getD []

theorem pieces_entry {xs : List Bit} (h : .comma ∉ xs) : pieces (xs ++ [.comma]) = [xs] ++ [[]] := by
  rw [pieces_append_of_not_mem h (pieces_comma []), List.append_nil]
  rfl

theorem entriesIn_of_isEntry {e : Text} {xs : List Bit} (hread : start.read e = (start, xs ++ [.comma]))
    (hxs : .comma ∉ xs) (hcode : codeOf xs ≠ []) : entriesIn e = some [codeOf xs] := by
  have hpieces : pieces (start.read e).2 = [xs] ++ [[]] := by
    rw [hread, pieces_entry hxs]
  refine (entriesIn_eq_some_iff hpieces).2 ⟨by rw [hread], ?_, ?_⟩
  · simpa using hcode
  · simp [codeOf, trim, trimStart, trimEnd, dropEndWhile]

/-- A reader that has come to the start with a comma has read the end of an entry. -/
theorem step_comma {p : Place} (h : (p.step ',').1 = start) : ∃ xs, (p.step ',').2 = xs ++ [.comma] := by
  obtain ⟨stand, due⟩ := p
  have hcode : (codeStep due ',').1 = start → (codeStep due ',').2 = [.comma] := by
    cases due with
    | nil => exact fun _ => rfl
    | cons d due => intro h; cases h
  have hquote : ∀ q : Quote, ',' ≠ q.1 := by
    rintro ⟨q, hq⟩ rfl
    cases hq
  cases stand with
  | code => exact ⟨[], hcode h⟩
  | slash => exact ⟨[.code '/'], by simp [Place.step, hcode h]⟩
  | quoted q => simp [Place.step, hquote q, start] at h
  | escaped q => cases h
  | lineComment text => cases h
  | blockComment text => cases h
  | star text => cases h
  | broken => cases h

/-- A text that ends in a comma and lists one entry is read as this entry and its comma. -/
theorem isEntry_of_entriesIn {e entry : Text} (h : entriesIn (e ++ [',']) = some [entry]) : IsEntry (e ++ [',']) := by
  obtain ⟨qs, q, hq⟩ := exists_pieces_eq (start.read (e ++ [','])).2
  have hstart := ((entriesIn_eq_some_iff hq).1 h).1
  have hread : start.read (e ++ [',']) =
      (((start.read e).1.step ',').1, (start.read e).2 ++ ((start.read e).1.step ',').2) := by
    rw [read_append, read_cons, read_nil, List.append_nil]
  have hstep : ((start.read e).1.step ',').1 = start := (congrArg Prod.fst hread).symm.trans hstart
  obtain ⟨xs, hxs⟩ := step_comma hstep
  rw [hstep, hxs, ← List.append_assoc] at hread
  obtain ⟨ps, p, hp⟩ := exists_pieces_eq ((start.read e).2 ++ xs)
  have hpieces : pieces (start.read (e ++ [','])).2 = (ps ++ [p]) ++ [[]] := by
    rw [hread, pieces_append (pieces_comma []) hp]
    simp [pieces]
  obtain ⟨-, hfull, hone⟩ := (entriesIn_eq_some_iff hpieces).1 h
  have hps : ps = [] := by
    have hlength := congrArg List.length hone
    have hblank : codeOf [] = [] := rfl
    simp only [hblank, List.length_append, List.length_map, List.length_cons, List.length_nil, if_true] at hlength
    exact List.length_eq_zero_iff.1 (by omega)
  rw [hps, List.nil_append] at hp
  have hcomma := not_mem_of_pieces hp
  rw [pieces_of_not_mem hcomma, List.cons_eq_cons] at hp
  exact ⟨_, hread, hcomma, hp.1 ▸ hfull p (by simp)⟩

/-- A text is read as whole entries, each with its comma. -/
structure ListsWhole (t : Text) (qs : List (List Bit)) : Prop where
  closed : (start.read t).1 = start
  pieces_eq : pieces (start.read t).2 = qs ++ [[]]
  full : ∀ q ∈ qs, codeOf q ≠ []

theorem ListsWhole.append {s t : Text} {ps qs : List (List Bit)} (hs : ListsWhole s ps) (ht : ListsWhole t qs)
    (hne : qs ≠ []) : ListsWhole (s ++ t) (ps ++ qs) := by
  obtain ⟨q, qs, rfl⟩ := List.exists_cons_of_ne_nil hne
  refine ⟨by rw [read_append, hs.closed]; exact ht.closed, ?_, fun p hp => ?_⟩
  · rw [read_append, hs.closed, pieces_append ht.pieces_eq hs.pieces_eq]
    simp
  · exact (List.mem_append.1 hp).elim (hs.full p) (ht.full p)

/-- An entry on a line of its own. -/
theorem listsWhole_entry {e : Text} (h : IsEntry e) : ∃ q, ListsWhole ('\n' :: e) [q] ∧ entriesIn e = some [codeOf q] ∧
    (start.read ('\n' :: e)).2.filterMap Bit.comment? = commentsIn e := by
  obtain ⟨xs, hread, hxs, hcode⟩ := h
  have hline : start.read ('\n' :: e) = (start, (.code '\n' :: xs) ++ [.comma]) := by
    rw [start, read_newline, ← start, hread]
    rfl
  have hsame : codeOf (.code '\n' :: xs) = codeOf xs :=
    show codeOf ([.code '\n'] ++ xs) = codeOf xs from codeOf_blank_append (by decide)
  refine ⟨.code '\n' :: xs, ⟨by rw [hline], ?_, ?_⟩, ?_, ?_⟩
  · rw [hline]
    exact pieces_entry (by simpa using hxs)
  · simpa [hsame] using hcode
  · rw [hsame]
    exact entriesIn_of_isEntry hread hxs hcode
  · rw [hline, commentsIn, hread]
    rfl

/-- Entries on lines of their own are read as they are read alone. -/
theorem listsWhole_joinLines : ∀ {entries : List Text}, entries ≠ [] → (∀ e ∈ entries, IsEntry e) →
    ∃ qs, ListsWhole ('\n' :: joinLines entries) qs ∧ qs ≠ [] ∧ qs.map codeOf = listedBy entries ∧
      (start.read ('\n' :: joinLines entries)).2.filterMap Bit.comment? = entries.flatMap commentsIn
  | [], h, _ => absurd rfl h
  | [e], _, he => by
    obtain ⟨q, hq, hcode, hcomments⟩ := listsWhole_entry (he e (List.mem_singleton_self e))
    refine ⟨[q], hq, by simp, ?_, ?_⟩
    · simp [listedBy, hcode]
    · rw [List.flatMap_singleton]
      exact hcomments
  | e :: e' :: es, _, he => by
    obtain ⟨q, hq, hcode, hcomments⟩ := listsWhole_entry (he e (by simp))
    obtain ⟨qs, hqs, hne, hcodes, hcomments'⟩ := listsWhole_joinLines (show e' :: es ≠ [] by simp)
      fun d hd => he d (List.mem_cons_of_mem _ hd)
    have hjoin : '\n' :: joinLines (e :: e' :: es) = ('\n' :: e) ++ ('\n' :: joinLines (e' :: es)) := by
      simp [joinLines, joinWith]
    refine ⟨[q] ++ qs, hjoin ▸ hq.append hqs hne, by simp, ?_, ?_⟩
    · simp [listedBy, hcode] at hcodes ⊢
      exact hcodes
    · rw [hjoin, read_append, hq.closed, List.filterMap_append, hcomments, hcomments']
      rfl

end Listing

/-! ## The extended body -/

/-- The body of a registry with entries added behind its content. -/
def Registry.extendedBody (r : Registry) (entries : List Text) : Text :=
  r.content ++ (r.insertEntries entries).replacement ++ r.margin

/-- A lone edit puts its replacement in the place of the part that its range covers. -/
theorem applyEdits_replacement (a old new b : Text) :
    applyEdits (a ++ old ++ b) [⟨⟨size a, size (a ++ old)⟩, new⟩] = .ok (a ++ new ++ b) := by
  have hfits : Span.Fits (a ++ old ++ b) ⟨size a, size (a ++ old)⟩ := by
    refine ⟨by simp only [size_append]; omega, by simp only [size_append]; omega, ?_, isBoundary_size_append _ b⟩
    exact List.append_assoc a old b ▸ isBoundary_size_append a _
  have hnone : findEditError (a ++ old ++ b) 0 [⟨⟨size a, size (a ++ old)⟩, new⟩] = none :=
    (findEditError_cons_eq_none_iff ..).2 ⟨hfits, Nat.zero_le _, rfl⟩
  have hbefore : before (a ++ old ++ b) (size a) = a := List.append_assoc a old b ▸ before_size_append a _
  simp only [applyEdits, sortBy, insertBy, hnone, spliceEdits, Nat.sub_zero, hbefore, after_size_append]

/-- A lone insertion parts a text where it stands. -/
theorem applyEdits_insertion (a inserted b : Text) :
    applyEdits (a ++ b) [.insertion (size a) inserted] = .ok (a ++ inserted ++ b) := by
  simpa only [List.append_nil, Edit.insertion] using applyEdits_replacement a [] inserted b

/-- The edit that adds entries puts the extended body in the place of the body. -/
theorem applyEdits_insertEntries_at {a : Text} {r : Registry} (hclose : size (a ++ r.body) = r.closeBrace)
    (entries : List Text) (b : Text) : applyEdits (a ++ r.body ++ '\x7d' :: b) [r.insertEntries entries] =
      .ok (a ++ r.extendedBody entries ++ '\x7d' :: b) := by
  have hbody := r.content_append_margin
  have hoffset : r.closeBrace - size r.margin = size (a ++ r.content) := by
    have hsize := congrArg size hbody
    simp only [size_append] at hsize hclose ⊢
    omega
  have hsplit : a ++ r.body ++ '\x7d' :: b = (a ++ r.content) ++ (r.margin ++ '\x7d' :: b) := by
    rw [← hbody]
    simp only [List.append_assoc]
  rw [Registry.extendedBody, Registry.insertEntries, hoffset, hsplit, applyEdits_insertion]
  simp only [Edit.insertion, List.append_assoc]

/-- The edit that adds entries gives a text in which the extended body stands for the body. -/
theorem applyEdits_insertEntries {t : Text} {r : Registry} (h : r.StandsIn t) (entries : List Text) :
    ∃ a b, t = a ++ r.body ++ '\x7d' :: b ∧ size (a ++ r.body) = r.closeBrace ∧
      applyEdits t [r.insertEntries entries] = .ok (a ++ r.extendedBody entries ++ '\x7d' :: b) := by
  obtain ⟨a, b, rfl, hclose, -⟩ := h
  exact ⟨a, b, rfl, hclose, applyEdits_insertEntries_at hclose entries b⟩

/-- What stands in an extended body behind the content and its comma. -/
def Registry.addition (r : Registry) (entries : List Text) : Text :=
  '\n' :: joinLines entries ++ ((if r.margin.contains '\n' then [] else ['\n']) ++ r.margin)

theorem extendedBody_eq (r : Registry) (entries : List Text) :
    r.extendedBody entries = r.content ++ ((if r.needsComma then [','] else []) ++ r.addition entries) := by
  simp only [Registry.extendedBody, Registry.insertEntries, Edit.insertion, Registry.addition, List.append_assoc]

/-! ## The comma -/

namespace Listing

theorem step_comma_ne_slash (p : Place) : (p.step ',').1.stand ≠ .slash := by
  obtain ⟨stand, due⟩ := p
  have hcode : (codeStep due ',').1.stand ≠ .slash := by
    cases due <;> simp [codeStep, opensQuote, closes, closer?]
  cases stand with
  | code => exact hcode
  | slash => exact hcode
  | quoted q =>
    simp only [Place.step]
    split
    · simp
    · split <;> simp
  | escaped q => simp [Place.step]
  | lineComment text => simp [Place.step]
  | blockComment text => simp [Place.step]
  | star text => simp [Place.step]
  | broken => simp [Place.step]

/-- Where a content ends in a comma, and not in a line comment, the comma is the end of an entry. -/
theorem lastCode_of_comma {content margin : Text} (hblank : isBlank margin = true)
    (h : (start.read (content ++ [','] ++ margin)).1 = start)
    (hnot : ¬(start.read (content ++ [','])).1.InLineComment) : lastCode (content ++ [','] ++ margin) = [] := by
  have hplace : (start.read (content ++ [','])).1 = ((start.read content).1.step ',').1 := by
    rw [read_append]
    rfl
  rw [read_append] at h
  have hstart : (start.read (content ++ [','])).1 = start := by
    rcases cases_of_read_blank hblank h with hp | ⟨hp, -⟩ | ⟨text, -, -, hp, -⟩
    · exact hp
    · exact absurd (by rw [← hplace, hp]) (step_comma_ne_slash (start.read content).1)
    · exact absurd ⟨text, [], hp⟩ hnot
  obtain ⟨xs, hxs⟩ := step_comma (hplace ▸ hstart)
  obtain ⟨ps, p, hp⟩ := exists_pieces_eq ((start.read content).2 ++ xs)
  have hidle := idle_blank hblank
  have hbits : (start.read (content ++ [','] ++ margin)).2 =
      ((start.read content).2 ++ xs) ++ .comma :: margin.map .code := by
    have hmargin : start.read margin = _ := read_blank [] hblank
    rw [read_append, hstart, hmargin, read_append]
    simp [read_cons, hxs]
  have hpieces : pieces (start.read (content ++ [','] ++ margin)).2 = (ps ++ [p]) ++ [margin.map .code] := by
    rw [hbits, pieces_append (pieces_comma _) hp, pieces_of_not_mem hidle.noComma]
    simp
  rw [lastCode_eq hpieces, codeOf_eq_nil_iff]
  exact hidle.blank

end Listing

theorem endsWith_comma_iff {t : Text} : endsWith [','] t = true ↔ ∃ s, t = s ++ [','] := by
  constructor
  · intro h
    obtain ⟨rest, hrest⟩ := Option.isSome_iff_exists.1 h
    refine ⟨rest.reverse, ?_⟩
    have := congrArg List.reverse (eq_append_of_dropPart? hrest)
    simpa using this
  · rintro ⟨s, rfl⟩
    simp [endsWith, beginsWith, dropPart?]

/-- The last character of the content of a registry tells whether a comma is due: if the code behind the last comma is
blank, the content is empty or ends in a comma, and if it is not, no line comment ends the content. -/
structure Registry.TakesEntries (r : Registry) : Prop where
  listed : lastCode r.body = [] → r.needsComma = false
  unlisted : lastCode r.body ≠ [] → ¬(start.read r.content).1.InLineComment

/-- Entries are added as they should: the edit puts an extended body in the place of the body, the scan for the closing
brace ends it where it ends, each of the entries is one entry, the extended body lists the old ones and then these, and
it has the old comments unchanged and then theirs. -/
structure Registry.Extends (t : Text) (r : Registry) (old entries : List Text) : Prop where
  edited : ∃ a b, t = a ++ r.body ++ '\x7d' :: b ∧ size (a ++ r.body) = r.closeBrace ∧
    applyEdits t [r.insertEntries entries] = .ok (a ++ r.extendedBody entries ++ '\x7d' :: b) ∧
    closeBody? .code 0 (r.extendedBody entries ++ '\x7d' :: b) = some (r.extendedBody entries, b)
  single : ∀ e ∈ entries, ∃ entry, entriesIn e = some [entry]
  listed : entriesIn (r.extendedBody entries) = some (old ++ listedBy entries)
  comments : commentsIn (r.extendedBody entries) = commentsIn r.body ++ entries.flatMap commentsIn

theorem lastCode_of_isBlank {body : Text} (h : isBlank body = true) : lastCode body = [] := by
  have hread : start.read body = _ := read_blank [] h
  have hpieces : pieces (start.read body).2 = [] ++ [body.map .code] := by
    rw [hread, pieces_of_not_mem (idle_blank h).noComma, List.nil_append]
  rw [lastCode_eq hpieces, codeOf_eq_nil_iff]
  exact (idle_blank h).blank

/-- Where no comma is written though the last entry has none behind it, a line comment ends the content. -/
theorem inLineComment_of_not_needsComma {r : Registry} (hclosed : (start.read r.body).1 = start)
    (hcomma : r.needsComma = false) (hlast : lastCode r.body ≠ []) : (start.read r.content).1.InLineComment := by
  have hbody := r.content_append_margin
  refine Classical.byContradiction fun hnot => hlast ?_
  rw [Registry.needsComma, Bool.and_eq_false_iff, Bool.not_eq_false', Bool.not_eq_false'] at hcomma
  rcases hcomma with hblank | hcomma
  · refine lastCode_of_isBlank ?_
    rw [← hbody, isBlank, List.all_append, Bool.and_eq_true]
    exact ⟨hblank, r.isBlank_margin⟩
  · obtain ⟨content, hcontent⟩ := endsWith_comma_iff.1 hcomma
    rw [← hbody, hcontent] at hclosed ⊢
    rw [hcontent] at hnot
    exact lastCode_of_comma r.isBlank_margin hclosed hnot

/-! ## Reading the extended body -/

/-- What is read of a body that lists `old`: the bits `xs` of its content, with `ps` before the commas and `x` behind
the last. -/
structure Registry.ReadsContent (r : Registry) (old : List Text) (xs : List Bit) (ps : List (List Bit)) (x : List Bit) :
    Prop where
  closed : (start.read r.body).1 = start
  ending : Ending r.content xs
  pieces_eq : pieces xs = ps ++ [x]
  full : ∀ p ∈ ps, codeOf p ≠ []
  last : lastCode r.body = codeOf x
  listed : old = ps.map codeOf ++ if codeOf x = [] then [] else [codeOf x]
  comments : commentsIn r.body = xs.filterMap Bit.comment?

theorem exists_readsContent {r : Registry} {old : List Text} (hold : entriesIn r.body = some old) :
    ∃ xs ps x, r.ReadsContent old xs ps x := by
  have hbody := r.content_append_margin
  have hclosed : (start.read r.body).1 = start := by
    obtain ⟨ps, p, hp⟩ := exists_pieces_eq (start.read r.body).2
    exact ((entriesIn_eq_some_iff hp).1 hold).1
  obtain ⟨xs, ys, hbits, hys, hend⟩ := content_cases r.isBlank_margin (hbody.symm ▸ hclosed)
  rw [hbody] at hbits
  obtain ⟨ps, x, hx⟩ := exists_pieces_eq xs
  have hpieces : pieces (start.read r.body).2 = ps ++ [x ++ ys] := by
    rw [hbits, pieces_append (pieces_of_not_mem hys.noComma) hx]
  obtain ⟨-, hfull, hlisted⟩ := (entriesIn_eq_some_iff hpieces).1 hold
  rw [codeOf_append_idle hys] at hlisted
  refine ⟨xs, ps, x, hclosed, hend, hx, hfull, (lastCode_eq hpieces).trans (codeOf_append_idle hys), hlisted, ?_⟩
  rw [commentsIn, hbits, List.filterMap_append, hys.noComment, List.append_nil]

/-- What is read of the entries that are added: the bits `zs`, with `q` before the first comma, `qs` before the others
and `y` behind the last. -/
structure Registry.ReadsAddition (r : Registry) (entries : List Text) (zs : List Bit) (q : List Bit)
    (qs : List (List Bit)) (y : List Bit) : Prop where
  read : start.read (r.addition entries) = (start, zs)
  pieces_eq : pieces zs = (q :: qs) ++ [y]
  full : ∀ p ∈ q :: qs, codeOf p ≠ []
  blank : codeOf y = []
  listed : (q :: qs).map codeOf = listedBy entries
  comments : zs.filterMap Bit.comment? = entries.flatMap commentsIn

theorem exists_readsAddition (r : Registry) {entries : List Text} (hne : entries ≠ [])
    (hentries : ∀ e ∈ entries, IsEntry e) : ∃ zs q qs y, r.ReadsAddition entries zs q qs y := by
  obtain ⟨qs, hwhole, hqs, hcodes, hcomments⟩ := listsWhole_joinLines hne hentries
  obtain ⟨q, qs, rfl⟩ := List.exists_cons_of_ne_nil hqs
  have hblank : isBlank ((if r.margin.contains '\n' then [] else ['\n']) ++ r.margin) = true := by
    have := r.isBlank_margin
    split <;> exact this
  generalize hblankText : (if r.margin.contains '\n' then [] else ['\n']) ++ r.margin = blank at hblank
  have hidle := idle_blank hblank
  have hread : start.read blank = _ := read_blank [] hblank
  refine ⟨(start.read ('\n' :: joinLines entries)).2 ++ blank.map .code, q, qs, blank.map .code, ?_, ?_, hwhole.full,
    codeOf_eq_nil_iff.2 hidle.blank, hcodes, ?_⟩
  · rw [Registry.addition, hblankText, read_append, hwhole.closed, hread]
    rfl
  · rw [pieces_append (pieces_of_not_mem hidle.noComma) hwhole.pieces_eq, List.nil_append]
  · rw [List.filterMap_append, hcomments, hidle.noComment, List.append_nil]

section

variable {t : Text} {r : Registry} {old entries : List Text} {xs zs : List Bit} {ps qs : List (List Bit)}
  {x q y : List Bit}

theorem single_of_isEntry (hentries : ∀ e ∈ entries, IsEntry e) : ∀ e ∈ entries, ∃ entry, entriesIn e = some [entry] := by
  intro e he
  obtain ⟨bits, hread, hcomma, hcode⟩ := hentries e he
  exact ⟨_, entriesIn_of_isEntry hread hcomma hcode⟩

/-- An extended body that is closed takes the place of the body. -/
theorem edited_of_closed (hr : r.StandsIn t) (h : (start.read (r.extendedBody entries)).1 = start) :
    ∃ a b, t = a ++ r.body ++ '\x7d' :: b ∧ size (a ++ r.body) = r.closeBrace ∧
      applyEdits t [r.insertEntries entries] = .ok (a ++ r.extendedBody entries ++ '\x7d' :: b) ∧
      closeBody? .code 0 (r.extendedBody entries ++ '\x7d' :: b) = some (r.extendedBody entries, b) := by
  obtain ⟨a, b, ht, hsize, happly⟩ := applyEdits_insertEntries hr entries
  exact ⟨a, b, ht, hsize, happly, closeBody?_of_read h b⟩

/-- Without a comma the first new entry goes on where the content ends. -/
theorem read_extendedBody_of_not_needsComma (hx : r.ReadsContent old xs ps x) (hz : r.ReadsAddition entries zs q qs y)
    (hcomma : r.needsComma = false) : start.read (r.extendedBody entries) = (start, xs ++ zs) := by
  have hread := hx.ending.newline (joinLines entries ++ ((if r.margin.contains '\n' then [] else ['\n']) ++ r.margin))
  have hz' := hz.read
  rw [Registry.addition, List.cons_append] at hz'
  rw [hz'] at hread
  rw [extendedBody_eq, hcomma]
  exact hread

/-- With a comma behind code the content is read as it is alone. -/
theorem read_extendedBody_of_needsComma (hx : r.ReadsContent old xs ps x) (hz : r.ReadsAddition entries zs q qs y)
    (hcomma : r.needsComma = true) (hline : ¬(start.read r.content).1.InLineComment) :
    start.read (r.extendedBody entries) = (start, xs ++ .comma :: zs) := by
  have hread := hx.ending.comma hline (r.addition entries)
  rw [hz.read] at hread
  rw [extendedBody_eq, hcomma]
  exact hread

/-- A comma behind a line comment goes into the comment, which then is another. -/
theorem comments_ne_of_inLineComment (hx : r.ReadsContent old xs ps x) (hz : r.ReadsAddition entries zs q qs y)
    (hcomma : r.needsComma = true) (hline : (start.read r.content).1.InLineComment) :
    commentsIn (r.extendedBody entries) ≠ commentsIn r.body ++ entries.flatMap commentsIn := by
  obtain ⟨ws, text, text', hdiff, hxs, hcommented⟩ := hx.ending.comment hline
  have hread := hcommented (joinLines entries ++ ((if r.margin.contains '\n' then [] else ['\n']) ++ r.margin))
  have hz' := hz.read
  rw [Registry.addition, List.cons_append] at hz'
  rw [hz'] at hread
  have hextended : start.read (r.extendedBody entries) = (start, ws ++ .comment .line text' :: zs) := by
    rw [extendedBody_eq, hcomma]
    exact hread
  intro hsame
  rw [commentsIn, hextended, hx.comments, hxs, List.filterMap_append, List.filterMap_append, List.append_assoc,
    List.append_cancel_left_eq] at hsame
  exact hdiff (by simpa [Bit.comment?] using (List.cons.inj hsame).1 : text' = text).symm

/-- Where no comma is written, entries are added as they should if and only if none is due. -/
theorem extends_iff_of_not_needsComma (hr : r.StandsIn t) (hx : r.ReadsContent old xs ps x)
    (hz : r.ReadsAddition entries zs q qs y) (hentries : ∀ e ∈ entries, IsEntry e) (hcomma : r.needsComma = false) :
    r.Extends t old entries ↔ codeOf x = [] := by
  have hread := read_extendedBody_of_not_needsComma hx hz hcomma
  have hpieces : pieces (start.read (r.extendedBody entries)).2 = (ps ++ (x ++ q) :: qs) ++ [y] := by
    rw [hread, pieces_append hz.pieces_eq hx.pieces_eq]
    simp
  have hnew : entriesIn (r.extendedBody entries) = some (old ++ listedBy entries) ↔ _ := entriesIn_eq_some_iff hpieces
  constructor
  · intro h
    obtain ⟨-, -, hcodes⟩ := hnew.1 h.listed
    refine Classical.byContradiction fun hne => ?_
    -- The last entry and the first new one have become one.
    rw [hx.listed, if_neg hne, ← hz.listed, hz.blank] at hcodes
    have := congrArg List.length hcodes
    simp at this
  · intro hnil
    have hsame : codeOf (x ++ q) = codeOf q := codeOf_blank_append (codeOf_eq_nil_iff.1 hnil)
    refine ⟨edited_of_closed hr (by rw [hread]), single_of_isEntry hentries, hnew.2 ⟨by rw [hread], ?_, ?_⟩, ?_⟩
    · obtain ⟨hfirst, hmore⟩ := List.forall_mem_cons.1 hz.full
      exact List.forall_mem_append.2 ⟨hx.full, List.forall_mem_cons.2 ⟨hsame ▸ hfirst, hmore⟩⟩
    · rw [hx.listed, hnil, ← hz.listed, hz.blank]
      simp [hsame]
    · rw [commentsIn, hread, List.filterMap_append, hx.comments, hz.comments]

/-- Where a comma is written behind code, entries are added as they should if and only if one is due. -/
theorem extends_iff_of_needsComma (hr : r.StandsIn t) (hx : r.ReadsContent old xs ps x)
    (hz : r.ReadsAddition entries zs q qs y) (hentries : ∀ e ∈ entries, IsEntry e) (hcomma : r.needsComma = true)
    (hline : ¬(start.read r.content).1.InLineComment) : r.Extends t old entries ↔ codeOf x ≠ [] := by
  have hread := read_extendedBody_of_needsComma hx hz hcomma hline
  have hpieces : pieces (start.read (r.extendedBody entries)).2 = (ps ++ x :: q :: qs) ++ [y] := by
    rw [hread, pieces_append (pieces_comma zs) hx.pieces_eq, hz.pieces_eq]
    simp
  have hnew : entriesIn (r.extendedBody entries) = some (old ++ listedBy entries) ↔ _ := entriesIn_eq_some_iff hpieces
  constructor
  · intro h
    exact (hnew.1 h.listed).2.1 x (by simp)
  · intro hne
    refine ⟨edited_of_closed hr (by rw [hread]), single_of_isEntry hentries, hnew.2 ⟨by rw [hread], ?_, ?_⟩, ?_⟩
    · exact List.forall_mem_append.2 ⟨hx.full, List.forall_mem_cons.2 ⟨hne, hz.full⟩⟩
    · rw [hx.listed, if_neg hne, ← hz.listed, hz.blank]
      simp
    · rw [commentsIn, hread, List.filterMap_append, hx.comments, ← hz.comments]
      rfl

end

/-- **Entries are added as they should if and only if the end of the content tells whether a comma is due.** -/
theorem extends_iff_takesEntries {t : Text} {r : Registry} {old entries : List Text} (hr : r.StandsIn t)
    (hold : entriesIn r.body = some old) (hne : entries ≠ []) (hentries : ∀ e ∈ entries, IsEntry e) :
    r.Extends t old entries ↔ r.TakesEntries := by
  obtain ⟨xs, ps, x, hx⟩ := exists_readsContent hold
  obtain ⟨zs, q, qs, y, hz⟩ := exists_readsAddition r hne hentries
  have hlast := hx.last
  cases hcomma : r.needsComma with
  | false =>
    rw [extends_iff_of_not_needsComma hr hx hz hentries hcomma, ← hlast]
    constructor
    · exact fun hnil => ⟨fun _ => hcomma, fun hne => absurd hnil hne⟩
    · intro h
      exact Classical.byContradiction fun hne =>
        h.unlisted hne (inLineComment_of_not_needsComma hx.closed hcomma hne)
  | true =>
    by_cases hline : (start.read r.content).1.InLineComment
    · constructor
      · exact fun h => absurd h.comments (comments_ne_of_inLineComment hx hz hcomma hline)
      · intro h
        by_cases hnil : lastCode r.body = []
        · exact absurd (h.listed hnil) (by rw [hcomma]; simp)
        · exact absurd hline (h.unlisted hnil)
    · rw [extends_iff_of_needsComma hr hx hz hentries hcomma hline, ← hlast]
      constructor
      · exact fun hne => ⟨fun hnil => absurd hnil hne, fun _ => hline⟩
      · exact fun h hnil => absurd (h.listed hnil) (by rw [hcomma]; simp)

end StyleHoist
