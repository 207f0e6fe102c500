import StyleHoist.Proofs.Extraction.Written

/-!
# Comments that are put back in two places

Comments are put back into the lines of an entry, and next to the properties that stay where a style is used. The first
way sees lines, the second properties, and each keeps its own account of the names that have got theirs. Both lead to
the same lines: what is put into an entry stands there as it would at the place of use.

- `sameLines_restoreLines`: the lines are the same but for white space at their ends.
- `exists_parts_of_restoreLines`: the lines of an entry are kept, and only comments are put between and behind them.
- `count_restored`: a comment of a property that is there is put back as often as it has been taken.
- `restoreEntry_agrees`: both ways agree, and nothing but the comments of properties is put into an entry.
-/

namespace StyleHoist

open Text Listing

/-! ## Lines up to white space at their ends -/

/-- Lines that differ in white space at their ends only. -/
def SameLines (ls ms : List Text) : Prop :=
  ls.map trimEnd = ms.map trimEnd

theorem SameLines.refl (ls : List Text) : SameLines ls ls := rfl

theorem SameLines.append {ls ls' ms ms' : List Text} (h : SameLines ls ms) (h' : SameLines ls' ms') :
    SameLines (ls ++ ls') (ms ++ ms') := by
  unfold SameLines at h h' ⊢
  rw [List.map_append, List.map_append, h, h']

theorem flatMap_splitLines {ls : List Text} (h : ∀ l ∈ ls, IsLine l) : ls.flatMap splitLines = ls := by
  induction ls with
  | nil => rfl
  | cons l ls ih =>
    obtain ⟨hl, hls⟩ := List.forall_mem_cons.1 h
    rw [List.flatMap_cons, splitLines_of_isLine hl, ih hls]
    rfl

/-! ## Comments on lines of their own -/

section Standalone

variable {indent : Text} (hindent : IsIndent indent)

include hindent

theorem isLine_blockTail : ∀ {ls : List Text}, (∀ l ∈ ls, IsLine l) → ∀ l ∈ blockTail indent ls, IsLine l
  | [], _, l, hl => by cases hl
  | [last], h, l, hl => by
    rw [blockTail_singleton] at hl
    rw [List.mem_singleton.1 hl]
    have hlast : IsLine (trimStart last) := fun hm => h last (by simp) ((List.dropWhile_suffix _).subset hm)
    exact (hindent.line.append (by simpa [IsLine] using hlast)).append (by decide)
  | k :: k' :: ls, h, l, hl => by
    obtain ⟨hk, hls⟩ := List.forall_mem_cons.1 h
    rcases List.mem_cons.1 hl with rfl | hl
    · have hk : IsLine (trimStart k) := fun hm => hk ((List.dropWhile_suffix _).subset hm)
      exact isLine_trimEnd (hindent.line.append (by simpa [IsLine] using hk))
    · exact isLine_blockTail hls l hl

omit hindent in
/-- The lines of a block may be indented when they are made, or later. -/
theorem sameLines_blockTail : ∀ ls : List Text,
    SameLines (blockTail indent ls) ((blockTail [] ls).map (indent ++ ·))
  | [] => rfl
  | [last] => by
    simp only [SameLines, blockTail, List.map_cons, List.map_nil, List.nil_append, trimEnd_trimEnd,
      trimEnd_append_trimEnd]
  | l :: l' :: ls => by
    have hrest := sameLines_blockTail (l' :: ls)
    unfold SameLines at hrest ⊢
    rw [blockTail_cons_cons, blockTail_cons_cons, List.map_cons, List.map_cons, List.map_cons, hrest, List.nil_append,
      trimEnd_trimEnd, trimEnd_append_trimEnd]

/-- A comment may be indented when its lines are made, or later. -/
theorem sameLines_standalone (c : Comment) :
    SameLines ((c.standalone indent).flatMap splitLines)
      (((c.standalone []).map (indent ++ ·)).flatMap splitLines) := by
  unfold Comment.standalone
  split
  · simp [SameLines]
  · split
    · split
      · exact SameLines.refl _
      · rename_i first rest hlines
        have hline : ∀ l ∈ first :: rest, IsLine l := fun l hl => isLine_of_mem_splitLines (hlines ▸ hl)
        obtain ⟨hfirst, hrest⟩ := List.forall_mem_cons.1 hline
        have hopening : IsLine ("/*".toList ++ first) := IsLine.append (by decide) hfirst
        have hmade : ∀ l ∈ trimEnd (indent ++ "/*".toList ++ first) :: blockTail indent rest, IsLine l := by
          refine List.forall_mem_cons.2 ⟨isLine_trimEnd ?_, isLine_blockTail hindent hrest⟩
          rw [List.append_assoc]
          exact hindent.line.append hopening
        have hlater : ∀ l ∈ (trimEnd ([] ++ "/*".toList ++ first) :: blockTail [] rest).map (indent ++ ·),
            IsLine l := by
          intro l hl
          obtain ⟨k, hk, rfl⟩ := List.mem_map.1 hl
          refine hindent.line.append ?_
          rcases List.mem_cons.1 hk with rfl | hk
          · exact isLine_trimEnd hopening
          · exact isLine_blockTail isIndent_nil hrest k hk
        rw [flatMap_splitLines hmade, flatMap_splitLines hlater, List.map_cons]
        have hsame : SameLines (blockTail indent rest) ((blockTail [] rest).map (indent ++ ·)) :=
          sameLines_blockTail rest
        unfold SameLines at hsame ⊢
        rw [List.map_cons, List.map_cons, hsame, trimEnd_trimEnd, trimEnd_append_trimEnd, List.nil_append,
          List.append_assoc]
    · simp [SameLines]

theorem sameLines_standalones : ∀ cs : List Comment,
    SameLines ((cs.flatMap (·.standalone indent)).flatMap splitLines)
      (((cs.flatMap (·.standalone [])).map (indent ++ ·)).flatMap splitLines)
  | [] => SameLines.refl _
  | c :: cs => by
    rw [List.flatMap_cons, List.flatMap_cons, List.flatMap_append, List.map_append, List.flatMap_append]
    exact (sameLines_standalone hindent c).append (sameLines_standalones cs)

end Standalone

/-! ## Lines of properties -/

/-- A property that takes one line, without white space around it. -/
structure OneLine (p : Text) : Prop where
  line : IsLine p
  trimmed : trim p = p

/-- A comma behind a text makes no key. -/
theorem leadingKey?_comma (p : Text) : leadingKey? (p ++ [',']) = leadingKey? p := by
  refine Option.ext fun name => ?_
  rw [leadingKey?_iff, leadingKey?_iff]
  constructor
  · rintro ⟨gap, rest, heq, hname⟩
    rcases List.eq_nil_or_concat rest with rfl | ⟨rest, c, rfl⟩
    · rw [← List.append_assoc] at heq
      exact absurd (List.append_inj_right' heq rfl) (by decide)
    · refine ⟨gap, rest, ?_, hname⟩
      rw [List.concat_eq_append, ← List.cons_append, ← List.append_assoc, ← List.append_assoc] at heq
      rw [List.append_inj_left' heq rfl, List.append_assoc]
  · rintro ⟨gap, rest, rfl, hname⟩
    exact ⟨gap, rest ++ [','], by simp, hname⟩

section Lines

variable {indent p : Text} (hindent : IsIndent indent) (hp : OneLine p)

include hindent hp

theorem splitLines_property : splitLines (propertyText indent p none) = [propertyText indent p none] := by
  refine splitLines_of_isLine ?_
  have hline := hindent.line.append hp.line
  simp only [propertyText, splitLines_of_isLine hp.line]
  split
  · rw [hp.trimmed]
    exact hline
  · exact (isLine_trimEnd hline).append (by decide)

omit hindent in
/-- A property that is not blank stands behind its indentation. -/
theorem exists_ending_property (hne : p ≠ []) :
    ∃ ending, propertyText indent p none = indent ++ (p ++ ending) ∧ (ending = [] ∨ ending = [',']) := by
  have hblank : ¬isBlank p = true := fun h => hne (hp.trimmed ▸ trim_eq_nil_iff.2 h)
  simp only [propertyText, splitLines_of_isLine hp.line]
  split
  · exact ⟨[], by rw [hp.trimmed, List.append_nil], Or.inl rfl⟩
  · have htrim : trimEnd p = p := trimEnd_of_getLast? fun c hc => ends_trim.2 (hp.trimmed.symm ▸ hc)
    exact ⟨[','], by rw [trimEnd_append_of_not_isBlank hblank, htrim, List.append_assoc]; rfl, Or.inr rfl⟩

/-- What is written before a property is its indentation. -/
theorem span_property (hne : p ≠ []) : (propertyText indent p none).takeWhile isBlankChar = indent ∧
    ∃ ending, trimStart (propertyText indent p none) = p ++ ending ∧ (ending = [] ∨ ending = [',']) := by
  obtain ⟨ending, htext, hending⟩ : ∃ ending, propertyText indent p none = indent ++ (p ++ ending) ∧ _ :=
    exists_ending_property hp hne
  have hblank : ∀ c ∈ indent, isBlankChar c = true := by simpa [isBlank] using hindent.blank
  obtain ⟨c, cs, rfl⟩ := List.exists_cons_of_ne_nil hne
  have hc : isBlankChar c = false := ends_trim.1 (show (trim (c :: cs)).head? = some c by rw [hp.trimmed]; rfl)
  rw [htext, trimStart, List.takeWhile_append_of_pos hblank, List.dropWhile_append_of_pos hblank]
  simp [hc, hending]

/-- The key of a property is the key of its line. -/
theorem leadingKey?_property : leadingKey? (trimStart (propertyText indent p none)) = leadingKey? (trimStart p) := by
  by_cases hne : p = []
  · subst hne
    have hnil : trimEnd (indent ++ []) = [] := trimEnd_eq_nil_iff.2 (by simpa using hindent.blank)
    have htext : propertyText indent [] none = [','] := by
      have hnot : isCommentLine [] = false := rfl
      simp only [propertyText, splitLines, hnot, hnil]
      rfl
    rw [htext]
    rfl
  · obtain ⟨-, ending, htrim, hending⟩ := span_property hindent hp hne
    have hstart : trimStart p = p := by
      have hsplit := takeWhile_append_trimStart p
      obtain ⟨c, cs, rfl⟩ := List.exists_cons_of_ne_nil hne
      have hc : isBlankChar c = false := ends_trim.1 (show (trim (c :: cs)).head? = some c by rw [hp.trimmed]; rfl)
      simp [trimStart, hc]
    rw [htrim, hstart]
    rcases hending with rfl | rfl
    · rw [List.append_nil]
    · exact leadingKey?_comma p

end Lines

/-! ## Both ways agree -/

/-- A line with a comment behind it. -/
def codedLine (line : Text) : Option Comment → Text
  | some c => line ++ ' ' :: c.trailing
  | none => line

/-- A line whose key has not come before gets the comments of its property. -/
theorem restoreLines_fresh {l name : Text} {seen : List Text} (comments : List Comment) (ls : List Text)
    (hname : leadingKey? (trimStart l) = some name) (hfresh : ¬seen.contains name = true) :
    restoreLines comments seen (l :: ls) =
      (commentsOf comments name .before).flatMap (·.standalone (l.takeWhile isBlankChar)) ++
        codedLine l (commentsOf comments name .sameLine).head? ::
          (commentsOf comments name .after).flatMap (·.standalone (l.takeWhile isBlankChar)) ++
        restoreLines comments (name :: seen) ls := by
  simp only [restoreLines, hname, hfresh]
  cases commentsOf comments name .sameLine <;> rfl

/-- A line without a key, or with one that has come before, stays as it is. -/
theorem restoreLines_stale {l : Text} {seen : List Text} (comments : List Comment) (ls : List Text)
    (h : ∀ name, leadingKey? (trimStart l) = some name → seen.contains name = true) :
    restoreLines comments seen (l :: ls) = l :: restoreLines comments seen ls := by
  simp only [restoreLines]
  split
  · rename_i name hname
    rw [if_pos (h name hname)]
  · rfl

theorem render_comments (indent : Text) (ts : List Text) :
    (ts.map InlineLine.comment).map (·.render indent) = ts.map (indent ++ ·) := by
  rw [List.map_map]
  rfl

/-- **Comments that are put into lines of properties stand there as they do next to the properties.** -/
theorem sameLines_restoreLines {indent : Text} (hindent : IsIndent indent) (comments : List Comment) :
    ∀ {codes : List Text} (seen : List Text), (∀ p ∈ codes, OneLine p) →
      SameLines ((restoreLines comments seen (codes.map (propertyText indent · none))).flatMap splitLines)
        (((restoreProperties comments seen codes).map (·.render indent)).flatMap splitLines)
  | [], _, _ => SameLines.refl _
  | p :: codes, seen, h => by
    obtain ⟨hp, hcodes⟩ := List.forall_mem_cons.1 h
    have hbare : ∀ {ls ms : List Text}, SameLines (ls.flatMap splitLines) (ms.flatMap splitLines) →
        SameLines ((propertyText indent p none :: ls).flatMap splitLines)
          ((InlineLine.render indent (.property p none) :: ms).flatMap splitLines) := by
      intro ls ms hrest
      rw [List.flatMap_cons, List.flatMap_cons]
      exact (SameLines.refl _).append hrest
    have hkey := leadingKey?_property hindent hp
    rw [List.map_cons]
    cases hname : leadingKey? (trimStart p) with
    | none =>
      rw [restoreLines_stale _ _ (by simp [hkey, hname])]
      simp only [restoreProperties, hname]
      exact hbare (sameLines_restoreLines hindent comments seen hcodes)
    | some name =>
      by_cases hseen : seen.contains name = true
      · rw [restoreLines_stale _ _ (by simpa [hkey, hname] using hseen)]
        simp only [restoreProperties, hname, hseen]
        exact hbare (sameLines_restoreLines hindent comments seen hcodes)
      · have hne : p ≠ [] := by
          rintro rfl
          cases hname
        have hown := fun placement => sameLines_standalones hindent (commentsOf comments name placement)
        have hcoded : codedLine (propertyText indent p none) (commentsOf comments name .sameLine).head? =
            propertyText indent p ((commentsOf comments name .sameLine).head?.map (·.trailing)) := by
          cases (commentsOf comments name .sameLine).head? with
          | none => rfl
          | some c => exact (propertyText_trailing (getsComma_of_leadingKey? hname) _).symm
        rw [restoreLines_fresh comments _ (hkey.trans hname) hseen, (span_property hindent hp hne).1, hcoded]
        simp only [restoreProperties, hname, hseen, Bool.false_eq_true, if_false, List.map_append, List.map_cons,
          List.flatMap_append, List.flatMap_cons, render_comments]
        exact ((hown .before).append ((SameLines.refl _).append (hown .after))).append
          (sameLines_restoreLines hindent comments (name :: seen) hcodes)

/-! ## What an entry is put together from -/

/-- A part of an entry with comments. -/
inductive EntryPart
  /-- A line, and the comment behind it. -/
  | code (line : Text) (appended : Option Comment)
  /-- A comment on lines of its own. -/
  | note (comment : Comment) (indent : Text)
deriving DecidableEq, Repr

/-- The lines of a part. -/
def EntryPart.lines : EntryPart → List Text
  | .code line appended => [codedLine line appended]
  | .note c indent => c.standalone indent

/-- What is left of a part without its comments. -/
def EntryPart.line? : EntryPart → Option Text
  | .code line _ => some line
  | .note _ _ => none

/-- The comment of a part. -/
def EntryPart.comment? : EntryPart → Option Comment
  | .code _ appended => appended
  | .note c _ => some c

/-- A comment stands behind a line only if it is the first that belongs there to the key of the line. -/
def EntryPart.Fits (comments : List Comment) : EntryPart → Prop
  | .code line (some c) =>
    ∃ name, leadingKey? (trimStart line) = some name ∧ (commentsOf comments name .sameLine).head? = some c
  | _ => True

/-- On the lines of a part stand its line and its comment, white space aside. -/
def EntryPart.Shows (part : EntryPart) : Prop :=
  Lexer.solid part.lines.flatten = Lexer.solid (part.line?.getD []) ++ (part.comment?.map Lexer.written).getD []

theorem shows_code (line : Text) (appended : Option Comment) : (EntryPart.code line appended).Shows := by
  cases appended with
  | none => simp [EntryPart.Shows, EntryPart.lines, EntryPart.line?, EntryPart.comment?, codedLine]
  | some c =>
    have hspace : Lexer.solid (' ' :: c.trailing) = Lexer.written c := Lexer.solid_trailing c
    simp [EntryPart.Shows, EntryPart.lines, EntryPart.line?, EntryPart.comment?, codedLine, Lexer.solid_append, hspace]

theorem shows_note {indent : Text} (hindent : isBlank indent = true) (c : Comment) : (EntryPart.note c indent).Shows :=
  Lexer.solid_standalone hindent c

/-- An entry is put together from parts that hold its lines and the comments. -/
structure PutTogether (comments : List Comment) (parts : List EntryPart) (ls kept : List Text)
    (shown : List Comment) : Prop where
  lines : ls = parts.flatMap (·.lines)
  kept : parts.filterMap (·.line?) = kept
  shown : parts.filterMap (·.comment?) = shown
  fits : ∀ part ∈ parts, part.Fits comments
  shows : ∀ part ∈ parts, part.Shows

theorem PutTogether.append {comments shown shown' : List Comment} {parts parts' : List EntryPart}
    {ls ls' kept kept' : List Text} (h : PutTogether comments parts ls kept shown)
    (h' : PutTogether comments parts' ls' kept' shown') :
    PutTogether comments (parts ++ parts') (ls ++ ls') (kept ++ kept') (shown ++ shown') where
  lines := by rw [h.lines, h'.lines, List.flatMap_append]
  kept := by rw [List.filterMap_append, h.kept, h'.kept]
  shown := by rw [List.filterMap_append, h.shown, h'.shown]
  fits := List.forall_mem_append.2 ⟨h.fits, h'.fits⟩
  shows := List.forall_mem_append.2 ⟨h.shows, h'.shows⟩

theorem putTogether_code (comments : List Comment) (line : Text) :
    PutTogether comments [.code line none] [line] [line] [] where
  lines := rfl
  kept := rfl
  shown := rfl
  fits := by simp [EntryPart.Fits]
  shows := List.forall_mem_singleton.2 (shows_code line none)

theorem putTogether_notes (comments own : List Comment) {indent : Text} (hindent : isBlank indent = true) :
    PutTogether comments (own.map (.note · indent)) (own.flatMap (·.standalone indent)) [] own where
  lines := by
    rw [List.flatMap_map]
    rfl
  kept := by
    rw [List.filterMap_map]
    exact List.filterMap_eq_nil_iff.2 fun _ _ => rfl
  shown := by
    rw [List.filterMap_map]
    exact List.filterMap_some
  fits := by
    intro part hpart
    obtain ⟨c, -, rfl⟩ := List.mem_map.1 hpart
    trivial
  shows := by
    intro part hpart
    obtain ⟨c, -, rfl⟩ := List.mem_map.1 hpart
    exact shows_note hindent c

/-- **The lines of an entry are kept when comments are put among them.** -/
theorem exists_parts_of_restoreLines (comments : List Comment) : ∀ (ls seen : List Text),
    ∃ parts, PutTogether comments parts (restoreLines comments seen ls) ls (restored comments seen ls)
  | [], _ => ⟨[], ⟨rfl, rfl, rfl, by simp, by simp⟩⟩
  | l :: ls, seen => by
    have hbare : ∀ {shown}, (∃ parts, PutTogether comments parts (restoreLines comments seen ls) ls shown) →
        ∃ parts, PutTogether comments parts (l :: restoreLines comments seen ls) (l :: ls) shown := by
      rintro shown ⟨parts, hparts⟩
      exact ⟨_, (putTogether_code comments l).append hparts⟩
    cases hname : leadingKey? (trimStart l) with
    | none =>
      rw [restoreLines_stale _ _ (by simp [hname])]
      simp only [restored, hname]
      exact hbare (exists_parts_of_restoreLines comments ls seen)
    | some name =>
      by_cases hseen : seen.contains name = true
      · rw [restoreLines_stale _ _ (by simpa [hname] using hseen)]
        simp only [restored, hname, hseen]
        exact hbare (exists_parts_of_restoreLines comments ls seen)
      · obtain ⟨parts, hparts⟩ := exists_parts_of_restoreLines comments ls (name :: seen)
        have hown := fun placement =>
          putTogether_notes comments (commentsOf comments name placement)
            (List.all_takeWhile : isBlank (l.takeWhile isBlankChar) = true)
        have hcoded : PutTogether comments [.code l (commentsOf comments name .sameLine).head?]
            [codedLine l (commentsOf comments name .sameLine).head?] [l]
            (commentsOf comments name .sameLine).head?.toList := by
          cases hsame : (commentsOf comments name .sameLine).head? with
          | none => exact putTogether_code comments l
          | some c =>
            exact ⟨rfl, rfl, rfl, List.forall_mem_singleton.2 ⟨name, hname, hsame⟩,
              List.forall_mem_singleton.2 (shows_code l (some c))⟩
        have hall := ((hown .before).append (hcoded.append (hown .after))).append hparts
        rw [restoreLines_fresh comments _ hname hseen]
        simp only [restored, hname, hseen, Bool.false_eq_true, if_false]
        exact ⟨_, by simpa using hall⟩

/-! ## How often a comment is put back -/

/-- The keys with which texts begin. -/
def keysAt (ts : List Text) : List Text :=
  ts.filterMap fun t => leadingKey? (trimStart t)

theorem mem_commentsOf_property {comments : List Comment} {c : Comment} {name : Text} {placement : Placement} :
    c ∈ commentsOf comments name placement ↔ c ∈ comments ∧ c.placement = placement ∧ c.property = some name := by
  simp [commentsOf, Comment.belongsTo]

theorem count_commentsOf (comments : List Comment) (c : Comment) (name : Text) (placement : Placement) :
    (commentsOf comments name placement).count c =
      if c.placement = placement ∧ c.property = some name then comments.count c else 0 := by
  split
  · rename_i h
    exact List.count_filter (by simpa [Comment.belongsTo] using h)
  · rename_i h
    exact List.count_eq_zero.2 fun hc => h (mem_commentsOf_property.1 hc).2

/-- A comment that is put back belongs to a key that is there. -/
theorem key_of_mem_restored {comments : List Comment} {c : Comment} : ∀ {ts seen : List Text},
    c ∈ restored comments seen ts → c ∈ comments ∧ ∃ name ∈ keysAt ts, c.property = some name
  | t :: ts, seen, h => by
    have hlater : ∀ seen, c ∈ restored comments seen ts →
        c ∈ comments ∧ ∃ name ∈ keysAt (t :: ts), c.property = some name := by
      intro seen hc
      obtain ⟨hmem, name, hname, hproperty⟩ := key_of_mem_restored hc
      refine ⟨hmem, name, ?_, hproperty⟩
      simp only [keysAt, List.mem_filterMap] at hname ⊢
      obtain ⟨u, hu, hkey⟩ := hname
      exact ⟨u, List.mem_cons_of_mem _ hu, hkey⟩
    rw [restored] at h
    split at h
    · rename_i name hname
      split at h
      · exact hlater seen h
      · have hown : ∀ placement, c ∈ commentsOf comments name placement →
            c ∈ comments ∧ ∃ name ∈ keysAt (t :: ts), c.property = some name := by
          intro placement hc
          obtain ⟨hmem, -, hproperty⟩ := mem_commentsOf_property.1 hc
          exact ⟨hmem, name, List.mem_filterMap.2 ⟨t, List.mem_cons_self, hname⟩, hproperty⟩
        rcases List.mem_append.1 h with h | h
        · rcases List.mem_append.1 h with h | h
          · rcases List.mem_append.1 h with h | h
            · exact hown .before h
            · exact hown .sameLine (List.mem_of_head? (Option.mem_toList.1 h))
          · exact hown .after h
        · exact hlater _ h
    · exact hlater seen h

/-- **A comment before or after a property that is there is put back as often as it has been taken.** -/
theorem count_restored {comments : List Comment} {c : Comment} {key : Text} (hproperty : c.property = some key)
    (hplacement : c.placement ≠ .sameLine) : ∀ ts seen : List Text, (restored comments seen ts).count c =
      if key ∈ keysAt ts ∧ key ∉ seen then comments.count c else 0
  | [], seen => by simp [restored, keysAt]
  | t :: ts, seen => by
    cases hname : leadingKey? (trimStart t) with
    | none =>
      have hkeys : keysAt (t :: ts) = keysAt ts := List.filterMap_cons_none hname
      simp only [restored, hname, hkeys]
      exact count_restored hproperty hplacement ts seen
    | some name =>
      have hkeys : keysAt (t :: ts) = name :: keysAt ts := List.filterMap_cons_some hname
      rw [hkeys]
      by_cases hseen : seen.contains name = true
      · have hseen' : name ∈ seen := by simpa using hseen
        simp only [restored, hname, hseen, if_true]
        rw [count_restored hproperty hplacement ts seen]
        refine if_congr ?_ rfl rfl
        simp only [List.mem_cons]
        constructor
        · exact fun h => ⟨Or.inr h.1, h.2⟩
        · rintro ⟨rfl | hmem, hnot⟩
          · exact absurd hseen' hnot
          · exact ⟨hmem, hnot⟩
      · have hseen' : name ∉ seen := by simpa using hseen
        have hsame : (commentsOf comments name .sameLine).head?.toList.count c = 0 :=
          List.count_eq_zero.2 fun hc =>
            hplacement (mem_commentsOf_property.1 (List.mem_of_head? (Option.mem_toList.1 hc))).2.1
        simp only [restored, hname, hseen, Bool.false_eq_true, if_false, List.count_append, hsame, count_commentsOf,
          count_restored hproperty hplacement ts (name :: seen), hproperty, List.mem_cons, Option.some.injEq]
        by_cases hkey : key = name
        · subst hkey
          cases hplace : c.placement with
          | before => simp [hseen']
          | after => simp [hseen']
          | sameLine => exact absurd hplace hplacement
        · simp [hkey]

/-! ## Whole entries -/

/-- The lines of the object that stays, as they are laid out between its braces. -/
def remainderText (properties : List Text) (comments : List Comment) (indent : Indentation) : Text :=
  joinLines ((restoreInline properties comments).map (·.render indent.object))

theorem composedText_remainder (reference : Text) (properties : List Text) (comments : List Comment)
    (indent : Indentation) : composedText reference (restoreInline properties comments) indent =
      useOpening reference indent ++ '\n' :: (remainderText properties comments indent ++ '\n' :: indent.array)
        ++ useClosing indent := by
  rw [useOpening, useClosing, remainderText]
  delta composedText
  simp

/-- The lines of the orphans of an entry. -/
def orphanLines (comments : List Comment) : List Text :=
  ((comments.filter (·.isOrphan)).flatMap (·.standalone orphanIndent)).flatMap splitLines

/-- The lines of the properties of an entry. -/
def propertyRows (properties : List Text) : List Text :=
  splitLines (joinLines (properties.map (propertyText entryIndent · none)))

theorem propertyRows_eq {properties : List Text} (hproperties : ∀ p ∈ properties, OneLine p) :
    properties = [] ∧ propertyRows properties = [[]] ∨
      properties ≠ [] ∧ propertyRows properties = properties.map (propertyText entryIndent · none) := by
  by_cases hnil : properties = []
  · subst hnil
    exact Or.inl ⟨rfl, rfl⟩
  · refine Or.inr ⟨hnil, ?_⟩
    have hne : properties.map (propertyText entryIndent · none) ≠ [] := by simpa using hnil
    rw [propertyRows, splitLines_joinLines_eq_flatMap hne, List.flatMap_map]
    have hlines := List.flatMap_congr fun p hp => splitLines_property isIndent_entryIndent (hproperties p hp)
    exact hlines.trans List.map_eq_flatMap.symm

/-- The keys of the lines of an entry are those of its properties. -/
theorem keysAt_propertyRows {properties : List Text} (hproperties : ∀ p ∈ properties, OneLine p) :
    keysAt (propertyRows properties) = keysAt properties := by
  rcases propertyRows_eq hproperties with ⟨rfl, hrows⟩ | ⟨-, hrows⟩
  · rw [hrows]
    rfl
  · rw [hrows, keysAt, List.filterMap_map]
    exact List.filterMap_congr fun p hp => leadingKey?_property isIndent_entryIndent (hproperties p hp)

theorem splitLines_bareEntryText {name : Text} (hname : IsLine name) (properties : List Text) :
    splitLines (bareEntryText name properties) = headerLine name :: (propertyRows properties ++ [closingLine]) :=
  splitLines_bareEntry hname properties

/-- An entry with comments, before its lines are joined. -/
theorem restoreEntry_eq {name : Text} (hname : IsLine name) (properties : List Text) (comments : List Comment) :
    restoreEntry (bareEntryText name properties) comments = joinLines (headerLine name ::
      ((comments.filter (·.isOrphan)).flatMap (·.standalone orphanIndent) ++
        restoreLines comments [] (propertyRows properties) ++ [closingLine])) :=
  restoreEntry_bareEntry hname properties comments

/-- The lines of an entry with comments. -/
theorem splitLines_restoreEntry {name : Text} (hname : IsLine name) (properties : List Text)
    (comments : List Comment) : splitLines (restoreEntry (bareEntryText name properties) comments) =
      headerLine name :: orphanLines comments
        ++ (restoreLines comments [] (propertyRows properties)).flatMap splitLines ++ [closingLine] := by
  rw [restoreEntry_eq hname, splitLines_joinLines_eq_flatMap (List.cons_ne_nil _ _), List.flatMap_cons,
    splitLines_of_isLine (isLine_headerLine hname)]
  simp [orphanLines, splitLines_closingLine]

/-- An entry with comments is put together from its lines without comments, and the comments. -/
theorem exists_parts_of_restoreEntry {name : Text} (hname : IsLine name) (properties : List Text)
    (comments : List Comment) : ∃ parts ls, restoreEntry (bareEntryText name properties) comments = joinLines ls ∧
      PutTogether comments parts ls (splitLines (bareEntryText name properties))
        (comments.filter (·.isOrphan) ++ restored comments [] (propertyRows properties)) := by
  obtain ⟨parts, hparts⟩ := exists_parts_of_restoreLines comments (propertyRows properties) []
  have horphans := putTogether_notes comments (comments.filter (·.isOrphan)) isIndent_orphanIndent.blank
  have hall := ((putTogether_code comments (headerLine name)).append (horphans.append hparts)).append
    (putTogether_code comments closingLine)
  rw [List.append_nil] at hall
  rw [splitLines_bareEntryText hname]
  exact ⟨_, _, restoreEntry_eq hname properties comments, hall⟩

/-- The comments that stand in an entry: each orphan, each comment before or after a property that is there, and no
comment of a property that is not there. -/
theorem count_shown {properties : List Text} (hproperties : ∀ p ∈ properties, OneLine p) (comments : List Comment) :
    (∀ c key, c.property = some key → c.placement ≠ .sameLine → key ∈ keysAt properties →
      (comments.filter (·.isOrphan) ++ restored comments [] (propertyRows properties)).count c = comments.count c) ∧
    ∀ c ∈ comments.filter (·.isOrphan) ++ restored comments [] (propertyRows properties), c ∈ comments ∧
      ∀ key, c.property = some key → key ∈ keysAt properties := by
  constructor
  · intro c key hproperty hplacement hkey
    have horphan : (comments.filter (·.isOrphan)).count c = 0 :=
      List.count_eq_zero.2 fun hc => by simp [Comment.isOrphan, hproperty] at hc
    rw [List.count_append, horphan, count_restored hproperty hplacement, keysAt_propertyRows hproperties]
    simp [hkey]
  · intro c hc
    rcases List.mem_append.1 hc with hc | hc
    · obtain ⟨hmem, horphan⟩ := List.mem_filter.1 hc
      refine ⟨hmem, fun key hproperty => ?_⟩
      simp [Comment.isOrphan, hproperty] at horphan
    · obtain ⟨hmem, name, hname, hproperty⟩ := key_of_mem_restored hc
      rw [keysAt_propertyRows hproperties] at hname
      refine ⟨hmem, fun key hkey => ?_⟩
      rw [hproperty, Option.some.injEq] at hkey
      exact hkey ▸ hname

/-- **Comments stand in an entry as they do at the place of use.** Between the orphans below its header and the line
that closes it, an entry with comments has the lines of the object that stays, but for white space at their ends. What
is left of the entry without its comments is the entry before; each comment before or after a property that is there
stands in it once for each time it has been taken, and no comment of a property that is not there does. Where a comment
stands in it, the lines say what the comment says, white space aside. -/
theorem restoreEntry_agrees {name : Text} (hname : '\n' ∉ name) {properties : List Text}
    (hproperties : ∀ p ∈ properties, '\n' ∉ p ∧ trim p = p) (comments : List Comment) :
    (∃ middle laid, splitLines (restoreEntry (bareEntryText name properties) comments) =
        headerLine name :: orphanLines comments ++ middle ++ [closingLine] ∧
      (∀ reference, composedText reference (restoreInline properties comments) ⟨[]⟩ =
        useOpening reference ⟨[]⟩ ++ '\n' :: (laid ++ "\n\t".toList) ++ useClosing ⟨[]⟩) ∧
      middle.map trimEnd = (splitLines laid).map trimEnd) ∧
    ∃ parts : List EntryPart,
      restoreEntry (bareEntryText name properties) comments = joinLines (parts.flatMap (·.lines)) ∧
      joinLines (parts.filterMap (·.line?)) = bareEntryText name properties ∧
      (∀ c key, c.property = some key → c.placement ≠ .sameLine → key ∈ keysAt properties →
        (parts.filterMap (·.comment?)).count c = comments.count c) ∧
      (∀ c ∈ parts.filterMap (·.comment?), c ∈ comments ∧ ∀ key, c.property = some key → key ∈ keysAt properties) ∧
      ∀ part ∈ parts, part.Fits comments ∧ part.Shows := by
  have hlines : ∀ p ∈ properties, OneLine p := fun p hp => ⟨(hproperties p hp).1, (hproperties p hp).2⟩
  constructor
  · refine ⟨_, remainderText properties comments ⟨[]⟩, splitLines_restoreEntry hname properties comments,
      fun reference => composedText_remainder reference properties comments ⟨[]⟩, ?_⟩
    rcases propertyRows_eq hlines with ⟨rfl, hrows⟩ | ⟨hne, hrows⟩
    · rw [hrows]
      rfl
    · have hinline : (restoreInline properties comments).map (·.render entryIndent) ≠ [] := by
        intro hnil
        have hnone : restoreInline properties comments = [] := List.map_eq_nil_iff.1 hnil
        obtain ⟨p, ps, rfl⟩ := List.exists_cons_of_ne_nil hne
        simp only [restoreInline, restoreProperties] at hnone
        split at hnone
        · split at hnone <;> simp at hnone
        · simp at hnone
      rw [hrows, remainderText, show Indentation.object ⟨[]⟩ = entryIndent from rfl,
        splitLines_joinLines_eq_flatMap hinline]
      exact sameLines_restoreLines isIndent_entryIndent comments [] hlines
  · obtain ⟨parts, ls, hentry, hparts⟩ := exists_parts_of_restoreEntry hname properties comments
    obtain ⟨hcount, hshown⟩ := count_shown hlines comments
    refine ⟨parts, by rw [hentry, hparts.lines], ?_, ?_, ?_, fun part hpart =>
      ⟨hparts.fits part hpart, hparts.shows part hpart⟩⟩
    · rw [hparts.kept]
      exact joinLines_splitLines _
    · rw [hparts.shown]
      exact hcount
    · rw [hparts.shown]
      exact hshown

/-- A block before a property that is there twice. -/
def growsComment : Comment :=
  ⟨.block, " grows\n\n   and shrinks ".toList, 1, 1, some (3, 17), some "flex".toList, .before⟩

/-- A comment of a property that is not there. -/
def elsewhereComment : Comment :=
  ⟨.line, "elsewhere".toList, 5, 1, none, some "width".toList, .after⟩

/-- These, and a comment behind the property. -/
def flexComments : List Comment :=
  [growsComment, ⟨.line, "all of it".toList, 4, 10, none, some "flex".toList, .sameLine⟩, elsewhereComment]

/-- The block is put back once, with what it says, and the comment of the other property is not. -/
theorem restoreEntry_agrees_flexComments :
    '\n' ∉ "box".toList ∧ (∀ p ∈ ["flex: 1".toList, "flex: 2".toList], '\n' ∉ p ∧ trim p = p) ∧
    (∃ middle laid, splitLines (restoreEntry (bareEntryText "box".toList ["flex: 1".toList, "flex: 2".toList])
        flexComments) = headerLine "box".toList :: orphanLines flexComments ++ middle ++ [closingLine] ∧
      (∀ reference, composedText reference (restoreInline ["flex: 1".toList, "flex: 2".toList] flexComments) ⟨[]⟩ =
        useOpening reference ⟨[]⟩ ++ '\n' :: (laid ++ "\n\t".toList) ++ useClosing ⟨[]⟩) ∧
      middle.map trimEnd = (splitLines laid).map trimEnd) ∧
    ∃ parts : List EntryPart,
      restoreEntry (bareEntryText "box".toList ["flex: 1".toList, "flex: 2".toList]) flexComments =
        joinLines (parts.flatMap (·.lines)) ∧
      joinLines (parts.filterMap (·.line?)) = bareEntryText "box".toList ["flex: 1".toList, "flex: 2".toList] ∧
      (parts.filterMap (·.comment?)).count growsComment = 1 ∧ elsewhereComment ∉ parts.filterMap (·.comment?) ∧
      ∀ part ∈ parts, part.Fits flexComments ∧ part.Shows := by
  have hname : '\n' ∉ "box".toList := by decide
  have hproperties : ∀ p ∈ ["flex: 1".toList, "flex: 2".toList], '\n' ∉ p ∧ trim p = p := by decide
  obtain ⟨hlines, parts, hentry, hkept, hcount, hshown, hfits⟩ := restoreEntry_agrees hname hproperties flexComments
  refine ⟨hname, hproperties, hlines, parts, hentry, hkept, ?_, fun helsewhere => ?_, hfits⟩
  · rw [hcount growsComment "flex".toList rfl (by decide) (by decide)]
    decide
  · exact absurd ((hshown elsewhereComment helsewhere).2 "width".toList rfl) (by decide)

end StyleHoist
