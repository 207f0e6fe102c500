import StyleHoist.Proofs.Extraction.Comments

/-!
# Comments keep their properties

Comments that are put back into an entry are found again at the properties that they were put at. Above a property there
are only lines that are passed over when the property of a comment is looked for, and behind a property its key is found
first.

- `reads_standalones`, `reads_coded`: so it is for the comments above a property and for the one behind it.
- `reads_restoreLines`: so it is for all properties of an entry, one after the other.
- `stripComments_innerText`: the round trip of the lines between the braces.
-/

namespace StyleHoist

open Text Listing

/-- How a comment is read: its kind, its property, where it stands, and its lines without the blanks around them. -/
def Comment.reading (c : Comment) : CommentKind × Option Text × Placement × List Text :=
  (c.kind, c.property, c.placement, (splitLines c.text).map trim)

theorem Comment.reading_eq {c d : Comment} (hkind : d.remark.1 = c.kind) (hproperty : d.property = c.property)
    (hplacement : d.placement = c.placement) (htext : (splitLines d.remark.2).map trim = (splitLines c.text).map trim) :
    d.reading = c.reading :=
  Prod.ext hkind (Prod.ext hproperty (Prod.ext hplacement htext))

theorem Remark.plain_fst (r : Remark) : r.plain.1 = r.1 := by
  obtain ⟨kind, t⟩ := r
  cases kind <;> rfl

/-! ## The nearest key -/

/-- A line that is only a comment is passed over. -/
theorem isSkippable_of_ends {s e : Text} {r : Remark} (hs : isBlank s = true) (he : Ends e r) :
    isSkippable (trim (s ++ e)) = true := by
  have htrim : ∀ (c : Char) (t : Text), isBlankChar c = false → trim ('/' :: c :: t) = '/' :: c :: trimEnd t := by
    intro c t hc
    rw [trim, show trimStart ('/' :: c :: t) = '/' :: c :: t from rfl]
    exact trimEnd_append_cons ['/'] hc t
  rw [trim_blank_append hs]
  cases he with
  | @line t _ =>
    rw [show CommentKind.line.marker ++ t = '/' :: '/' :: t from rfl, htrim '/' t (by decide)]
    rfl
  | @block t _ _ =>
    rw [show CommentKind.block.marker ++ (t ++ blockClose) = '/' :: '*' :: (t ++ blockClose) from rfl,
      htrim '*' _ (by decide)]
    rfl

theorem Holds.nearestKey? {ls : List Text} {r : Remark} (h : Holds ls r) (hlength : ls.length = 1)
    (behind : List Text) : nearestKey? (ls ++ behind) = StyleHoist.nearestKey? behind := by
  cases h with
  | short hs he => exact nearestKey?_of_isSkippable (isSkippable_of_ends hs.blank he) behind
  | long hs hlines => simp at hlength

theorem HasKey.isSkippable {t name : Text} (h : HasKey t name) : isSkippable t = false := by
  obtain ⟨gap, rest, rfl, -, -⟩ := h.eq
  obtain ⟨c, cs, hname⟩ := List.exists_cons_of_ne_nil h.ne_nil
  have hc : isWordChar c = true := by
    have hword := h.word
    rw [hname, List.all_cons, Bool.and_eq_true] at hword
    exact hword.1
  have hslash : '/' ≠ c := (isWordChar_ne hc (by decide)).symm
  simp [StyleHoist.isSkippable, hname, beginsWith, dropPart?, hslash]

/-- A line of a property keeps its key, whatever stands behind it. -/
theorem hasKey_trim_append {l name : Text} (hline : IsLine l) (h : leadingKey? (trimStart l) = some name) (t : Text) :
    HasKey (trim (l ++ t)) name := by
  obtain ⟨gap, rest, heq, hne, hword, hblank⟩ := eq_of_leadingKey? h
  have hgap : IsLine gap := fun hm => hline ((infix_trimStart l).subset (by rw [heq]; simp [hm]))
  have hkey : HasKey (trimStart l) name := ⟨⟨gap, rest, by rw [heq, List.append_assoc], hblank, hgap⟩, hne, hword⟩
  have hmargin : trimStart (l ++ t) = trimStart l ++ t := by
    conv => lhs; rw [← takeWhile_append_trimStart l, List.append_assoc]
    exact (hkey.append t).trimStart_append List.all_takeWhile
  rw [trim, hmargin]
  exact (hkey.append t).dropEndWhile (by decide)

theorem nearestKey?_of_leadingKey? {l name : Text} (hline : IsLine l) (h : leadingKey? (trimStart l) = some name)
    (t : Text) (ls : List Text) : nearestKey? ((l ++ t) :: ls) = some name := by
  have hkey := hasKey_trim_append hline h t
  rw [nearestKey?, List.map_cons, List.dropWhile_cons_of_neg (by simp [hkey.isSkippable])]
  exact hkey.leadingKey?

/-! ## What a scan reads -/

/-- From one line to another a scan keeps these lines and finds comments that are read like these. -/
def Reads (lines : List Text) (n m : Nat) (kept : List Text) (comments : List Comment) : Prop :=
  ∃ found : List Comment, found.map Comment.reading = comments.map Comment.reading ∧
    stripLines lines n false = (kept ++ (stripLines lines m false).1, found ++ (stripLines lines m false).2)

theorem Reads.refl (lines : List Text) (n : Nat) : Reads lines n n [] [] :=
  ⟨[], rfl, rfl⟩

theorem Reads.trans {lines kept kept' : List Text} {n m k : Nat} {comments comments' : List Comment}
    (h : Reads lines n m kept comments) (h' : Reads lines m k kept' comments') :
    Reads lines n k (kept ++ kept') (comments ++ comments') := by
  obtain ⟨found, hfound, hstrip⟩ := h
  obtain ⟨found', hfound', hstrip'⟩ := h'
  refine ⟨found ++ found', by rw [List.map_append, List.map_append, hfound, hfound'], ?_⟩
  rw [hstrip, hstrip', List.append_assoc, List.append_assoc]

/-- A comment that fits on one line takes one. -/
theorem length_standalone {c : Comment} (h : c.isMultiLine = false) (indent : Text) :
    (c.standalone indent).length = 1 := by
  cases hkind : c.kind <;> simp [Comment.standalone, hkind, h]

/-- A comment on lines of its own holds its remark, but for the indentation of the lines in it. -/
theorem exists_holds_standalone {indent : Text} (hindent : IsIndent indent) {c : Comment} (hc : IsTaken c) :
    ∃ r : Remark, Holds (c.standalone indent) r ∧ r.plain = c.remark.plain ∧
      (splitLines r.2).map trim = (splitLines c.text).map trim := by
  simpa using holds_standalone isIndent_nil hindent hc

/-- Comments on single lines are passed over on the way to the next key. -/
theorem nearestKey?_standalones {behind : List Text} {indent : Text} (hindent : IsIndent indent) : ∀ {cs : List Comment},
    (∀ c ∈ cs, IsTaken c) → (∀ c ∈ cs, c.isMultiLine = false) →
      nearestKey? (cs.flatMap (·.standalone indent) ++ behind) = nearestKey? behind
  | [], _, _ => rfl
  | c :: cs, htaken, hsingle => by
    obtain ⟨hc, hcs⟩ := List.forall_mem_cons.1 htaken
    obtain ⟨hcsingle, hcssingle⟩ := List.forall_mem_cons.1 hsingle
    obtain ⟨r, hr, -⟩ := exists_holds_standalone hindent hc
    rw [List.flatMap_cons, List.append_assoc, hr.nearestKey? (length_standalone hcsingle indent)]
    exact nearestKey?_standalones hindent hcs hcssingle

/-- Comments above a property belong to it. Each is followed by comments on single lines up to the property. -/
theorem reads_standalones {lines behind : List Text} {indent name : Text} (hindent : IsIndent indent)
    (hbehind : nearestKey? behind = some name) : ∀ {cs : List Comment} {n : Nat}, (∀ c ∈ cs, IsTaken c) →
      (∀ c ∈ cs, c.belongsTo name .before = true) → (∀ c ∈ cs.tail, c.isMultiLine = false) →
        lines.drop n = cs.flatMap (·.standalone indent) ++ behind →
          Reads lines n (n + (cs.flatMap (·.standalone indent)).length) [] cs
  | [], n, _, _, _, _ => Reads.refl lines n
  | c :: cs, n, htaken, hown, hsingle, hlines => by
    obtain ⟨hc, hcs⟩ := List.forall_mem_cons.1 htaken
    obtain ⟨hbelongs, howns⟩ := List.forall_mem_cons.1 hown
    obtain ⟨hplacement, hproperty⟩ : c.placement = .before ∧ c.property = some name := by
      simpa [Comment.belongsTo] using hbelongs
    obtain ⟨r, hr, hplain, htext⟩ := exists_holds_standalone hindent hc
    rw [List.flatMap_cons, List.append_assoc] at hlines
    obtain ⟨d, rfl, hplace, hstrip⟩ := hr.strip hlines
    obtain ⟨hdproperty, hdplacement⟩ := hplace name ((nearestKey?_standalones hindent hcs hsingle).trans hbehind)
    have hkind : d.remark.1 = c.kind := by
      rw [← Remark.plain_fst, hplain, Remark.plain_fst]
      rfl
    have hread : Reads lines n (n + (c.standalone indent).length) [] [c] := by
      refine ⟨[d], ?_, hstrip⟩
      rw [List.map_singleton, List.map_singleton,
        Comment.reading_eq hkind (hdproperty.trans hproperty.symm) (hdplacement.trans hplacement.symm) htext]
    have hdrop : lines.drop (n + (c.standalone indent).length) = cs.flatMap (·.standalone indent) ++ behind := by
      rw [← List.drop_drop, hlines, List.drop_left]
    have hrest := reads_standalones hindent hbehind hcs howns
      (fun e he => hsingle e (List.mem_of_mem_tail he)) hdrop
    have hall := hread.trans hrest
    rw [List.flatMap_cons, List.length_append, ← Nat.add_assoc]
    exact hall

/-- A property on its line is kept. -/
theorem reads_bare {lines : List Text} {n : Nat} {l : Text} (hl : TrimmedCodeLine l) (hlines : lines[n]? = some l) :
    Reads lines n (n + 1) [l] [] :=
  ⟨[], rfl, by rw [stripLines_of_some hlines]; exact strip_clear hl.code.clear⟩

/-- A comment behind a property belongs to it. -/
theorem reads_coded {lines : List Text} {n : Nat} {l name : Text} (hl : TrimmedCodeLine l)
    (hkey : leadingKey? (trimStart l) = some name) {c : Comment} (hc : IsTaken c) (hsingle : c.isMultiLine = false)
    (hown : c.belongsTo name .sameLine = true) (hlines : lines[n]? = some (l ++ ' ' :: c.trailing)) :
    Reads lines n (n + 1) [l] [c] := by
  obtain ⟨hplacement, hproperty⟩ : c.placement = .sameLine ∧ c.property = some name := by
    simpa [Comment.belongsTo] using hown
  obtain ⟨r, hends, hplain, htext⟩ := ends_trailing hc
  have hsplit : l ++ ' ' :: c.trailing = l ++ [' '] ++ c.trailing := by simp
  rw [hsplit] at hlines
  obtain ⟨d, rfl, hplace, hstrip⟩ :=
    hends.strip hlines (findMarker_behind (b := false) hl.code.clear hl.code.closed)
  have hassociate : associate lines (l ++ [' ']) n n false = (some name, .sameLine) := by
    rw [associate, (hasKey_trim_append hl.line hkey [' ']).leadingKey?]
  rw [hassociate] at hplace
  rw [keepCode_concat_space (not_isBlank_of_leadingKey? hkey), hl.trimmed] at hstrip
  have hkind : d.remark.1 = c.kind := by
    rw [← Remark.plain_fst, hplain, Remark.plain_fst]
    rfl
  have hline := hc.isLine_text hsingle
  have hsame : (splitLines d.remark.2).map trim = (splitLines c.text).map trim := by
    rw [htext, splitLines_of_isLine hline, squeezed_of_isLine hline]
    rfl
  refine ⟨[d], ?_, hstrip⟩
  rw [List.map_singleton, List.map_singleton, Comment.reading_eq hkind ((congrArg Prod.fst hplace).trans hproperty.symm)
    ((congrArg Prod.snd hplace).trans hplacement.symm) hsame]

/-! ## Entries -/

/-- Comments as they may be attached to properties on single lines: as they are taken out, before a property or on its
line, where there is at most one. Only the first one before a property may span lines. -/
structure Attached (keys : List Text) (comments : List Comment) : Prop where
  taken : ∀ c ∈ comments, IsTaken c
  owned : ∀ c ∈ comments, ∃ key ∈ keys, c.property = some key
  placed : ∀ c ∈ comments, c.placement = .before ∨ c.placement = .sameLine
  beside : ∀ key ∈ keys, (commentsOf comments key .sameLine).length ≤ 1
  single : ∀ c ∈ comments, c.placement = .sameLine → c.isMultiLine = false
  above : ∀ key ∈ keys, ∀ c ∈ (commentsOf comments key .before).tail, c.isMultiLine = false

/-- The comments of a property, in the order in which they are put back. -/
def around (comments : List Comment) (key : Text) : List Comment :=
  commentsOf comments key .before ++ commentsOf comments key .sameLine

section

variable {keys : List Text} {comments : List Comment} (hcomments : Attached keys comments)

include hcomments

theorem Attached.commentsOf_after (key : Text) : commentsOf comments key .after = [] := by
  refine List.filter_eq_nil_iff.2 fun c hc hbelongs => ?_
  simp only [Comment.belongsTo, Bool.and_eq_true, beq_iff_eq] at hbelongs
  rcases hcomments.placed c hc with hplaced | hplaced <;> simp [hplaced] at hbelongs

theorem Attached.orphans : comments.filter (·.isOrphan) = [] := by
  refine List.filter_eq_nil_iff.2 fun c hc horphan => ?_
  obtain ⟨key, -, hkey⟩ := hcomments.owned c hc
  simp [Comment.isOrphan, hkey] at horphan

/-- A property with the comments around it. -/
theorem Attached.reads_group {lines behind : List Text} {n : Nat} {l key : Text} (hl : TrimmedCodeLine l)
    (hkey : leadingKey? (trimStart l) = some key) (hmem : key ∈ keys) {coded : Text}
    (hcoded : coded = match commentsOf comments key .sameLine with
      | c :: _ => l ++ ' ' :: c.trailing
      | [] => l)
    (hlines : lines.drop n = (commentsOf comments key .before).flatMap (·.standalone (l.takeWhile isBlankChar)) ++
      coded :: behind) :
    Reads lines n
      (n + ((commentsOf comments key .before).flatMap (·.standalone (l.takeWhile isBlankChar))).length + 1) [l]
      (around comments key) := by
  have hindent : IsIndent (l.takeWhile isBlankChar) :=
    ⟨List.all_takeWhile, fun hm => hl.line ((List.takeWhile_prefix _).subset hm)⟩
  have hown : ∀ {placement : Placement}, ∀ c ∈ commentsOf comments key placement, c.belongsTo key placement = true :=
    fun c hc => (List.mem_filter.1 hc).2
  have htaken : ∀ {placement : Placement}, ∀ c ∈ commentsOf comments key placement, IsTaken c :=
    fun c hc => hcomments.taken c (List.mem_filter.1 hc).1
  obtain ⟨t, ht⟩ : ∃ t, coded = l ++ t := by
    rw [hcoded]
    split
    · exact ⟨_, rfl⟩
    · exact ⟨[], (List.append_nil l).symm⟩
  have hnearest : nearestKey? (coded :: behind) = some key := ht ▸ nearestKey?_of_leadingKey? hl.line hkey t behind
  have habove := reads_standalones hindent hnearest htaken hown (hcomments.above key hmem) hlines
  refine habove.trans ?_
  have hcodedLine : lines[n + ((commentsOf comments key .before).flatMap
      (·.standalone (l.takeWhile isBlankChar))).length]? = some coded := by
    rw [← List.getElem?_drop, hlines, List.getElem?_append_right (Nat.le_refl _), Nat.sub_self]
    rfl
  cases hsame : commentsOf comments key .sameLine with
  | nil =>
    rw [hsame] at hcoded
    subst hcoded
    exact reads_bare hl hcodedLine
  | cons c cs =>
    have hc : c ∈ commentsOf comments key .sameLine := hsame ▸ List.mem_cons_self
    obtain rfl : cs = [] := by
      have hone := hcomments.beside key hmem
      rw [hsame, List.length_cons] at hone
      exact List.eq_nil_of_length_eq_zero (by omega)
    rw [hsame] at hcoded
    subst hcoded
    have hplaced : c.placement = .sameLine := by
      have h := hown c hc
      simp only [Comment.belongsTo, Bool.and_eq_true, beq_iff_eq] at h
      exact h.1
    exact reads_coded hl hkey (htaken c hc) (hcomments.single c (List.mem_filter.1 hc).1 hplaced) (hown c hc) hcodedLine

/-- **Comments that are put among the properties of an entry are read back at the properties that they are put at.** -/
theorem Attached.reads_restoreLines {lines : List Text} : ∀ {ls ks seen : List Text} {n : Nat},
    (∀ l ∈ ls, TrimmedCodeLine l) → ls.map (fun l => leadingKey? (trimStart l)) = ks.map some → ks.Nodup →
      (∀ key ∈ ks, key ∈ keys ∧ key ∉ seen) → lines.drop n = restoreLines comments seen ls →
        Reads lines n (n + (restoreLines comments seen ls).length) ls (ks.flatMap (around comments))
  | [], [], seen, n, _, _, _, _, _ => Reads.refl lines n
  | [], _ :: _, _, _, _, hks, _, _, _ => by cases hks
  | _ :: _, [], _, _, _, hks, _, _, _ => by cases hks
  | l :: ls, key :: ks, seen, n, hls, hks, hnodup, hkeys, hlines => by
    obtain ⟨hl, hls⟩ := List.forall_mem_cons.1 hls
    obtain ⟨hkey, hks⟩ := List.cons.inj hks
    obtain ⟨hnot, hnodup⟩ := List.nodup_cons.1 hnodup
    obtain ⟨⟨hmem, hseen⟩, hkeys⟩ := List.forall_mem_cons.1 hkeys
    have hrestore : ∃ coded, coded = (match commentsOf comments key .sameLine with
        | c :: _ => l ++ ' ' :: c.trailing
        | [] => l) ∧ restoreLines comments seen (l :: ls) =
          (commentsOf comments key .before).flatMap (·.standalone (l.takeWhile isBlankChar)) ++
            coded :: restoreLines comments (key :: seen) ls := by
      refine ⟨_, rfl, ?_⟩
      have hline : leadingKey? (trimStart l) = some key := hkey
      have hcontains : seen.contains key = false := by simpa using hseen
      simp only [restoreLines, hline, hcontains, hcomments.commentsOf_after key, Bool.false_eq_true, if_false,
        List.flatMap_nil]
      rw [List.append_assoc]
      rfl
    obtain ⟨coded, hcoded, hrestore⟩ := hrestore
    rw [hrestore] at hlines
    have hgroup := hcomments.reads_group hl hkey hmem hcoded hlines
    have hdrop : lines.drop (n + ((commentsOf comments key .before).flatMap
        (·.standalone (l.takeWhile isBlankChar))).length + 1) = restoreLines comments (key :: seen) ls := by
      rw [Nat.add_assoc, ← List.drop_drop, hlines, ← List.drop_drop, List.drop_left]
      rfl
    have hfresh : ∀ k ∈ ks, k ∈ keys ∧ k ∉ key :: seen := fun k hk =>
      ⟨(hkeys k hk).1, fun hm => (List.mem_cons.1 hm).elim (fun heq => hnot (heq ▸ hk)) (hkeys k hk).2⟩
    have hrest := Attached.reads_restoreLines hls hks hnodup hfresh hdrop
    have hall := hgroup.trans hrest
    rw [hrestore, List.length_append, List.length_cons]
    have hlength : ∀ a b c : Nat, a + (b + (c + 1)) = a + b + 1 + c := fun a b c => by omega
    rw [hlength]
    exact hall

end

/-! ## The round trip -/

theorem collapseBlank_of_solid : ∀ {ls : List Text} (b : Bool), (∀ l ∈ ls, isBlank l = false) → collapseBlank b ls = ls
  | [], _, _ => rfl
  | l :: ls, b, h => by
    obtain ⟨hl, hls⟩ := List.forall_mem_cons.1 h
    rw [collapseBlank, hl, Bool.and_false, if_neg Bool.false_ne_true, collapseBlank_of_solid false hls]

/-- Lines that are not blank stay as they are. -/
theorem tidy_of_solid {ls : List Text} (h : ∀ l ∈ ls, isBlank l = false) : tidy ls = joinLines ls := by
  rw [tidy, collapseBlank_of_solid true h]
  cases hrev : ls.reverse with
  | nil => rw [List.reverse_eq_nil_iff.1 hrev]; rfl
  | cons l ks =>
    have hl : isBlank l = false := h l (List.mem_reverse.1 (hrev ▸ List.mem_cons_self))
    rw [List.dropWhile_cons_of_neg (by simp [hl]), ← hrev, List.reverse_reverse]

/-- A property on a single line of code, which begins with its key: a word as keys are read, and a colon. -/
structure LineProperty where
  key : Text
  code : Text
  isLine : IsLine code
  keyed : leadingKey? code = some key
  plain : CodeLine code

namespace LineProperty

variable (p : LineProperty)

/-- The line of a property in an entry. -/
def entryLine : Text :=
  propertyText entryIndent p.code none

theorem hasKey : HasKey p.code p.key := by
  refine hasKey_of_keyOnLine ?_ p.keyed
  have hall : p.code.takeWhile (· != '\n') = p.code :=
    List.takeWhile_eq_self_iff.2 fun c hc => bne_iff_ne.2 fun heq => p.isLine (heq ▸ hc)
  rw [KeyOnLine, hall]

theorem entryLine_eq : p.entryLine = trimEnd (entryIndent ++ p.code) ++ [','] := by
  have hcomma := getsComma_of_leadingKey? (p.hasKey.trimStart.symm ▸ p.keyed)
  obtain ⟨ls, last, hlines, htext, -⟩ := propertyText_of_getsComma entryIndent hcomma
  rw [splitLines_of_isLine p.isLine] at hlines
  obtain ⟨rfl, hlast⟩ : ls = [] ∧ p.code = last := by
    cases ls with
    | nil => exact ⟨rfl, List.head_eq_of_cons_eq hlines⟩
    | cons l ls => simp at hlines
  rw [entryLine, htext, hlast]
  rfl

theorem propertyLines_eq : propertyLines entryIndent p.code = [p.entryLine] := by
  have hindent : IsLine entryIndent := by decide
  have hline : IsLine p.entryLine := by
    rw [entryLine_eq]
    exact (isLine_trimEnd (hindent.append p.isLine)).append (by decide)
  exact splitLines_of_isLine hline

theorem leadingKey?_entryLine : leadingKey? (trimStart p.entryLine) = some p.key := by
  rw [entryLine_eq]
  exact p.hasKey.written (by decide) [',']

theorem trimmedCodeLine : TrimmedCodeLine p.entryLine := by
  have hcode : InCodeLines p.code := by
    rw [InCodeLines, splitLines_of_isLine p.isLine]
    exact List.forall_mem_singleton.2 p.plain
  refine trimmedCodeLine_propertyLines isIndent_entryIndent hcode _ ?_
  rw [propertyLines_eq]
  exact List.mem_singleton_self _

end LineProperty

theorem bareLines_eq (ps : List LineProperty) : bareLines entryIndent (ps.map (·.code)) = ps.map (·.entryLine) := by
  induction ps with
  | nil => rfl
  | cons p ps ih =>
    rw [List.map_cons, bareLines, List.flatMap_cons, ← bareLines, ih, p.propertyLines_eq]
    rfl

/-- The lines of an entry between the one with its name and the one that closes it. -/
def innerText (entry : Text) : Text :=
  joinLines (splitLines entry).tail.dropLast

theorem restoreLines_cons_ne_nil (comments : List Comment) (seen : List Text) (l : Text) (ls : List Text) :
    restoreLines comments seen (l :: ls) ≠ [] := by
  simp only [restoreLines]
  split
  · split <;> simp
  · simp

/-- What stands between the braces of an entry with comments that are attached to its properties. -/
theorem innerText_restoreEntry {name : Text} (hname : IsLine name) {ps : List LineProperty} (hne : ps ≠ [])
    {comments : List Comment} (hcomments : Attached (ps.map (·.key)) comments) :
    splitLines (innerText (restoreEntry (bareEntryText name (ps.map (·.code))) comments)) =
      restoreLines comments [] (ps.map (·.entryLine)) := by
  have hlines : ∀ l ∈ restoreLines comments [] (ps.map (·.entryLine)), IsLine l := by
    refine (yields_restoreLines hcomments.taken [] fun l hl => ?_).lines
    obtain ⟨p, -, rfl⟩ := List.mem_map.1 hl
    exact p.trimmedCodeLine
  have hsome : restoreLines comments [] (ps.map (·.entryLine)) ≠ [] := by
    obtain ⟨p, ps, rfl⟩ := List.exists_cons_of_ne_nil hne
    exact restoreLines_cons_ne_nil comments [] _ _
  have hsplit : splitLines (restoreEntry (bareEntryText name (ps.map (·.code))) comments) =
      headerLine name :: (restoreLines comments [] (ps.map (·.entryLine)) ++ [closingLine]) := by
    rw [restoreEntry_bareEntryText hname (by simpa using hne), entryLines, hcomments.orphans, bareLines_eq,
      List.flatMap_nil, List.nil_append, ← joinLines_concat, ← joinLines_cons (by simp)]
    refine splitLines_joinLines (by simp) (List.forall_mem_cons.2 ⟨isLine_headerLine hname, ?_⟩)
    exact List.forall_mem_append.2 ⟨hlines, List.forall_mem_singleton.2 (by decide)⟩
  rw [innerText, hsplit, List.tail_cons, List.dropLast_concat]
  exact splitLines_joinLines hsome hlines

/-- **Comments that are attached to the properties of an entry are read back with the same association.** -/
theorem stripComments_innerText {name : Text} (hname : IsLine name) {ps : List LineProperty}
    (hkeys : (ps.map (·.key)).Nodup) {comments : List Comment} (hcomments : Attached (ps.map (·.key)) comments) :
    (stripComments (innerText (restoreEntry (bareEntryText name (ps.map (·.code))) comments))).cleaned =
        joinLines (ps.map (·.entryLine)) ∧
      (stripComments (innerText (restoreEntry (bareEntryText name (ps.map (·.code))) comments))).comments.map
        Comment.reading = (ps.flatMap fun p => around comments p.key).map Comment.reading := by
  by_cases hne : ps = []
  · subst hne
    obtain rfl : comments = [] := by
      refine List.eq_nil_iff_forall_not_mem.2 fun c hc => ?_
      obtain ⟨key, hkey, -⟩ := hcomments.owned c hc
      cases hkey
    have hinner : innerText (restoreEntry (bareEntryText name []) []) = [] := by
      rw [restoreEntry_nil, innerText, bareEntryText_eq, splitLines_append_newline,
        splitLines_of_isLine (isLine_headerLine hname)]
      rfl
    rw [List.map_nil, hinner]
    exact ⟨rfl, rfl⟩
  · have hlines : ∀ l ∈ ps.map (·.entryLine), TrimmedCodeLine l := by
      intro l hl
      obtain ⟨p, -, rfl⟩ := List.mem_map.1 hl
      exact p.trimmedCodeLine
    have hkeysOf : (ps.map (·.entryLine)).map (fun l => leadingKey? (trimStart l)) = (ps.map (·.key)).map some := by
      rw [List.map_map, List.map_map]
      exact List.map_congr_left fun p _ => p.leadingKey?_entryLine
    have hsolid : ∀ l ∈ ps.map (·.entryLine), isBlank l = false := by
      intro l hl
      obtain ⟨p, -, rfl⟩ := List.mem_map.1 hl
      exact not_isBlank_of_leadingKey? p.leadingKey?_entryLine
    obtain ⟨found, hfound, hstrip⟩ := hcomments.reads_restoreLines hlines hkeysOf hkeys
      (fun key hkey => ⟨hkey, List.not_mem_nil⟩)
      (List.drop_zero (l := restoreLines comments [] (ps.map (·.entryLine))))
    have hend : stripLines (restoreLines comments [] (ps.map (·.entryLine)))
        (0 + (restoreLines comments [] (ps.map (·.entryLine))).length) false = ([], []) := by
      rw [stripLines, Nat.zero_add, List.getElem?_eq_none (Nat.le_refl _)]
    rw [hend, List.append_nil, List.append_nil] at hstrip
    rw [stripComments_eq, innerText_restoreEntry hname hne hcomments, hstrip, tidy_of_solid hsolid]
    refine ⟨rfl, ?_⟩
    rw [hfound, List.flatMap_map]

/-- Two properties of an entry. -/
def boxProperties : List LineProperty :=
  [⟨"color".toList, "color: 'red'".toList, by decide, by decide +kernel, by decide +kernel⟩,
    ⟨"padding".toList, "padding : 10".toList, by decide, by decide +kernel, by decide +kernel⟩]

/-- A block over several lines and a line comment before a property, and one comment on the line of each. -/
def boxComments : List Comment :=
  (stripComments
    "/**\n * Spacing\n */\n// in points\npadding : 10, // rest\ncolor: 'red' /* brand */".toList).comments

/-- The comments are read back in the order of the properties. -/
theorem stripComments_innerText_box : IsLine "box".toList ∧ (boxProperties.map (·.key)).Nodup ∧
    Attached (boxProperties.map (·.key)) boxComments ∧
    (stripComments (innerText (restoreEntry (bareEntryText "box".toList (boxProperties.map (·.code)))
      boxComments))).comments.map Comment.reading =
        [3, 0, 1, 2].filterMap fun n => (boxComments[n]?).map Comment.reading := by
  have hname : IsLine "box".toList := by decide
  have hkeys : (boxProperties.map (·.key)).Nodup := by decide
  have hattached : Attached (boxProperties.map (·.key)) boxComments := {
    taken := fun _ hc => isTaken_of_mem_stripComments hc
    owned := by decide +kernel
    placed := by decide +kernel
    beside := by decide +kernel
    single := by decide +kernel
    above := by decide +kernel }
  refine ⟨hname, hkeys, hattached, ?_⟩
  rw [(stripComments_innerText hname hkeys hattached).2]
  decide +kernel

end StyleHoist
