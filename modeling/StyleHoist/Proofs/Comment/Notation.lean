import StyleHoist.Proofs.Comment.Outline

/-!
# Comments as they are written

A comment is written to the end of a line (`Ends`), or on lines of its own (`Holds`). However it is written, a scan finds
it there and goes on behind it (`Ends.strip`, `Holds.strip`), and it says what the comment said that was put back, but
for the layout of a block (`ends_trailing`, `holds_standalone`).
-/

namespace StyleHoist

open Text Listing

/-! ## What comments say -/

/-- A text on one line: the lines of its outline with spaces between them. -/
def squeezed (t : Text) : Text :=
  joinWith [' '] (outline t)

/-- What a comment says but for the layout of a block. -/
def Remark.plain : Remark → Remark
  | (.line, t) => (.line, t)
  | (.block, t) => (.block, squeezed t)

theorem squeezed_of_isLine {t : Text} (h : IsLine t) : squeezed t = trim t := by
  rw [squeezed, outline, splitLines_of_isLine h]
  cases htrim : trim t with
  | nil => simp [outlineOf, htrim, joinWith]
  | cons c s => simp [outlineOf, htrim, joinWith]

theorem squeezed_congr {s t : Text} (h : (splitLines s).map trim = (splitLines t).map trim) :
    squeezed s = squeezed t := by
  rw [squeezed, outline, outlineOf, h, squeezed, outline, outlineOf]

theorem joinWith_cons (sep p : Text) {ps : List Text} (h : ps ≠ []) :
    joinWith sep (p :: ps) = p ++ sep ++ joinWith sep ps := by
  obtain ⟨q, qs, rfl⟩ := List.exists_cons_of_ne_nil h
  rfl

/-- Parts that neither begin nor end with a blank, with spaces between them, neither begin nor end with one. -/
theorem trim_joinWith {parts : List Text} (h : ∀ p ∈ parts, trim p = p ∧ p ≠ []) :
    trim (joinWith [' '] parts) = joinWith [' '] parts := by
  have hends : (parts ≠ [] → joinWith [' '] parts ≠ []) ∧
      (∀ c, (joinWith [' '] parts).head? = some c → isBlankChar c = false) ∧
        ∀ c, (joinWith [' '] parts).getLast? = some c → isBlankChar c = false := by
    induction parts with
    | nil => simp [joinWith]
    | cons p ps ih =>
      obtain ⟨⟨htrim, hne⟩, hps⟩ := List.forall_mem_cons.1 h
      have hp : ∀ c, (p.head? = some c → isBlankChar c = false) ∧ (p.getLast? = some c → isBlankChar c = false) :=
        fun c => htrim ▸ ends_trim
      by_cases hnil : ps = []
      · subst hnil
        exact ⟨fun _ => hne, fun c => (hp c).1, fun c => (hp c).2⟩
      · obtain ⟨hjoin, -, hlast⟩ := ih hps
        rw [joinWith_cons _ _ hnil]
        refine ⟨fun _ => by simp, fun c hc => (hp c).1 ?_, fun c hc => hlast c ?_⟩
        · rwa [List.append_assoc, List.head?_append, Option.or_of_isSome (by simpa using hne)] at hc
        · rwa [List.getLast?_append, Option.or_of_isSome (by simpa using hjoin hnil)] at hc
  exact trim_eq_self hends.2.1 hends.2.2

theorem trim_squeezed (t : Text) : trim (squeezed t) = squeezed t := by
  refine trim_joinWith fun p hp => ?_
  obtain ⟨hmem, hne⟩ := List.mem_filter.1 hp
  obtain ⟨l, -, rfl⟩ := List.mem_map.1 hmem
  exact ⟨trim_trim l, by simpa using hne⟩

section Block

variable {c : Comment} (hkind : c.kind = .block) (hc : IsSound c)

include hkind

theorem trailing_block : c.trailing = "/* ".toList ++ squeezed c.text ++ " */".toList := by
  simp only [Comment.trailing, hkind, squeezed, outline, outlineOf]

theorem not_infix_text (hc : IsSound c) : ¬blockClose <:+: c.text := by
  simpa only [IsSound, hkind] using hc

theorem isLine_squeezed (hc : IsSound c) : IsLine (squeezed c.text) := by
  have hline := isLine_trailing hc
  rw [trailing_block hkind] at hline
  exact fun hm => hline (by simp [hm])

theorem not_infix_squeezed (hc : IsSound c) : ¬blockClose <:+: squeezed c.text := by
  have hparts : ∀ p ∈ outline c.text, ¬blockClose <:+: p := by
    intro p hp
    obtain ⟨l, hl, rfl⟩ := List.mem_map.1 (List.mem_filter.1 hp).1
    exact not_infix_trans ((infix_trim l).trans (infix_of_mem_splitLines hl)) (not_infix_text hkind hc)
  rw [squeezed]
  generalize outline c.text = parts at hparts
  induction parts with
  | nil => exact not_infix_nil
  | cons p ps ih =>
    obtain ⟨hp, hps⟩ := List.forall_mem_cons.1 hparts
    by_cases hnil : ps = []
    · subst hnil
      exact hp
    · rw [joinWith_cons _ _ hnil, List.append_assoc]
      exact not_infix_append_blankChar (by decide) hp (ih hps)

end Block

/-! ## One comment -/

theorem findMarker_marker {s : Text} (hs : isBlank s = true) (kind : CommentKind) (t : Text) :
    findMarker (openQuote false) (s ++ (kind.marker ++ t)) = .found s kind t := by
  have hmarker : findMarker (openQuote false) (kind.marker ++ t) = .found [] kind t := by
    cases kind <;> rfl
  rw [(findMarker_inert_append (isQuote_openQuote false) (all_isInert_of_isBlank hs) _).1, hmarker,
    MarkerScan.prepend_found, List.append_nil]

theorem keepCode_of_isBlank {code : Text} (h : isBlank code = true) : keepCode code = [] := by
  rw [keepCode, if_pos h]

/-- Behind code and a space a marker is found. -/
theorem findMarker_behind {b : Bool} {l : Text} (hclear : findMarker (openQuote b) l = .clear false)
    (hcode : quoteAfter (openQuote b) l = none) (kind : CommentKind) (t : Text) :
    findMarker (openQuote b) (l ++ [' '] ++ (kind.marker ++ t)) = .found (l ++ [' ']) kind t := by
  have hspace : findMarker none (' ' :: (kind.marker ++ t)) = .found [' '] kind t :=
    findMarker_marker (s := [' ']) (by decide) kind t
  rw [List.append_assoc, List.singleton_append, findMarker_append hclear hcode fun _ => ⟨by simp, by simp⟩, hspace,
    MarkerScan.prepend_found]

/-- A space behind code is not kept. -/
theorem keepCode_concat_space {l : Text} (h : isBlank l = false) : keepCode (l ++ [' ']) = [trimEnd l] := by
  have hblank : ¬isBlank (l ++ [' ']) = true := by
    rw [isBlank, List.all_append, show l.all isBlankChar = false from h]
    simp
  rw [keepCode, if_neg hblank, trimEnd_append_of_isBlank (by decide)]

/-- An indentation: blanks on one line. -/
structure IsIndent (s : Text) : Prop where
  blank : isBlank s = true
  line : IsLine s

theorem IsIndent.append {s t : Text} (hs : IsIndent s) (ht : IsIndent t) : IsIndent (s ++ t) where
  blank := by rw [isBlank, List.all_append, Bool.and_eq_true]; exact ⟨hs.blank, ht.blank⟩
  line := fun hm => (List.mem_append.1 hm).elim hs.line ht.line

theorem isIndent_nil : IsIndent [] :=
  ⟨rfl, List.not_mem_nil⟩

theorem isIndent_entryIndent : IsIndent entryIndent := ⟨by decide, by decide⟩

theorem isIndent_orphanIndent : IsIndent orphanIndent := ⟨by decide, by decide⟩

/-- The lines of a block comment behind its first, each indented further by `outer`. -/
theorem blockTail_lines {outer indent : Text} (houter : IsIndent outer) (hindent : IsIndent indent) :
    ∀ {ls : List Text}, ls ≠ [] → (∀ l ∈ ls, IsLine l ∧ ¬blockClose <:+: l) → ∃ inside inner,
      (blockTail indent ls).map (outer ++ ·) = inside ++ [inner ++ blockClose] ∧
        (∀ k ∈ inside ++ [inner], IsLine k ∧ ¬blockClose <:+: k) ∧ (inside ++ [inner]).map trim = ls.map trim
  | [], h, _ => absurd rfl h
  | [last], _, h => by
    obtain ⟨hline, hclose⟩ := h last (by simp)
    have hspace : IsIndent (outer ++ indent ++ [' ']) := (houter.append hindent).append ⟨by decide, by decide⟩
    have hcontent : IsLine (trimStart last) := fun hm => hline ((infix_trimStart last).subset hm)
    refine ⟨[], outer ++ indent ++ [' '] ++ trimStart last, by simp [blockTail_singleton], fun k hk => ?_, ?_⟩
    · rw [List.nil_append, List.mem_singleton] at hk
      subst hk
      exact ⟨fun hm => (List.mem_append.1 hm).elim hspace.line hcontent,
        not_infix_blank_append (not_infix_trans (infix_trimStart last) hclose) hspace.blank⟩
    · simp only [List.nil_append, List.map_cons, List.map_nil, trim_blank_append hspace.blank, trim_trimStart]
  | l :: m :: ls, _, h => by
    obtain ⟨⟨hline, hclose⟩, hrest⟩ := List.forall_mem_cons.1 h
    obtain ⟨inside, inner, htail, hmem, htrim⟩ := blockTail_lines houter hindent (by simp) hrest
    have hspace : IsIndent (indent ++ [' ']) := hindent.append ⟨by decide, by decide⟩
    have hcontent : IsLine (trimStart l) := fun hm => hline ((infix_trimStart l).subset hm)
    have hsplit : indent ++ ' ' :: trimStart l = indent ++ [' '] ++ trimStart l := by simp
    refine ⟨(outer ++ trimEnd (indent ++ ' ' :: trimStart l)) :: inside, inner, ?_, ?_, ?_⟩
    · rw [blockTail, List.map_cons, htail, List.cons_append]
      simp
    · rw [List.cons_append, List.forall_mem_cons]
      refine ⟨⟨fun hm => ?_, ?_⟩, hmem⟩
      · refine (List.mem_append.1 hm).elim houter.line (isLine_trimEnd fun hm => ?_)
        rw [hsplit] at hm
        exact (List.mem_append.1 hm).elim hspace.line hcontent
      · refine not_infix_blank_append (not_infix_trans (prefix_trimEnd _).isInfix ?_) houter.blank
        rw [hsplit]
        exact not_infix_blank_append (not_infix_trans (infix_trimStart l) hclose) hspace.blank
    · rw [List.cons_append, List.map_cons, htrim, trim_blank_append houter.blank, trim_trimEnd, hsplit,
        trim_blank_append hspace.blank, trim_trimStart]
      rfl

/-! ## Notations -/

/-- A comment that is written to the end of a line, and what it says. -/
inductive Ends : Text → Remark → Prop
  | line {t : Text} (hline : IsLine t) : Ends (CommentKind.line.marker ++ t) (.line, trim t)
  | block {t : Text} (hline : IsLine t) (ht : ¬blockClose <:+: t) :
    Ends (CommentKind.block.marker ++ (t ++ blockClose)) (.block, t)

theorem Ends.isLine {e : Text} {r : Remark} (h : Ends e r) : IsLine e := by
  cases h with
  | line hline => exact IsLine.append (by decide) hline
  | block hline _ => exact IsLine.append (by decide) (hline.append (by decide))

/-- Lines that hold a comment and nothing else, and what it says. -/
inductive Holds : List Text → Remark → Prop
  | short {s e : Text} {r : Remark} (hs : IsIndent s) (he : Ends e r) : Holds [s ++ e] r
  | long {s first : Text} {inside : List Text} {last : Text} (hs : IsIndent s)
      (hlines : ∀ k ∈ first :: (inside ++ [last]), IsLine k ∧ ¬blockClose <:+: k) :
    Holds ((s ++ (CommentKind.block.marker ++ first)) :: (inside ++ [last ++ blockClose]))
      (.block, first ++ (inside.flatMap ('\n' :: ·) ++ '\n' :: last))

theorem Holds.isLine {ls : List Text} {r : Remark} (h : Holds ls r) : ∀ l ∈ ls, IsLine l := by
  cases h with
  | short hs he => exact List.forall_mem_singleton.2 (hs.line.append he.isLine)
  | long hs hlines =>
    obtain ⟨hfirst, hrest⟩ := List.forall_mem_cons.1 hlines
    obtain ⟨hinside, hlast⟩ := List.forall_mem_append.1 hrest
    refine List.forall_mem_cons.2 ⟨hs.line.append (IsLine.append (by decide) hfirst.1), ?_⟩
    exact List.forall_mem_append.2 ⟨fun k hk => (hinside k hk).1,
      List.forall_mem_singleton.2 ((List.forall_mem_singleton.1 hlast).1.append (by decide))⟩

section Strip

variable {lines : List Text} {n : Nat}

theorem stripLines_of_some {b : Bool} {l : Text} (h : lines[n]? = some l) :
    stripLines lines n b = strip lines n [] [] l b := by
  rw [stripLines, h]

/-- A comment that is written behind code is found there. It belongs to the key of the code, if there is one. -/
theorem Ends.strip {b : Bool} {l before e : Text} {r : Remark} (he : Ends e r) (hl : lines[n]? = some (l ++ e))
    (hmarker : ∀ (kind : CommentKind) (t : Text),
      findMarker (openQuote b) (l ++ (kind.marker ++ t)) = .found before kind t) :
    ∃ c : Comment, c.remark = r ∧ (c.property, c.placement) = associate lines before n n false ∧
      stripLines lines n b =
        (keepCode before ++ (stripLines lines (n + 1) false).1, c :: (stripLines lines (n + 1) false).2) := by
  rw [stripLines_of_some hl]
  cases he with
  | @line t _ =>
    refine ⟨_, ?_, ?_, strip_line (hmarker .line t)⟩
    · rfl
    · rfl
  | @block t _ ht =>
    have hclose : splitOn? blockClose (t ++ blockClose) = some (t, []) := by
      simpa using splitOn?_blockClose [] ht
    refine ⟨_, ?_, ?_, (strip_block (hmarker .block _) hclose).trans (by rw [strip_end]; rfl)⟩
    · rfl
    · rfl

/-- A comment on lines of its own belongs to the key of the lines behind it, if there is one. -/
theorem Holds.strip {ls behind : List Text} {r : Remark} (h : Holds ls r) (hlines : lines.drop n = ls ++ behind) :
    ∃ c : Comment, c.remark = r ∧
      (∀ name, nearestKey? behind = some name → c.property = some name ∧ c.placement = .before) ∧
      stripLines lines n false =
        ((stripLines lines (n + ls.length) false).1, c :: (stripLines lines (n + ls.length) false).2) := by
  have hbehind : lines.drop (n + ls.length) = behind := by
    rw [← List.drop_drop, hlines, List.drop_left]
  -- Before the comment on its line there are only blanks.
  have hassociate : ∀ {s : Text}, isBlank s = true → ∀ (k : Nat) (spans : Bool), lines.drop (k + 1) = behind →
      ∀ name, nearestKey? behind = some name → associate lines s n k spans = (some name, .before) := by
    intro s hs k spans hk name hname
    rw [associate, trim_eq_nil_iff.2 hs, hk, hname]
    rfl
  cases h with
  | @short s e r hs he =>
    have hfirst : lines[n]? = some (s ++ e) := by
      rw [← Nat.add_zero n, ← List.getElem?_drop, hlines]
      rfl
    obtain ⟨c, hc, hplace, hstrip⟩ := he.strip hfirst fun kind t => findMarker_marker hs.blank kind t
    refine ⟨c, hc, fun name hname => ?_, ?_⟩
    · rw [hassociate hs.blank n false hbehind name hname] at hplace
      exact Prod.ext_iff.1 hplace
    · rw [hstrip, keepCode_of_isBlank hs.blank]
      rfl
  | @long s first inside last hs hlong =>
    obtain ⟨hopen, hrest⟩ := List.forall_mem_cons.1 hlong
    obtain ⟨hinside, hlast⟩ := List.forall_mem_append.1 hrest
    have hfirst : lines[n]? = some (s ++ (CommentKind.block.marker ++ first)) := by
      rw [← Nat.add_zero n, ← List.getElem?_drop, hlines]
      rfl
    have hdrop : lines.drop (n + 1) = inside ++ (last ++ blockClose ++ []) :: behind := by
      rw [← List.drop_drop, hlines]
      simp
    have hlength : n + ((s ++ (CommentKind.block.marker ++ first)) :: (inside ++ [last ++ blockClose])).length =
        n + (inside.length + 1) + 1 := by
      simp
      omega
    rw [hlength] at hbehind ⊢
    rw [stripLines_of_some hfirst,
      strip_open (findMarker_marker hs.blank .block first) (splitOn?_eq_none hopen.2) hdrop
        (fun k hk => (hinside k hk).2) (List.forall_mem_singleton.1 hlast).2,
      strip_end, List.nil_append, keepCode_of_isBlank hs.blank]
    refine ⟨_, rfl, fun name hname => ?_, rfl⟩
    have hplace := hassociate hs.blank (n + (inside.length + 1)) true hbehind name hname
    exact ⟨congrArg Prod.fst hplace, congrArg Prod.snd hplace⟩

end Strip

/-- What a scan finds of lines, from what it finds on the first of them. -/
theorem scan_of_stripLines {b b' : Bool} {ls kept : List Text} {k : Nat} {c : Comment}
    (h : stripLines ls 0 b = (kept ++ (stripLines ls k b').1, c :: (stripLines ls k b').2)) :
    scan b ls = (kept ++ (scan b' (ls.drop k)).1, c.remark :: (scan b' (ls.drop k)).2) := by
  rw [scan, h, ← heard_stripLines]
  rfl

theorem Ends.scan {b : Bool} {l before e : Text} {r : Remark} (he : Ends e r) (ls : List Text)
    (hmarker : ∀ (kind : CommentKind) (t : Text),
      findMarker (openQuote b) (l ++ (kind.marker ++ t)) = .found before kind t) :
    scan b ((l ++ e) :: ls) = (keepCode before ++ (scan false ls).1, r :: (scan false ls).2) := by
  have hfirst : ((l ++ e) :: ls)[0]? = some (l ++ e) := rfl
  obtain ⟨c, rfl, -, hstrip⟩ := he.strip hfirst hmarker
  exact scan_of_stripLines hstrip

theorem Holds.scan {ls : List Text} {r : Remark} (h : Holds ls r) (more : List Text) :
    scan false (ls ++ more) = ((scan false more).1, r :: (scan false more).2) := by
  have hlines : (ls ++ more).drop 0 = ls ++ more := rfl
  obtain ⟨c, rfl, -, hstrip⟩ := h.strip hlines
  rw [Nat.zero_add] at hstrip
  rw [scan_of_stripLines (hstrip.trans (congrArg (·, _) (List.nil_append _).symm)), List.drop_left]
  rfl

/-! ## Comments that are put back -/

theorem IsTaken.isLine_text {c : Comment} (hc : IsTaken c) (h : c.isMultiLine = false) : IsLine c.text := by
  cases hkind : c.kind with
  | line => simpa only [IsSound, hkind] using hc.sound
  | block => simpa [Comment.isMultiLine, hkind, IsLine] using h

/-- A line comment with a space before its text. -/
theorem IsTaken.ends_line {c : Comment} (hc : IsTaken c) (hkind : c.kind = .line) :
    Ends (CommentKind.line.marker ++ (' ' :: c.text)) (.line, c.text) := by
  have htext : trim (' ' :: c.text) = c.text :=
    (trim_blank_append (show isBlank [' '] = true by decide)).trans (hc.trimmed hkind)
  have hline : IsLine c.text := hc.isLine_text (by simp [Comment.isMultiLine, hkind])
  have hends := Ends.line (IsLine.append (s := [' ']) (by decide) hline)
  rwa [List.singleton_append, htext] at hends

theorem trailing_of_line {c : Comment} (hkind : c.kind = .line) :
    c.trailing = CommentKind.line.marker ++ (' ' :: c.text) := by
  simp [Comment.trailing, hkind, CommentKind.marker]

theorem trailing_of_block {c : Comment} (hkind : c.kind = .block) :
    c.trailing = CommentKind.block.marker ++ (([' '] ++ squeezed c.text ++ [' ']) ++ blockClose) := by
  rw [trailing_block hkind]
  simp [CommentKind.marker, blockClose]

/-- Spaces around a text make no closing marker. -/
theorem not_infix_spaced {t : Text} (h : ¬blockClose <:+: t) : ¬blockClose <:+: [' '] ++ t ++ [' '] := by
  rw [List.append_assoc]
  exact not_infix_blank_append (not_infix_append_blankChar (by decide) h not_infix_nil) (by decide)

theorem trim_spaced (t : Text) : trim ([' '] ++ t ++ [' ']) = trim t := by
  rw [trim_append_of_isBlank (by decide), trim_blank_append (by decide)]

/-- A comment is put back behind code so that it says the same, with spaces between its lines. -/
theorem ends_trailing {c : Comment} (hc : IsTaken c) : ∃ r : Remark, Ends c.trailing r ∧ r.plain = c.remark.plain ∧
    (splitLines r.2).map trim = [squeezed c.text] := by
  cases hkind : c.kind with
  | line =>
    have hline : IsLine c.text := hc.isLine_text (by simp [Comment.isMultiLine, hkind])
    refine ⟨(.line, c.text), trailing_of_line hkind ▸ hc.ends_line hkind, by rw [Comment.remark, hkind], ?_⟩
    rw [splitLines_of_isLine hline, squeezed_of_isLine hline]
    rfl
  | block =>
    have hinner := not_infix_spaced (not_infix_squeezed hkind hc.sound)
    have hline : IsLine ([' '] ++ squeezed c.text ++ [' ']) := by
      have hsqueezed := isLine_squeezed hkind hc.sound
      simpa [IsLine] using hsqueezed
    have htrim : trim ([' '] ++ squeezed c.text ++ [' ']) = squeezed c.text := by rw [trim_spaced, trim_squeezed]
    refine ⟨(.block, [' '] ++ squeezed c.text ++ [' ']), trailing_of_block hkind ▸ Ends.block hline hinner, ?_, ?_⟩
    · rw [Comment.remark, hkind, Remark.plain, Remark.plain, squeezed_of_isLine hline, htrim]
    · rw [splitLines_of_isLine hline, List.map_singleton, htrim]

section Standalone

variable {outer indent : Text} {c : Comment} (houter : IsIndent outer) (hindent : IsIndent indent) (hc : IsTaken c)

include houter hindent hc

theorem holds_line (hkind : c.kind = .line) :
    Holds ((c.standalone indent).map (outer ++ ·)) (.line, c.text) := by
  have hlines : (c.standalone indent).map (outer ++ ·) =
      [outer ++ indent ++ (CommentKind.line.marker ++ (' ' :: c.text))] := by
    simp [Comment.standalone, hkind, CommentKind.marker]
  rw [hlines]
  exact .short (houter.append hindent) (hc.ends_line hkind)

theorem holds_block (hkind : c.kind = .block) (hsingle : c.isMultiLine = false) : ∃ t,
    Holds ((c.standalone indent).map (outer ++ ·)) (.block, t) ∧
      (splitLines t).map trim = (splitLines c.text).map trim := by
  have hlines : (c.standalone indent).map (outer ++ ·) =
      [outer ++ indent ++ (CommentKind.block.marker ++ (([' '] ++ trim c.text ++ [' ']) ++ blockClose))] := by
    simp [Comment.standalone, hkind, hsingle, CommentKind.marker, blockClose]
  have hinner := not_infix_spaced (not_infix_trans (infix_trim c.text) (not_infix_text hkind hc.sound))
  have hline := hc.isLine_text hsingle
  have hinnerLine : IsLine ([' '] ++ trim c.text ++ [' ']) := by
    have htrim : IsLine (trim c.text) := fun hm => hline ((infix_trim c.text).subset hm)
    simpa [IsLine] using htrim
  refine ⟨[' '] ++ trim c.text ++ [' '], ?_, ?_⟩
  · rw [hlines]
    exact .short (houter.append hindent) (.block hinnerLine hinner)
  · rw [splitLines_of_isLine hinnerLine, splitLines_of_isLine hline, List.map_singleton, List.map_singleton, trim_spaced,
      trim_trim]

theorem holds_lines (hkind : c.kind = .block) (hmulti : c.isMultiLine = true) : ∃ t,
    Holds ((c.standalone indent).map (outer ++ ·)) (.block, t) ∧
      (splitLines t).map trim = (splitLines c.text).map trim := by
  have htext := not_infix_text hkind hc.sound
  have hlines : ∀ l ∈ splitLines c.text, IsLine l ∧ ¬blockClose <:+: l := fun l hl =>
    ⟨isLine_of_mem_splitLines hl, not_infix_trans (infix_of_mem_splitLines hl) htext⟩
  obtain ⟨first, rest, hsplit⟩ := List.exists_cons_of_ne_nil (splitLines_ne_nil c.text)
  rw [hsplit] at hlines
  obtain ⟨hfirst, hrest⟩ := List.forall_mem_cons.1 hlines
  have hne : rest ≠ [] := by
    rintro rfl
    have hsame : first = c.text := by
      simpa [hsplit, joinLines, joinWith] using joinLines_splitLines c.text
    have hnewline : '\n' ∈ c.text := by
      simp only [Comment.isMultiLine, Bool.and_eq_true, List.contains_iff_mem] at hmulti
      exact hmulti.2
    exact hfirst.1 (hsame ▸ hnewline)
  obtain ⟨inside, inner, htail, hmem, htrim⟩ := blockTail_lines houter hindent hne hrest
  have hstandalone : (c.standalone indent).map (outer ++ ·) =
      (outer ++ indent ++ (CommentKind.block.marker ++ trimEnd first)) :: (inside ++ [inner ++ blockClose]) := by
    have hopen : trimEnd (indent ++ "/*".toList ++ first) = indent ++ "/*".toList ++ trimEnd first := by
      have hstar := trimEnd_append_cons (indent ++ ['/']) (c := '*') (by decide) first
      simpa using hstar
    simp only [Comment.standalone, hkind, hmulti, if_true, hsplit, hopen, List.map_cons, htail]
    simp [CommentKind.marker]
  have hall : ∀ k ∈ trimEnd first :: (inside ++ [inner]), IsLine k ∧ ¬blockClose <:+: k :=
    List.forall_mem_cons.2
      ⟨⟨isLine_trimEnd hfirst.1, not_infix_trans (prefix_trimEnd first).isInfix hfirst.2⟩, hmem⟩
  have hjoin : trimEnd first ++ (inside.flatMap ('\n' :: ·) ++ '\n' :: inner) =
      joinLines (trimEnd first :: (inside ++ [inner])) := by
    simp [joinLines_eq_flatMap]
  refine ⟨_, hstandalone ▸ Holds.long (houter.append hindent) hall, ?_⟩
  rw [hjoin, splitLines_joinLines (by simp) fun k hk => (hall k hk).1, hsplit, List.map_cons, List.map_cons,
    trim_trimEnd, htrim]

/-- A comment is put back on lines of its own so that it says the same, but for the blanks around its lines. -/
theorem holds_standalone : ∃ r : Remark, Holds ((c.standalone indent).map (outer ++ ·)) r ∧
    r.plain = c.remark.plain ∧ (splitLines r.2).map trim = (splitLines c.text).map trim := by
  cases hkind : c.kind with
  | line => exact ⟨_, holds_line houter hindent hc hkind, by rw [Comment.remark, hkind], rfl⟩
  | block =>
    have hholds : ∃ t, Holds ((c.standalone indent).map (outer ++ ·)) (.block, t) ∧
        (splitLines t).map trim = (splitLines c.text).map trim := by
      cases hmulti : c.isMultiLine with
      | false => exact holds_block houter hindent hc hkind hmulti
      | true => exact holds_lines houter hindent hc hkind hmulti
    obtain ⟨t, hholds, htrim⟩ := hholds
    refine ⟨_, hholds, ?_, htrim⟩
    rw [Comment.remark, hkind, Remark.plain, Remark.plain, squeezed_congr htrim]

end Standalone

end StyleHoist
