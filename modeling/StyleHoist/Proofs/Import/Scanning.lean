import StyleHoist.Proofs.Import.Writing

/-!
# Import statements in a text

A scan for import statements takes a text apart into statements and the characters between them (`ImportPiece`,
`IsScan`). Every text can be taken apart (`exists_isScan`), and what the scan lists are the statements among the pieces
(`importsIn_textOf`, `exists_isScan_of_importsIn_eq`).

Whether a line reads as an import statement depends on its first two quotes alone (`readsImport_iff`). Hence a text can
be changed at a statement without the lines before it being read in another way: its clause can be written anew, and a
statement can be added behind it (`IsScan.replace`).
-/

namespace StyleHoist

open Text

/-! ## The opening of a statement -/

/-- What can stand between the keyword and the quotes: blanks alone, or a clause and the word before a module name. -/
structure IsHead (t : Text) : Prop where
  chars : ∀ c ∈ t, isClauseChar c = true
  blank : ∃ c, t.head? = some c ∧ isBlankChar c = true
  word : isBlank t = true ∨ ∃ y b, t = y ++ "from".toList ++ b ∧ isBlank b = true ∧ 2 ≤ y.length

theorem isClauseChar_of_isBlankChar {c : Char} (h : isBlankChar c = true) : isClauseChar c = true := by
  simp [isClauseChar, h]

theorem isClauseChar_of_isBlank {t : Text} (h : isBlank t = true) : ∀ c ∈ t, isClauseChar c = true := fun c hc =>
  isClauseChar_of_isBlankChar (by simpa using (List.all_eq_true.1 h) c hc)

theorem IsLink.isClauseChar {t : Text} (h : IsLink t) : ∀ c ∈ t, isClauseChar c = true := by
  obtain ⟨a, b, rfl, ha, hb⟩ := h
  simp only [List.forall_mem_append]
  exact ⟨⟨isClauseChar_of_isBlank ha, List.all_eq_true.1 (by decide)⟩, isClauseChar_of_isBlank hb⟩

theorem exists_head_of_isBlank {t : Text} (hne : t ≠ []) (h : isBlank t = true) (rest : Text) :
    ∃ c, (t ++ rest).head? = some c ∧ isBlankChar c = true := by
  obtain ⟨c, t, rfl⟩ := List.exists_cons_of_ne_nil hne
  exact ⟨c, rfl, by simpa using (List.all_eq_true.1 h) c (by simp)⟩

theorem isHead_of_importHead {gap link : Text} {clause : Option Text} (h : ImportHead gap clause link) :
    IsHead (gap ++ clause.getD [] ++ link) := by
  cases h with
  | effects hne hgap =>
    simp only [Option.getD_none, List.append_nil]
    exact ⟨isClauseChar_of_isBlank hgap, by simpa using exists_head_of_isBlank hne hgap [], Or.inl hgap⟩
  | binds hne hgap hclause hchars hstart hend hlink =>
    rename_i clause
    have hlength : 2 ≤ (gap ++ clause).length := by
      have := List.length_pos_iff.2 hne
      have := List.length_pos_iff.2 hclause
      rw [List.length_append]
      omega
    refine ⟨?_, List.append_assoc gap _ _ ▸ exists_head_of_isBlank hne hgap _, Or.inr ?_⟩
    · simp only [List.forall_mem_append, Option.getD_some]
      exact ⟨⟨isClauseChar_of_isBlank hgap, hchars⟩, hlink.isClauseChar⟩
    · obtain ⟨a, b, rfl, ha, hb⟩ := hlink
      refine ⟨gap ++ clause ++ a, b, by simp, hb, ?_⟩
      rw [List.length_append]
      omega
  | lone hne hgap hc hblanks =>
    rename_i blanks c
    have hlink := isLink_from hblanks
    refine ⟨?_, List.append_assoc gap _ _ ▸ exists_head_of_isBlank hne hgap _, Or.inr ⟨gap ++ [c], blanks, ?_, hblanks, ?_⟩⟩
    · have hafter := hlink.isClauseChar
      simp only [List.forall_mem_append, Option.getD_some, List.forall_mem_singleton] at hafter ⊢
      exact ⟨⟨isClauseChar_of_isBlank hgap, isClauseChar_of_isBlankChar hc⟩, hafter⟩
    · rw [Option.getD_some, List.append_assoc (gap ++ [c])]
    · have := List.length_pos_iff.2 hne
      simp
      omega

theorem isLink_of_importHead {gap clause link : Text} (h : ImportHead gap (some clause) link) : IsLink link := by
  cases h with
  | binds _ _ _ _ _ _ hlink => exact hlink
  | lone _ _ _ hblanks => exact ⟨[], _, rfl, rfl, hblanks⟩

/-- Blanks, a clause and a link are told apart again: the clause begins and ends with a character that is no blank. -/
theorem importHead_of_isHead {t : Text} (h : IsHead t) :
    ∃ gap clause link, t = gap ++ clause.getD [] ++ link ∧ ImportHead gap clause link := by
  obtain ⟨hchars, ⟨c, hc, hblank⟩, hword⟩ := h
  have hne : t ≠ [] := by
    rintro rfl
    cases hc
  rcases hword with hall | ⟨y, b, rfl, hb, hlength⟩
  · exact ⟨t, none, [], by simp, .effects hne hall⟩
  · have hy : y ≠ [] := List.ne_nil_of_length_pos (by omega)
    by_cases hall : isBlank y = true
    · -- The last blank is read as the clause.
      obtain ⟨gap, d, rfl, hdrop, hgap, hd⟩ := isBlank_dropLast hall hlength
      exact ⟨gap, some [d], "from".toList ++ b, by rw [Option.getD_some, List.append_assoc (gap ++ [d])],
        .lone hdrop hgap hd hb⟩
    · have hsplit := takeWhile_append_trimStart y
      obtain ⟨a, hclause, ha⟩ := trimEnd_append_blank (trimStart y)
      have hgapBlank : isBlank (y.takeWhile isBlankChar) = true := List.all_takeWhile
      have hgap : y.takeWhile isBlankChar ≠ [] := by
        obtain ⟨d, y', rfl⟩ := List.exists_cons_of_ne_nil hy
        obtain rfl : d = c := by simpa using hc
        simp [hblank]
      generalize y.takeWhile isBlankChar = gap at hsplit hgapBlank hgap
      have htrim : trimEnd (trimStart y) ≠ [] := fun hnil => hall (trim_eq_nil_iff.1 hnil)
      have hends := fun c => ends_trim (t := y) (c := c)
      refine ⟨gap, some (trim y), a ++ "from".toList ++ b, ?_,
        .binds hgap hgapBlank htrim (fun d hd => ?_) (fun d hd => (hends d).1 hd) (fun d hd => (hends d).2 hd)
          ⟨a, b, rfl, ha, hb⟩⟩
      · rw [Option.getD_some, trim]
        conv => lhs; rw [← hsplit, hclause]
        simp only [List.append_assoc]
      · refine hchars d ?_
        rw [← hsplit, hclause]
        simp only [List.mem_append]
        exact Or.inl (Or.inl (Or.inr (Or.inl hd)))

/-- Whether a text can stand before the quotes of an import statement that begins a line. -/
def OpensImport (t : Text) : Prop :=
  ∃ indent body, t = indent ++ "import".toList ++ body ∧ indent.all isIndentChar = true ∧ IsHead body

/-- What stands before the module name. -/
def WrittenImport.opening (w : WrittenImport) : Text :=
  w.lead ++ w.clause.getD [] ++ w.link

theorem WrittenImport.text_eq (w : WrittenImport) :
    w.text = w.opening ++ w.quotes.1 :: w.source ++ w.quotes.2 :: w.ending := by
  simp [text, opening, tail]

theorem WrittenImport.opensImport (w : WrittenImport) : OpensImport w.opening :=
  ⟨w.indent, w.gap ++ w.clause.getD [] ++ w.link, by simp [opening, lead], w.isIndent, isHead_of_importHead w.head⟩

theorem OpensImport.unquoted {t : Text} (h : OpensImport t) : Unquoted t := by
  obtain ⟨indent, body, rfl, hindent, hbody⟩ := h
  have hblank : isBlank indent = true :=
    List.all_eq_true.2 fun c hc => isBlankChar_of_isIndentChar (List.all_eq_true.1 hindent c hc)
  exact ((unquoted_of_isBlank hblank).append (by decide)).append (unquoted_of_isClauseChar hbody.chars)

/-! ## Lines that read as statements -/

/-- Whether a line reads as an import statement. -/
def ReadsImport (line : Text) : Prop :=
  ∃ (w : WrittenImport) (rest : Text), line = w.text ++ rest ∧ w.EndsBefore rest

theorem readsImport_iff_importAt? {offset : Nat} {line : Text} :
    ReadsImport line ↔ (importAt? offset line).isSome = true := by
  rw [Option.isSome_iff_exists]
  constructor
  · rintro ⟨w, rest, hline, hends⟩
    exact ⟨_, importAt?_iff.2 ⟨w, hline, hends, rfl⟩⟩
  · rintro ⟨⟨s, rest⟩, h⟩
    obtain ⟨w, hline, hends, -⟩ := importAt?_iff.1 h
    exact ⟨w, rest, hline, hends⟩

/-- **What stands before the first two quotes of a line, and between them, decides whether it reads as an import.** -/
theorem readsImport_iff {x n e : Text} {q q' : Char} (hx : Unquoted x) (hq : quotesSource q = true) (hn : Unquoted n)
    (hq' : quotesSource q' = true) : ReadsImport (x ++ q :: n ++ q' :: e) ↔ OpensImport x ∧ n ≠ [] := by
  constructor
  · rintro ⟨w, rest, hline, -⟩
    rw [w.text_eq, List.append_assoc, List.append_assoc, List.append_assoc] at hline
    obtain ⟨rfl, hrest⟩ := hx.append_inj w.opensImport.unquoted hq w.opens hline
    obtain ⟨rfl, -⟩ := hn.append_inj w.plain hq' w.closes (List.cons.inj hrest).2
    exact ⟨w.opensImport, w.named⟩
  · rintro ⟨⟨indent, body, rfl, hindent, hbody⟩, hne⟩
    obtain ⟨gap, clause, link, rfl, hhead⟩ := importHead_of_isHead hbody
    obtain ⟨blanks, ending, he, hblanks, hending⟩ := dropTerminator_append e
    refine ⟨⟨indent, gap, clause, link, (q, q'), n, ending, hindent, hhead, hq, hq', hne, hn, blanks, hblanks, hending⟩,
      dropTerminator e, ?_, ?_⟩
    · conv => lhs; rw [he]
      simp [WrittenImport.text, WrittenImport.lead, WrittenImport.tail]
    · rw [WrittenImport.EndsBefore, ← he]

/-- A text has no quotes, or there is a first. -/
theorem unquoted_or_quoted (t : Text) : Unquoted t ∨ ∃ x q rest, t = x ++ q :: rest ∧ Unquoted x ∧ quotesSource q = true := by
  have ht : t.takeWhile (fun c => !quotesSource c) ++ t.dropWhile (fun c => !quotesSource c) = t :=
    List.takeWhile_append_dropWhile
  have hx : Unquoted (t.takeWhile fun c => !quotesSource c) := fun c hc => by simpa using List.mem_takeWhile_imp hc
  have hhead := List.head?_dropWhile_not (fun c => !quotesSource c) t
  cases hdrop : t.dropWhile fun c => !quotesSource c with
  | nil =>
    rw [hdrop, List.append_nil] at ht
    exact Or.inl (ht ▸ hx)
  | cons q rest =>
    rw [hdrop] at ht hhead
    exact Or.inr ⟨_, q, rest, ht.symm, hx, by simpa using hhead⟩

/-- What stands behind two quotes does not matter. -/
theorem readsImport_behind {u n : Text} {q q' : Char} (hq : quotesSource q = true) (hn : Unquoted n)
    (hq' : quotesSource q' = true) (e e' : Text) (h : ReadsImport (u ++ q :: n ++ q' :: e)) :
    ReadsImport (u ++ q :: n ++ q' :: e') := by
  rcases unquoted_or_quoted u with hu | ⟨x, p, u, rfl, hx, hp⟩
  · exact (readsImport_iff hu hq hn hq').2 ((readsImport_iff hu hq hn hq').1 h)
  · rcases unquoted_or_quoted u with hu | ⟨m, p', u, rfl, hm, hp'⟩
    · have hsplit : ∀ e : Text, x ++ p :: u ++ q :: n ++ q' :: e = x ++ p :: u ++ q :: (n ++ q' :: e) := by simp
      rw [hsplit] at h ⊢
      exact (readsImport_iff hx hp hu hq).2 ((readsImport_iff hx hp hu hq).1 h)
    · have hsplit : ∀ e : Text, x ++ p :: (m ++ p' :: u) ++ q :: n ++ q' :: e =
          x ++ p :: m ++ p' :: (u ++ q :: n ++ q' :: e) := by simp
      rw [hsplit] at h ⊢
      exact (readsImport_iff hx hp hm hp').2 ((readsImport_iff hx hp hm hp').1 h)

theorem opensImport_of_clause {w : WrittenImport} {clause joined u : Text} (hclause : w.clause = some clause)
    (h : OpensImport (u ++ ['\n'] ++ (w.lead ++ joined ++ w.link))) : OpensImport (u ++ ['\n'] ++ w.opening) := by
  obtain ⟨indent, body, heq, hindent, hbody⟩ := h
  have hnewline : '\n' ∉ indent ++ "import".toList := by
    simp only [List.mem_append, not_or]
    exact ⟨fun hmem => absurd (List.all_eq_true.1 hindent _ hmem) (by decide), by decide⟩
  obtain ⟨z, hz, rfl⟩ : ∃ z, u ++ ['\n'] = indent ++ "import".toList ++ z ∧ body = z ++ (w.lead ++ joined ++ w.link) := by
    rcases List.append_eq_append_iff.1 heq with ⟨z, hz, -⟩ | ⟨z, hz, hz'⟩
    · exact absurd (hz ▸ by simp) hnewline
    · exact ⟨z, hz, hz'⟩
  have hne : z ≠ [] := by
    rintro rfl
    exact hnewline (by rw [← List.append_nil (indent ++ _), ← hz]; simp)
  obtain ⟨c, z, rfl⟩ := List.exists_cons_of_ne_nil hne
  have hchars := isHead_of_importHead w.head
  have hlink : IsLink w.link := isLink_of_importHead (hclause ▸ w.head)
  refine ⟨indent, c :: z ++ w.opening, by rw [hz, List.append_assoc], hindent, ⟨?_, ?_, Or.inr ?_⟩⟩
  · have hbefore := hbody.chars
    have hclauseChars := hchars.chars
    simp only [List.forall_mem_append, WrittenImport.opening] at hbefore hclauseChars ⊢
    exact ⟨hbefore.1, ⟨hbefore.2.1.1, hclauseChars.1.2⟩, hbefore.2.2⟩
  · simpa using hbody.blank
  · obtain ⟨a, b, hab, -, hb⟩ := hlink
    refine ⟨c :: z ++ w.lead ++ w.clause.getD [] ++ a, b, by simp [WrittenImport.opening, hab], hb, ?_⟩
    simp only [WrittenImport.lead, List.length_append, List.length_cons]
    have : "import".toList.length = 6 := by decide
    omega

/-- The line before a statement is read in the same way whatever the clause of the statement is. -/
theorem readsImport_of_clause {w : WrittenImport} {clause joined : Text} (hclause : w.clause = some clause)
    (hjoined : Unquoted joined) (u rest : Text)
    (h : ReadsImport (u ++ ['\n'] ++ (w.lead ++ joined ++ w.tail ++ rest))) :
    ReadsImport (u ++ ['\n'] ++ (w.text ++ rest)) := by
  have hopening := w.opensImport.unquoted
  have hplain : Unquoted (w.lead ++ joined ++ w.link) := by
    simp only [Unquoted, WrittenImport.opening, List.forall_mem_append] at hopening hjoined ⊢
    exact ⟨⟨hopening.1.1, hjoined⟩, hopening.2⟩
  have hbefore : u ++ ['\n'] ++ (w.lead ++ joined ++ w.tail ++ rest) = u ++ ['\n'] ++ (w.lead ++ joined ++ w.link) ++
      w.quotes.1 :: w.source ++ w.quotes.2 :: (w.ending ++ rest) := by
    simp [WrittenImport.tail]
  have hafter : u ++ ['\n'] ++ (w.text ++ rest) = u ++ ['\n'] ++ w.opening ++
      w.quotes.1 :: w.source ++ w.quotes.2 :: (w.ending ++ rest) := by
    simp [w.text_eq]
  rw [hbefore] at h
  rw [hafter]
  rcases unquoted_or_quoted (u ++ ['\n']) with hu | ⟨x, p, u', hu', hx, hp⟩
  · obtain ⟨hopens, hnamed⟩ := (readsImport_iff (hu.append hplain) w.opens w.plain w.closes).1 h
    exact (readsImport_iff (hu.append hopening) w.opens w.plain w.closes).2 ⟨opensImport_of_clause hclause hopens, hnamed⟩
  · rw [hu'] at h ⊢
    rcases unquoted_or_quoted u' with hu | ⟨m, p', u', rfl, hm, hp'⟩
    · have hsplit : ∀ y e : Text, x ++ p :: u' ++ y ++ w.quotes.1 :: w.source ++ e =
          x ++ p :: (u' ++ y) ++ w.quotes.1 :: (w.source ++ e) := by simp
      have hne : u' ++ w.opening ≠ [] := by
        simp [WrittenImport.opening, WrittenImport.lead]
      rw [hsplit] at h ⊢
      exact (readsImport_iff hx hp (hu.append hopening) w.opens).2
        ⟨((readsImport_iff hx hp (hu.append hplain) w.opens).1 h).1, hne⟩
    · have hsplit : ∀ y e : Text, x ++ p :: (m ++ p' :: u') ++ y ++ w.quotes.1 :: w.source ++ e =
          x ++ p :: m ++ p' :: (u' ++ y ++ w.quotes.1 :: w.source ++ e) := by simp
      rw [hsplit] at h ⊢
      exact (readsImport_iff hx hp hm hp').2 ((readsImport_iff hx hp hm hp').1 h)

/-! ## Pieces -/

/-- A part of a text: a statement, or a character that belongs to none. -/
inductive ImportPiece
  | plain (c : Char)
  | statement (w : WrittenImport)

namespace ImportPiece

/-- The text of a part. -/
def text : ImportPiece → Text
  | plain c => [c]
  | statement w => w.text

/-- The text that parts make. -/
def textOf (ps : List ImportPiece) : Text :=
  ps.flatMap text

@[simp] theorem textOf_nil : textOf [] = [] := rfl

@[simp] theorem textOf_plain (c : Char) (ps : List ImportPiece) : textOf (plain c :: ps) = c :: textOf ps := rfl

@[simp] theorem textOf_statement (w : WrittenImport) (ps : List ImportPiece) :
    textOf (statement w :: ps) = w.text ++ textOf ps := rfl

@[simp] theorem textOf_append (ps qs : List ImportPiece) : textOf (ps ++ qs) = textOf ps ++ textOf qs :=
  List.flatMap_append

/-- The statements among parts that stand at an offset. -/
def statementsOf : Nat → List ImportPiece → List ImportStatement
  | _, [] => []
  | offset, plain c :: ps => statementsOf (offset + c.utf8Size) ps
  | offset, statement w :: ps => w.statement offset :: statementsOf (offset + size w.text) ps

theorem statementsOf_append (ps qs : List ImportPiece) : ∀ offset, statementsOf offset (ps ++ qs) =
    statementsOf offset ps ++ statementsOf (offset + size (textOf ps)) qs := by
  induction ps with
  | nil => simp [statementsOf]
  | cons p ps ih =>
    intro offset
    cases p with
    | plain c => simp [statementsOf, ih, Nat.add_assoc]
    | statement w => simp [statementsOf, ih, Nat.add_assoc]

/-- The statement that is listed at a place stands at one. -/
theorem exists_of_statementsOf_eq {before after : List ImportStatement} {s : ImportStatement} : ∀ {ps : List ImportPiece}
    {offset : Nat}, statementsOf offset ps = before ++ s :: after → ∃ front w back, ps = front ++ statement w :: back ∧
      statementsOf offset front = before ∧ s = w.statement (offset + size (textOf front)) ∧
      after = statementsOf (offset + size (textOf front) + size w.text) back
  | [], offset, h => by simp [statementsOf] at h
  | plain c :: ps, offset, h => by
    obtain ⟨front, w, back, rfl, hbefore, hs, hafter⟩ := @exists_of_statementsOf_eq _ _ _ ps _ h
    refine ⟨plain c :: front, w, back, rfl, hbefore, ?_, ?_⟩
    · simpa [Nat.add_assoc] using hs
    · simpa [Nat.add_assoc] using hafter
  | statement w :: ps, offset, h => by
    cases before with
    | nil =>
      obtain ⟨hs, hafter⟩ := List.cons.inj h
      exact ⟨[], w, ps, rfl, rfl, hs.symm, hafter.symm⟩
    | cons s' before =>
      obtain ⟨hs', htail⟩ := List.cons.inj h
      obtain ⟨front, w', back, rfl, hbefore, hs, hafter⟩ := exists_of_statementsOf_eq htail
      refine ⟨statement w :: front, w', back, rfl, by simp [statementsOf, hbefore, hs'], ?_, ?_⟩
      · simpa [Nat.add_assoc] using hs
      · simpa [Nat.add_assoc] using hafter

/-- The statements of a first part end in it. -/
theorem stop_le_of_mem_statementsOf {s : ImportStatement} : ∀ {ps : List ImportPiece} {offset : Nat},
    s ∈ statementsOf offset ps → s.stop ≤ offset + size (textOf ps)
  | [], _, h => by simp [statementsOf] at h
  | plain c :: ps, offset, h => by
    have := @stop_le_of_mem_statementsOf _ ps _ h
    rw [textOf_plain, size_cons]
    omega
  | statement w :: ps, offset, h => by
    rw [textOf_statement, size_append]
    rcases List.mem_cons.1 h with rfl | h
    · simp only [WrittenImport.statement]
      omega
    · have := stop_le_of_mem_statementsOf h
      omega

end ImportPiece

open ImportPiece

/-! ## The scan -/

/-- Whether a scan takes a text apart in this way. A statement begins a line, and no line that begins between statements
reads as one. -/
def IsScan : (lineStart : Bool) → List ImportPiece → Prop
  | _, [] => True
  | lineStart, .plain c :: ps => (lineStart = true → ¬ReadsImport (c :: textOf ps)) ∧ IsScan (c == '\n') ps
  | lineStart, .statement w :: ps => lineStart = true ∧ w.EndsBefore (textOf ps) ∧ IsScan false ps

theorem WrittenImport.text_ne_nil (w : WrittenImport) : w.text ≠ [] := by
  simp [text, lead]

/-- A statement does not end in a line break. -/
theorem WrittenImport.getLast?_text (w : WrittenImport) {c : Char} (h : w.text.getLast? = some c) : c ≠ '\n' := by
  obtain ⟨blanks, hblanks, hending⟩ := w.ends
  have hclose : w.quotes.2 ≠ '\n' := by
    intro heq
    have := w.closes
    rw [heq] at this
    exact absurd this (by decide)
  have hmem : c ∈ w.quotes.2 :: w.ending := by
    refine List.mem_of_getLast? ?_
    rw [w.text_eq, List.getLast?_append_of_ne_nil _ (List.cons_ne_nil _ _)] at h
    exact h
  rcases List.mem_cons.1 hmem with rfl | hmem
  · exact hclose
  · rintro rfl
    have hindent : '\n' ∉ blanks := fun hin => absurd (List.all_eq_true.1 hblanks _ hin) (by decide)
    rcases hending with heq | heq <;> simp [heq, hindent] at hmem

/-- Every text can be taken apart. -/
theorem exists_isScan (lineStart : Bool) (t : Text) : ∃ ps, textOf ps = t ∧ IsScan lineStart ps := by
  match t with
  | [] => exact ⟨[], rfl, trivial⟩
  | c :: t =>
    by_cases hreads : lineStart = true ∧ ReadsImport (c :: t)
    · obtain ⟨hstart, w, rest, hline, hends⟩ := hreads
      have hlength : rest.length ≤ t.length := by
        have := List.length_pos_iff.2 w.text_ne_nil
        have := congrArg List.length hline
        rw [List.length_cons, List.length_append] at this
        omega
      obtain ⟨ps, hps, hscan⟩ := exists_isScan false rest
      exact ⟨.statement w :: ps, by rw [textOf_statement, hps, hline], hstart, hps ▸ hends, hscan⟩
    · obtain ⟨ps, hps, hscan⟩ := exists_isScan (c == '\n') t
      exact ⟨.plain c :: ps, by rw [textOf_plain, hps], fun hstart h => hreads ⟨hstart, hps ▸ h⟩, hscan⟩
termination_by t.length

/-- Behind a part that is passed over the scan goes on. -/
theorem importsFrom_passed : ∀ {s : Text} {c : Char} (_ : s.getLast? = some c) (t : Text) (lineStart : Bool) (offset : Nat),
    importsFrom s.length lineStart offset (s ++ t) = importsFrom 0 (c == '\n') (offset + size s) t
  | [], _, h, _, _, _ => by cases h
  | [d], c, h, t, lineStart, offset => by
    obtain rfl : d = c := by simpa using h
    simp [importsFrom]
  | d :: e :: s, c, h, t, lineStart, offset => by
    have ih := importsFrom_passed (s := e :: s) (by simpa using h) t (d == '\n') (offset + d.utf8Size)
    simp only [List.cons_append, List.length_cons, importsFrom, size_cons] at ih ⊢
    rw [ih]
    simp only [Nat.add_assoc]

/-- **The scan lists the statements among the parts.** -/
theorem importsFrom_textOf : ∀ {lineStart : Bool} {ps : List ImportPiece}, IsScan lineStart ps → ∀ offset,
    importsFrom 0 lineStart offset (textOf ps) = statementsOf offset ps
  | lineStart, [], _, offset => by simp [importsFrom, statementsOf]
  | lineStart, .plain c :: ps, h, offset => by
    have hnone : (if lineStart = true then importAt? offset (c :: textOf ps) else none) = none := by
      split
      · rename_i hstart
        exact Option.not_isSome_iff_eq_none.1 fun hsome => h.1 hstart (readsImport_iff_importAt?.2 hsome)
      · rfl
    rw [textOf_plain, importsFrom, hnone]
    exact importsFrom_textOf h.2 _
  | lineStart, .statement w :: ps, h, offset => by
    obtain ⟨hstart, hends, hscan⟩ := h
    have hread := w.importAt?_eq offset hends
    obtain ⟨c, s, hs⟩ := List.exists_cons_of_ne_nil w.text_ne_nil
    have hlast : ∃ d, s.getLast? = some d ∧ w.text.getLast? = some d := by
      cases s with
      | nil =>
        have : w.text.length = 1 := by rw [hs]; rfl
        rw [w.text_eq] at this
        simp [WrittenImport.opening, WrittenImport.lead] at this
        omega
      | cons d s => exact ⟨_, List.getLast?_eq_some_getLast (List.cons_ne_nil d s), by
          rw [hs, List.getLast?_cons_cons, List.getLast?_eq_some_getLast]⟩
    obtain ⟨d, hd, hd'⟩ := hlast
    have hnewline : (d == '\n') = false := by simpa using w.getLast?_text hd'
    have hlength : (s ++ textOf ps).length - (textOf ps).length = s.length := by simp
    rw [textOf_statement, hs, List.cons_append]
    rw [hs, List.cons_append] at hread
    simp only [importsFrom, hstart, if_true, hread, hlength]
    rw [importsFrom_passed hd, hnewline, importsFrom_textOf hscan, statementsOf, hs, size_cons, Nat.add_assoc]

theorem importsIn_textOf {ps : List ImportPiece} (h : IsScan true ps) : importsIn (textOf ps) = statementsOf 0 ps :=
  importsFrom_textOf h 0

/-- A statement that a scan lists is a part of the text, and the scan lists what stands before and behind it. -/
theorem exists_isScan_of_importsIn_eq {t : Text} {before after : List ImportStatement} {s : ImportStatement}
    (h : importsIn t = before ++ s :: after) : ∃ front w back, t = textOf (front ++ .statement w :: back) ∧
      IsScan true (front ++ .statement w :: back) ∧ before = statementsOf 0 front ∧
        s = w.statement (size (textOf front)) ∧ after = statementsOf (size (textOf front) + size w.text) back := by
  obtain ⟨ps, rfl, hscan⟩ := exists_isScan true t
  rw [importsIn_textOf hscan] at h
  obtain ⟨front, w, back, rfl, rfl, rfl, rfl⟩ := exists_of_statementsOf_eq h
  exact ⟨front, w, back, rfl, hscan, rfl, by rw [Nat.zero_add], by rw [Nat.zero_add]⟩

/-! ## Changes at a statement -/

theorem IsScan.behind {qs : List ImportPiece} : ∀ {ps : List ImportPiece} {lineStart : Bool},
    IsScan lineStart (ps ++ qs) → ∃ lineStart', IsScan lineStart' qs
  | [], lineStart, h => ⟨lineStart, h⟩
  | .plain _ :: _, _, h => IsScan.behind h.2
  | .statement _ :: _, _, h => IsScan.behind h.2.2

/-- What stands before a statement ends in a line break. -/
theorem IsScan.ends_line {front back : List ImportPiece} {w : WrittenImport} {lineStart : Bool}
    (h : IsScan lineStart (front ++ .statement w :: back)) (hne : front ≠ []) : ∃ u, textOf front = u ++ ['\n'] := by
  obtain ⟨front, p, rfl⟩ : ∃ front' p, front = front' ++ [p] :=
    ⟨front.dropLast, front.getLast hne, (List.dropLast_concat_getLast hne).symm⟩
  rw [List.append_assoc] at h
  obtain ⟨lineStart', hp⟩ := h.behind
  cases p with
  | plain c =>
    obtain rfl : c = '\n' := by simpa using hp.2.1
    exact ⟨textOf front, by simp⟩
  | statement w' => exact absurd hp.2.2.1 (by simp)

/-- A statement without a semicolon ends before a text that begins neither with one nor with a blank of the line. -/
theorem WrittenImport.endsBefore_iff {w : WrittenImport} {rest : Text} : w.EndsBefore rest ↔
    ';' ∈ w.ending ∨ ∀ c, rest.head? = some c → isIndentChar c = false ∧ c ≠ ';' := by
  obtain ⟨blanks, hblanks, hending⟩ := w.ends
  have hpass : ∀ t : Text, (blanks ++ t).dropWhile isIndentChar = t.dropWhile isIndentChar := fun t =>
    List.dropWhile_append_of_pos (by simpa using hblanks)
  have hnone : ';' ∉ blanks := fun hmem => absurd (List.all_eq_true.1 hblanks _ hmem) (by decide)
  rcases hending with heq | heq
  · simp only [EndsBefore, dropTerminator, heq, hpass, hnone, false_or]
    cases rest with
    | nil => simp
    | cons c rest =>
      simp only [List.head?_cons, Option.some.injEq, forall_eq']
      by_cases hc : isIndentChar c = true
      · have hle : (rest.dropWhile isIndentChar).length ≤ rest.length := (List.dropWhile_suffix _).length_le
        rw [List.dropWhile_cons_of_pos hc]
        refine iff_of_false (fun h => ?_) (by simp [hc])
        have hlength := congrArg List.length h
        split at hlength
        · rename_i rest' hrest
          rw [hrest] at hle
          simp only [List.length_cons] at hle hlength
          omega
        · simp only [List.length_cons] at hlength
          omega
      · rw [List.dropWhile_cons_of_neg hc]
        split
        · rename_i rest' hrest
          cases hrest
          exact iff_of_false (fun h => by simpa using congrArg List.length h) (by simp)
        · rename_i hne
          refine iff_of_true rfl ⟨by simpa using hc, ?_⟩
          rintro rfl
          exact hne rest rfl
  · refine iff_of_true ?_ (Or.inl (by simp [heq]))
    simp only [EndsBefore, dropTerminator, heq, List.append_assoc, hpass]
    rfl

theorem WrittenImport.EndsBefore.of_head {w : WrittenImport} {rest rest' : Text} (h : w.EndsBefore rest)
    (hhead : rest'.head? = rest.head?) : w.EndsBefore rest' := by
  rw [endsBefore_iff] at h ⊢
  rwa [hhead]

theorem WrittenImport.endsBefore_newline (w : WrittenImport) (rest : Text) : w.EndsBefore ('\n' :: rest) :=
  endsBefore_iff.2 (Or.inr fun c hc => by
    obtain rfl : '\n' = c := by simpa using hc
    decide)

/-- **What stands before a statement is taken apart in the same way if the text is changed at the statement**, provided
that the change does not show to the lines before it. -/
theorem IsScan.replace {w : WrittenImport} {back new : List ImportPiece}
    (hlines : ∀ u, ReadsImport (u ++ ['\n'] ++ textOf new) → ReadsImport (u ++ ['\n'] ++ (w.text ++ textOf back)))
    (hhead : (textOf new).head? = (w.text ++ textOf back).head?)
    (hnew : IsScan true (.statement w :: back) → IsScan true new) : ∀ {front : List ImportPiece} {lineStart : Bool},
    IsScan lineStart (front ++ .statement w :: back) → IsScan lineStart (front ++ new)
  | [], lineStart, h => by
    obtain rfl : lineStart = true := h.1
    exact hnew h
  | .plain c :: front, lineStart, h => by
    refine ⟨fun hstart hreads => h.1 hstart ?_, IsScan.replace hlines hhead hnew h.2⟩
    obtain ⟨u, hu⟩ := @IsScan.ends_line (.plain c :: front) _ _ _ h (by simp)
    rw [textOf_plain] at hu
    rw [List.append_eq, textOf_append, ← List.cons_append, hu] at hreads ⊢
    exact hlines u hreads
  | .statement w' :: front, lineStart, h => by
    refine ⟨h.1, h.2.1.of_head ?_, IsScan.replace hlines hhead hnew h.2.2⟩
    simp only [List.append_eq, textOf_append, List.head?_append, hhead, textOf_statement]

end StyleHoist
