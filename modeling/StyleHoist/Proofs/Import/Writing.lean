import StyleHoist.Import.Basic
import StyleHoist.Proofs.Registry.Names

/-!
# How import statements are written

An import statement is the keyword, then blanks, a clause and the word `from`, or blanks alone, and then a module name
between quotes. What is read from a line is described by how the statement is written (`WrittenImport`): a line reads as
an import statement if and only if a written one begins it (`importAt?_iff`).

The quotes are the only ones, so everything before the first of them can be told from the left, and the clause is what
is left when the word `from` and the blanks are taken off.
-/

namespace StyleHoist

open Text

/-! ## Quotes -/

/-- Whether no quote that may stand around a module name stands in a text. -/
def Unquoted (t : Text) : Prop := ∀ c ∈ t, quotesSource c = false

instance (t : Text) : Decidable (Unquoted t) := List.decidableBAll (fun c => quotesSource c = false) t

theorem Unquoted.append {s t : Text} (hs : Unquoted s) (ht : Unquoted t) : Unquoted (s ++ t) :=
  List.forall_mem_append.2 ⟨hs, ht⟩

theorem unquoted_of_isBlank {t : Text} (h : isBlank t = true) : Unquoted t := by
  intro c hc
  have hblank : isBlankChar c = true := by
    simp only [isBlank, List.all_eq_true] at h
    exact h c hc
  refine Bool.eq_false_iff.2 fun hquote => ?_
  simp only [quotesSource, Bool.or_eq_true, beq_iff_eq] at hquote
  rcases hquote with rfl | rfl <;> exact absurd hblank (by decide)

theorem isClauseChar_of_quotesSource {c : Char} (h : quotesSource c = true) : isClauseChar c = false := by
  simp only [quotesSource, Bool.or_eq_true, beq_iff_eq] at h
  rcases h with rfl | rfl <;> decide

theorem isBlankChar_of_quotesSource {c : Char} (h : quotesSource c = true) : isBlankChar c = false := by
  simp only [quotesSource, Bool.or_eq_true, beq_iff_eq] at h
  rcases h with rfl | rfl <;> decide

theorem unquoted_of_isClauseChar {t : Text} (h : ∀ c ∈ t, isClauseChar c = true) : Unquoted t := fun c hc =>
  Bool.eq_false_iff.2 fun hquote => by
    have := h c hc
    rw [isClauseChar_of_quotesSource hquote] at this
    cases this

/-- The first quote of a text is in one place. -/
theorem Unquoted.append_inj {x x' y y' : Text} {q q' : Char} (hx : Unquoted x) (hx' : Unquoted x')
    (hq : quotesSource q = true) (hq' : quotesSource q' = true) (h : x ++ q :: y = x' ++ q' :: y') :
    x = x' ∧ q :: y = q' :: y' := by
  have htake : ∀ {x y : Text} {q : Char}, Unquoted x → quotesSource q = true →
      (x ++ q :: y).takeWhile (fun c => !quotesSource c) = x := by
    intro x y q hx hq
    rw [List.takeWhile_append_of_pos fun c hc => by simp [hx c hc], List.takeWhile_cons_of_neg (by simp [hq]),
      List.append_nil]
  have heq : x = x' := by rw [← htake hx hq, h, htake hx' hq']
  subst heq
  exact ⟨rfl, List.append_cancel_left h⟩

/-! ## The module name -/

/-- A module name is read between quotes, and it is not empty. -/
theorem sourcePart?_iff {t name rest : Text} : sourcePart? t = some (name, rest) ↔
    ∃ q q', t = q :: name ++ q' :: rest ∧ quotesSource q = true ∧ quotesSource q' = true ∧ name ≠ [] ∧
      Unquoted name := by
  constructor
  · intro h
    cases t with
    | nil => simp [sourcePart?] at h
    | cons q t =>
      have ht : t.takeWhile (fun d => !quotesSource d) ++ t.dropWhile (fun d => !quotesSource d) = t :=
        List.takeWhile_append_dropWhile
      have hplain : Unquoted (t.takeWhile fun d => !quotesSource d) := fun c hc => by
        simpa using List.mem_takeWhile_imp hc
      have hhead := List.head?_dropWhile_not (fun d => !quotesSource d) t
      simp only [sourcePart?] at h
      split at h
      · rename_i q' rest' hdrop
        split at h
        · rename_i hname
          cases h
          simp only [Bool.and_eq_true, Bool.not_eq_true', List.isEmpty_eq_false_iff] at hname
          rw [hdrop] at ht hhead
          exact ⟨q, q', by rw [List.cons_append, ht], hname.1, by simpa using hhead, hname.2, hplain⟩
        · cases h
      · cases h
  · rintro ⟨q, q', rfl, hq, hq', hne, hplain⟩
    have hplain' : ∀ c ∈ name, (!quotesSource c) = true := fun c hc => by simp [hplain c hc]
    simp [sourcePart?, List.takeWhile_append_of_pos hplain', List.dropWhile_append_of_pos hplain', hq, hq', hne]

theorem head?_of_sourcePart? {t name rest : Text} (h : sourcePart? t = some (name, rest)) :
    ∃ q t', t = q :: t' ∧ quotesSource q = true := by
  obtain ⟨q, q', rfl, hq, -⟩ := sourcePart?_iff.1 h
  exact ⟨q, _, rfl, hq⟩

/-! ## The word before it -/

/-- The word that stands between a clause and a module name, and the blanks around it. -/
def IsLink (t : Text) : Prop :=
  ∃ a b, t = a ++ "from".toList ++ b ∧ isBlank a = true ∧ isBlank b = true

theorem isLink_from {b : Text} (hb : isBlank b = true) : IsLink ("from".toList ++ b) :=
  ⟨[], b, rfl, rfl, hb⟩

theorem IsLink.unquoted {t : Text} (h : IsLink t) : Unquoted t := by
  obtain ⟨a, b, rfl, ha, hb⟩ := h
  exact ((unquoted_of_isBlank ha).append (by decide)).append (unquoted_of_isBlank hb)

theorem fromPart?_iff {t name rest : Text} : fromPart? t = some (name, rest) ↔
    ∃ link y, t = link ++ y ∧ IsLink link ∧ sourcePart? y = some (name, rest) := by
  constructor
  · intro h
    obtain ⟨behind, hfrom, hsource⟩ := Option.bind_eq_some_iff.1 h
    refine ⟨t.takeWhile isBlankChar ++ "from".toList ++ behind.takeWhile isBlankChar, trimStart behind, ?_,
      ⟨_, _, rfl, List.all_takeWhile, List.all_takeWhile⟩, hsource⟩
    rw [List.append_assoc, takeWhile_append_trimStart, List.append_assoc, ← eq_append_of_dropPart? hfrom,
      takeWhile_append_trimStart]
  · rintro ⟨link, y, rfl, ⟨a, b, rfl, ha, hb⟩, hsource⟩
    obtain ⟨q, y', rfl, hq⟩ := head?_of_sourcePart? hsource
    have hfrom : trimStart (a ++ "from".toList ++ b ++ q :: y') = "from".toList ++ (b ++ q :: y') := by
      rw [List.append_assoc, List.append_assoc, trimStart_blank_append ha]
      exact trimStart_cons (by decide) _
    rw [fromPart?, hfrom, dropPart?_append, Option.bind_some, trimStart_blank_append hb,
      trimStart_cons (isBlankChar_of_quotesSource hq), hsource]

/-- The word and the blanks behind it can be told from the right. -/
theorem link_append_inj {x x' b b' : Text} (hb : isBlank b = true) (hb' : isBlank b' = true)
    (h : x ++ "from".toList ++ b = x' ++ "from".toList ++ b') : x = x' := by
  have hword : ∀ x b : Text, isBlank b = true → trimEnd (x ++ "from".toList ++ b) = x ++ "from".toList := by
    intro x b hb
    have hlast : x ++ "from".toList = x ++ "fro".toList ++ ['m'] := by simp
    rw [trimEnd_append_of_isBlank hb, hlast, trimEnd_concat (by decide)]
  have htrim := congrArg trimEnd h
  rw [hword x b hb, hword x' b' hb'] at htrim
  exact List.append_cancel_right htrim

/-- What stands before a link within a link is blank. -/
theorem isBlank_of_append_isLink {s link link' : Text} (hlink : IsLink link) (hlink' : IsLink link')
    (h : s ++ link = link') : isBlank s = true := by
  obtain ⟨a, b, rfl, -, hb⟩ := hlink
  obtain ⟨a', b', rfl, ha', hb'⟩ := hlink'
  have hsplit : s ++ a = a' := link_append_inj hb hb' (by rw [← h]; simp only [List.append_assoc])
  rw [← hsplit, isBlank_append, Bool.and_eq_true] at ha'
  exact ha'.1

/-! ## The clause -/

/-- A clause is read up to the first place behind its first character where a link follows, so it does not end in a
blank unless that is all of it. -/
theorem exists_link_of_clausePart? : ∀ {t clause name rest : Text}, clausePart? t = some (clause, name, rest) →
    ∃ link y, t = clause ++ link ++ y ∧ IsLink link ∧ sourcePart? y = some (name, rest) ∧ clause ≠ [] ∧
      (∀ c ∈ clause, isClauseChar c = true) ∧ (2 ≤ clause.length → ∀ c, clause.getLast? = some c → isBlankChar c = false)
  | [], clause, name, rest, h => by simp [clausePart?] at h
  | c :: t, clause, name, rest, h => by
    simp only [clausePart?] at h
    split at h
    · rename_i hc
      split at h
      · rename_i found hfrom
        cases h
        obtain ⟨link, y, rfl, hlink, hsource⟩ := fromPart?_iff.1 hfrom
        exact ⟨link, y, rfl, hlink, hsource, List.cons_ne_nil _ _, by simpa using hc, by simp⟩
      · rename_i hfrom
        obtain ⟨⟨clause', name', rest'⟩, hclause, heq⟩ := Option.map_eq_some_iff.1 h
        cases heq
        obtain ⟨link, y, rfl, hlink, hsource, hne, hchars, hlast⟩ := exists_link_of_clausePart? hclause
        refine ⟨link, y, rfl, hlink, hsource, List.cons_ne_nil _ _, List.forall_mem_cons.2 ⟨hc, hchars⟩, fun _ d hd => ?_⟩
        obtain ⟨e, clause', rfl⟩ := List.exists_cons_of_ne_nil hne
        rw [List.getLast?_cons_cons] at hd
        cases clause' with
        | nil =>
          -- A lone blank would have been part of the link.
          obtain rfl : e = d := by simpa using hd
          refine Bool.eq_false_iff.2 fun hblank => ?_
          obtain ⟨a, b, rfl, ha, hb⟩ := hlink
          have hfound : fromPart? ([e] ++ (a ++ "from".toList ++ b) ++ y) = some (name, rest) :=
            fromPart?_iff.2 ⟨e :: a ++ "from".toList ++ b, y, by simp,
              ⟨e :: a, b, rfl, by simpa [isBlank] using ⟨hblank, by simpa [isBlank] using ha⟩, hb⟩, hsource⟩
          rw [hfound] at hfrom
          cases hfrom
        | cons f clause' => exact hlast (by simp) d hd
    · cases h

/-- No link and module name begin a text that goes on with a link only behind a character that is no blank. -/
theorem fromPart?_eq_none {clause link y name rest : Text} (hne : clause ≠ [])
    (hchars : ∀ c ∈ clause, isClauseChar c = true) (hlast : ∀ c, clause.getLast? = some c → isBlankChar c = false)
    (hlink : IsLink link) (hsource : sourcePart? y = some (name, rest)) : fromPart? (clause ++ link ++ y) = none := by
  refine Option.eq_none_iff_forall_not_mem.2 fun found hfound => ?_
  obtain ⟨link', y', heq, hlink', hsource'⟩ := fromPart?_iff.1 hfound
  obtain ⟨q, z, rfl, hq⟩ := head?_of_sourcePart? hsource
  obtain ⟨q', z', rfl, hq'⟩ := head?_of_sourcePart? hsource'
  have hlinks := (((unquoted_of_isClauseChar hchars).append hlink.unquoted).append_inj hlink'.unquoted hq hq' heq).1
  have hblank := isBlank_of_append_isLink hlink hlink' hlinks
  have hlastBlank : isBlankChar (clause.getLast hne) = true := by
    simp only [isBlank, List.all_eq_true] at hblank
    exact hblank _ (List.getLast_mem _)
  rw [hlast _ (List.getLast?_eq_some_getLast _)] at hlastBlank
  cases hlastBlank

theorem clausePart?_append {link y name rest : Text} (hlink : IsLink link) (hsource : sourcePart? y = some (name, rest)) :
    ∀ {clause : Text}, clause ≠ [] → (∀ c ∈ clause, isClauseChar c = true) →
      (2 ≤ clause.length → ∀ c, clause.getLast? = some c → isBlankChar c = false) →
        clausePart? (clause ++ link ++ y) = some (clause, name, rest)
  | [], hne, _, _ => absurd rfl hne
  | [c], _, hchars, _ => by
    rw [List.append_assoc, List.singleton_append, clausePart?, if_pos (hchars c (by simp)),
      fromPart?_iff.2 ⟨link, y, rfl, hlink, hsource⟩]
  | c :: d :: clause, _, hchars, hlast => by
    have hne : d :: clause ≠ [] := List.cons_ne_nil _ _
    have hchars' : ∀ e ∈ d :: clause, isClauseChar e = true := fun e he => hchars e (List.mem_cons_of_mem c he)
    have hlast' : ∀ e, (d :: clause).getLast? = some e → isBlankChar e = false := hlast (by simp)
    have ih := clausePart?_append hlink hsource hne hchars' fun _ => hlast'
    rw [List.cons_append, List.cons_append, clausePart?, if_pos (hchars c (by simp)),
      fromPart?_eq_none hne hchars' hlast' hlink hsource, ih]
    rfl

theorem clausePart?_iff {t clause name rest : Text} : clausePart? t = some (clause, name, rest) ↔
    ∃ link y, t = clause ++ link ++ y ∧ IsLink link ∧ sourcePart? y = some (name, rest) ∧ clause ≠ [] ∧
      (∀ c ∈ clause, isClauseChar c = true) ∧ (2 ≤ clause.length → ∀ c, clause.getLast? = some c → isBlankChar c = false) := by
  refine ⟨exists_link_of_clausePart?, ?_⟩
  rintro ⟨link, y, rfl, hlink, hsource, hne, hchars, hlast⟩
  exact clausePart?_append hlink hsource hne hchars hlast

/-! ## What stands before the module name -/

/-- What stands between the keyword and the module name: blanks, a clause and a link, or blanks alone. -/
inductive ImportHead : (gap : Text) → (clause : Option Text) → (link : Text) → Prop
  | effects {gap : Text} (hne : gap ≠ []) (hgap : isBlank gap = true) : ImportHead gap none []
  | binds {gap clause link : Text} (hne : gap ≠ []) (hgap : isBlank gap = true) (hclause : clause ≠ [])
      (hchars : ∀ c ∈ clause, isClauseChar c = true) (hstart : ∀ c, clause.head? = some c → isBlankChar c = false)
      (hend : ∀ c, clause.getLast? = some c → isBlankChar c = false) (hlink : IsLink link) :
      ImportHead gap (some clause) link
  /-- The last of several blanks is the clause where no other stands before the word. -/
  | lone {gap blanks : Text} {c : Char} (hne : gap ≠ []) (hgap : isBlank gap = true) (hc : isBlankChar c = true)
      (hblanks : isBlank blanks = true) : ImportHead gap (some [c]) ("from".toList ++ blanks)

theorem clausePart?_eq_none_of_quote {q : Char} (hq : quotesSource q = true) (t : Text) :
    clausePart? (q :: t) = none := by
  rw [clausePart?, if_neg (by simp [isClauseChar_of_quotesSource hq])]

theorem sourcePart?_eq_none {c : Char} (hc : quotesSource c = false) (t : Text) : sourcePart? (c :: t) = none := by
  simp only [sourcePart?, hc]
  split <;> simp

theorem takeWhile_blank_append {a t : Text} (ha : isBlank a = true) (ht : ∀ c, t.head? = some c → isBlankChar c = false) :
    (a ++ t).takeWhile isBlankChar = a ∧ trimStart (a ++ t) = t := by
  rw [List.takeWhile_append_of_pos (by simpa [isBlank] using ha), trimStart_blank_append ha]
  cases t with
  | nil => simp [trimStart]
  | cons c t =>
    rw [List.takeWhile_cons_of_neg (by simp [ht c rfl]), List.append_nil, trimStart_cons (ht c rfl)]
    exact ⟨rfl, rfl⟩

/-- Two blanks or more are blanks and a last one. -/
theorem isBlank_dropLast {t : Text} (h : isBlank t = true) (hlength : 2 ≤ t.length) :
    ∃ gap c, t = gap ++ [c] ∧ gap ≠ [] ∧ isBlank gap = true ∧ isBlankChar c = true := by
  have hne : t ≠ [] := List.ne_nil_of_length_pos (by omega)
  have hsplit : t = t.dropLast ++ [t.getLast hne] := (List.dropLast_concat_getLast hne).symm
  have hdrop : t.dropLast ≠ [] := List.ne_nil_of_length_pos (by rw [List.length_dropLast]; omega)
  generalize t.dropLast = gap at hsplit hdrop
  generalize t.getLast hne = c at hsplit
  subst hsplit
  rw [isBlank_append, Bool.and_eq_true] at h
  exact ⟨gap, c, rfl, hdrop, h.1, by simpa [isBlank] using h.2⟩

theorem importHead_of_importBody? {t : Text} {part : ImportPart} (h : importBody? t = some part) :
    ∃ link y, t = part.gap ++ part.clause.getD [] ++ link ++ y ∧ ImportHead part.gap part.clause link ∧
      sourcePart? y = some (part.source, part.rest) := by
  have ht := (takeWhile_append_trimStart t).symm
  have hblank : isBlank (t.takeWhile isBlankChar) = true := List.all_takeWhile
  have hhead : ∀ c, (trimStart t).head? = some c → isBlankChar c = false := fun c hc => by
    have := List.head?_dropWhile_not isBlankChar t
    rw [show (t.dropWhile isBlankChar).head? = some c from hc] at this
    exact this
  simp only [importBody?] at h
  generalize t.takeWhile isBlankChar = gap at ht h hblank
  generalize trimStart t = trimmed at ht h hhead
  split at h
  · cases h
  · rename_i hgap
    have hne : gap ≠ [] := by simpa using hgap
    split at h
    · rename_i clause source rest hclause
      cases h
      obtain ⟨link, y, rfl, hlink, hsource, hne', hchars, hlast⟩ := clausePart?_iff.1 hclause
      have hstart : ∀ c, clause.head? = some c → isBlankChar c = false := fun c hc => by
        refine hhead c ?_
        rw [List.append_assoc, List.head?_append, hc]
        rfl
      refine ⟨link, y, by rw [ht]; simp, .binds hne hblank hne' hchars hstart (fun c hc => ?_) hlink, hsource⟩
      obtain ⟨d, clause, rfl⟩ := List.exists_cons_of_ne_nil hne'
      cases clause with
      | nil => exact hstart c hc
      | cons e clause => exact hlast (by simp) c hc
    · rename_i source rest _ hsource
      cases h
      exact ⟨[], trimmed, by simpa using ht, .effects hne hblank, hsource⟩
    · rename_i source rest _ _ hfrom
      split at h
      · rename_i hlength
        cases h
        obtain ⟨link, y, rfl, ⟨a, b, rfl, ha, hb⟩, hsource⟩ := fromPart?_iff.1 hfrom
        obtain rfl : a = [] := by
          cases a with
          | nil => rfl
          | cons c a =>
            have hc := hhead c rfl
            simp only [isBlank, List.all_cons, hc, Bool.false_and] at ha
            cases ha
        obtain ⟨gap, c, rfl, hdrop, hgap, hc⟩ := isBlank_dropLast hblank hlength
        rw [List.getLast?_concat, List.dropLast_concat]
        exact ⟨"from".toList ++ b, y, by rw [ht]; simp, .lone hdrop hgap hc hb, hsource⟩
      · cases h
    · cases h

/-- The word itself is not read as a clause where blanks and a quote follow it. -/
theorem clausePart?_eq_none_of_word {blanks z : Text} {q : Char} (hblanks : isBlank blanks = true)
    (hq : quotesSource q = true) : clausePart? ("from".toList ++ blanks ++ q :: z) = none := by
  have hlink := isLink_from hblanks
  rw [Option.eq_none_iff_forall_not_mem]
  rintro ⟨clause, name, rest⟩ hfound
  obtain ⟨link', y', heq, hlink', hsource', hne', hchars, -⟩ := clausePart?_iff.1 hfound
  obtain ⟨q', z', rfl, hq'⟩ := head?_of_sourcePart? hsource'
  have hlinks := (hlink.unquoted.append_inj ((unquoted_of_isClauseChar hchars).append hlink'.unquoted) hq hq' heq).1
  obtain ⟨a, b, rfl, ha, hb⟩ := hlink'
  have : [] = clause ++ a := link_append_inj hblanks hb (by simpa using hlinks)
  exact hne' (List.append_eq_nil_iff.1 this.symm).1

theorem importBody?_of_importHead {gap link y source rest : Text} {clause : Option Text} (h : ImportHead gap clause link)
    (hsource : sourcePart? y = some (source, rest)) :
    importBody? (gap ++ clause.getD [] ++ link ++ y) = some ⟨gap, clause, source, rest⟩ := by
  obtain ⟨q, z, rfl, hq⟩ := head?_of_sourcePart? hsource
  have hqz : ∀ c, (q :: z).head? = some c → isBlankChar c = false := fun c hc =>
    Option.some.inj hc ▸ isBlankChar_of_quotesSource hq
  cases h with
  | effects hne hgap =>
    obtain ⟨htake, htrim⟩ := takeWhile_blank_append hgap hqz
    simp only [Option.getD_none, List.append_nil, importBody?, htake, htrim, List.isEmpty_eq_false_iff.2 hne, hsource,
      clausePart?_eq_none_of_quote hq]
    rfl
  | binds hne hgap hclause hchars hstart hend hlink =>
    rename_i clause
    have hhead : ∀ c, (clause ++ link ++ q :: z).head? = some c → isBlankChar c = false := fun c hc => by
      obtain ⟨d, clause, rfl⟩ := List.exists_cons_of_ne_nil hclause
      exact hstart c hc
    have hfound : clausePart? (clause ++ link ++ q :: z) = some (clause, source, rest) :=
      clausePart?_iff.2 ⟨link, _, rfl, hlink, hsource, hclause, hchars, fun _ => hend⟩
    obtain ⟨htake, htrim⟩ := takeWhile_blank_append hgap hhead
    rw [Option.getD_some, List.append_assoc gap, List.append_assoc gap]
    simp only [importBody?, htake, htrim, List.isEmpty_eq_false_iff.2 hne, hfound]
    rfl
  | lone hne hgap hc hblanks =>
    rename_i blanks c
    have hblank : isBlank (gap ++ [c]) = true := by
      rw [isBlank_append, hgap]
      simpa [isBlank] using hc
    have hlink := isLink_from hblanks
    have hfrom : fromPart? ("from".toList ++ blanks ++ q :: z) = some (source, rest) :=
      fromPart?_iff.2 ⟨_, _, rfl, hlink, hsource⟩
    have hnone : clausePart? ("from".toList ++ blanks ++ q :: z) = none := clausePart?_eq_none_of_word hblanks hq
    have hhead : ∀ c, ("from".toList ++ blanks ++ q :: z).head? = some c → isBlankChar c = false := fun c hc =>
      Option.some.inj hc ▸ by decide
    obtain ⟨htake, htrim⟩ := takeWhile_blank_append hblank hhead
    have hsplit : gap ++ (some [c]).getD [] ++ ("from".toList ++ blanks) ++ q :: z =
        gap ++ [c] ++ ("from".toList ++ blanks ++ q :: z) := by simp
    have hlength : 2 ≤ (gap ++ [c]).length := by
      have := List.length_pos_iff.2 hne
      simp
      omega
    have hnoSource : sourcePart? ("from".toList ++ blanks ++ q :: z) = none := sourcePart?_eq_none (by decide) _
    rw [hsplit]
    simp only [importBody?, htake, htrim, hnone, hnoSource, hfrom, if_pos hlength]
    simp

/-! ## Statements -/

/-- An import statement as it is written. -/
structure WrittenImport where
  indent : Text
  gap : Text
  clause : Option Text
  link : Text
  /-- The quotes around the module name; they need not agree. -/
  quotes : Char × Char
  source : Text
  /-- Blanks behind the statement, and its semicolon if it has one. -/
  ending : Text
  isIndent : indent.all isIndentChar = true
  head : ImportHead gap clause link
  opens : quotesSource quotes.1 = true
  closes : quotesSource quotes.2 = true
  named : source ≠ []
  plain : Unquoted source
  ends : ∃ blanks, blanks.all isIndentChar = true ∧ (ending = blanks ∨ ending = blanks ++ [';'])

namespace WrittenImport

/-- What stands before the clause. -/
def lead (w : WrittenImport) : Text :=
  w.indent ++ "import".toList ++ w.gap

/-- What stands behind the clause. -/
def tail (w : WrittenImport) : Text :=
  w.link ++ w.quotes.1 :: w.source ++ w.quotes.2 :: w.ending

/-- The text of a statement. -/
def text (w : WrittenImport) : Text :=
  w.lead ++ w.clause.getD [] ++ w.tail

/-- What a statement at an offset says. -/
def statement (w : WrittenImport) (offset : Nat) : ImportStatement :=
  ⟨w.clause.map fun c => ⟨offset + size w.lead, c⟩, w.source, offset + size w.text⟩

/-- A statement ends before a text: it has its semicolon, or the text goes on neither with a blank nor with one. -/
def EndsBefore (w : WrittenImport) (rest : Text) : Prop :=
  dropTerminator (w.ending ++ rest) = rest

end WrittenImport

theorem dropTerminator_append (t : Text) : ∃ blanks ending, t = ending ++ dropTerminator t ∧
    blanks.all isIndentChar = true ∧ (ending = blanks ∨ ending = blanks ++ [';']) := by
  have ht : t.takeWhile isIndentChar ++ t.dropWhile isIndentChar = t := List.takeWhile_append_dropWhile
  refine ⟨t.takeWhile isIndentChar, ?_⟩
  simp only [dropTerminator]
  split
  · rename_i rest hrest
    rw [hrest] at ht
    exact ⟨t.takeWhile isIndentChar ++ [';'], by simpa using ht.symm, List.all_takeWhile, Or.inr rfl⟩
  · exact ⟨t.takeWhile isIndentChar, ht.symm, List.all_takeWhile, Or.inl rfl⟩

/-- What is read from a line is written at its beginning. -/
theorem exists_written_of_importAt? {offset : Nat} {line rest : Text} {s : ImportStatement}
    (h : importAt? offset line = some (s, rest)) :
    ∃ w : WrittenImport, line = w.text ++ rest ∧ w.EndsBefore rest ∧ s = w.statement offset := by
  simp only [importAt?, Option.bind_eq_bind, Option.bind_eq_some_iff] at h
  obtain ⟨body, hword, part, hpart, hs⟩ := h
  cases hs
  obtain ⟨link, y, hbody, hhead, hsource⟩ := importHead_of_importBody? hpart
  obtain ⟨q, q', rfl, hq, hq', hne, hplain⟩ := sourcePart?_iff.1 hsource
  obtain ⟨blanks, ending, hrest, hblanks, hending⟩ := dropTerminator_append part.rest
  obtain ⟨w, hindent, hgap, hclause, hname, htail, hends⟩ : ∃ w : WrittenImport, w.indent = line.takeWhile isIndentChar ∧
      w.gap = part.gap ∧ w.clause = part.clause ∧ w.source = part.source ∧
      w.tail ++ dropTerminator part.rest = link ++ (q :: part.source ++ q' :: part.rest) ∧
      w.ending ++ dropTerminator part.rest = part.rest :=
    ⟨⟨line.takeWhile isIndentChar, part.gap, part.clause, link, (q, q'), part.source, ending, List.all_takeWhile, hhead,
      hq, hq', hne, hplain, blanks, hblanks, hending⟩, rfl, rfl, rfl, rfl,
      by conv => rhs; rw [hrest]
         simp [WrittenImport.tail], hrest.symm⟩
  have hline : line = w.indent ++ ("import".toList ++ body) := by
    rw [hindent, ← eq_append_of_dropPart? hword, List.takeWhile_append_dropWhile]
  have htext : line = w.text ++ dropTerminator part.rest := by
    rw [hline, hbody, WrittenImport.text, List.append_assoc (w.lead ++ _), htail, WrittenImport.lead, hgap, hclause]
    simp only [List.append_assoc]
  refine ⟨w, htext, by rw [WrittenImport.EndsBefore, hends], ?_⟩
  have hsize := congrArg size hline
  have hsize' := congrArg size htext
  simp only [size_append] at hsize hsize'
  have hlead : offset + (size line - size body) + size part.gap = offset + size w.lead := by
    simp only [WrittenImport.lead, size_append, hgap]
    omega
  have hstop : offset + (size line - size (dropTerminator part.rest)) = offset + size w.text := by omega
  rw [WrittenImport.statement, hclause, hname, hlead, hstop]

/-- What is written at the beginning of a line is read from it. -/
theorem WrittenImport.importAt?_eq (w : WrittenImport) (offset : Nat) {rest : Text} (h : w.EndsBefore rest) :
    importAt? offset (w.text ++ rest) = some (w.statement offset, rest) := by
  have hindent : (w.text ++ rest).dropWhile isIndentChar =
      "import".toList ++ (w.gap ++ w.clause.getD [] ++ w.tail ++ rest) := by
    simp only [text, lead, List.append_assoc]
    rw [List.dropWhile_append_of_pos (by simpa using w.isIndent)]
    rfl
  have hsource : sourcePart? (w.quotes.1 :: w.source ++ w.quotes.2 :: (w.ending ++ rest)) =
      some (w.source, w.ending ++ rest) :=
    sourcePart?_iff.2 ⟨_, _, rfl, w.opens, w.closes, w.named, w.plain⟩
  have hbody : importBody? (w.gap ++ w.clause.getD [] ++ w.tail ++ rest) =
      some ⟨w.gap, w.clause, w.source, w.ending ++ rest⟩ := by
    rw [← importBody?_of_importHead w.head hsource]
    simp [tail]
  have hends : dropTerminator (w.ending ++ rest) = rest := h
  have hlead : size (w.text ++ rest) - size (w.gap ++ w.clause.getD [] ++ w.tail ++ rest) + size w.gap = size w.lead := by
    simp only [text, lead, size_append]
    omega
  have hstop : size (w.text ++ rest) - size rest = size w.text := by
    rw [size_append]
    omega
  rw [importAt?, hindent, dropPart?_append]
  simp only [Option.bind_eq_bind, Option.bind_some, hbody, hends, Option.pure_def, statement, Nat.add_assoc, hlead, hstop]

/-- **A line reads as an import statement if and only if one is written at its beginning.** -/
theorem importAt?_iff {offset : Nat} {line rest : Text} {s : ImportStatement} :
    importAt? offset line = some (s, rest) ↔
      ∃ w : WrittenImport, line = w.text ++ rest ∧ w.EndsBefore rest ∧ s = w.statement offset :=
  ⟨exists_written_of_importAt?, fun ⟨w, hline, hends, hs⟩ => hline ▸ hs ▸ w.importAt?_eq offset hends⟩

end StyleHoist
