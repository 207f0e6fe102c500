import StyleHoist.Proofs.Import.Clause
import StyleHoist.Proofs.Import.Position
import StyleHoist.Proofs.Import.Scanning

/-!
# What importing the factory does to the imports

The edit that imports the factory writes the clause of one statement anew, or it adds a statement. Either way all other
statements are found again where they have moved to (`exists_importsIn_joined`, `exists_importsIn_behind`,
`importsIn_first`).

That the right statement is changed (`AddsImport`) depends on which one is taken for an import of values. The edit goes
by how the clause begins: a clause that begins with `type` and a space counts as one of types. Whether its choice is right
is decided by the bindings of the clauses (`addsImport_iff`).
-/

namespace StyleHoist

open Text ImportPiece

/-! ## The joined clause in its statement -/

namespace Joins

variable {clause joined : Text}

theorem isClauseChar (h : Joins clause joined) (hclause : ∀ c ∈ clause, isClauseChar c = true) :
    ∀ c ∈ joined, StyleHoist.isClauseChar c = true := by
  cases h with
  | behind _ => exact List.forall_mem_append.2 ⟨hclause, List.all_eq_true.1 (by decide)⟩
  | among hlist =>
    rename_i before inner rest
    have hnames : ∀ c ∈ joinedNames inner, StyleHoist.isClauseChar c = true := by
      have hinner : ∀ c ∈ inner, StyleHoist.isClauseChar c = true := fun c hc => hclause c (by simp [hc])
      have hfactory : ∀ c ∈ registryFactory, StyleHoist.isClauseChar c = true := List.all_eq_true.1 (by decide)
      have hcomma : StyleHoist.isClauseChar ',' = true := by decide
      simp only [joinedNames]
      split
      · exact List.all_eq_true.1 (by decide)
      · refine List.forall_mem_append.2 ⟨List.forall_mem_append.2 ⟨?_, ?_⟩, ?_⟩
        · exact fun c hc => hinner c ((prefix_trimEnd inner).subset hc)
        · simp only [joiningText]
          split
          · split
            · simp only [List.cons_append, List.forall_mem_cons, List.forall_mem_append]
              exact ⟨by decide, ⟨isClauseChar_of_isBlank List.all_takeWhile, hfactory⟩, hcomma, by simp⟩
            · exact List.forall_mem_cons.2 ⟨by decide, hfactory⟩
          · exact List.forall_mem_append.2 ⟨List.all_eq_true.1 (by decide), hfactory⟩
        · exact fun c hc => hinner c (List.mem_of_mem_drop hc)
    simp only [List.forall_mem_append, List.forall_mem_cons] at hclause ⊢
    exact ⟨⟨hclause.1.1, hclause.1.2.1, hnames⟩, hclause.2⟩

theorem infix_factory (h : Joins clause joined) : registryFactory <:+: joined := by
  cases h with
  | behind _ =>
    have hlist : registryFactory <:+: ", ".toList ++ soleList := ⟨", \x7b ".toList, " \x7d".toList, by decide⟩
    exact hlist.trans (List.suffix_append _ _).isInfix
  | among hlist =>
    rename_i before inner rest
    have hnames : registryFactory <:+: joinedNames inner := by
      simp only [joinedNames]
      split
      · exact ⟨[' '], [' '], by decide⟩
      · have hjoining : registryFactory <:+: joiningText inner := by
          simp only [joiningText]
          split
          · split
            · exact ⟨_, _, rfl⟩
            · exact ⟨[' '], [], by simp⟩
          · exact ⟨", ".toList, [], by simp⟩
        exact hjoining.trans ⟨trimEnd inner, _, rfl⟩
    exact hnames.trans ⟨before ++ ['\x7b'], '\x7d' :: rest, by simp⟩

theorem head? (h : Joins clause joined) (hne : clause ≠ []) : joined.head? = clause.head? := by
  cases h with
  | behind _ =>
    obtain ⟨c, clause, rfl⟩ := List.exists_cons_of_ne_nil hne
    rfl
  | among hlist =>
    rename_i before inner rest
    cases before <;> rfl

theorem getLast? (h : Joins clause joined) {c : Char} (hc : joined.getLast? = some c) :
    c = '\x7d' ∨ clause.getLast? = some c := by
  cases h with
  | behind _ =>
    have hlist : (", ".toList ++ soleList).getLast? = some '\x7d' := by decide
    rw [List.getLast?_append, hlist] at hc
    exact Or.inl (Option.some.inj hc).symm
  | among hlist =>
    rename_i before inner rest
    rw [List.getLast?_append_of_ne_nil _ (List.cons_ne_nil _ _)] at hc ⊢
    exact Or.inr hc

theorem eq_of_singleton {c : Char} (h : Joins [c] joined) : joined = [c] ++ (", ".toList ++ soleList) := by
  generalize hclause : [c] = clause at h
  cases h with
  | behind _ => rfl
  | among hlist =>
    have := congrArg List.length hclause
    simp only [List.length_append, List.length_cons, List.length_nil] at this
    omega

end Joins

theorem isBlankChar_open : isBlankChar '\x7b' = false := by decide

theorem isBlankChar_close : isBlankChar '\x7d' = false := by decide

theorem eq_false_of_eq_some {p : Char → Bool} {found : Option Char} {d : Char} (hfound : found = some d)
    (hd : p d = false) : ∀ c, found = some c → p c = false := by
  rintro c rfl
  obtain rfl := Option.some.inj hfound
  exact hd

/-- How a statement is written once its clause is joined. A lone blank in the place of a clause is no part of the
clause that comes out. -/
theorem exists_written_of_joins {w : WrittenImport} {clause joined : Text} (hclause : w.clause = some clause)
    (h : Joins clause joined) : ∃ w' : WrittenImport, w'.text = w.lead ++ joined ++ w.tail ∧ w'.source = w.source ∧
      (∀ rest, w.EndsBefore rest → w'.EndsBefore rest) ∧ (∃ c, w'.clause = some c ∧ registryFactory <:+: c) ∧
      (isBlank clause = false → w'.lead = w.lead ∧ w'.clause = some joined) := by
  obtain ⟨indent, gap, clause', link, quotes, source, ending, isIndent, head, opens, closes, named, plain, ends⟩ := w
  simp only at hclause
  subst hclause
  cases head with
  | binds hne hgap hclause hchars hstart hend hlink =>
    have hjoined : joined ≠ [] := fun hnil => by
      have := h.infix_factory
      rw [hnil] at this
      exact absurd (List.infix_nil.1 this) (by decide)
    have hhead : ImportHead gap (some joined) link :=
      .binds hne hgap hjoined (h.isClauseChar hchars) (fun c hc => hstart c (h.head? hclause ▸ hc)) (fun c hc => by
        rcases h.getLast? hc with rfl | hlast
        · decide
        · exact hend c hlast) hlink
    exact ⟨⟨indent, gap, some joined, link, quotes, source, ending, isIndent, hhead, opens, closes, named, plain, ends⟩,
      rfl, rfl, fun _ hends => hends, ⟨joined, rfl, h.infix_factory⟩, fun _ => ⟨rfl, rfl⟩⟩
  | lone hne hgap hc hblanks =>
    rename_i blanks c
    have hblank : isBlank [c] = true := by simpa [isBlank] using hc
    obtain rfl := h.eq_of_singleton
    have hhead : ImportHead (gap ++ [c]) (some (", ".toList ++ soleList)) ("from".toList ++ blanks) :=
      .binds (by simp) (by rw [isBlank_append, hgap, hblank]; rfl) (by decide) (List.all_eq_true.1 (by decide))
        (eq_false_of_eq_some (by decide) isBlankChar_comma) (eq_false_of_eq_some (by decide) isBlankChar_close)
        ⟨[], blanks, rfl, rfl, hblanks⟩
    refine ⟨⟨indent, gap ++ [c], some (", ".toList ++ soleList), "from".toList ++ blanks, quotes, source, ending,
      isIndent, hhead, opens, closes, named, plain, ends⟩, ?_, rfl, fun _ hends => hends, ⟨_, rfl, ?_⟩, fun hfalse => ?_⟩
    · simp [WrittenImport.text, WrittenImport.lead, WrittenImport.tail]
    · exact ⟨", \x7b ".toList, " \x7d".toList, by decide⟩
    · rw [hblank] at hfalse
      cases hfalse

/-! ## Scans of a changed text -/

/-- A statement that stands at another offset. -/
def ImportStatement.moved (s : ImportStatement) (old new : Nat) : ImportStatement :=
  ⟨s.clause.map fun c => ⟨c.start + new - old, c.text⟩, s.source, s.stop + new - old⟩

theorem statementsOf_add (old new : Nat) (ps : List ImportPiece) : ∀ n,
    statementsOf (new + n) ps = (statementsOf (old + n) ps).map (·.moved old new) := by
  induction ps with
  | nil => simp [statementsOf]
  | cons p ps ih =>
    intro n
    cases p with
    | plain c =>
      simp only [statementsOf, Nat.add_assoc]
      exact ih _
    | statement w =>
      have hstart : ∀ k, old + n + k + new - old = new + n + k := by omega
      simp only [statementsOf, List.map_cons, List.cons.injEq]
      refine ⟨?_, by simp only [Nat.add_assoc]; exact ih _⟩
      simp only [WrittenImport.statement, ImportStatement.moved, hstart, Option.map_map, Function.comp_def]

/-- Statements behind a change are the same, and have moved. -/
theorem statementsOf_moved (old new : Nat) (ps : List ImportPiece) :
    statementsOf new ps = (statementsOf old ps).map (·.moved old new) := statementsOf_add old new ps 0

/-- The statement that imports the factory alone. -/
def soleImport : WrittenImport where
  indent := []
  gap := [' ']
  clause := some soleList
  link := " from ".toList
  quotes := ('\x27', '\x27')
  source := componentModule
  ending := [';']
  isIndent := rfl
  head := .binds (by decide) (by decide) (by decide) (List.all_eq_true.1 (by decide))
    (eq_false_of_eq_some (by decide) isBlankChar_open) (eq_false_of_eq_some (by decide) isBlankChar_close)
    ⟨[' '], [' '], by decide, by decide, by decide⟩
  opens := by decide
  closes := by decide
  named := by decide
  plain := by decide
  ends := ⟨[], rfl, Or.inr rfl⟩

theorem soleImport_text : soleImport.text = importText := by decide

theorem soleImport_endsBefore (rest : Text) : soleImport.EndsBefore rest := rfl

section Scans

variable {t : Text} {before after : List ImportStatement} {s : ImportStatement}

/-- **A joined clause changes its own statement only.** -/
theorem exists_importsIn_joined {c : ImportClause} {joined : Text} (hs : importsIn t = before ++ s :: after)
    (hc : s.clause = some c) (hjoins : Joins c.text joined) : ∃ a b s', t = a ++ c.text ++ b ∧ size a = c.start ∧
      importsIn (a ++ joined ++ b) = before ++ s' :: after.map (·.moved s.stop s'.stop) ∧ s'.source = s.source ∧
        (∃ c', s'.clause = some c' ∧ registryFactory <:+: c'.text) ∧
          (isBlank c.text = false → s'.clause = some ⟨c.start, joined⟩) := by
  obtain ⟨front, w, back, rfl, hscan, rfl, rfl, rfl⟩ := exists_isScan_of_importsIn_eq hs
  obtain ⟨clause, hclause, rfl⟩ := Option.map_eq_some_iff.1 hc
  obtain ⟨w', htext, hsource, hends, ⟨c', hc', hinfix⟩, hplain⟩ := exists_written_of_joins hclause hjoins
  have hold : w.text = w.lead ++ clause ++ w.tail := by rw [WrittenImport.text, hclause, Option.getD_some]
  have hjoined : Unquoted joined := by
    have hchars := (isHead_of_importHead w.head).chars
    rw [hclause] at hchars
    exact unquoted_of_isClauseChar (hjoins.isClauseChar fun d hd => hchars d (by simp [hd]))
  have hnew : IsScan true (front ++ .statement w' :: back) := by
    refine hscan.replace (fun u hreads => ?_) ?_ ?_
    · rw [textOf_statement, htext] at hreads
      exact readsImport_of_clause hclause hjoined u _ hreads
    · rw [textOf_statement, htext, hold]
      cases hlead : w.lead with
      | nil => simp [WrittenImport.lead] at hlead
      | cons d lead => rfl
    · exact fun h => ⟨rfl, hends _ h.2.1, h.2.2⟩
  refine ⟨textOf front ++ w.lead, w.tail ++ textOf back, w'.statement (size (textOf front)), ?_, ?_, ?_, hsource,
    ⟨_, by rw [WrittenImport.statement, hc']; rfl, hinfix⟩, fun hblank => ?_⟩
  · simp [hold]
  · simp
  · have hsplit : textOf front ++ w.lead ++ joined ++ (w.tail ++ textOf back) = textOf (front ++ .statement w' :: back) := by
      simp [htext]
    rw [hsplit, importsIn_textOf hnew, statementsOf_append, statementsOf, Nat.zero_add,
      statementsOf_moved (size (textOf front) + size w.text) _ back]
    simp [WrittenImport.statement]
  · obtain ⟨hlead, hclause'⟩ := hplain hblank
    simp [WrittenImport.statement, hclause', hlead]

/-- A statement is found behind the last one if it is written there on a line of its own. -/
theorem exists_importsIn_behind (hs : importsIn t = before ++ [s]) : ∃ a b, t = a ++ b ∧ size a = s.stop ∧
    importsIn (a ++ '\n' :: importText ++ b) = before ++ [s, soleImport.statement (s.stop + 1)] := by
  obtain ⟨front, w, back, rfl, hscan, rfl, rfl, hback⟩ := exists_isScan_of_importsIn_eq hs
  have hnew : IsScan true (front ++ [.statement w, .plain '\n', .statement soleImport] ++ back) := by
    rw [List.append_assoc]
    refine hscan.replace (fun u hreads => ?_) ?_ ?_
    · have hsplit : ∀ rest : Text, u ++ ['\n'] ++ (w.text ++ rest) =
          u ++ ['\n'] ++ w.opening ++ w.quotes.1 :: w.source ++ w.quotes.2 :: (w.ending ++ rest) := by
        simp [w.text_eq]
      rw [List.cons_append, textOf_statement, hsplit] at hreads
      rw [hsplit]
      exact readsImport_behind w.opens w.plain w.closes _ _ hreads
    · obtain ⟨c, rest, hw⟩ := List.exists_cons_of_ne_nil w.text_ne_nil
      simp [hw]
    · exact fun h => ⟨rfl, w.endsBefore_newline _, by simp, rfl, soleImport_endsBefore _, h.2.2⟩
  refine ⟨textOf front ++ w.text, textOf back, by simp, by simp [WrittenImport.statement], ?_⟩
  have hnewline : '\n'.utf8Size = 1 := by decide
  have hsplit : textOf front ++ w.text ++ '\n' :: importText ++ textOf back =
      textOf (front ++ [.statement w, .plain '\n', .statement soleImport] ++ back) := by
    simp [soleImport_text]
  have hnone : ∀ offset, statementsOf offset back = [] := fun offset => by
    rw [statementsOf_moved (size (textOf front) + size w.text), ← hback]
    rfl
  rw [hsplit, importsIn_textOf hnew, List.append_assoc, statementsOf_append]
  simp [statementsOf, hnone, WrittenImport.statement, hnewline]

/-- A statement that is written before a text without any is the only one. -/
theorem importsIn_first (hs : importsIn t = []) : importsIn (importText ++ '\n' :: t) = [soleImport.statement 0] := by
  obtain ⟨ps, rfl, hscan⟩ := exists_isScan true t
  rw [importsIn_textOf hscan] at hs
  have hnew : IsScan true (.statement soleImport :: .plain '\n' :: ps) :=
    ⟨rfl, soleImport_endsBefore _, by simp, hscan⟩
  have hsplit : importText ++ '\n' :: textOf ps = textOf (.statement soleImport :: .plain '\n' :: ps) := by
    rw [textOf_statement, textOf_plain, soleImport_text]
  rw [hsplit, importsIn_textOf hnew, statementsOf, statementsOf, statementsOf_moved 0, hs]
  rfl

end Scans

/-! ## Which statement is changed -/

namespace ImportStatement

/-- What a statement binds, if it has a clause that is well formed. -/
def bindings? (s : ImportStatement) : Option ImportBindings :=
  s.clause.bind fun c => ImportBindings.read? c.text

/-- Whether a statement imports values from the component module by name. -/
def importsValues (s : ImportStatement) : Bool :=
  s.source == componentModule && s.bindings?.any ImportBindings.bindsValues

/-- Whether the edit that imports the factory may take a statement for its own. -/
def takesFactory (s : ImportStatement) : Bool :=
  s.source == componentModule && s.clause.any fun c => StyleHoist.bindsValues c.text

/-- A statement has the factory as its last member, and else it binds what it did. -/
structure Gains (s s' : ImportStatement) : Prop where
  source : s'.source = s.source
  start : s'.clause.map (·.start) = s.clause.map (·.start)
  bindings : ∃ b, s.bindings? = some b ∧ s'.bindings? = some (b.withMember registryFactory)

/-- A statement imports the factory from the component module, and nothing else. -/
structure IsSole (s : ImportStatement) : Prop where
  source : s.source = componentModule
  bindings : s.bindings? = some ⟨false, none, none, some [[registryFactory]]⟩

theorem importsValues_iff {s : ImportStatement} : s.importsValues = true ↔ s.source = componentModule ∧
    ∃ c b, s.clause = some c ∧ ValueTokens (clauseTokens c.text) b := by
  simp only [importsValues, bindings?, Bool.and_eq_true, beq_iff_eq, Option.any_eq_true, Option.bind_eq_some_iff]
  refine and_congr_right fun _ => ⟨?_, ?_⟩
  · rintro ⟨b, ⟨c, hc, hread⟩, hvalues⟩
    exact ⟨c, b, hc, read?_bindsValues_iff.1 ⟨hread, hvalues⟩⟩
  · rintro ⟨c, b, hc, htokens⟩
    obtain ⟨hread, hvalues⟩ := read?_bindsValues_iff.2 htokens
    exact ⟨b, ⟨c, hc, hread⟩, hvalues⟩

theorem isSole_soleImport (offset : Nat) : (soleImport.statement offset).IsSole where
  source := rfl
  bindings := by
    have hread : ImportBindings.read? soleList = some ⟨false, none, none, some [[registryFactory]]⟩ := by decide
    exact hread

theorem IsSole.importsValues {s : ImportStatement} (h : s.IsSole) : s.importsValues = true := by
  simp [ImportStatement.importsValues, h.source, h.bindings, ImportBindings.bindsValues]

theorem Gains.importsValues {s s' : ImportStatement} (h : s.Gains s') (hs : s.importsValues = true) :
    s'.importsValues = true := by
  obtain ⟨b, hb, hb'⟩ := h.bindings
  simp only [ImportStatement.importsValues, h.source, hb, hb', Option.any_some, Bool.and_eq_true] at hs ⊢
  exact hs

theorem Gains.ne {s s' : ImportStatement} (h : s.Gains s') : s ≠ s' := by
  rintro rfl
  obtain ⟨b, hb, hb'⟩ := h.bindings
  rw [hb, Option.some.injEq] at hb'
  have hmembers := congrArg (fun b => (b.members.getD []).length) hb'
  simp [ImportBindings.withMember] at hmembers

end ImportStatement

open ImportStatement

/-- A line that imports the factory alone follows the last statement, or it is the first where there is none. -/
inductive SoleImportAdded (t t' : Text) : Prop
  | behind {before : List ImportStatement} {s s' : ImportStatement} {a b : Text} (hs : importsIn t = before ++ [s])
      (ht : t = a ++ b) (hstop : size a = s.stop) (ht' : t' = a ++ '\n' :: importText ++ b) (hsole : s'.IsSole)
      (hs' : importsIn t' = before ++ [s, s'])
  | first {s' : ImportStatement} (hs : importsIn t = []) (ht' : t' = importText ++ '\n' :: t) (hsole : s'.IsSole)
      (hs' : importsIn t' = [s'])

theorem SoleImportAdded.exists_importsIn {t t' : Text} (h : SoleImportAdded t t') :
    ∃ s', s'.IsSole ∧ importsIn t' = importsIn t ++ [s'] := by
  cases h with
  | behind hs _ _ _ hsole hs' => exact ⟨_, hsole, by rw [hs', hs, List.append_assoc, List.singleton_append]⟩
  | first hs _ hsole hs' => exact ⟨_, hsole, by rw [hs', hs, List.nil_append]⟩

/-- What the import of the factory does to the statements of a text: the first import of values gains the factory, or a
statement is added where there is none. -/
inductive FactoryAdded (t t' : Text) : Prop
  | joined {before after : List ImportStatement} {s s' : ImportStatement} (hs : importsIn t = before ++ s :: after)
      (hfirst : ∀ x ∈ before, x.importsValues = false) (hvalues : s.importsValues = true) (hgains : s.Gains s')
      (hs' : importsIn t' = before ++ s' :: after.map (·.moved s.stop s'.stop))
  | added (hnone : ∀ x ∈ importsIn t, x.importsValues = false) (h : SoleImportAdded t t')

/-- The factory is imported by an edit that fits the text, where it belongs, and only together with values. -/
def AddsImport (t : Text) : Prop :=
  ∃ e t', importEdit t = .ok (some e) ∧ applyEdits t [e] = .ok t' ∧ FactoryAdded t t' ∧
    ∀ s ∈ importsIn t', ∀ c, s.clause = some c → mentions registryFactory c.text = true → s.importsValues = true

theorem joinableClause?_eq : ∀ ss : List ImportStatement, joinableClause? ss = (ss.find? takesFactory).bind (·.clause)
  | [] => rfl
  | s :: ss => by
    have ih := joinableClause?_eq ss
    simp only [joinableClause?, List.filter_cons] at ih ⊢
    by_cases hsource : (s.source == componentModule) = true
    · rw [if_pos hsource]
      cases hc : s.clause with
      | none =>
        have htakes : ¬s.takesFactory = true := by simp [takesFactory, hc]
        rw [List.filterMap_cons_none hc, List.find?_cons_of_neg htakes, ih]
      | some c =>
        have htakes : s.takesFactory = bindsValues c.text := by simp [takesFactory, hc, hsource]
        rw [List.filterMap_cons_some hc, List.find?_cons, List.find?_cons, htakes, ih]
        cases bindsValues c.text with
        | true => exact hc.symm
        | false => rfl
    · have htakes : ¬s.takesFactory = true := by simp [takesFactory, hsource]
      rw [if_neg hsource, List.find?_cons_of_neg htakes, ih]

section Choice

variable {t : Text}

theorem not_infix_of_mentions (h : mentions registryFactory t = false) : ¬registryFactory <:+: t := fun hin => by
  have := isSome_splitOn? hin
  rw [mentions] at h
  rw [h] at this
  cases this

/-- No clause of a text mentions the factory if the text does not. -/
theorem mentions_clause (h : mentions registryFactory t = false) {s : ImportStatement} (hs : s ∈ importsIn t)
    {c : ImportClause} (hc : s.clause = some c) : mentions registryFactory c.text = false := by
  refine Bool.eq_false_iff.2 fun hmentions => ?_
  obtain ⟨⟨a, b⟩, hsplit⟩ := Option.isSome_iff_exists.1 hmentions
  obtain ⟨u, v, ht, -, -⟩ := (standsIn_of_mem_importsIn hs).clause c hc
  refine not_infix_of_mentions h ⟨u ++ a, b ++ v, ?_⟩
  rw [ht, eq_append_of_splitOn? hsplit]
  simp only [List.append_assoc]

theorem importEdit_of_takesFactory (h : mentions registryFactory t = false) {s : ImportStatement} {c : ImportClause}
    (hs : (importsIn t).find? takesFactory = some s) (hc : s.clause = some c) : importEdit t = c.join.map some := by
  simp [importEdit, h, joinableClause?_eq, hs, hc]

/-- If the edit takes no statement for its own, it adds one. -/
theorem exists_soleImportAdded (h : mentions registryFactory t = false) (hnone : (importsIn t).find? takesFactory = none) :
    ∃ e t', importEdit t = .ok (some e) ∧ applyEdits t [e] = .ok t' ∧ SoleImportAdded t t' := by
  have hjoinable : joinableClause? (importsIn t) = none := by rw [joinableClause?_eq, hnone]; rfl
  cases hlast : (importsIn t).getLast? with
  | none =>
    have hs : importsIn t = [] := List.getLast?_eq_none_iff.1 hlast
    have hedit : importEdit t = .ok (some (.insertion 0 (importText ++ ['\n']))) := by
      simp only [importEdit, h, hjoinable, endOfImports?, hlast]
      rfl
    exact ⟨_, _, hedit, applyEdits_insertion [] (importText ++ ['\n']) t,
      .first hs (by simp) (isSole_soleImport 0) (by simpa using importsIn_first hs)⟩
  | some s =>
    obtain ⟨before, hs⟩ := List.getLast?_eq_some_iff.1 hlast
    obtain ⟨a, b, ht, hstop, hs'⟩ := exists_importsIn_behind hs
    have hedit : importEdit t = .ok (some (.insertion (size a) ('\n' :: importText))) := by
      simp only [importEdit, h, hjoinable, endOfImports?, hlast, hstop]
      rfl
    have happly : applyEdits t [.insertion (size a) ('\n' :: importText)] = .ok (a ++ '\n' :: importText ++ b) := by
      rw [ht]
      exact applyEdits_insertion a ('\n' :: importText) b
    exact ⟨_, _, hedit, happly, .behind hs ht hstop rfl (isSole_soleImport _) hs'⟩

/-- An import of values gains the factory when its clause is joined, and the others stay. -/
theorem exists_gains {before after : List ImportStatement} {s : ImportStatement} (hs : importsIn t = before ++ s :: after)
    (hvalues : s.importsValues = true) : ∃ c e t' s', s.clause = some c ∧ c.join = .ok e ∧ applyEdits t [e] = .ok t' ∧
      s.Gains s' ∧ importsIn t' = before ++ s' :: after.map (·.moved s.stop s'.stop) := by
  obtain ⟨-, c, bindings, hc, htokens⟩ := importsValues_iff.1 hvalues
  obtain ⟨e, hjoin⟩ := exists_join htokens
  obtain ⟨joined, hjoins, happly⟩ := exists_joins_of_join hjoin
  obtain ⟨a, b, s', rfl, hstart, hs', hsource, -, hplain⟩ := exists_importsIn_joined hs hc hjoins
  obtain ⟨hread, -⟩ := read?_bindsValues_iff.2 htokens
  have hblank : isBlank c.text = false := by
    refine Bool.eq_false_iff.2 fun hblank => ?_
    rw [clauseTokens_of_isBlank hblank] at htokens
    cases htokens
  have hclause := hplain hblank
  obtain ⟨hread', -⟩ := read?_bindsValues_iff.2 (valueTokens_of_joins hjoins htokens)
  exact ⟨c, e, a ++ joined ++ b, s', hc, hjoin, happly a b hstart,
    ⟨hsource, by rw [hclause, hc]; rfl, bindings, by rw [bindings?, hc]; exact hread, by rw [bindings?, hclause]; exact hread'⟩,
    hs'⟩

/-- If the edit takes the first import of values for its own, it adds the factory there, or else a statement. -/
theorem addsImport_of_find?_eq (h : mentions registryFactory t = false)
    (heq : (importsIn t).find? takesFactory = (importsIn t).find? importsValues) : AddsImport t := by
  cases hfound : (importsIn t).find? importsValues with
  | some s =>
    obtain ⟨hvalues, before, after, hs, hfirst⟩ := List.find?_eq_some_iff_append.1 hfound
    obtain ⟨c, e, t', s', hc, hjoin, happly, hgains, hs'⟩ := exists_gains hs hvalues
    refine ⟨e, t', ?_, happly, .joined hs (by simpa using hfirst) hvalues hgains hs', ?_⟩
    · rw [importEdit_of_takesFactory h (heq.trans hfound) hc, hjoin]
      rfl
    · intro x hx d hd hmentions
      rw [hs'] at hx
      have hplace : x ∈ before ∨ x = s' ∨ ∃ y ∈ after, x = y.moved s.stop s'.stop := by
        simpa [eq_comm] using hx
      rcases hplace with hx | rfl | ⟨y, hy, rfl⟩
      · have hin : x ∈ importsIn t := by simp [hs, hx]
        rw [mentions_clause h hin hd] at hmentions
        cases hmentions
      · exact hgains.importsValues hvalues
      · have hin : y ∈ importsIn t := by simp [hs, hy]
        obtain ⟨d', hd', rfl⟩ := Option.map_eq_some_iff.1 hd
        rw [mentions_clause h hin hd'] at hmentions
        cases hmentions
  | none =>
    have hnone : ∀ x ∈ importsIn t, x.importsValues = false := by simpa using List.find?_eq_none.1 hfound
    obtain ⟨e, t', hedit, happly, hadded⟩ := exists_soleImportAdded h (heq.trans hfound)
    refine ⟨e, t', hedit, happly, .added hnone hadded, fun x hx d hd hmentions => ?_⟩
    obtain ⟨s', hsole, hs'⟩ := hadded.exists_importsIn
    rw [hs'] at hx
    rcases List.mem_append.1 hx with hx | hx
    · rw [mentions_clause h hx hd] at hmentions
      cases hmentions
    · obtain rfl := List.mem_singleton.1 hx
      exact hsole.importsValues

/-- Two changes of one list that come to the same are made at one place, if one puts a new element there and the other
does not leave the element as it is. -/
theorem append_cons_inj_changed {α : Type} {xs xs' ys ys' zs zs' : List α} {a a' b b' : α}
    (h : xs ++ a :: ys = xs' ++ a' :: ys') (h' : xs ++ b :: zs = xs' ++ b' :: zs') (hb : b ∉ xs ++ a :: ys)
    (ha' : a' ≠ b') : xs = xs' ∧ a = a' := by
  rcases List.append_eq_append_iff.1 h with ⟨us, rfl, hus⟩ | ⟨us, rfl, hus⟩
  · cases us with
    | nil => exact ⟨(List.append_nil xs).symm, (List.cons.inj hus).1⟩
    | cons u us =>
      rw [List.append_assoc] at h'
      obtain ⟨rfl, -⟩ := List.cons.inj hus
      obtain ⟨rfl, -⟩ := List.cons.inj (List.append_cancel_left h')
      exact absurd (by simp) hb
  · cases us with
    | nil => exact ⟨List.append_nil xs', (List.cons.inj hus).1.symm⟩
    | cons u us =>
      rw [List.append_assoc] at h'
      obtain ⟨rfl, -⟩ := List.cons.inj hus
      exact absurd (List.cons.inj (List.append_cancel_left h')).1 ha'

/-- If the factory is added where it belongs, the edit takes the first import of values for its own. -/
theorem find?_eq_of_addsImport (h : mentions registryFactory t = false) (hadds : AddsImport t) :
    (importsIn t).find? takesFactory = (importsIn t).find? importsValues := by
  obtain ⟨e, t', hedit, happly, hadded, -⟩ := hadds
  cases htaken : (importsIn t).find? takesFactory with
  | some s =>
    obtain ⟨htakes, before, after, hs, -⟩ := List.find?_eq_some_iff_append.1 htaken
    obtain ⟨c, hc⟩ : ∃ c, s.clause = some c := by
      cases hc : s.clause with
      | none => simp [takesFactory, hc] at htakes
      | some c => exact ⟨c, rfl⟩
    rw [importEdit_of_takesFactory h htaken hc] at hedit
    have hjoin : c.join = .ok e := by
      cases hjoin : c.join with
      | error fault => simp [hjoin, Except.map] at hedit
      | ok e' => simpa [hjoin, Except.map] using hedit
    obtain ⟨joined, hjoins, happly'⟩ := exists_joins_of_join hjoin
    obtain ⟨a, b, s', ht, hstart, hs', -, ⟨c', hc', hin⟩, -⟩ := exists_importsIn_joined hs hc hjoins
    obtain rfl : t' = a ++ joined ++ b := by
      have hsame := happly' a b hstart
      rw [← ht, happly] at hsame
      exact Except.ok.inj hsame
    -- The statement that the edit changes mentions the factory, and no statement of the text does.
    have hchanged : s' ∉ importsIn t := fun hmem => by
      have hmentions : mentions registryFactory c'.text = true := isSome_splitOn? hin
      rw [mentions_clause h hmem hc'] at hmentions
      cases hmentions
    cases hadded with
    | joined hv hfirst hvalues hgains hv' =>
      obtain ⟨rfl, rfl⟩ := append_cons_inj_changed (hs.symm.trans hv) (hs'.symm.trans hv') (hs ▸ hchanged) hgains.ne
      exact (List.find?_eq_some_iff_append.2 ⟨hvalues, before, after, hs, by simpa using hfirst⟩).symm
    | added _ hsole =>
      obtain ⟨s'', -, hv'⟩ := hsole.exists_importsIn
      have hlength := congrArg List.length (hs'.symm.trans hv')
      simp [hs] at hlength
  | none =>
    refine (List.find?_eq_none.2 ?_).symm
    cases hadded with
    | joined hv _ _ _ hv' =>
      obtain ⟨e', t'', hedit', happly', hsole⟩ := exists_soleImportAdded h htaken
      obtain rfl : e' = e := by
        rw [hedit] at hedit'
        simpa using hedit'.symm
      obtain rfl : t'' = t' := Except.ok.inj (happly'.symm.trans happly)
      obtain ⟨s'', -, hv''⟩ := hsole.exists_importsIn
      have hlength := congrArg List.length (hv'.symm.trans hv'')
      simp [hv] at hlength
    | added hnone _ => simpa using hnone

/-- **The factory is imported where it belongs if and only if the edit takes the first import of values for its own.** -/
theorem addsImport_iff (h : mentions registryFactory t = false) :
    AddsImport t ↔ (importsIn t).find? takesFactory = (importsIn t).find? importsValues :=
  ⟨find?_eq_of_addsImport h, addsImport_of_find?_eq h⟩

/-- A list of types with a default import of values behind it. -/
theorem addsImport_behind_types : mentions registryFactory
      "import type \x7b Style \x7d from 'react-native';\nimport RN from 'react-native';\n".toList = false ∧
    AddsImport "import type \x7b Style \x7d from 'react-native';\nimport RN from 'react-native';\n".toList :=
  ⟨by decide +kernel, (addsImport_iff (by decide +kernel)).2 (by decide +kernel)⟩

/-- Types are taken for values where no space follows the word. -/
theorem not_addsImport_unspaced_types : ¬AddsImport "import type\x7b View \x7d from 'react-native';\n".toList := fun h =>
  absurd (find?_eq_of_addsImport (by decide +kernel) h) (by decide +kernel)

end Choice

end StyleHoist
