import StyleHoist.Import.Patch
import StyleHoist.Proofs.Registry.Appending
import StyleHoist.Proofs.Registry.Names

/-!
# What an import clause binds

A clause binds a default name, a namespace or a list of members, for values or for types alone. It is read token by
token (`ImportBindings.read?`), so that neither the blanks in it nor a comma behind the last member matter.

The edit that adds the factory to a clause looks for braces and blanks in its characters. Where the clause is well
formed and binds values by name, the clause that comes out has the factory as its last member and binds all else as
before (`read?_of_joins`).
-/

namespace StyleHoist

open Text

/-! ## Tokens -/

/-- A token of a clause: a name, or a character between names. -/
inductive ClauseToken
  | word (name : Text)
  | mark (c : Char)
deriving DecidableEq, Repr

/-- Characters of a name. -/
def isNameChar (c : Char) : Bool :=
  isWordChar c || c == '$'

/-- A name that has been read, unless it is empty. -/
def nameTokens (name : Text) : List ClauseToken :=
  if name.isEmpty then [] else [.word name]

/-- What a character between names counts for. -/
def markTokens (c : Char) : List ClauseToken :=
  if isBlankChar c then [] else [.mark c]

/-- The tokens of a clause behind the beginning of a name. -/
def clauseTokensFrom (name : Text) : Text → List ClauseToken
  | [] => nameTokens name
  | c :: t =>
    if isNameChar c then clauseTokensFrom (name ++ [c]) t
    else nameTokens name ++ markTokens c ++ clauseTokensFrom [] t

/-- The tokens of a clause. -/
def clauseTokens (clause : Text) : List ClauseToken :=
  clauseTokensFrom [] clause

theorem isNameChar_of_isBlankChar {c : Char} (h : isBlankChar c = true) : isNameChar c = false := by
  have hdollar : c ≠ '$' := by
    rintro rfl
    exact absurd h (by decide)
  simp [isNameChar, isWordChar_of_isBlankChar h, hdollar]

/-- A character between names parts the tokens. -/
theorem clauseTokensFrom_append_cons {c : Char} (hc : isNameChar c = false) (t : Text) : ∀ (s name : Text),
    clauseTokensFrom name (s ++ c :: t) = clauseTokensFrom name s ++ markTokens c ++ clauseTokens t
  | [], name => by simp [clauseTokensFrom, clauseTokens, hc]
  | d :: s, name => by
    simp only [List.cons_append, clauseTokensFrom]
    split
    · exact clauseTokensFrom_append_cons hc t s _
    · rw [clauseTokensFrom_append_cons hc t s]
      simp only [List.append_assoc]

theorem clauseTokens_append_cons {c : Char} (hc : isNameChar c = false) (s t : Text) :
    clauseTokens (s ++ c :: t) = clauseTokens s ++ markTokens c ++ clauseTokens t :=
  clauseTokensFrom_append_cons hc t s []

theorem clauseTokens_append_mark {c : Char} (hc : isNameChar c = false) (hblank : isBlankChar c = false) (s t : Text) :
    clauseTokens (s ++ c :: t) = clauseTokens s ++ .mark c :: clauseTokens t := by
  rw [clauseTokens_append_cons hc, markTokens, hblank]
  simp

theorem clauseTokens_of_isBlank : ∀ {t : Text}, isBlank t = true → clauseTokens t = []
  | [], _ => rfl
  | c :: t, h => by
    simp only [isBlank, List.all_cons, Bool.and_eq_true] at h
    have hsplit := clauseTokens_append_cons (isNameChar_of_isBlankChar h.1) [] t
    rw [List.nil_append] at hsplit
    rw [hsplit, clauseTokens_of_isBlank h.2]
    simp [clauseTokens, clauseTokensFrom, nameTokens, markTokens, h.1]

theorem clauseTokens_append_blank {blanks : Text} (h : isBlank blanks = true) (s : Text) :
    clauseTokens (s ++ blanks) = clauseTokens s := by
  cases blanks with
  | nil => rw [List.append_nil]
  | cons c t =>
    have hparts := isBlank_cons.1 h
    rw [clauseTokens_append_cons (isNameChar_of_isBlankChar hparts.1), clauseTokens_of_isBlank hparts.2]
    simp [markTokens, hparts.1]

theorem clauseTokens_blank_append : ∀ {blanks : Text}, isBlank blanks = true → ∀ s,
    clauseTokens (blanks ++ s) = clauseTokens s
  | [], _, s => rfl
  | c :: t, h, s => by
    simp only [isBlank, List.all_cons, Bool.and_eq_true] at h
    have hsplit := clauseTokens_append_cons (isNameChar_of_isBlankChar h.1) [] (t ++ s)
    rw [List.nil_append, clauseTokens_blank_append h.2] at hsplit
    rw [List.cons_append, hsplit]
    simp [clauseTokens, clauseTokensFrom, nameTokens, markTokens, h.1]

/-- A mark stands among the tokens if and only if its character stands in the clause. -/
theorem mark_mem_clauseTokensFrom {c : Char} (hc : isNameChar c = false) (hblank : isBlankChar c = false) :
    ∀ (t name : Text), .mark c ∈ clauseTokensFrom name t ↔ c ∈ t
  | [], name => by simp [clauseTokensFrom, nameTokens]
  | d :: t, name => by
    have ih := fun name => mark_mem_clauseTokensFrom hc hblank t name
    simp only [clauseTokensFrom]
    split
    · rename_i hd
      have hne : c ≠ d := by
        rintro rfl
        rw [hc] at hd
        cases hd
      simp [ih, hne]
    · have hmark : .mark c ∈ markTokens d ↔ c = d := by
        simp only [markTokens]
        split
        · rename_i hd
          simp only [List.not_mem_nil, false_iff]
          rintro rfl
          rw [hblank] at hd
          cases hd
        · simp
      have hname : .mark c ∉ nameTokens name := by
        simp [nameTokens]
      simp [ih, hmark, hname]

theorem mark_mem_clauseTokens {c : Char} (hc : isNameChar c = false) (hblank : isBlankChar c = false) {t : Text} :
    .mark c ∈ clauseTokens t ↔ c ∈ t :=
  mark_mem_clauseTokensFrom hc hblank t []

/-- The last token is the mark at the end of a clause, or a name. -/
theorem getLast?_clauseTokensFrom {c : Char} (hblank : isBlankChar c = false) : ∀ (s name : Text),
    (clauseTokensFrom name (s ++ [c])).getLast? = some (.mark c) ∨
      ∃ word, (clauseTokensFrom name (s ++ [c])).getLast? = some (.word word)
  | s, name => by
    by_cases hc : isNameChar c = true
    · right
      induction s generalizing name with
      | nil => exact ⟨name ++ [c], by simp [clauseTokensFrom, hc, nameTokens]⟩
      | cons d s ih =>
        simp only [List.cons_append, clauseTokensFrom]
        split
        · exact ih _
        · obtain ⟨word, hword⟩ := ih []
          exact ⟨word, by rw [List.getLast?_append, hword]; rfl⟩
    · left
      rw [clauseTokensFrom_append_cons (by simpa using hc)]
      simp [markTokens, hblank, clauseTokens, clauseTokensFrom, nameTokens]

/-! ## Bindings -/

/-- What an import clause binds. A member is given by its words: its name, and what it is called in the text. -/
structure ImportBindings where
  typeOnly : Bool
  defaultName : Option Text
  namespaceName : Option Text
  members : Option (List (List Text))
deriving DecidableEq, Repr

/-- Members between commas, of which one may stand behind the last; `member` is the beginning of the first. -/
def readMembers? (member : List Text) : List ClauseToken → Option (List (List Text))
  | [] => some (if member.isEmpty then [] else [member])
  | .word name :: ts => readMembers? (member ++ [name]) ts
  | .mark c :: ts => if c == ',' && !member.isEmpty then (readMembers? [] ts).map (member :: ·) else none

/-- Members in braces. -/
def readList? : List ClauseToken → Option (List (List Text))
  | .mark c :: ts =>
    if c == '\x7b' && ts.getLast? == some (.mark '\x7d') then readMembers? [] ts.dropLast else none
  | _ => none

/-- A namespace: a star with a name for it. -/
def readNamespace? : List ClauseToken → Option Text
  | [.mark c, .word as, .word name] => if c == '*' && as == "as".toList then some name else none
  | _ => none

/-- A namespace or members. -/
def readNames? (defaultName : Option Text) (ts : List ClauseToken) : Option ImportBindings :=
  match readNamespace? ts with
  | some name => some ⟨false, defaultName, some name, none⟩
  | none => (readList? ts).map fun members => ⟨false, defaultName, none, some members⟩

/-- A default name, other names, or both with a comma between them. -/
def readBindings? : List ClauseToken → Option ImportBindings
  | [.word name] => some ⟨false, some name, none, none⟩
  | .word name :: .mark c :: ts => if c == ',' then readNames? (some name) ts else none
  | ts => readNames? none ts

/-- The word `type` makes an import one of types alone, unless it is the default name itself. -/
def opensTypes : List ClauseToken → Bool
  | .word name :: t :: _ => name == "type".toList && t != .mark ','
  | _ => false

/-- What a clause binds, if it is well formed. -/
def ImportBindings.read? (clause : Text) : Option ImportBindings :=
  let ts := clauseTokens clause
  if opensTypes ts then (readBindings? ts.tail).map fun b => { b with typeOnly := true } else readBindings? ts

/-- Whether values are bound, and none of them is a namespace. -/
def ImportBindings.bindsValues (b : ImportBindings) : Bool :=
  !b.typeOnly && b.namespaceName.isNone

/-- The same bindings with one member more, behind the others. -/
def ImportBindings.withMember (b : ImportBindings) (name : Text) : ImportBindings :=
  { b with members := some (b.members.getD [] ++ [[name]]) }

/-- The tokens of a clause that binds values by name. -/
inductive ValueTokens : List ClauseToken → ImportBindings → Prop
  | alone (name : Text) : ValueTokens [.word name] ⟨false, some name, none, none⟩
  | list {ts : List ClauseToken} {members : List (List Text)} (h : readMembers? [] ts = some members) :
      ValueTokens (.mark '\x7b' :: ts ++ [.mark '\x7d']) ⟨false, none, none, some members⟩
  | both (name : Text) {ts : List ClauseToken} {members : List (List Text)} (h : readMembers? [] ts = some members) :
      ValueTokens (.word name :: .mark ',' :: .mark '\x7b' :: ts ++ [.mark '\x7d']) ⟨false, some name, none, some members⟩

theorem readList?_iff {ts : List ClauseToken} {members : List (List Text)} : readList? ts = some members ↔
    ∃ us, ts = .mark '\x7b' :: us ++ [.mark '\x7d'] ∧ readMembers? [] us = some members := by
  constructor
  · intro h
    cases ts with
    | nil => simp [readList?] at h
    | cons t ts =>
      cases t with
      | word name => simp [readList?] at h
      | mark c =>
        simp only [readList?] at h
        split at h
        · rename_i hmarks
          simp only [Bool.and_eq_true, beq_iff_eq] at hmarks
          obtain ⟨us, rfl⟩ := List.getLast?_eq_some_iff.1 hmarks.2
          exact ⟨us, by rw [hmarks.1]; rfl, by simpa using h⟩
        · cases h
  · rintro ⟨us, rfl, h⟩
    simp [readList?, h]

theorem readNames?_bindsValues {defaultName : Option Text} {ts : List ClauseToken} {b : ImportBindings}
    (h : readNames? defaultName ts = some b) (hvalues : b.bindsValues = true) :
    ∃ members, readList? ts = some members ∧ b = ⟨false, defaultName, none, some members⟩ := by
  simp only [readNames?] at h
  split at h
  · cases h
    simp [ImportBindings.bindsValues] at hvalues
  · obtain ⟨members, hmembers, rfl⟩ := Option.map_eq_some_iff.1 h
    exact ⟨members, hmembers, rfl⟩

theorem readNames?_list (defaultName : Option Text) {ts : List ClauseToken} {members : List (List Text)}
    (h : readMembers? [] ts = some members) :
    readNames? defaultName (.mark '\x7b' :: ts ++ [.mark '\x7d']) = some ⟨false, defaultName, none, some members⟩ := by
  have hnamespace : readNamespace? (.mark '\x7b' :: ts ++ [.mark '\x7d']) = none := by
    simp only [readNamespace?]
    split
    · rename_i c as name heq
      obtain ⟨hc, -⟩ := List.cons.inj heq
      cases hc
      rfl
    · rfl
  rw [readNames?, hnamespace, readList?_iff.2 ⟨ts, rfl, h⟩]
  rfl

theorem valueTokens_of_readBindings? {ts : List ClauseToken} {b : ImportBindings} (h : readBindings? ts = some b)
    (hvalues : b.bindsValues = true) : ValueTokens ts b := by
  simp only [readBindings?] at h
  split at h
  · cases h
    exact .alone _
  · split at h
    · rename_i hcomma
      obtain ⟨members, hlist, rfl⟩ := readNames?_bindsValues h hvalues
      obtain ⟨us, rfl, hmembers⟩ := readList?_iff.1 hlist
      obtain rfl := beq_iff_eq.1 hcomma
      exact .both _ hmembers
    · cases h
  · obtain ⟨members, hlist, rfl⟩ := readNames?_bindsValues h hvalues
    obtain ⟨us, rfl, hmembers⟩ := readList?_iff.1 hlist
    exact .list hmembers

/-- A clause is well formed and binds values by name if and only if its tokens say so. -/
theorem read?_bindsValues_iff {clause : Text} {b : ImportBindings} :
    ImportBindings.read? clause = some b ∧ b.bindsValues = true ↔ ValueTokens (clauseTokens clause) b := by
  simp only [ImportBindings.read?]
  constructor
  · rintro ⟨h, hvalues⟩
    split at h
    · obtain ⟨b', -, rfl⟩ := Option.map_eq_some_iff.1 h
      simp [ImportBindings.bindsValues] at hvalues
    · exact valueTokens_of_readBindings? h hvalues
  · intro h
    generalize clauseTokens clause = ts at h
    cases h with
    | alone name => exact ⟨rfl, rfl⟩
    | list hmembers =>
      have hnames := readNames?_list none hmembers
      exact ⟨by simpa [opensTypes, readBindings?] using hnames, rfl⟩
    | both name hmembers =>
      have hnames := readNames?_list (some name) hmembers
      exact ⟨by simpa [opensTypes, readBindings?] using hnames, rfl⟩

/-! ## One member more -/

/-- Members behind a comma are read on their own. -/
theorem readMembers?_comma_append {us : List ClauseToken} : ∀ {ts : List ClauseToken} {member : List Text}
    {members : List (List Text)}, readMembers? member (ts ++ [.mark ',']) = some members →
      readMembers? member (ts ++ .mark ',' :: us) = (readMembers? [] us).map (members ++ ·)
  | [], member, members, h => by
    simp only [List.nil_append, readMembers?] at h ⊢
    split at h
    · rename_i hcomma
      cases h
      rw [if_pos hcomma]
      rfl
    · cases h
  | .word name :: ts, member, members, h => by
    simp only [List.cons_append, readMembers?] at h ⊢
    exact readMembers?_comma_append h
  | .mark c :: ts, member, members, h => by
    simp only [List.cons_append, readMembers?] at h ⊢
    split at h
    · rename_i hcomma
      obtain ⟨behind, hbehind, rfl⟩ := Option.map_eq_some_iff.1 h
      rw [if_pos hcomma, readMembers?_comma_append hbehind, Option.map_map]
      rfl
    · cases h

/-- A comma may be put behind the last member, unless there is one. -/
theorem readMembers?_comma : ∀ {ts : List ClauseToken} {member : List Text} {members : List (List Text)},
    readMembers? member ts = some members → ts.getLast? ≠ some (.mark ',') → (ts = [] → member ≠ []) →
      readMembers? member (ts ++ [.mark ',']) = some members
  | [], member, members, h, _, hne => by
    have hmember : member ≠ [] := hne rfl
    simpa [readMembers?, hmember] using h
  | .word name :: ts, member, members, h, hlast, _ => by
    simp only [List.cons_append, readMembers?] at h ⊢
    refine readMembers?_comma h (fun heq => hlast ?_) (by simp)
    cases ts with
    | nil => cases heq
    | cons t ts => simpa using heq
  | .mark c :: ts, member, members, h, hlast, _ => by
    simp only [List.cons_append, readMembers?] at h ⊢
    split at h
    · rename_i hcomma
      obtain ⟨behind, hbehind, rfl⟩ := Option.map_eq_some_iff.1 h
      have hc : c = ',' := by
        simp only [Bool.and_eq_true, beq_iff_eq] at hcomma
        exact hcomma.1
      have hts : ts ≠ [] := by
        rintro rfl
        exact hlast (by rw [hc]; rfl)
      have hlast' : ts.getLast? ≠ some (.mark ',') := fun heq => hlast (by
        obtain ⟨t, ts, rfl⟩ := List.exists_cons_of_ne_nil hts
        simpa using heq)
      rw [if_pos hcomma, readMembers?_comma hbehind hlast' fun hnil => absurd hnil hts]
      rfl
    · cases h

/-- What stands between the braces once the factory is among the names. -/
def joinedNames (inner : Text) : Text :=
  if isBlank inner then " StyleSheet ".toList
  else trimEnd inner ++ joiningText inner ++ inner.drop (trimEnd inner).length

theorem drop_trimEnd (t : Text) : t = trimEnd t ++ t.drop (trimEnd t).length ∧
    isBlank (t.drop (trimEnd t).length) = true := by
  obtain ⟨margin, ht, hmargin⟩ := trimEnd_append_blank t
  have hdrop : (trimEnd t ++ margin).drop (trimEnd t).length = margin := List.drop_left
  rw [← ht] at hdrop
  rw [hdrop]
  exact ⟨ht, hmargin⟩

theorem isNameChar_comma : isNameChar ',' = false := by decide

theorem isBlankChar_comma : isBlankChar ',' = false := by decide

/-- The factory is the last member behind a comma that stands behind the members. -/
theorem readMembers?_comma_factory {names added : Text} {members : List (List Text)}
    (h : readMembers? [] (clauseTokens names ++ [.mark ',']) = some members)
    (hadded : readMembers? [] (clauseTokens added) = some [[registryFactory]]) :
    readMembers? [] (clauseTokens (names ++ ',' :: added)) = some (members ++ [[registryFactory]]) := by
  rw [clauseTokens_append_mark isNameChar_comma isBlankChar_comma, readMembers?_comma_append h, hadded]
  rfl

/-- A comma may be put behind names that end neither in one nor in a blank. -/
theorem readMembers?_comma_of_getLast? {names : Text} {c : Char} {members : List (List Text)}
    (h : readMembers? [] (clauseTokens names) = some members) (hc : names.getLast? = some c)
    (hblank : isBlankChar c = false) (hcomma : c ≠ ',') :
    readMembers? [] (clauseTokens names ++ [.mark ',']) = some members := by
  obtain ⟨z, rfl⟩ := List.getLast?_eq_some_iff.1 hc
  have hlast : (clauseTokens (z ++ [c])).getLast? = some (.mark c) ∨
      ∃ word, (clauseTokens (z ++ [c])).getLast? = some (.word word) := getLast?_clauseTokensFrom hblank z []
  refine readMembers?_comma h (fun heq => ?_) (fun hnil => ?_)
  · rcases hlast with hmark | ⟨word, hword⟩
    · rw [heq] at hmark
      cases hmark
      exact hcomma rfl
    · rw [heq] at hword
      cases hword
  · rw [hnil] at hlast
    rcases hlast with hmark | ⟨word, hword⟩
    · cases hmark
    · cases hword

/-- **The factory becomes the last member, and the members before it stay.** -/
theorem readMembers?_joinedNames {inner : Text} {members : List (List Text)}
    (h : readMembers? [] (clauseTokens inner) = some members) :
    readMembers? [] (clauseTokens (joinedNames inner)) = some (members ++ [[registryFactory]]) := by
  obtain ⟨hinner, hmargin⟩ := drop_trimEnd inner
  simp only [joinedNames]
  generalize inner.drop (trimEnd inner).length = margin at hinner hmargin
  split
  · rename_i hblank
    rw [clauseTokens_of_isBlank hblank] at h
    cases h
    decide
  · rename_i hblank
    have htrim : trimEnd inner ≠ [] := fun hnil => hblank (trimEnd_eq_nil_iff.1 hnil)
    have htokens : clauseTokens inner = clauseTokens (trimEnd inner) := by
      conv => lhs; rw [hinner]
      exact clauseTokens_append_blank hmargin _
    rw [htokens] at h
    rw [clauseTokens_append_blank hmargin]
    simp only [joiningText]
    have hlast : ∀ c, (trimEnd inner).getLast? = some c → isBlankChar c = false := fun c hc =>
      dropEndWhile_getLast? (p := isBlankChar) (t := inner) hc
    generalize trimEnd inner = names at h htrim hlast
    split
    · rename_i hcomma
      obtain ⟨z, rfl⟩ := endsWith_comma_iff.1 hcomma
      have hz : clauseTokens (z ++ [',']) = clauseTokens z ++ [.mark ','] :=
        clauseTokens_append_mark isNameChar_comma isBlankChar_comma z []
      rw [hz] at h
      rw [List.append_assoc z, List.singleton_append]
      split
      · -- The comma behind the factory ends the list as the one before it did.
        have hindent : isBlank (List.takeWhile isBlankChar ((z ++ [',']).reverse.takeWhile (· != '\n')).reverse) = true :=
          List.all_takeWhile
        generalize List.takeWhile isBlankChar ((z ++ [',']).reverse.takeWhile (· != '\n')).reverse = indent at hindent
        have hblanks : isBlank ('\n' :: indent) = true := by
          simp only [isBlank, List.all_cons, Bool.and_eq_true] at hindent ⊢
          exact ⟨by decide, hindent⟩
        refine readMembers?_comma_factory h ?_
        rw [List.append_assoc ('\n' :: indent), clauseTokens_blank_append hblanks]
        decide
      · exact readMembers?_comma_factory h (by decide)
    · rename_i hcomma
      have hc := List.getLast?_eq_some_getLast htrim
      have hne : names.getLast htrim ≠ ',' := fun heq => by
        obtain ⟨z, hz⟩ := List.getLast?_eq_some_iff.1 (heq ▸ hc)
        exact hcomma (endsWith_comma_iff.2 ⟨z, hz⟩)
      have hnames := readMembers?_comma_of_getLast? h hc (hlast _ hc) hne
      exact @readMembers?_comma_factory names (' ' :: registryFactory) _ hnames (by decide)

/-! ## The clause that comes out -/

/-- A list is parted at the first place of an element in one way. -/
theorem append_cons_inj {α : Type} {x x' y y' : List α} {a : α} (hx : a ∉ x) (hx' : a ∉ x')
    (h : x ++ a :: y = x' ++ a :: y') : x = x' ∧ y = y' := by
  rcases List.append_eq_append_iff.1 h with ⟨z, rfl, hz⟩ | ⟨z, rfl, hz⟩
  · cases z with
    | nil => exact ⟨(List.append_nil x).symm, (List.cons.inj hz).2⟩
    | cons b z =>
      obtain ⟨rfl, -⟩ := List.cons.inj hz
      exact absurd (by simp) hx'
  · cases z with
    | nil => exact ⟨List.append_nil x', (List.cons.inj hz).2.symm⟩
    | cons b z =>
      obtain ⟨rfl, -⟩ := List.cons.inj hz
      exact absurd (by simp) hx

theorem append_cons_inj_last {α : Type} {x x' y y' : List α} {a : α} (hy : a ∉ y) (hy' : a ∉ y')
    (h : x ++ a :: y = x' ++ a :: y') : x = x' ∧ y = y' := by
  have hreverse := congrArg List.reverse h
  simp only [List.reverse_append, List.reverse_cons, List.append_assoc, List.singleton_append] at hreverse
  obtain ⟨hafter, hbefore⟩ := append_cons_inj (by simpa using hy) (by simpa using hy') hreverse
  exact ⟨List.reverse_inj.1 hbefore, List.reverse_inj.1 hafter⟩

theorem NamedList.of_eq_absent {clause : Text} (h : '\x7b' ∉ clause) : NamedList.of clause = .absent := by
  have hdrop : clause.dropWhile (· != '\x7b') = [] :=
    List.dropWhile_eq_nil_iff.2 fun c hc => by
      simp only [bne_iff_ne, ne_eq]
      rintro rfl
      exact h hc
  simp [NamedList.of, hdrop]

/-- The named list stands between the first opening brace and the last closing one. -/
theorem NamedList.of_braced {before inner rest : Text} (hbefore : '\x7b' ∉ before) (hrest : '\x7d' ∉ rest) :
    NamedList.of (before ++ '\x7b' :: inner ++ '\x7d' :: rest) = .braces before inner := by
  have hpass : ∀ c ∈ before, (c != '\x7b') = true := fun c hc => by
    simp only [bne_iff_ne, ne_eq]
    rintro rfl
    exact hbefore hc
  have hclose : dropEndWhile (· != '\x7d') (inner ++ '\x7d' :: rest) = inner ++ ['\x7d'] := by
    have hpassed : rest.all (· != '\x7d') = true := List.all_eq_true.2 fun c hc => by
      simp only [bne_iff_ne, ne_eq]
      rintro rfl
      exact hrest hc
    rw [← List.singleton_append, ← List.append_assoc, dropEndWhile_append_of_all hpassed]
    refine dropEndWhile_of_getLast? fun c hc => ?_
    rw [List.getLast?_concat] at hc
    cases hc
    rfl
  rw [List.append_assoc, List.cons_append]
  simp only [NamedList.of, List.takeWhile_append_of_pos hpass, List.dropWhile_append_of_pos hpass]
  simp [hclose]

/-- Where the factory is added to a clause: behind it, or among the names in its braces. -/
inductive Joins : (clause joined : Text) → Prop
  | behind {clause : Text} (h : NamedList.of clause = .absent) : Joins clause (clause ++ (", ".toList ++ soleList))
  | among {before inner rest : Text} (h : NamedList.of (before ++ '\x7b' :: inner ++ '\x7d' :: rest) = .braces before inner) :
      Joins (before ++ '\x7b' :: inner ++ '\x7d' :: rest) (before ++ '\x7b' :: joinedNames inner ++ '\x7d' :: rest)

/-- The list of the factory alone takes the place of a list without names. -/
theorem applyEdits_soleList (a before rest : Text) {inner : Text} (hblank : isBlank inner = true) :
    applyEdits (a ++ (before ++ '\x7b' :: inner ++ '\x7d' :: rest))
        [⟨⟨size a + size before, size a + size before + size inner + 2⟩, soleList⟩] =
      .ok (a ++ (before ++ '\x7b' :: joinedNames inner ++ '\x7d' :: rest)) := by
  have hopen : '\x7b'.utf8Size = 1 := by decide
  have hclose : '\x7d'.utf8Size = 1 := by decide
  have hedit := applyEdits_replacement (a ++ before) ('\x7b' :: inner ++ ['\x7d']) soleList rest
  have hsize : size (a ++ before ++ ('\x7b' :: inner ++ ['\x7d'])) = size a + size before + size inner + 2 := by
    simp only [size_append, size_cons, size_nil, hopen, hclose]
    omega
  have hsole : soleList = '\x7b' :: " StyleSheet ".toList ++ ['\x7d'] := by decide
  have hold : a ++ (before ++ '\x7b' :: inner ++ '\x7d' :: rest) =
      a ++ before ++ ('\x7b' :: inner ++ ['\x7d']) ++ rest := by simp
  have hnew : a ++ (before ++ '\x7b' :: joinedNames inner ++ '\x7d' :: rest) = a ++ before ++ soleList ++ rest := by
    rw [joinedNames, if_pos hblank, hsole]
    simp
  rw [hsize, size_append] at hedit
  rw [hold, hnew, hedit]

/-- The factory is put behind the names that a list has. -/
theorem applyEdits_joiningText (a before rest : Text) {inner : Text} (hblank : ¬isBlank inner = true) :
    applyEdits (a ++ (before ++ '\x7b' :: inner ++ '\x7d' :: rest))
        [.insertion (size a + size before + 1 + size (trimEnd inner)) (joiningText inner)] =
      .ok (a ++ (before ++ '\x7b' :: joinedNames inner ++ '\x7d' :: rest)) := by
  obtain ⟨hinner, -⟩ := drop_trimEnd inner
  have hopen : '\x7b'.utf8Size = 1 := by decide
  have hedit := applyEdits_insertion (a ++ before ++ '\x7b' :: trimEnd inner) (joiningText inner)
    (inner.drop (trimEnd inner).length ++ '\x7d' :: rest)
  have hsize : size (a ++ before ++ '\x7b' :: trimEnd inner) = size a + size before + 1 + size (trimEnd inner) := by
    simp only [size_append, size_cons, hopen]
    omega
  have hold : a ++ (before ++ '\x7b' :: inner ++ '\x7d' :: rest) = a ++ before ++ '\x7b' :: trimEnd inner ++
      (inner.drop (trimEnd inner).length ++ '\x7d' :: rest) := by
    conv => lhs; rw [hinner]
    simp
  have hnew : a ++ (before ++ '\x7b' :: joinedNames inner ++ '\x7d' :: rest) = a ++ before ++
      '\x7b' :: trimEnd inner ++ joiningText inner ++ (inner.drop (trimEnd inner).length ++ '\x7d' :: rest) := by
    rw [joinedNames, if_neg hblank]
    simp
  rw [hsize] at hedit
  rw [hold, hnew, hedit]

/-- The edit of a clause puts the joined clause in its place. -/
theorem exists_joins_of_join {c : ImportClause} {e : Edit} (h : c.join = .ok e) : ∃ joined, Joins c.text joined ∧
    ∀ a b, size a = c.start → applyEdits (a ++ c.text ++ b) [e] = .ok (a ++ joined ++ b) := by
  obtain ⟨start, text⟩ := c
  simp only [ImportClause.join] at h ⊢
  split at h
  · rename_i hlist
    cases h
    refine ⟨_, .behind hlist, ?_⟩
    rintro a b rfl
    have hedit := applyEdits_insertion (a ++ text) (", ".toList ++ soleList) b
    rwa [size_append, List.append_assoc a text (_ ++ _)] at hedit
  · rename_i before inner hlist
    obtain ⟨rest, rfl⟩ := NamedList.of_eq_braces hlist
    refine ⟨_, .among hlist, ?_⟩
    rintro a b rfl
    have hrest : ∀ names : Text, a ++ (before ++ '\x7b' :: names ++ '\x7d' :: rest) ++ b =
        a ++ (before ++ '\x7b' :: names ++ '\x7d' :: (rest ++ b)) := by simp
    rw [hrest, hrest]
    split at h
    · rename_i hblank
      cases h
      exact applyEdits_soleList a before (rest ++ b) hblank
    · rename_i hblank
      cases h
      exact applyEdits_joiningText a before (rest ++ b) hblank
  · cases h

theorem clauseTokens_soleList : clauseTokens soleList = [.mark '\x7b', .word registryFactory, .mark '\x7d'] := by decide

/-- The braces of a well-formed clause are the ones around its members. -/
theorem exists_braced {clause : Text} {opening ts : List ClauseToken} (hopening : .mark '\x7b' ∉ opening)
    (h : clauseTokens clause = opening ++ .mark '\x7b' :: (ts ++ [.mark '\x7d'])) : ∃ before inner rest,
      clause = before ++ '\x7b' :: inner ++ '\x7d' :: rest ∧ NamedList.of clause = .braces before inner ∧
        clauseTokens before = opening ∧ clauseTokens inner = ts ∧ clauseTokens rest = [] := by
  have hopen : isNameChar '\x7b' = false ∧ isBlankChar '\x7b' = false := by decide
  have hclose : isNameChar '\x7d' = false ∧ isBlankChar '\x7d' = false := by decide
  have hmem : '\x7b' ∈ clause := (mark_mem_clauseTokens hopen.1 hopen.2).1 (by rw [h]; simp)
  obtain ⟨before, behind, rfl, hbefore⟩ := List.eq_append_cons_of_mem hmem
  rw [clauseTokens_append_mark hopen.1 hopen.2] at h
  obtain ⟨hfirst, hsecond⟩ := append_cons_inj (fun hin => hbefore ((mark_mem_clauseTokens hopen.1 hopen.2).1 hin)) hopening h
  have hmem' : '\x7d' ∈ behind.reverse :=
    List.mem_reverse.2 ((mark_mem_clauseTokens hclose.1 hclose.2).1 (by rw [hsecond]; simp))
  obtain ⟨rest, inner, hbehind, hrest⟩ := List.eq_append_cons_of_mem hmem'
  obtain rfl : behind = inner.reverse ++ '\x7d' :: rest.reverse := by
    have := congrArg List.reverse hbehind
    simpa using this
  have hrest' : '\x7d' ∉ rest.reverse := by simpa using hrest
  rw [clauseTokens_append_mark hclose.1 hclose.2] at hsecond
  obtain ⟨hinner, hnone⟩ := append_cons_inj_last
    (fun hin => hrest' ((mark_mem_clauseTokens hclose.1 hclose.2).1 hin)) (List.not_mem_nil) hsecond
  refine ⟨before, inner.reverse, rest.reverse, by simp, ?_, hfirst, hinner, hnone⟩
  rw [← List.cons_append, ← List.append_assoc]
  exact NamedList.of_braced hbefore hrest'

/-- A clause that binds values by name can be joined. -/
theorem exists_join {c : ImportClause} {b : ImportBindings} (h : ValueTokens (clauseTokens c.text) b) :
    ∃ e, c.join = .ok e := by
  have hjoin : NamedList.of c.text ≠ .crossed → ∃ e, c.join = .ok e := by
    intro hcrossed
    simp only [ImportClause.join]
    split
    · exact ⟨_, rfl⟩
    · split <;> exact ⟨_, rfl⟩
    · contradiction
  refine hjoin ?_
  generalize htokens : clauseTokens c.text = ts at h
  have hbraced : ∀ {opening us : List ClauseToken}, .mark '\x7b' ∉ opening →
      ts = opening ++ .mark '\x7b' :: (us ++ [.mark '\x7d']) → NamedList.of c.text ≠ .crossed := by
    rintro opening us hopening rfl
    obtain ⟨before, inner, rest, -, hlist, -⟩ := exists_braced hopening htokens
    simp [hlist]
  cases h with
  | alone name =>
    have hnone : '\x7b' ∉ c.text := fun hin => by
      have := (mark_mem_clauseTokens (c := '\x7b') (by decide) (by decide)).2 hin
      simp [htokens] at this
    simp [NamedList.of_eq_absent hnone]
  | list hmembers => exact @hbraced [] _ (by simp) rfl
  | both name hmembers => exact @hbraced [.word name, .mark ','] _ (by simp) rfl

/-- **Joining a clause that binds values by name adds the factory behind the members, and nothing else.** -/
theorem valueTokens_of_joins {clause joined : Text} {b : ImportBindings} (hjoins : Joins clause joined)
    (h : ValueTokens (clauseTokens clause) b) : ValueTokens (clauseTokens joined) (b.withMember registryFactory) := by
  generalize htokens : clauseTokens clause = ts at h
  have hbraced : ∀ {opening us : List ClauseToken} {members : List (List Text)}, .mark '\x7b' ∉ opening →
      clauseTokens clause = opening ++ .mark '\x7b' :: (us ++ [.mark '\x7d']) → readMembers? [] us = some members →
        ∃ vs, clauseTokens joined = opening ++ .mark '\x7b' :: (vs ++ [.mark '\x7d']) ∧
          readMembers? [] vs = some (members ++ [[registryFactory]]) := by
    intro opening us members hopening hts hmembers
    obtain ⟨before, inner, rest, hclause, hlist, rfl, rfl, hrest⟩ := exists_braced hopening hts
    cases hjoins with
    | behind habsent =>
      rw [habsent] at hlist
      cases hlist
    | among hlist' =>
      rename_i before' inner' rest'
      rw [hlist'] at hlist
      cases hlist
      obtain rfl : rest' = rest := by simpa using hclause
      refine ⟨_, ?_, readMembers?_joinedNames hmembers⟩
      rw [List.append_assoc, List.cons_append, clauseTokens_append_mark (by decide) (by decide),
        clauseTokens_append_mark (by decide) (by decide), hrest]
  cases h with
  | alone name =>
    have hnone : '\x7b' ∉ clause := fun hin => by
      have := (mark_mem_clauseTokens (c := '\x7b') (by decide) (by decide)).2 hin
      simp [htokens] at this
    cases hjoins with
    | behind _ =>
      have hsplit : clause ++ (", ".toList ++ soleList) = clause ++ ',' :: ([' '] ++ soleList) := rfl
      rw [hsplit, clauseTokens_append_mark isNameChar_comma isBlankChar_comma, htokens,
        clauseTokens_blank_append (by decide), clauseTokens_soleList]
      have hsole : readMembers? [] [.word registryFactory] = some [[registryFactory]] := rfl
      exact .both name hsole
    | among _ => exact absurd (by simp) hnone
  | list hmembers =>
    obtain ⟨vs, hvs, hread⟩ := @hbraced [] _ _ (by simp) htokens hmembers
    rw [hvs]
    exact .list hread
  | both name hmembers =>
    obtain ⟨vs, hvs, hread⟩ := @hbraced [.word name, .mark ','] _ _ (by simp) htokens hmembers
    rw [hvs]
    exact .both name hread

end StyleHoist
