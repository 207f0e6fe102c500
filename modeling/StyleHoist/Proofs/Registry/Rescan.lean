import StyleHoist.Proofs.Registry.Bracing
import StyleHoist.Proofs.Registry.Heading
import StyleHoist.Proofs.Registry.Literal

/-!
# Scanning what has been written

What a scan finds in a text to which entries have been added. Quotes, braces and slashes in an entry stand between
quotes or in comments, so an entry leaves the scan for the closing brace where it was, and a line behind the content of
a body is code whatever ends the content.

- `keysOf_append`: keys are found part by part where no key spans two parts.
- `isBody_extendedBody`: a body is closed by its brace also after entries have been added.
- `scan_of_written`: the registry with the entries is found, and all their names in it.
-/

namespace StyleHoist

open Text Listing

/-! ## Keys of parts -/

/-- A text that no key reaches into from what stands before it. -/
structure EndsKeys (t : Text) : Prop where
  word : ∀ c ∈ t.head?, isWordChar c = false
  colon : ∀ c ∈ (trimStart t).head?, c ≠ ':'

theorem takeWhile_append_of_head {p : Char → Bool} {t : Text} (h : ∀ c ∈ t.head?, p c = false) : ∀ u : Text,
    (u ++ t).takeWhile p = u.takeWhile p ∧ (u ++ t).dropWhile p = u.dropWhile p ++ t
  | [] => by
    cases t with
    | nil => exact ⟨rfl, rfl⟩
    | cons c t => simp [h c rfl]
  | c :: u => by
    by_cases hc : p c = true
    · simp [hc, takeWhile_append_of_head h u]
    · simp [hc]

/-- A key is read before a text that no key reaches into. -/
theorem keyPart?_append {t : Text} (h : EndsKeys t) (u : Text) :
    keyPart? (u ++ t) = (keyPart? u).map fun p => (p.1, p.2 ++ t) := by
  obtain ⟨htake, hdrop⟩ := takeWhile_append_of_head h.word u
  simp only [keyPart?, htake, hdrop]
  generalize u.dropWhile isWordChar = v
  by_cases hblank : ∃ c ∈ v, isBlankChar c = false
  · obtain ⟨htrim, hne⟩ := takeWhile_append_of_exists hblank t
    obtain ⟨c, w, hw⟩ := List.exists_cons_of_ne_nil hne
    simp only [trimStart, htrim, hw, List.cons_append]
    by_cases hc : c = ':'
    · subst hc
      simp only
      split <;> rfl
    · split
      · rename_i heq
        exact absurd (List.cons.inj heq).1 hc
      · split
        · rename_i heq
          exact absurd (List.cons.inj heq).1 hc
        · rfl
  · have hall : ∀ c ∈ v, isBlankChar c = true := fun c hc => by
      simpa using fun hp => hblank ⟨c, hc, hp⟩
    have hstart : trimStart (v ++ t) = trimStart t := List.dropWhile_append_of_pos hall
    have hnil : trimStart v = [] := List.dropWhile_eq_nil_iff.2 hall
    rw [hstart, hnil]
    split
    · rename_i hcolon
      exact absurd rfl (h.colon ':' (by simp [hcolon]))
    · rfl

theorem keysFrom_append {t : Text} (h : EndsKeys t) : ∀ {u : Text} {skip : Nat}, skip ≤ u.length →
    keysFrom skip (u ++ t) = keysFrom skip u ++ keysOf t
  | [], skip, hskip => by
    obtain rfl : skip = 0 := by simpa using hskip
    rfl
  | c :: u, skip + 1, hskip => by
    rw [List.cons_append, keysFrom, keysFrom]
    exact keysFrom_append h (by simpa using hskip)
  | c :: u, 0, _ => by
    have hkey := keyPart?_append h (c :: u)
    rw [List.cons_append] at hkey ⊢
    rw [keysFrom, keysFrom, hkey]
    cases keyPart? (c :: u) with
    | none => exact keysFrom_append h (Nat.zero_le _)
    | some p =>
      have hskip : (u ++ t).length - (p.2 ++ t).length = u.length - p.2.length := by
        simp only [List.length_append]
        omega
      simp only [Option.map_some, hskip, keysFrom_append h (Nat.sub_le _ _), List.cons_append]

/-- **Keys are found part by part where no key reaches from one part into the next.** -/
theorem keysOf_append {t : Text} (h : EndsKeys t) (u : Text) : keysOf (u ++ t) = keysOf u ++ keysOf t :=
  keysFrom_append h (Nat.zero_le _)

theorem endsKeys_of_isBlank {t : Text} (h : isBlank t = true) : EndsKeys t where
  word := fun c hc => by
    refine isWordChar_of_isBlankChar (List.all_eq_true.1 h c ?_)
    exact List.mem_of_mem_head? hc
  colon := fun c hc => by
    rw [trimStart, List.dropWhile_eq_nil_iff.2 (by simpa [isBlank] using h)] at hc
    cases hc

theorem endsKeys_comma (t : Text) : EndsKeys (',' :: t) where
  word := fun c hc => by
    obtain rfl : ',' = c := Option.some.inj hc
    decide
  colon := fun c hc => by
    rw [trimStart, List.dropWhile_cons_of_neg (by decide)] at hc
    obtain rfl : ',' = c := Option.some.inj hc
    decide

theorem keysOf_of_isBlank : ∀ {t : Text}, isBlank t = true → keysOf t = []
  | [], _ => rfl
  | c :: t, h => by
    obtain ⟨hc, ht⟩ := isBlank_cons.1 h
    have hword : (c :: t).takeWhile isWordChar = [] :=
      List.takeWhile_cons_of_neg (by simp [isWordChar_of_isBlankChar hc])
    have hnone : keyPart? (c :: t) = none := by
      simp only [keyPart?, hword]
      split <;> rfl
    rw [keysOf, keysFrom, hnone]
    exact keysOf_of_isBlank ht

theorem distinctFrom_append : ∀ (xs ys seen : List Text), distinctFrom seen xs <+: distinctFrom seen (xs ++ ys)
  | [], ys, seen => List.nil_prefix
  | x :: xs, ys, seen => by
    simp only [List.cons_append, distinctFrom]
    split
    · exact distinctFrom_append xs ys seen
    · exact List.cons_prefix_cons.2 ⟨rfl, distinctFrom_append xs ys _⟩

/-! ## Entries among others -/

namespace NewEntry

/-- The text of a sound entry has all its brackets closed and ends with a comma. -/
theorem Sound.closed_text {e : NewEntry} (h : e.Sound) : Closed e.text ∧ ∃ u, e.text = u ++ [','] := by
  obtain ⟨xs, hread, -, -⟩ := isEntry_entryText e.keepComments h.name h.properties h.comments
  obtain ⟨before, htext⟩ := entryText_closingLine e.name e.properties e.comments e.keepComments
  refine ⟨congrArg Prod.fst hread, before ++ "\t\x7d".toList, htext.trans ?_⟩
  rw [List.append_assoc]
  exact congrArg _ (by decide)

/-- The text of an entry begins with its name, as a key. -/
theorem Sound.exists_key {e : NewEntry} (h : e.Sound) : ∃ rest, e.text = '\t' :: (e.name ++ ':' :: rest) := by
  obtain ⟨rest, htext⟩ := entryText_headerLine h.name e.properties e.comments e.keepComments
  exact ⟨' ' :: '\x7b' :: '\n' :: rest, htext.trans (by simp [headerLine])⟩

end NewEntry

/-- The texts of entries. -/
def textsOf (entries : List NewEntry) : List Text :=
  entries.map (·.text)

theorem textsOf_cons (e : NewEntry) (es : List NewEntry) : textsOf (e :: es) = e.text :: textsOf es := rfl

section Entries

variable {entries : List NewEntry}

/-- A scan of entries comes back to where it was. -/
theorem scan?_entries : ∀ {entries : List NewEntry}, (∀ e ∈ entries, e.Sound) →
    Bracing.start.scan? (joinLines (textsOf entries)) = some Bracing.start
  | [], _ => rfl
  | [e], h => by
    obtain ⟨hclosed, u, hu⟩ := (h e (by simp)).closed_text
    show Bracing.start.scan? e.text = some Bracing.start
    rw [hu] at hclosed ⊢
    exact Bracing.scan?_of_read hclosed
  | e :: e' :: es, h => by
    obtain ⟨hclosed, u, hu⟩ := (h e (by simp)).closed_text
    have hscan : Bracing.start.scan? e.text = some Bracing.start := by
      rw [hu] at hclosed ⊢
      exact Bracing.scan?_of_read hclosed
    rw [textsOf_cons, joinLines_cons (by simp [textsOf_cons]), Bracing.scan?_append, hscan]
    exact scan?_entries fun d hd => h d (List.mem_cons_of_mem _ hd)

/-- The text of each entry is a part of the text of all. -/
theorem infix_joinLines {l : Text} : ∀ {ls : List Text}, l ∈ ls → l <:+: joinLines ls
  | [k], h => by
    rw [List.mem_singleton.1 h]
    exact List.infix_refl k
  | k :: m :: ls, h => by
    rw [joinLines_cons (by simp)]
    rcases List.mem_cons.1 h with rfl | h
    · exact (List.prefix_append _ _).isInfix
    · exact (infix_joinLines h).trans ((List.suffix_cons _ _).trans (List.suffix_append _ _)).isInfix

/-- The name of an entry is a key wherever its text stands. -/
theorem name_mem_keysOf {e : NewEntry} (h : e.Sound) {body : Text} (hbody : e.text <:+: body) :
    e.name ∈ keysOf body := by
  obtain ⟨rest, hrest⟩ := h.exists_key
  obtain ⟨a, b, rfl⟩ := hbody
  have htext : a ++ e.text ++ b = (a ++ ['\t']) ++ (e.name ++ ([] ++ ':' :: (rest ++ b))) := by
    simp [hrest]
  rw [htext]
  refine mem_keysOf (ne_nil_of_isEntryName h.name) (isWordChar_of_isEntryName h.name) rfl fun c hc => ?_
  obtain rfl : '\t' = c := by simpa using hc
  decide

/-- No key reaches into entries from what stands before their line. -/
theorem endsKeys_entries (h : ∀ e ∈ entries, e.Sound) {margin : Text} (hmargin : isBlank margin = true) :
    EndsKeys ('\n' :: joinLines (textsOf entries) ++ margin) where
  word := fun c hc => by
    obtain rfl : '\n' = c := by simpa using hc
    decide
  colon := fun c hc => by
    cases entries with
    | nil => exact (endsKeys_of_isBlank (t := '\n' :: margin) hmargin).colon c hc
    | cons e es =>
      have he := h e (by simp)
      obtain ⟨rest, hrest⟩ := he.exists_key
      obtain ⟨d, ds, hname⟩ := List.exists_cons_of_ne_nil (ne_nil_of_isEntryName he.name)
      have hjoin : ∃ v, joinLines (textsOf (e :: es)) = e.text ++ v := by
        cases es with
        | nil => exact ⟨[], (List.append_nil _).symm⟩
        | cons e' es => exact ⟨_, joinLines_cons (by simp)⟩
      obtain ⟨v, hv⟩ := hjoin
      have hd := isAlphanum_of_isEntryName he.name d (by simp [hname])
      have hblank : isBlankChar d = false := Bool.eq_false_iff.2 fun hblank => by
        have hword := isWordChar_of_isAlphanum hd
        rw [isWordChar_of_isBlankChar hblank] at hword
        cases hword
      rw [hv, hrest, hname] at hc
      simp only [List.cons_append] at hc
      rw [trimStart, List.dropWhile_cons_of_pos (by decide), List.dropWhile_cons_of_pos (by decide),
        List.dropWhile_cons_of_neg (by simp [hblank])] at hc
      obtain rfl : d = c := by simpa using hc
      rintro rfl
      cases hd

end Entries

/-! ## Extended bodies -/

section Extended

variable {r : Registry} {entries : List NewEntry}

/-- White space stands behind entries that have been added. -/
theorem isBlank_behind (r : Registry) :
    isBlank ((if r.margin.contains '\n' then [] else ['\n']) ++ r.margin) = true := by
  have hblank := r.isBlank_margin
  cases r.margin.contains '\n'
  · exact hblank
  · exact hblank

/-- **A body is closed by its brace also after entries have been added.** -/
theorem isBody_extendedBody (hr : Bracing.IsBody r.body) (h : ∀ e ∈ entries, e.Sound) :
    Bracing.IsBody (r.extendedBody (textsOf entries)) := by
  have hcomma : (if r.needsComma then [','] else [] : Text) = [] ∨
      (if r.needsComma then [','] else [] : Text) = [','] := by
    cases r.needsComma
    · exact Or.inl rfl
    · exact Or.inr rfl
  rw [← r.content_append_margin] at hr
  refine ⟨Bracing.start, ?_, rfl⟩
  rw [extendedBody_eq, Registry.addition, List.cons_append,
    Bracing.closes_append_line r.isBlank_margin hcomma hr, Bracing.scan?_append, scan?_entries h]
  exact Bracing.scan?_blank (isBlank_behind r)

/-- The keys of an extended body are those of the body, and others behind them. -/
theorem keysOf_extendedBody (r : Registry) (h : ∀ e ∈ entries, e.Sound) :
    keysOf r.body <+: keysOf (r.extendedBody (textsOf entries)) := by
  have haddition : EndsKeys (r.addition (textsOf entries)) := endsKeys_entries h (isBlank_behind r)
  have hends : EndsKeys ((if r.needsComma then [','] else []) ++ r.addition (textsOf entries)) := by
    cases r.needsComma
    · exact haddition
    · exact endsKeys_comma _
  have hbody : keysOf r.body = keysOf r.content := by
    conv => lhs; rw [← r.content_append_margin]
    rw [keysOf_append (endsKeys_of_isBlank r.isBlank_margin), keysOf_of_isBlank r.isBlank_margin, List.append_nil]
  rw [hbody, extendedBody_eq, keysOf_append hends]
  exact List.prefix_append _ _

theorem infix_extendedBody (r : Registry) {e : NewEntry} (he : e ∈ entries) :
    e.text <:+: r.extendedBody (textsOf entries) := by
  have hjoin : e.text <:+: joinLines (textsOf entries) := infix_joinLines (List.mem_map_of_mem he)
  rw [extendedBody_eq, Registry.addition, List.cons_append]
  refine hjoin.trans (List.IsInfix.trans ?_ (List.suffix_append _ _).isInfix)
  refine List.IsInfix.trans ?_ (List.suffix_append _ _).isInfix
  exact (List.prefix_append _ _).isInfix.trans (List.suffix_cons _ _).isInfix

end Extended

/-- The names that are taken by one registry. -/
theorem mem_takenNames_singleton {r : Registry} {name : Text} : name ∈ takenNames [r] ↔ name ∈ keysOf r.body := by
  simp [mem_takenNames]

/-! ## Places for bodies -/

/-- Between two parts of a text a scan finds a registry of this name that starts at this offset, whatever body stands
there. -/
def BodySlot (a b : Text) (start : Nat) (name : Text) : Prop :=
  ∀ body, Bracing.IsBody body → ∃ r ∈ registriesIn (a ++ body ++ '\x7d' :: b),
    r.name = name ∧ r.range.start = start ∧ r.body = body ∧ size (a ++ r.body) = r.closeBrace

/-- The body of a registry that is found stands in a place for bodies. -/
theorem slot_of_mem_registriesIn {t : Text} {r : Registry} (hr : r ∈ registriesIn t) :
    ∃ a b, t = a ++ r.body ++ '\x7d' :: b ∧ size (a ++ r.body) = r.closeBrace ∧ Bracing.IsBody r.body ∧
      BodySlot a b r.range.start r.name := by
  obtain ⟨x, y, -, -, hbody⟩ := standsIn_of_mem_registriesIn hr
  obtain ⟨lead, behind, rfl, hopens⟩ := exists_lead_of_mem_registriesFrom r hr
  refine ⟨lead ++ ['\x7b'], behind, by simp, ?_, (Bracing.closeBody?_iff.1 hbody).2, fun body hbody => ?_⟩
  · rw [hopens.closeBrace, Nat.zero_add, ← List.append_cons]
  · obtain ⟨stop, hmem⟩ := hopens.found body behind (Bracing.closeBody?_iff.2 ⟨rfl, hbody⟩)
    simp only [List.append_assoc, List.singleton_append]
    exact ⟨_, hmem, rfl, rfl, rfl, (Nat.zero_add _).symm⟩

/-! ## Declarations -/

/-- What stands before and behind a declaration where a policy puts it. -/
def declarationSite (t : Text) : InsertionPolicy → Text × Text
  | .top => ([], "\n\n".toList ++ t)
  | .bottom => (t ++ if t.isEmpty || endsWith ['\n'] t then ['\n'] else "\n\n".toList, ['\n'])
  | .afterImports =>
    match endOfImports? t with
    | some offset => (before t offset ++ "\n\n".toList, after t offset)
    | none => ([], "\n\n".toList ++ t)

/-- A declaration begins the text or a line of it. -/
theorem declarationSite_line (t : Text) (policy : InsertionPolicy) :
    (declarationSite t policy).1 = [] ∨ ∃ u, (declarationSite t policy).1 = u ++ ['\n'] := by
  have hgap : "\n\n".toList = ['\n'] ++ ['\n'] := by decide
  cases policy with
  | top => exact Or.inl rfl
  | bottom =>
    refine Or.inr ?_
    simp only [declarationSite]
    split
    · exact ⟨t, rfl⟩
    · exact ⟨t ++ ['\n'], by rw [hgap, List.append_assoc]⟩
  | afterImports =>
    simp only [declarationSite]
    split
    · exact Or.inr ⟨before t _ ++ ['\n'], by rw [hgap, List.append_assoc]⟩
    · exact Or.inl rfl

/-- The edit that declares a registry puts the declaration at its site. -/
theorem applyEdits_createRegistry (t name : Text) (entries : List Text) (policy : InsertionPolicy) :
    applyEdits t [createRegistry t name entries policy] =
      .ok ((declarationSite t policy).1 ++ declarationText name entries ++ (declarationSite t policy).2) := by
  have htop : applyEdits t [.insertion 0 (declarationText name entries ++ "\n\n".toList)] =
      .ok ([] ++ declarationText name entries ++ ("\n\n".toList ++ t)) := by
    have hedit := applyEdits_insertion [] (declarationText name entries ++ "\n\n".toList) t
    simpa only [List.nil_append, size_nil, List.append_assoc] using hedit
  cases policy with
  | top => exact htop
  | bottom =>
    have hedit := applyEdits_insertion t ((if t.isEmpty || endsWith ['\n'] t then ['\n'] else "\n\n".toList)
      ++ declarationText name entries ++ ['\n']) []
    simpa only [List.append_nil, createRegistry, declarationSite, List.append_assoc] using hedit
  | afterImports =>
    simp only [createRegistry, declarationSite]
    cases hoffset : endOfImports? t with
    | none => exact htop
    | some offset =>
      obtain ⟨a, b, rfl, rfl⟩ := isBoundary_iff.1 (isBoundary_endOfImports hoffset)
      have hedit := applyEdits_insertion a ("\n\n".toList ++ declarationText name entries) b
      simpa only [before_size_append, after_size_append, List.append_assoc] using hedit

/-- The body of a declared registry. -/
def declaredBody (entries : List Text) : Text :=
  '\n' :: joinLines entries ++ ['\n']

theorem isBody_declaredBody {entries : List NewEntry} (h : ∀ e ∈ entries, e.Sound) :
    Bracing.IsBody (declaredBody (textsOf entries)) := by
  have hline : Bracing.start.scan? ['\n'] = some Bracing.start := Bracing.scan?_blank (by decide)
  refine ⟨Bracing.start, ?_, rfl⟩
  rw [declaredBody, ← List.singleton_append, Bracing.scan?_append, Bracing.scan?_append, hline, Option.bind_some,
    scan?_entries h]
  exact hline

/-- What stands before and behind the body of a declared registry. -/
def declarationFrame (t name : Text) (policy : InsertionPolicy) : Text × Text :=
  ((declarationSite t policy).1 ++ openingText name, ");".toList ++ (declarationSite t policy).2)

/-- A declaration has its entries on lines of their own between its braces. -/
theorem declarationText_site (t name : Text) (entries : List Text) (policy : InsertionPolicy) :
    (declarationSite t policy).1 ++ declarationText name entries ++ (declarationSite t policy).2 =
      (declarationFrame t name policy).1 ++ declaredBody entries ++ '\x7d' :: (declarationFrame t name policy).2 := by
  have hconst : "const ".toList = "const".toList ++ [' '] := by decide
  have hopen : ".create(\x7b\n".toList = ".create(\x7b".toList ++ ['\n'] := by decide
  have hclose : "\n\x7d);".toList = '\n' :: '\x7d' :: ");".toList := by decide
  unfold declarationText declarationFrame declaredBody openingText factoryCall
  rewrite [hconst, hopen, hclose]
  -- The texts do not matter, and as variables they are not evaluated.
  generalize "const".toList = const
  generalize " = ".toList = sign
  generalize ".create(\x7b".toList = call
  generalize ");".toList = closing
  simp only [List.append_assoc, List.cons_append, List.nil_append]

/-- The body of a declared registry stands in a place for bodies. -/
theorem slot_declarationFrame (t : Text) {name : Text} (policy : InsertionPolicy) (hname : isEntryName name = true) :
    BodySlot (declarationFrame t name policy).1 (declarationFrame t name policy).2 (size (declarationSite t policy).1)
      name := by
  intro body hbody
  have hclose : closeBody? .code 0 (body ++ '\x7d' :: (declarationFrame t name policy).2) =
      some (body, (declarationFrame t name policy).2) := Bracing.closeBody?_iff.2 ⟨rfl, hbody⟩
  obtain ⟨stop, hmem⟩ := mem_registriesIn_of_declaration hname (declarationSite_line t policy) hclose
  exact ⟨_, hmem, rfl, rfl, rfl, rfl⟩

/-! ## Reading back -/

/-- What a scan finds of a registry after an edit that adds entries: the registry with the inserted text in its body,
and the names of the entries behind those that it has had. -/
structure Registry.ReadsBack (r : Registry) (entries : List NewEntry) (t : Text) (r' : Registry) : Prop where
  found : r' ∈ registriesIn t
  name : r'.name = r.name
  start : r'.range.start = r.range.start
  body : ∃ before after, r.body = before ++ after ∧
    (r.insertEntries (textsOf entries)).range = ⟨r.closeBrace - size after, r.closeBrace - size after⟩ ∧
    r'.body = before ++ (r.insertEntries (textsOf entries)).replacement ++ after
  kept : takenNames [r] <+: takenNames [r']
  added : ∀ e ∈ entries, e.name ∈ takenNames [r']

/-- **A scan reads back what has been written. Entries that are added to a registry are found in it, behind those that
it has had; entries for which a registry is declared are found in a registry of that name at the declaration.** -/
theorem scan_of_written {entries : List NewEntry} (h : ∀ e ∈ entries, e.Literal) :
    (∀ t, ∀ r ∈ registriesIn t, ∃ t' r', applyEdits t [r.insertEntries (textsOf entries)] = .ok t' ∧
      r.ReadsBack entries t' r') ∧
    ∀ t name policy, isEntryName name = true → ∃ t' r',
      applyEdits t [createRegistry t name (textsOf entries) policy] = .ok t' ∧
        t' = (declarationSite t policy).1 ++ declarationText name (textsOf entries) ++ (declarationSite t policy).2 ∧
        r' ∈ registriesIn t' ∧ r'.name = name ∧ r'.range.start = size (declarationSite t policy).1 ∧
        ∀ e ∈ entries, e.name ∈ takenNames [r'] := by
  have hsound : ∀ e ∈ entries, e.Sound := fun e he => (h e he).sound
  constructor
  · intro t r hr
    obtain ⟨a, b, rfl, hclose, hbody, hslot⟩ := slot_of_mem_registriesIn hr
    obtain ⟨r', hfound, hname, hstart, hbody', -⟩ := hslot _ (isBody_extendedBody hbody hsound)
    refine ⟨_, r', applyEdits_insertEntries_at hclose _ b, hfound, hname, hstart, ?_, ?_, fun e he => ?_⟩
    · exact ⟨r.content, r.margin, r.content_append_margin.symm, rfl, hbody'⟩
    · simp only [takenNames, List.flatMap_cons, List.flatMap_nil, List.append_nil, hbody']
      obtain ⟨keys, hkeys⟩ := keysOf_extendedBody r hsound
      rw [← hkeys]
      exact distinctFrom_append _ _ _
    · rw [mem_takenNames_singleton, hbody']
      exact name_mem_keysOf (hsound e he) (infix_extendedBody r he)
  · intro t name policy hname
    obtain ⟨r', hfound, hname', hstart, hbody', -⟩ :=
      slot_declarationFrame t policy hname _ (isBody_declaredBody hsound)
    rw [← declarationText_site] at hfound
    refine ⟨_, r', applyEdits_createRegistry t name (textsOf entries) policy, rfl, hfound, hname', hstart,
      fun e he => ?_⟩
    rw [mem_takenNames_singleton, hbody']
    have hjoin : e.text <:+: joinLines (textsOf entries) := infix_joinLines (List.mem_map_of_mem he)
    exact name_mem_keysOf (hsound e he)
      (hjoin.trans ((List.suffix_cons _ _).isInfix.trans (List.prefix_append _ _).isInfix))

/-- The body of a style with a comment that holds a quote and a brace. -/
def quotingBody : Text := "\n// don\x27t open \x7b\ncontent: \x22it\x27s \x7d\x22".toList

/-- An entry that holds quotes and braces which stand alone, in a string and in a comment. -/
def quotingEntry : NewEntry :=
  ⟨"note".toList, ["content: \x22it\x27s \x7d\x22".toList], (stripComments quotingBody).comments, true⟩

theorem literal_quotingEntry : quotingEntry.Literal where
  name := by decide
  nonempty := by simp [quotingEntry]
  properties := fun p hp => by
    obtain rfl : p = "content: \x22it\x27s \x7d\x22".toList := by simpa [quotingEntry] using hp
    exact ⟨"content".toList, [], [' '], "\x22it\x27s \x7d\x22".toList, by decide, .bare (by decide) (by decide) rfl,
      .quoted (by decide) (by decide), rfl, rfl, by decide⟩
  comments := fun c hc => ⟨quotingBody, c, hc, Or.inl rfl⟩

/-- It is found in the registry with a comment behind its last entry, and in one that is declared for it. -/
theorem scan_of_written_quotingEntry : quotingEntry.comments.length = 1 ∧
    (∃ t' r', applyEdits notedRegistry [(Registry.mk "styles".toList "\n\tbox: \x7b flex: 1 \x7d // the box\n".toList
        ⟨0, 66⟩ 64).insertEntries (textsOf [quotingEntry])] = .ok t' ∧
      (Registry.mk "styles".toList "\n\tbox: \x7b flex: 1 \x7d // the box\n".toList ⟨0, 66⟩ 64).ReadsBack
        [quotingEntry] t' r') ∧
    ∃ t' r', applyEdits notedRegistry [createRegistry notedRegistry "more".toList (textsOf [quotingEntry]) .bottom] =
      .ok t' ∧ r' ∈ registriesIn t' ∧ r'.name = "more".toList ∧ "note".toList ∈ takenNames [r'] := by
  have h : ∀ e ∈ [quotingEntry], e.Literal := List.forall_mem_singleton.2 literal_quotingEntry
  obtain ⟨hinsert, hcreate⟩ := scan_of_written h
  obtain ⟨t', r', hedits, -, hfound, hname, -, hadded⟩ := hcreate notedRegistry "more".toList .bottom (by decide)
  exact ⟨by decide, hinsert _ _ (by decide +kernel), t', r', hedits, hfound, hname, hadded quotingEntry (by simp)⟩

end StyleHoist
