import StyleHoist.Inspection
import StyleHoist.Proofs.Extraction.Names
import StyleHoist.Proofs.Extraction.ReadBack
import StyleHoist.Proofs.Style.Dedenting

/-!
# What an inspection foretells

An inspection lists the registries and the style literals of a file, and a bulk extraction of the file goes by the same
two lists. The inspection counts the static properties of a literal as they are written, the extraction those that are
left once white space and commas have been trimmed off. The two agree where no static property is hollow.

- `firstRepeated?_eq_some_iff`: the name that is found to be repeated is the one whose repetition comes first.
- `prepare_ok_iff`: a target can be prepared if and only if it has a static property, where none of them is hollow.
- `predicts_inspect`: an inspection foretells what a bulk extraction comes to.
-/

namespace StyleHoist

open Text

/-! ## Repetitions -/

/-- A name of a list has come before, and none of those before it has. -/
def IsFirstRepeated (name : Text) (names : List Text) : Prop :=
  ∃ before after, names = before ++ name :: after ∧ before.Nodup ∧ name ∈ before

theorem firstRepeated?_eq_none_iff : ∀ {names seen : List Text},
    firstRepeated? seen names = none ↔ names.Nodup ∧ ∀ name ∈ names, name ∉ seen
  | [], seen => by simp [firstRepeated?]
  | n :: names, seen => by
    simp only [firstRepeated?]
    split
    · rename_i h
      have h : n ∈ seen := by simpa using h
      simp [h]
    · rename_i h
      have h : n ∉ seen := by simpa using h
      rw [firstRepeated?_eq_none_iff, List.nodup_cons]
      constructor
      · rintro ⟨hnodup, hseen⟩
        refine ⟨⟨fun hm => hseen n hm (by simp), hnodup⟩, List.forall_mem_cons.2 ⟨h, fun m hm hs => ?_⟩⟩
        exact hseen m hm (List.mem_cons_of_mem _ hs)
      · rintro ⟨⟨hn, hnodup⟩, hseen⟩
        refine ⟨hnodup, fun m hm hs => ?_⟩
        rcases List.mem_cons.1 hs with rfl | hs
        · exact hn hm
        · exact hseen m (List.mem_cons_of_mem _ hm) hs

theorem firstRepeated?_eq_some : ∀ {names seen : List Text} {name : Text}, firstRepeated? seen names = some name →
    ∃ before after, names = before ++ name :: after ∧ before.Nodup ∧ (∀ m ∈ before, m ∉ seen) ∧
      (name ∈ seen ∨ name ∈ before)
  | [], _, _, h => by cases h
  | n :: names, seen, name, h => by
    simp only [firstRepeated?] at h
    split at h
    · rename_i hn
      cases h
      exact ⟨[], names, rfl, List.nodup_nil, by simp, Or.inl (by simpa using hn)⟩
    · rename_i hn
      have hn : n ∉ seen := by simpa using hn
      obtain ⟨before, after, rfl, hnodup, hseen, hname⟩ := firstRepeated?_eq_some h
      refine ⟨n :: before, after, rfl, List.nodup_cons.2 ⟨fun hm => hseen n hm (by simp), hnodup⟩, ?_, ?_⟩
      · exact List.forall_mem_cons.2 ⟨hn, fun m hm hs => hseen m hm (List.mem_cons_of_mem _ hs)⟩
      · rcases hname with hname | hname
        · exact (List.mem_cons.1 hname).elim (fun e => Or.inr (by simp [e])) Or.inl
        · exact Or.inr (List.mem_cons_of_mem _ hname)

/-- Only one name is the first to be repeated. -/
theorem IsFirstRepeated.unique {name name' : Text} {names : List Text} (h : IsFirstRepeated name names)
    (h' : IsFirstRepeated name' names) : name = name' := by
  obtain ⟨before, after, rfl, hnodup, hname⟩ := h
  obtain ⟨before', after', heq, hnodup', hname'⟩ := h'
  -- A longer part before the repetition would hold the shorter one with its repetition.
  have hlonger : ∀ {a b : List Text} {n : Text}, n ∈ a → ¬(a ++ n :: b).Nodup := by
    intro a b n hn hd
    exact (List.nodup_append.1 hd).2.2 n hn n (by simp) rfl
  rcases List.append_eq_append_iff.1 heq with ⟨mid, rfl, hmid⟩ | ⟨mid, rfl, hmid⟩
  · cases mid with
    | nil => exact (List.cons.inj hmid).1
    | cons m mid =>
      obtain ⟨rfl, -⟩ := List.cons.inj hmid
      exact absurd hnodup' (hlonger hname)
  · cases mid with
    | nil => exact (List.cons.inj hmid).1.symm
    | cons m mid =>
      obtain ⟨rfl, -⟩ := List.cons.inj hmid
      exact absurd hnodup (hlonger hname')

theorem IsFirstRepeated.not_nodup {name : Text} {names : List Text} (h : IsFirstRepeated name names) :
    ¬names.Nodup := by
  obtain ⟨before, after, rfl, -, hmem⟩ := h
  exact fun hnodup => (List.nodup_append.1 hnodup).2.2 name hmem name (by simp) rfl

/-- **The name that is found to be repeated is the one whose repetition comes first.** -/
theorem firstRepeated?_eq_some_iff {names : List Text} {name : Text} :
    firstRepeated? [] names = some name ↔ IsFirstRepeated name names := by
  have hfound : ∀ {name}, firstRepeated? [] names = some name → IsFirstRepeated name names := by
    intro name h
    obtain ⟨before, after, rfl, hnodup, -, hname⟩ := firstRepeated?_eq_some h
    exact ⟨before, after, rfl, hnodup, hname.resolve_left List.not_mem_nil⟩
  refine ⟨hfound, fun h => ?_⟩
  cases hfirst : firstRepeated? [] names with
  | some name' => rw [(hfound hfirst).unique h]
  | none =>
    obtain ⟨before, after, rfl, -, hname⟩ := h
    obtain ⟨hnodup, -⟩ := firstRepeated?_eq_none_iff.1 hfirst
    exact absurd rfl ((List.nodup_append.1 hnodup).2.2 name hname name (by simp))

/-! ## Hollow texts -/

/-- A text is hollow if it is blank, or has only commas but for white space around them. -/
def IsHollow (t : Text) : Prop :=
  (trim t).all (· == ',') = true

instance (t : Text) : Decidable (IsHollow t) :=
  inferInstanceAs (Decidable (_ = true))

/-- A hollow text is commas with white space around them. -/
theorem isHollow_iff {t : Text} : IsHollow t ↔
    ∃ a commas b, t = a ++ commas ++ b ∧ isBlank a = true ∧ isBlank b = true ∧ commas.all (· == ',') = true := by
  constructor
  · intro h
    obtain ⟨b, hb, hblank⟩ := trimEnd_append_blank t
    refine ⟨(trimEnd t).takeWhile isBlankChar, trim t, b, ?_, List.all_takeWhile, hblank, h⟩
    rw [← trimStart_trimEnd, takeWhile_append_trimStart, ← hb]
  · rintro ⟨a, commas, b, rfl, ha, hb, hcommas⟩
    rw [IsHollow, trim_append_of_isBlank hb, trim_blank_append ha]
    exact List.all_eq_true.2 fun c hc => List.all_eq_true.1 hcommas c ((Listing.infix_trim commas).subset hc)

/-- A newline stands before commas or behind them. -/
theorem newline_beside_commas {x y a commas b : Text} (h : x ++ '\n' :: y = a ++ (commas ++ b))
    (hcommas : commas.all (· == ',') = true) :
    (∃ m, a = x ++ '\n' :: m ∧ y = m ++ (commas ++ b)) ∨ ∃ m, x = a ++ (commas ++ m) ∧ b = m ++ '\n' :: y := by
  have hnone : ∀ {m : Text}, m <:+ commas → '\n' :: y = m ++ b → m = [] := by
    intro m hm he
    cases m with
    | nil => rfl
    | cons c m =>
      have hc := List.all_eq_true.1 hcommas c (hm.subset (by simp))
      obtain rfl := (List.cons.inj he).1
      cases hc
  rcases List.append_eq_append_iff.1 h with ⟨mid, rfl, hmid⟩ | ⟨mid, rfl, hmid⟩
  · cases mid with
    | nil =>
      obtain rfl := hnone (List.suffix_refl commas) hmid
      exact Or.inr ⟨[], by simp, hmid.symm⟩
    | cons c mid =>
      obtain ⟨rfl, rfl⟩ := List.cons.inj hmid
      exact Or.inl ⟨mid, rfl, rfl⟩
  · rcases List.append_eq_append_iff.1 hmid with ⟨m, rfl, hm⟩ | ⟨m, hm, hb⟩
    · exact Or.inr ⟨m, rfl, hm⟩
    · obtain rfl := hnone ⟨mid, hm.symm⟩ hb
      rw [List.append_nil] at hm
      exact Or.inr ⟨[], by rw [hm, List.append_nil], hb.symm⟩

/-- Blanks at the start of a line do not matter to whether a text is hollow. -/
theorem isHollow_indent {x indent y : Text} (hindent : isBlank indent = true) (h : IsHollow (x ++ '\n' :: y)) :
    IsHollow (x ++ '\n' :: (indent ++ y)) := by
  obtain ⟨a, commas, b, heq, ha, hb, hcommas⟩ := isHollow_iff.1 h
  have happend : ∀ {s u : Text}, isBlank (s ++ u) = true ↔ isBlank s = true ∧ isBlank u = true := by
    simp [isBlank]
  have hcons : ∀ {u : Text}, isBlank ('\n' :: u) = true ↔ isBlank u = true := by
    intro u
    rw [isBlank, List.all_cons, show isBlankChar '\n' = true from by decide, Bool.true_and, isBlank]
  rw [List.append_assoc] at heq
  refine isHollow_iff.2 ?_
  rcases newline_beside_commas heq hcommas with ⟨m, rfl, rfl⟩ | ⟨m, rfl, rfl⟩
  · refine ⟨x ++ '\n' :: (indent ++ m), commas, b, by simp, ?_, hb, hcommas⟩
    simp only [happend, hcons] at ha ⊢
    exact ⟨ha.1, hindent, ha.2⟩
  · refine ⟨a, commas, m ++ '\n' :: (indent ++ y), by simp, ha, ?_, hcommas⟩
    simp only [happend, hcons] at hb ⊢
    exact ⟨hb.1, hindent, hb.2⟩

theorem isHollow_lines (n : Nat) : ∀ (x : Text) (ls : List Text),
    IsHollow (x ++ (ls.map (dropIndent n)).flatMap ('\n' :: ·)) → IsHollow (x ++ ls.flatMap ('\n' :: ·))
  | _, [], h => h
  | x, l :: ls, h => by
    obtain ⟨indent, hindent, hl⟩ := exists_append_dropIndent n l
    rw [List.map_cons, List.flatMap_cons, ← List.append_assoc] at h
    have hrest := isHollow_lines n _ ls h
    rw [List.append_assoc, List.cons_append] at hrest
    have hindented := isHollow_indent hindent.isBlank hrest
    rwa [← List.append_assoc indent, ← hl] at hindented

/-- A text is not hollow if its dedented lines are not. -/
theorem isHollow_of_dedent {t : Text} (h : IsHollow (dedent t)) : IsHollow t := by
  obtain ⟨l, ls, hls⟩ := List.exists_cons_of_ne_nil (splitLines_ne_nil t)
  rw [dedent, hls] at h
  simp only [Listing.joinLines_eq_flatMap] at h
  have hlines := isHollow_lines _ l ls h
  rwa [← Listing.joinLines_eq_flatMap, ← hls, joinLines_splitLines] at hlines

/-- Trimming leaves nothing of a text only if it is hollow. -/
theorem isHollow_of_trimProperty {t : Text} (h : trimProperty t = []) : IsHollow t := by
  obtain ⟨commas, hcommas, hall⟩ := dropEndWhile_append (· == ',') (trim t)
  obtain ⟨margin, hmargin, hblank⟩ := trimEnd_append_blank (dropEndWhile (· == ',') (trim t))
  rw [trimProperty] at h
  rw [h, List.nil_append] at hmargin
  rw [hmargin] at hcommas
  have hhollow : IsHollow (trim t) :=
    isHollow_iff.2 ⟨margin, commas, [], by rw [hcommas, List.append_nil], hblank, rfl, hall⟩
  rwa [IsHollow, trim_trim] at hhollow

/-! ## Targets that are taken up -/

/-- No static property of a body is hollow as it is written. -/
def HasSubstance (body : Text) : Prop :=
  ∀ b, StyleBody.read body = .ok b → ∀ n ∈ b.properties, PropertyClass.of n = .static → ¬IsHollow (b.slice n.span)

theorem hasSubstance_iff {body : Text} {b : StyleBody} (h : StyleBody.read body = .ok b) :
    HasSubstance body ↔ ∀ n ∈ b.properties, PropertyClass.of n = .static → ¬IsHollow (b.slice n.span) :=
  ⟨fun hall => hall b h, fun hall _ hb => Except.ok.inj (h.symm.trans hb) ▸ hall⟩

instance (body : Text) : Decidable (HasSubstance body) :=
  match h : StyleBody.read body with
  | .error _ => .isTrue fun _ hb => nomatch h.symm.trans hb
  | .ok _ => decidable_of_iff _ (hasSubstance_iff h).symm

/-- A property of a body is read from it. -/
theorem mem_propertiesOf {body : Text} {q : Property} (h : q ∈ propertiesOf body) :
    ∃ b, StyleBody.read body = .ok b ∧ ∃ n ∈ b.properties, q = b.property n := by
  unfold propertiesOf at h
  cases hb : StyleBody.read body with
  | error fault => simp [hb] at h
  | ok b =>
    simp only [hb, List.mem_map] at h
    obtain ⟨n, hn, rfl⟩ := h
    exact ⟨b, rfl, n, hn, rfl⟩

/-- What a registry takes of the static properties of a body with substance is nothing only if there are none. -/
theorem formatStatic_eq_nil_iff {body : Text} (h : HasSubstance body) (sorted : Bool) :
    formatStatic sorted (staticTexts (propertiesOf body)) = [] ↔ staticTexts (propertiesOf body) = [] := by
  have hkept : ∀ p ∈ staticTexts (propertiesOf body), trimProperty p ≠ [] := by
    intro p hp hnil
    obtain ⟨q, hq, rfl⟩ := List.mem_map.1 hp
    obtain ⟨hq, hstatic⟩ := List.mem_filter.1 hq
    obtain ⟨b, hb, n, hn, rfl⟩ := mem_propertiesOf hq
    exact h b hb n hn (of_decide_eq_true hstatic) (isHollow_of_dedent (isHollow_of_trimProperty hnil))
  have hsort : ∀ ts : List Text, sortBy propertyLe ts = [] ↔ ts = [] := fun ts => by
    have hlength := (sortBy_perm propertyLe ts).length_eq
    rw [← List.length_eq_zero_iff, hlength, List.length_eq_zero_iff]
  have hfilter : ((staticTexts (propertiesOf body)).map trimProperty).filter (fun p => !p.isEmpty) =
      (staticTexts (propertiesOf body)).map trimProperty := by
    refine List.filter_eq_self.2 fun q hq => ?_
    obtain ⟨p, hp, rfl⟩ := List.mem_map.1 hq
    simpa using hkept p hp
  rw [formatStatic, hfilter]
  split
  · rw [hsort, List.map_eq_nil_iff]
  · rw [List.map_eq_nil_iff]

/-- A target whose body has substance can be prepared if and only if it has a static property. -/
theorem prepare_ok_iff {target : StyleTarget} (h : HasSubstance target.bareBody) (settings : Settings) (t : Text) :
    (∃ style, prepare target settings = .ok style) ↔ 0 < (target.summary t).staticCount := by
  have hformat := formatStatic_eq_nil_iff h settings.sortProperties
  have hcount : (target.summary t).staticCount = (staticTexts (propertiesOf target.bareBody)).length := by
    simp only [StyleTarget.summary, StyleTarget.bareBody]
  rw [hcount, List.length_pos_iff]
  by_cases hbody : isEmptyBody target.bareBody = true
  · rw [propertiesOf_of_isEmptyBody hbody, prepare_emptyBody settings hbody]
    simp [staticTexts]
  · simp only [StyleTarget.bareBody] at hformat hbody ⊢
    generalize hproperties : propertiesOf (trim (stripComments target.body).cleaned) = properties at hformat ⊢
    simp only [prepare, hproperties, if_neg hbody, List.isEmpty_iff]
    by_cases hnone : properties = []
    · simp [hnone, staticTexts]
    · rw [if_neg hnone]
      by_cases hmoved : formatStatic settings.sortProperties (staticTexts properties) = []
      · rw [if_pos hmoved]
        simp [hformat.1 hmoved]
      · rw [if_neg hmoved]
        exact ⟨fun _ hnil => hmoved (hformat.2 hnil), fun _ => ⟨_, rfl⟩⟩

/-- The styles of a bulk extraction are those of the targets that can be prepared, in their order. The first is named as
if it were the only one. -/
theorem prepareAll_spec {settings : Settings} {p : StyleTarget → Bool} :
    ∀ (targets : List StyleTarget) (taken : List Text),
    (∀ target ∈ targets, (∃ style, prepare target settings = .ok style) ↔ p target = true) →
      (prepareAll settings taken targets).map (·.1.target) = targets.filter p ∧
      (∀ s ∈ prepareAll settings taken targets, prepare s.1.target settings = .ok s.1) ∧
      ∀ s ∈ (prepareAll settings taken targets).head?, s.2 = freshName settings.namePrefix taken
  | [], _, _ => ⟨rfl, by simp [prepareAll], by simp [prepareAll]⟩
  | target :: targets, taken, h => by
    have htarget := h target (by simp)
    have hrest : ∀ taken, _ := fun taken =>
      prepareAll_spec targets taken fun u hu => h u (List.mem_cons_of_mem _ hu)
    cases hprepare : prepare target settings with
    | error notice =>
      have hp : p target = false := by
        refine Bool.eq_false_iff.2 fun hp => ?_
        obtain ⟨style, hstyle⟩ := htarget.2 hp
        rw [hprepare] at hstyle
        cases hstyle
      simp only [prepareAll, hprepare, List.filter_cons, hp, Bool.false_eq_true, if_false]
      exact hrest taken
    | ok style =>
      have hof := (splits_of_prepare hprepare).of
      obtain ⟨htargets, hprepared, -⟩ := hrest (taken ++ [freshName settings.namePrefix taken])
      simp only [prepareAll, hprepare, List.map_cons, List.filter_cons, htarget.1 ⟨style, hprepare⟩, if_true, htargets,
        hof, List.head?_cons]
      refine ⟨trivial, List.forall_mem_cons.2 ⟨?_, hprepared⟩, fun s hs => ?_⟩
      · rw [hof]
        exact hprepare
      · cases hs
        rfl

/-! ## The forecast -/

/-- The style literals of a file that can be read. -/
def targetsOf (path : String) (t : Text) : List StyleTarget :=
  match Script.itemsOfFile path t with
  | .ok items => findAll (Sites.of items) t
  | .error _ => []

/-- An inspection reports the style literals of a file. -/
theorem inspect_targets (t : Text) (path : String) (line : Option Nat) (settings : Settings) :
    (inspect t path line settings).targets = (targetsOf path t).map (·.summary t) := by
  unfold inspect targetsOf
  cases Script.itemsOfFile path t <;> rfl

/-- An extraction is made of these styles: it has an entry and an edit for each, in their order, and no other edits but
an import. -/
structure Extraction.MadeOf (e : Extraction) (t : Text) (settings : Settings) (styles : List NamedStyle) : Prop where
  prepared : ∀ s ∈ styles, prepare s.1.target settings = .ok s.1
  names : e.names = styles.map (·.2)
  edits : ∃ imports, importEdits t settings = .ok imports ∧
    e.edits = imports ++ entryEdit t settings styles :: styles.map (·.use e.registry)

/-- An inspection foretells what a bulk extraction comes to. -/
structure Inspection.Predicts (i : Inspection) (t : Text) (path : String) (settings : Settings) : Prop where
  /-- A name that registries share is reported, the one whose repetition comes first. -/
  duplicate : ∀ name, extractAll t path settings = .ok (.skipped (.duplicateRegistryName name)) ↔
    IsFirstRepeated name (i.registries.map (·.name))
  shared : (∃ name, extractAll t path settings = .ok (.skipped (.duplicateRegistryName name))) ↔
    ¬(i.registries.map (·.name)).Nodup
  /-- Otherwise a fault of the file is. -/
  unreadable : (i.registries.map (·.name)).Nodup → ∀ message : String,
    extractAll t path settings = .ok (.skipped (.fileParseFailed message.toList)) ↔ i.syntaxFault = some message
  /-- Otherwise it is that there are no targets. -/
  noTargets : (i.registries.map (·.name)).Nodup → i.syntaxFault = none →
    (extractAll t path settings = .ok (.skipped .noTargets) ↔ i.targets = [])
  /-- Otherwise it is that nothing is static. -/
  allDynamic : (i.registries.map (·.name)).Nodup → i.syntaxFault = none → i.targets ≠ [] →
    (extractAll t path settings = .ok (.skipped .allDynamic) ↔ ∀ target ∈ i.targets, target.staticCount = 0)
  /-- Otherwise the listed targets with static properties are extracted, unless the extraction breaks off. -/
  extracts : (i.registries.map (·.name)).Nodup → i.syntaxFault = none → (∃ target ∈ i.targets, 0 < target.staticCount) →
    ∀ outcome, extractAll t path settings = .ok outcome → ∃ e styles, outcome = .extracted e ∧
      i.targets = (targetsOf path t).map (·.summary t) ∧
      styles.map (·.1.target) = (targetsOf path t).filter (fun target => 0 < (target.summary t).staticCount) ∧
      e.MadeOf t settings styles ∧ e.names.head? = some i.suggestedName

section Forecast

variable {t : Text} {path : String} {settings : Settings}

/-- Registries with names of their own are not reported, and the fault of a file is. -/
theorem extractAll_of_fault {fault : Script.SyntaxFault} (hnone : repeatedName? (registriesIn t) = none)
    (hfault : Script.itemsOfFile path t = .error fault) :
    extractAll t path settings = .ok (.skipped (.fileParseFailed fault.message.toList)) := by
  simp only [extractAll, hnone, hfault]

/-- The styles that are made of the targets of a file. -/
def stylesOf (path : String) (t : Text) (settings : Settings) : List NamedStyle :=
  prepareAll settings (takenNames (registriesIn t)) (targetsOf path t)

/-- A file that can be read has no targets, or nothing of them can be prepared, or what can is extracted. -/
theorem extractAll_of_items {items : List Script.Node} (hnone : repeatedName? (registriesIn t) = none)
    (hitems : Script.itemsOfFile path t = .ok items) : extractAll t path settings =
      if targetsOf path t = [] then .ok (.skipped .noTargets)
      else if stylesOf path t settings = [] then .ok (.skipped .allDynamic)
      else (synthesize t (stylesOf path t settings) settings).map .extracted := by
  have htargets : targetsOf path t = findAll (Sites.of items) t := by simp only [targetsOf, hitems]
  rw [stylesOf, htargets]
  simp only [extractAll, hnone, hitems]
  generalize findAll (Sites.of items) t = targets
  cases targets with
  | nil => rfl
  | cons target targets =>
    simp only [if_neg (List.cons_ne_nil target targets)]
    generalize prepareAll settings (takenNames (registriesIn t)) (target :: targets) = styles
    cases styles <;> rfl

/-- A file that can be read is reported to have no targets, or nothing that is static, and nothing else. -/
theorem extractAll_eq_skipped_iff {items : List Script.Node} (hnone : repeatedName? (registriesIn t) = none)
    (hitems : Script.itemsOfFile path t = .ok items) {notice : Notice} :
    extractAll t path settings = .ok (.skipped notice) ↔ (notice = .noTargets ∧ targetsOf path t = []) ∨
      (notice = .allDynamic ∧ targetsOf path t ≠ [] ∧ stylesOf path t settings = []) := by
  rw [extractAll_of_items hnone hitems]
  by_cases htargets : targetsOf path t = []
  · simp [htargets, @eq_comm _ notice]
  · by_cases hstyles : stylesOf path t settings = []
    · simp [htargets, hstyles, @eq_comm _ notice]
    · simp [htargets, hstyles, map_extracted_ne_skipped]

/-- An extraction of styles that can be prepared is made of them. -/
theorem madeOf_synthesize {styles : List NamedStyle} {e : Extraction}
    (hprepared : ∀ s ∈ styles, prepare s.1.target settings = .ok s.1) (h : synthesize t styles settings = .ok e) :
    e.MadeOf t settings styles := by
  obtain ⟨hnames, hedits⟩ := parts_of_synthesize h
  exact ⟨hprepared, hnames, hedits⟩

/-- The styles of a file whose literals have substance are those of the literals with static properties. -/
theorem stylesOf_spec (settings : Settings)
    (h : ∀ target ∈ targetsOf path t, HasSubstance target.bareBody) :
    (stylesOf path t settings).map (·.1.target) =
        (targetsOf path t).filter (fun target => 0 < (target.summary t).staticCount) ∧
      (∀ s ∈ stylesOf path t settings, prepare s.1.target settings = .ok s.1) ∧
      ∀ s ∈ (stylesOf path t settings).head?, s.2 = suggestName t settings :=
  prepareAll_spec (targetsOf path t) (takenNames (registriesIn t)) fun target htarget =>
    (prepare_ok_iff (h target htarget) settings t).trans (decide_eq_true_iff).symm

theorem stylesOf_eq_nil_iff (h : ∀ target ∈ targetsOf path t, HasSubstance target.bareBody) :
    stylesOf path t settings = [] ↔ ∀ target ∈ targetsOf path t, (target.summary t).staticCount = 0 := by
  rw [← List.map_eq_nil_iff, (stylesOf_spec settings h).1, List.filter_eq_nil_iff]
  simp

/-- Each field of a forecast speaks of registries whose names repeat, or of registries whose names do not. -/
theorem predicts_of_repeated {i : Inspection} {name : Text} (hfirst : IsFirstRepeated name (i.registries.map (·.name)))
    (heq : extractAll t path settings = .ok (.skipped (.duplicateRegistryName name))) : i.Predicts t path settings := by
  have hnodup := hfirst.not_nodup
  constructor
  case duplicate =>
    intro name'
    rw [heq]
    constructor
    · intro h
      cases h
      exact hfirst
    · intro h
      rw [hfirst.unique h]
  case shared => exact ⟨fun _ => hnodup, fun _ => ⟨name, heq⟩⟩
  all_goals exact fun h => absurd h hnodup

/-- A file that cannot be read is foretold to be reported. -/
theorem predicts_of_fault {i : Inspection} {message : String} (hnodup : (i.registries.map (·.name)).Nodup)
    (hfault : i.syntaxFault = some message)
    (heq : extractAll t path settings = .ok (.skipped (.fileParseFailed message.toList))) :
    i.Predicts t path settings := by
  have hreadable : i.syntaxFault ≠ none := by simp [hfault]
  constructor
  case duplicate => exact fun name => ⟨fun h => (by rw [heq] at h; cases h), fun h => absurd hnodup h.not_nodup⟩
  case shared => exact ⟨fun ⟨name, h⟩ => (by rw [heq] at h; cases h), fun h => absurd hnodup h⟩
  case unreadable =>
    intro _ message'
    rw [heq, hfault]
    simp [String.toList_inj]
  all_goals exact fun _ h => absurd h hreadable

/-- A file that can be read is foretold to have no targets, or none that can be prepared, or to be extracted. -/
theorem predicts_of_items {i : Inspection} {items : List Script.Node} (hnone : repeatedName? (registriesIn t) = none)
    (hitems : Script.itemsOfFile path t = .ok items) (hnodup : (i.registries.map (·.name)).Nodup)
    (hfault : i.syntaxFault = none) (htargets : i.targets = (targetsOf path t).map (·.summary t))
    (hname : i.suggestedName = suggestName t settings)
    (h : ∀ target ∈ targetsOf path t, HasSubstance target.bareBody) : i.Predicts t path settings := by
  have hlisted : i.targets = [] ↔ targetsOf path t = [] := by rw [htargets, List.map_eq_nil_iff]
  have hdynamic : stylesOf path t settings = [] ↔ ∀ target ∈ i.targets, target.staticCount = 0 := by
    rw [stylesOf_eq_nil_iff h, htargets, List.forall_mem_map]
  have hnotice : ∀ notice, extractAll t path settings = .ok (.skipped notice) ↔
      (notice = .noTargets ∧ i.targets = []) ∨
        (notice = .allDynamic ∧ i.targets ≠ [] ∧ ∀ target ∈ i.targets, target.staticCount = 0) := fun notice => by
    simp only [extractAll_eq_skipped_iff hnone hitems, ne_eq, hlisted, hdynamic]
  constructor
  case duplicate =>
    refine fun name => ⟨fun hdup => ?_, fun h => absurd hnodup h.not_nodup⟩
    rcases (hnotice _).1 hdup with ⟨h, -⟩ | ⟨h, -⟩ <;> cases h
  case shared =>
    refine ⟨fun ⟨name, hdup⟩ => ?_, fun h => absurd hnodup h⟩
    rcases (hnotice _).1 hdup with ⟨h, -⟩ | ⟨h, -⟩ <;> cases h
  case unreadable =>
    intro _ message
    rw [hnotice, hfault]
    simp
  case noTargets =>
    intro _ _
    rw [hnotice]
    simp
  case allDynamic =>
    intro _ _ hne
    rw [hnotice]
    simp [hne]
  case extracts =>
    intro _ _ ⟨target, htarget, hcount⟩ outcome houtcome
    have hsome : stylesOf path t settings ≠ [] := fun hnil =>
      absurd (hdynamic.1 hnil target htarget) (Nat.ne_of_gt hcount)
    have htargets' : targetsOf path t ≠ [] := fun hnil => List.ne_nil_of_mem htarget (hlisted.2 hnil)
    rw [extractAll_of_items hnone hitems, if_neg htargets', if_neg hsome] at houtcome
    cases hsynthesize : synthesize t (stylesOf path t settings) settings with
    | error fault => simp [hsynthesize, Except.map] at houtcome
    | ok e =>
      simp only [hsynthesize, Except.map, Except.ok.injEq] at houtcome
      obtain ⟨hstyles, hprepared, hfirst⟩ := stylesOf_spec settings h
      have hmade := madeOf_synthesize hprepared hsynthesize
      refine ⟨e, _, houtcome.symm, htargets, hstyles, hmade, ?_⟩
      obtain ⟨s, styles, hs⟩ := List.exists_cons_of_ne_nil hsome
      rw [hmade.names, hs, List.map_cons, List.head?_cons, hname, hfirst s (by simp [hs])]

end Forecast

/-- **An inspection foretells what a bulk extraction comes to, where no static property is hollow.** -/
theorem predicts_inspect {t : Text} {path : String} {settings : Settings} (line : Option Nat)
    (h : ∀ target ∈ targetsOf path t, HasSubstance target.bareBody) :
    (inspect t path line settings).Predicts t path settings := by
  have hnames : (inspect t path line settings).registries.map (·.name) = (registriesIn t).map (·.name) := by
    simp [inspect, Registry.summary]
  cases hfirst : repeatedName? (registriesIn t) with
  | some name =>
    have hrepeated : IsFirstRepeated name ((inspect t path line settings).registries.map (·.name)) :=
      hnames ▸ firstRepeated?_eq_some_iff.1 hfirst
    exact predicts_of_repeated hrepeated (by simp only [extractAll, hfirst])
  | none =>
    have hnodup : ((inspect t path line settings).registries.map (·.name)).Nodup := by
      rw [hnames]
      exact (firstRepeated?_eq_none_iff.1 hfirst).1
    cases hitems : Script.itemsOfFile path t with
    | error fault =>
      exact predicts_of_fault hnodup (by simp only [inspect, hitems]) (extractAll_of_fault hfirst hitems)
    | ok items =>
      exact predicts_of_items hfirst hitems hnodup (by simp only [inspect, hitems])
        (inspect_targets t path line settings) rfl h

/-- A literal with a static property, and one without. -/
def mixedLiterals : Text :=
  "const A = <View style=\x7b\x7b width: w, flex: 1 \x7d\x7d><Text style=\x7b\x7b width: w \x7d\x7d /></View>;".toList

/-- The inspection foretells that one of the two is extracted. -/
theorem predicts_inspect_mixedLiterals : (inspect mixedLiterals "App.tsx" none {}).Predicts mixedLiterals "App.tsx" {} ∧
    (inspect mixedLiterals "App.tsx" none {}).targets.map (·.staticCount) = [1, 0] := by
  have h : ∀ target ∈ targetsOf "App.tsx" mixedLiterals, HasSubstance target.bareBody := by decide +kernel
  exact ⟨predicts_inspect none h, by decide +kernel⟩

end StyleHoist
