import StyleHoist.Proofs.Extraction.Names

/-!
# Numbers of generated names

A generated name has the least number that makes it free (`freshName_least`). Along a batch the names that have been
given count as taken too, so the numbers grow in the order of the literals, and those that are passed over belong to
names that were taken before (`numbersInOrder_of_prepareAll`). As a proper prefix with digits behind it is a proper
name, an extraction that chooses the name itself is never refused for it.

- `NumbersInOrder`: names that are numbered in order, none of the free numbers being passed over.
- `generated_names_least`: what holds of every generated name, of those of a batch, and of a single one.
-/

namespace StyleHoist

open Text

variable {base : Text} {taken : List Text} {settings : Settings}

/-! ## One name -/

/-- The least positive number that makes a name differ from all taken ones. -/
structure IsLeastFree (base : Text) (taken : List Text) (n : Nat) : Prop where
  pos : 1 ≤ n
  free : numbered base n ∉ taken
  least : ∀ m, 1 ≤ m → m < n → numbered base m ∈ taken

/-- The numbers below the least free one belong to different taken names. -/
theorem IsLeastFree.le {n : Nat} (h : IsLeastFree base taken n) : n ≤ taken.dedup.length + 1 := by
  have hle : n - 1 ≤ taken.dedup.length := le_length_dedup fun i hi => h.least (i + 1) (by omega) (by omega)
  omega

/-- **A generated name has the least free number.** -/
theorem freshName_least (base : Text) (taken : List Text) : ∃ n, IsLeastFree base taken n ∧
    freshName base taken = numbered base n := by
  have hfree := freshName_not_mem base taken
  simp only [freshName, List.find?_map] at hfree ⊢
  cases hfind : (List.range (taken.length + 1)).find?
      ((fun name => !taken.contains name) ∘ fun i => numbered base (i + 1)) with
  | some i =>
    rw [hfind] at hfree
    refine ⟨i + 1, ⟨by omega, hfree, fun m hm hlt => ?_⟩, rfl⟩
    obtain ⟨k, rfl⟩ : ∃ k, m = k + 1 := ⟨m - 1, by omega⟩
    have := (List.find?_range_eq_some.1 hfind).2.2 k (by omega)
    simpa using this
  | none =>
    -- One of the numbers that are tried is free.
    obtain ⟨i, hi, hnot⟩ := exists_numbered_not_mem base taken
    have := List.find?_eq_none.1 hfind i (List.mem_range.2 hi)
    simp [hnot] at this

/-- A number behind a proper name makes a proper name. -/
theorem isEntryName_numbered (h : isEntryName base = true) (n : Nat) : isEntryName (numbered base n) = true := by
  cases base with
  | nil => cases h
  | cons c cs =>
    simp only [isEntryName, Bool.and_eq_true] at h
    simp only [numbered, List.cons_append, isEntryName, List.all_append, Bool.and_eq_true]
    refine ⟨h.1, h.2, List.all_eq_true.2 fun d hd => ?_⟩
    have hdigit : d.isDigit = true := Nat.isDigit_of_mem_toDigits (by omega) (by omega) hd
    simp [Char.isAlphanum, hdigit]

/-! ## A batch -/

/-- Names are numbered in order: the numbers grow, and those that are passed over belong to taken names. -/
structure NumbersInOrder (base : Text) (taken names : List Text) (ns : List Nat) : Prop where
  names : names = ns.map (numbered base)
  pos : ∀ n ∈ ns, 1 ≤ n
  increasing : ns.Pairwise (· < ·)
  free : ∀ n ∈ ns, numbered base n ∉ taken
  noneSkipped : ∀ n ∈ ns, ∀ m, 1 ≤ m → m < n → m ∈ ns ∨ numbered base m ∈ taken

/-- The least free number and the numbers that are given once it is taken are in order. -/
theorem NumbersInOrder.cons {n : Nat} {names : List Text} {ns : List Nat} (hn : IsLeastFree base taken n)
    (h : NumbersInOrder base (taken ++ [numbered base n]) names ns) :
    NumbersInOrder base taken (numbered base n :: names) (n :: ns) := by
  have hfree : ∀ k ∈ ns, numbered base k ∉ taken ∧ k ≠ n := fun k hk => by
    have := h.free k hk
    simp only [List.mem_append, List.mem_singleton, not_or] at this
    exact ⟨this.1, fun he => this.2 (he ▸ rfl)⟩
  refine ⟨by rw [h.names, List.map_cons], List.forall_mem_cons.2 ⟨hn.pos, h.pos⟩,
    List.pairwise_cons.2 ⟨fun k hk => ?_, h.increasing⟩,
    List.forall_mem_cons.2 ⟨hn.free, fun k hk => (hfree k hk).1⟩,
    List.forall_mem_cons.2 ⟨fun m hm hlt => Or.inr (hn.least m hm hlt), fun k hk m hm hlt => ?_⟩⟩
  · -- A smaller number would have been free before.
    refine Classical.byContradiction fun hlt => (hfree k hk).1 (hn.least k (h.pos k hk) ?_)
    have := (hfree k hk).2
    omega
  · rcases h.noneSkipped k hk m hm hlt with hmem | hmem
    · exact Or.inl (List.mem_cons_of_mem n hmem)
    · rcases List.mem_append.1 hmem with hmem | hmem
      · exact Or.inr hmem
      · rw [numbered_inj (List.mem_singleton.1 hmem)]
        exact Or.inl List.mem_cons_self

/-- The styles of a batch are those of the targets that can be prepared, and their names are numbered in that order. -/
theorem numbersInOrder_of_prepareAll (settings : Settings) : ∀ (targets : List StyleTarget) (taken : List Text),
    (prepareAll settings taken targets).map (·.1) = targets.filterMap (fun target => (prepare target settings).toOption) ∧
      ∃ ns, NumbersInOrder settings.namePrefix taken ((prepareAll settings taken targets).map (·.2)) ns
  | [], taken => ⟨rfl, [], rfl, by simp, List.Pairwise.nil, by simp, by simp⟩
  | target :: targets, taken => by
    simp only [prepareAll, List.filterMap_cons]
    cases prepare target settings with
    | error notice => exact numbersInOrder_of_prepareAll settings targets taken
    | ok style =>
      obtain ⟨n, hn, hname⟩ := freshName_least settings.namePrefix taken
      obtain ⟨hstyles, ns, hns⟩ := numbersInOrder_of_prepareAll settings targets (taken ++ [numbered settings.namePrefix n])
      simp only [hname, Except.toOption, List.map_cons, hstyles]
      exact ⟨trivial, n :: ns, hns.cons hn⟩

/-! ## Extractions -/

/-- The targets of a text that can be prepared, in their order, are given names in turn: proper names that differ from
each other and from all taken ones, numbered in order. -/
structure NamesTargets (t : Text) (path : String) (settings : Settings) (e : Extraction) : Prop where
  /-- The last edits of the extraction replace the targets, and refer to the entries by their names. -/
  targets : ∃ items styles front, Script.itemsOfFile path t = .ok items ∧
    styles = (findAll (Sites.of items) t).filterMap (fun target => (prepare target settings).toOption) ∧
    styles.length = e.names.length ∧ e.edits = front ++ (styles.zip e.names).map (NamedStyle.use e.registry)
  proper : ∀ name ∈ e.names, isEntryName name = true
  distinct : e.names.Nodup
  fresh : ∀ name ∈ e.names, name ∉ takenNames (registriesIn t)
  numbered : ∃ ns, NumbersInOrder settings.namePrefix (takenNames (registriesIn t)) e.names ns

theorem namesTargets_of_extractAll {t : Text} {path : String} {e : Extraction}
    (hvalid : isEntryName settings.namePrefix = true) (h : extractAll t path settings = .ok (.extracted e)) :
    NamesTargets t path settings e := by
  obtain ⟨hdistinct, hfresh⟩ := names_fresh (.all h)
  rcases extractAll_cases t path settings with ⟨styles, htakes, heq⟩ | ⟨-, notice, heq⟩
  · obtain ⟨items, hitems, hstyles⟩ := htakes.listed
    obtain ⟨hprepared, ns, hns⟩ := numbersInOrder_of_prepareAll settings (findAll (Sites.of items) t)
      (takenNames (registriesIn t))
    rw [← hstyles] at hprepared hns
    obtain ⟨hnames, imports, -, hedits⟩ := parts_of_synthesize (map_extracted_eq_ok_iff.1 (heq.symm.trans h))
    rw [← hnames] at hns
    refine ⟨⟨items, styles.map (·.1), imports ++ [entryEdit t settings styles], hitems, hprepared, ?_, ?_⟩, ?_, hdistinct,
      hfresh, ns, hns⟩
    · rw [hnames, List.length_map, List.length_map]
    · rw [hedits, hnames, List.zip_map']
      simp
    · rw [hns.names]
      intro name hname
      obtain ⟨n, -, rfl⟩ := List.mem_map.1 hname
      exact isEntryName_numbered hvalid n
  · rw [heq] at h
    cases h

/-- A target that cannot be prepared is refused for its body. -/
theorem notice_of_prepare {target : StyleTarget} {notice : Notice} (h : prepare target settings = .error notice) :
    notice = .emptyBody ∨ notice = .parseFailed ∨ notice = .allDynamic := by
  simp only [prepare] at h
  split at h
  · cases h
    exact Or.inl rfl
  · split at h
    · cases h
      exact Or.inr (Or.inl rfl)
    · split at h
      · cases h
        exact Or.inr (Or.inr rfl)
      · cases h

theorem isEntryName_suggestName (hvalid : isEntryName settings.namePrefix = true) (t : Text) :
    isEntryName (suggestName t settings) = true := by
  obtain ⟨n, -, hname⟩ := freshName_least settings.namePrefix (takenNames (registriesIn t))
  rw [suggestName, hname]
  exact isEntryName_numbered hvalid n

/-- An extraction that chooses the name itself is not refused for it. -/
theorem extractOne_suggested {t : Text} {path : String} (hvalid : isEntryName settings.namePrefix = true) (offset : Nat)
    {notice : Notice} (h : extractOne t path offset none settings = .ok (.skipped notice)) (name : Text) :
    notice ≠ .nameInvalid name ∧ notice ≠ .nameCollision name := by
  have hproper := isEntryName_suggestName hvalid t
  have hfree : (takenNames (registriesIn t)).contains (suggestName t settings) = false := by
    simpa [suggestName] using freshName_not_mem settings.namePrefix (takenNames (registriesIn t))
  simp only [extractOne, Option.getD_none, hproper, hfree, Bool.not_true, Bool.false_eq_true, if_false] at h
  split at h
  · cases h
    simp
  · split at h
    · cases h
      simp
    · cases h
      simp
    · split at h
      · cases h
        simp
      · split at h
        · rename_i refused hrefused
          cases h
          rcases notice_of_prepare hrefused with rfl | rfl | rfl <;> simp
        · exact absurd h (map_extracted_ne_skipped _ notice)

/-- A setting with a proper prefix. -/
theorem isEntryName_of_fault? (h : settings.fault? = none) : isEntryName settings.namePrefix = true := by
  simp only [Settings.fault?] at h
  split at h
  · cases h
  · rename_i hprefix
    simpa using hprefix

/-- **A generated name has the least free number, which no more than the different taken names come before; the names of
a batch are proper, fresh and numbered in the order of the targets; and a single extraction is not refused for the name
that it is given.** -/
theorem generated_names_least :
    (∀ base existing additional, ∃ n, IsLeastFree base (existing ++ additional) n ∧
      freshName base (existing ++ additional) = numbered base n ∧ n ≤ (existing ++ additional).dedup.length + 1) ∧
    ∀ (t : Text) (path : String) (settings : Settings), settings.fault? = none →
      (∀ e, extractAll t path settings = .ok (.extracted e) → NamesTargets t path settings e) ∧
      ∀ offset notice name, extractOne t path offset none settings = .ok (.skipped notice) →
        notice ≠ .nameInvalid name ∧ notice ≠ .nameCollision name := by
  refine ⟨fun base existing additional => ?_, fun t path settings hvalid => ?_⟩
  · obtain ⟨n, hn, hname⟩ := freshName_least base (existing ++ additional)
    exact ⟨n, hn, hname, hn.le⟩
  · have hprefix := isEntryName_of_fault? hvalid
    exact ⟨fun e h => namesTargets_of_extractAll hprefix h,
      fun offset notice name h => extractOne_suggested hprefix offset h name⟩

/-- A text with two taken names and three literals, one of them without static properties. -/
def sparselyNamedText : Text :=
  ("const styles = StyleSheet.create(\x7b myStyle2: \x7b flex: 1 \x7d, myStyle4: \x7b flex: 2 \x7d \x7d);\n"
    ++ "const A = <View style=\x7b\x7b flex: 3 \x7d\x7d><B style=\x7b\x7b flex: x \x7d\x7d />"
    ++ "<C style=\x7b\x7b flex: 5 \x7d\x7d /></View>;\n").toList

/-- The free numbers are given in turn. -/
theorem generated_names_sparselyNamedText : ({} : Settings).fault? = none ∧
    ∃ e, extractAll sparselyNamedText "App.tsx" {} = .ok (.extracted e) ∧ e.names = ["myStyle1".toList, "myStyle3".toList] ∧
      NamesTargets sparselyNamedText "App.tsx" {} e := by
  have hnames : (extraction? sparselyNamedText "App.tsx" {}).map (·.names) =
      some ["myStyle1".toList, "myStyle3".toList] := by
    decide +kernel
  obtain ⟨e, he, hname⟩ := Option.map_eq_some_iff.1 hnames
  have hextracted := extractAll_of_extraction? he
  exact ⟨Settings.fault?_default, e, hextracted, hname,
    (generated_names_least.2 sparselyNamedText "App.tsx" {} Settings.fault?_default).1 e hextracted⟩

end StyleHoist
