import StyleHoist.Proofs.Json.Printed
import StyleHoist.Proofs.Settings.Members

/-!
# Decoding settings

Settings that are read from a text are those that are taken from the value that the text writes. Each reader comes out
behind its part with what is taken from the part's value, or both fail (`Agrees`); this carries over from a setting to a
member, and by induction to all members of an object.

- `agrees_readMembers`: the members of an object are read as they are taken.
- `Settings.ofText_eq_ok_iff`: so are settings from each text of an object.
- `Settings.isDecoded_only`, `Settings.isRefused_of_twice`: objects that give some of the settings, and objects that give
  one of them twice.
- `Settings.decoding_undoes_writing`: whichever way settings are written, decoding undoes it.
-/

namespace StyleHoist

open Json

/-! ## Readers and values -/

/-- A reader comes out before `rest` with what is taken from a value, or nothing is read and nothing taken. -/
inductive Agrees {α : Type} (rest : Text) : Except DecodeFault (α × Text) → Except DecodeFault α → Prop
  | ok (a : α) : Agrees rest (.ok (a, rest)) (.ok a)
  | error (fault fault' : DecodeFault) : Agrees rest (.error fault) (.error fault')

section Agrees

variable {α β : Type} {rest rest' : Text} {r : Except DecodeFault (α × Text)} {x : Except DecodeFault α}

theorem Agrees.map (h : Agrees rest r x) (f : α → β) : Agrees rest (r.map fun p => (f p.1, p.2)) (x.map f) := by
  cases h with
  | ok a => exact .ok (f a)
  | error fault fault' => exact .error fault fault'

theorem Agrees.bind (h : Agrees rest r x) {g : α × Text → Except DecodeFault (β × Text)} {y : α → Except DecodeFault β}
    (hnext : ∀ a, Agrees rest' (g (a, rest)) (y a)) : Agrees rest' (r >>= g) (x >>= y) := by
  cases h with
  | ok a => exact hnext a
  | error fault fault' => exact .error fault fault'

theorem Agrees.of_ne_ok {fault : DecodeFault} (h : ∀ a, x ≠ .ok a) : Agrees rest (.error fault) x := by
  cases x with
  | ok a => exact absurd rfl (h a)
  | error fault' => exact .error fault fault'

end Agrees

/-! ## Strings, flags and policies -/

section Values

variable {v : Json} {w lead rest : Text}

/-- Before any reader is a character with which the value may begin. -/
theorem skipBlanks_of_writes (h : Writes v w) (hlead : Blanks lead) (rest : Text) :
    ∃ c t, begins v c = true ∧ skipBlanks (lead ++ (w ++ rest)) = c :: t := by
  obtain ⟨c, t, rfl, hc⟩ := exists_head_of_writes h
  exact ⟨c, t ++ rest, hc, by rw [skipBlanks_append hlead, List.cons_append, skipBlanks_cons (isBlank_of_begins hc)]⟩

theorem fromJson_ok {α : Type} (a : α) : fromJson (.ok a) = .ok a := rfl

theorem readString_of_skipBlanks {s t u : Text} (hs : skipBlanks s = '\x22' :: (u ++ '\x22' :: rest))
    (h : WritesString t u) (expected : String) : readString expected s = .ok (t, rest) := by
  rw [readString, hs]
  simp [readStringRest_of_writes h, fromJson_ok]

theorem agrees_readString (h : Writes v w) (hlead : Blanks lead) :
    Agrees rest (readString "a string" (lead ++ (w ++ rest))) (SettingsDraft.takeString v) := by
  have hother : begins v '\x22' = false → ∃ fault, readString "a string" (lead ++ (w ++ rest)) = .error fault := by
    intro hquote
    obtain ⟨c, t, hc, hskip⟩ := skipBlanks_of_writes h hlead rest
    rw [readString, hskip]
    simp [ne_of_begins hc hquote]
  cases h with
  | @string t u ht =>
    have hskip : skipBlanks (lead ++ ('\x22' :: (u ++ ['\x22']) ++ rest)) = '\x22' :: (u ++ '\x22' :: rest) := by
      rw [skipBlanks_append hlead, List.cons_append, List.append_assoc, skipBlanks_cons rfl]
      rfl
    exact readString_of_skipBlanks hskip ht _ ▸ .ok t
  | _ =>
    obtain ⟨fault, hfault⟩ := hother rfl
    exact hfault ▸ .error _ _

theorem fromJson_readWord {α : Type} (word rest : Text) (f : Text → α) :
    fromJson ((readWord word (word ++ rest)).map f) = .ok (f rest) := by
  rw [readWord_append]
  rfl

theorem agrees_readFlag (h : Writes v w) (hlead : Blanks lead) :
    Agrees rest (readFlag (lead ++ (w ++ rest))) (SettingsDraft.takeFlag v) := by
  have hother : begins v 't' = false → begins v 'f' = false →
      ∃ fault, readFlag (lead ++ (w ++ rest)) = .error fault := by
    intro ht hf
    obtain ⟨c, t, hc, hskip⟩ := skipBlanks_of_writes h hlead rest
    rw [readFlag, hskip]
    simp [ne_of_begins hc ht, ne_of_begins hc hf]
  cases h with
  | yes =>
    have hread : readFlag (lead ++ ("true".toList ++ rest)) = .ok (true, rest) := by
      rw [readFlag, skipBlanks_append hlead]
      exact fromJson_readWord "rue".toList rest _
    exact hread ▸ .ok _
  | no =>
    have hread : readFlag (lead ++ ("false".toList ++ rest)) = .ok (false, rest) := by
      rw [readFlag, skipBlanks_append hlead]
      exact fromJson_readWord "alse".toList rest _
    exact hread ▸ .ok _
  | _ =>
    obtain ⟨fault, hfault⟩ := hother rfl rfl
    exact hfault ▸ .error _ _

theorem eq_or_begins (v : Json) : v = .null ∨ begins v 'n' = false := by
  cases v with
  | null => exact .inl rfl
  | _ => exact .inr rfl

theorem readNull_null (h : Writes .null w) (hlead : Blanks lead) (rest : Text) :
    readNull (lead ++ (w ++ rest)) = .ok rest := by
  cases h
  rw [readNull, skipBlanks_append hlead]
  change fromJson (readWord "ull".toList ("ull".toList ++ rest)) = _
  rw [readWord_append]
  rfl

theorem readNull_other (h : Writes v w) (hlead : Blanks lead) (hnull : begins v 'n' = false) (rest : Text) :
    ∃ fault, readNull (lead ++ (w ++ rest)) = .error fault := by
  obtain ⟨c, t, hc, hskip⟩ := skipBlanks_of_writes h hlead rest
  rw [readNull, hskip]
  simp [ne_of_begins hc hnull]

theorem takePolicy_object {key : Text} {ms : List (Text × Json)} {p : InsertionPolicy} :
    SettingsDraft.takePolicy (.object ((key, v) :: ms)) = .ok p ↔ policyOf key = .ok p ∧ v = .null ∧ ms = [] := by
  cases ms with
  | cons m ms => simp [SettingsDraft.takePolicy]
  | nil =>
    cases v with
    | null => simp [SettingsDraft.takePolicy]
    | _ =>
      simp only [SettingsDraft.takePolicy, reduceCtorEq, false_and, and_false, iff_false]
      cases discard (policyOf key) <;> nofun

/-- A policy that is spelled as an object. -/
theorem agrees_readPolicy_object {m : Text × Json.Part} {ms : List (Text × Json.Part)} (hkey : WritesKey m.1 m.2.lead)
    (hmargin : Blanks m.2.margin) (h : Writes m.2.value m.2.text) (hlead : Blanks lead) :
    Agrees rest (readPolicy (lead ++ ('\x7b' :: (m.2.written ++ moreText '\x7d' (ms.map (·.2))) ++ rest)))
      (SettingsDraft.takePolicy (.object ((m :: ms).map fun q => (q.1, q.2.value)))) := by
  obtain ⟨u, b, c, hu, hb, hc, hskip⟩ := exists_of_writesKey hkey
  have hspelling : readString "variant identifier" (m.2.written ++ (moreText '\x7d' (ms.map (·.2)) ++ rest)) =
      .ok (m.1, b ++ ':' :: (c ++ (m.2.text ++ (m.2.margin ++ (moreText '\x7d' (ms.map (·.2)) ++ rest))))) := by
    refine readString_of_skipBlanks ?_ hu _
    rw [Part.written, List.append_assoc, List.append_assoc, hskip]
  have hcolon : ∀ t, skipBlanks (b ++ ':' :: t) = ':' :: t := fun t => by rw [skipBlanks_append hb, skipBlanks_cons rfl]
  rw [readPolicy, skipBlanks_append hlead, List.cons_append, List.append_assoc, skipBlanks_cons rfl]
  simp only [hspelling, hcolon, bind, Except.bind, List.map_cons]
  cases hpolicy : policyOf m.1 with
  | error fault => exact .of_ne_ok (by simp [takePolicy_object, hpolicy])
  | ok p =>
    obtain hnull | hnull := eq_or_begins m.2.value
    · have hread := readNull_null (hnull ▸ h) hc (m.2.margin ++ (moreText '\x7d' (ms.map (·.2)) ++ rest))
      simp only [hread, skipBlanks_append hmargin]
      -- nothing but the closing brace may follow
      cases ms with
      | nil =>
        have htake : SettingsDraft.takePolicy (.object [(m.1, m.2.value)]) = .ok p :=
          takePolicy_object.2 ⟨hpolicy, hnull, rfl⟩
        exact htake ▸ .ok p
      | cons m' ms => exact .of_ne_ok (by simp [takePolicy_object])
    · obtain ⟨fault, hfault⟩ := readNull_other h hc hnull (m.2.margin ++ (moreText '\x7d' (ms.map (·.2)) ++ rest))
      simp only [hfault]
      refine .of_ne_ok fun p' hp => ?_
      rw [(takePolicy_object.1 hp).2.1] at hnull
      cases hnull

theorem agrees_readPolicy (h : Writes v w) (hlead : Blanks lead) :
    Agrees rest (readPolicy (lead ++ (w ++ rest))) (SettingsDraft.takePolicy v) := by
  have hother : begins v '\x22' = false → begins v '\x7b' = false →
      ∃ fault, readPolicy (lead ++ (w ++ rest)) = .error fault := by
    intro hquote hbrace
    obtain ⟨c, t, hc, hskip⟩ := skipBlanks_of_writes h hlead rest
    rw [readPolicy, hskip]
    simp [ne_of_begins hc hquote, ne_of_begins hc hbrace]
  cases h with
  | @string t u ht =>
    have hread : readPolicy (lead ++ ('\x22' :: (u ++ ['\x22']) ++ rest)) = (policyOf t).map (·, rest) := by
      rw [readPolicy, skipBlanks_append hlead, List.cons_append, List.append_assoc, skipBlanks_cons rfl]
      change (fromJson (readStringRest 0 (u ++ '\x22' :: rest)) >>= _) = _
      rw [readStringRest_of_writes ht]
      rfl
    rw [hread, SettingsDraft.takePolicy]
    cases policyOf t with
    | ok p => exact .ok p
    | error fault => exact .error _ _
  | @noMembers b hb =>
    have hread : ∃ fault, readPolicy (lead ++ ('\x7b' :: (b ++ ['\x7d']) ++ rest)) = .error fault := by
      rw [readPolicy, skipBlanks_append hlead, List.cons_append, List.append_assoc, skipBlanks_cons rfl]
      simp only [readString, skipBlanks_append hb, List.singleton_append, skipBlanks_cons (c := '\x7d') rfl]
      exact ⟨_, rfl⟩
    obtain ⟨fault, hfault⟩ := hread
    exact hfault ▸ .error _ _
  | members haround h =>
    obtain ⟨⟨hkey, hmargin⟩, -⟩ := List.forall_mem_cons.1 haround
    exact agrees_readPolicy_object hkey hmargin (List.forall_mem_cons.1 h).1 hlead
  | _ =>
    obtain ⟨fault, hfault⟩ := hother rfl rfl
    exact hfault ▸ .error _ _

/-- A setting is read as it is taken. -/
theorem agrees_read (d : SettingsDraft) (k : SettingKey) (h : Writes v w) (hlead : Blanks lead) :
    Agrees rest (d.read k (lead ++ (w ++ rest))) (d.take k v) := by
  cases k with
  | namePrefix => exact (agrees_readString h hlead).map fun t => { d with namePrefix := some t }
  | registryName => exact (agrees_readString h hlead).map fun t => { d with registryName := some t }
  | autoImport => exact (agrees_readFlag h hlead).map fun b => { d with autoImport := some b }
  | sortProperties => exact (agrees_readFlag h hlead).map fun b => { d with sortProperties := some b }
  | keepComments => exact (agrees_readFlag h hlead).map fun b => { d with keepComments := some b }
  | policy => exact (agrees_readPolicy h hlead).map fun p => { d with policy := some p }

end Values

/-! ## Members -/

section Members

variable {rest : Text}

theorem agrees_readMember {q : Text × Json.Part} (hkey : WritesKey q.1 q.2.lead) (h : Writes q.2.value q.2.text)
    (hrest : Json.Ends (q.2.margin ++ rest)) : ∃ t, skipBlanks (q.2.written ++ rest) = '\x22' :: t ∧
      ∀ d : SettingsDraft, Agrees (q.2.margin ++ rest) (d.readMember t) (d.takeMember (q.1, q.2.value)) := by
  obtain ⟨u, b, c, hu, hb, hc, hskip⟩ := exists_of_writesKey hkey
  refine ⟨u ++ '\x22' :: (b ++ ':' :: (c ++ (q.2.text ++ (q.2.margin ++ rest)))), ?_, fun d => ?_⟩
  · rw [Part.written, List.append_assoc, List.append_assoc, hskip]
  · have hcolon : SettingsDraft.readColon (b ++ ':' :: (c ++ (q.2.text ++ (q.2.margin ++ rest)))) =
        .ok (c ++ (q.2.text ++ (q.2.margin ++ rest))) := by
      rw [SettingsDraft.readColon, skipBlanks_append hb, skipBlanks_cons rfl]
      rfl
    rw [SettingsDraft.readMember, readStringRest_of_writes hu, SettingsDraft.takeMember]
    simp only [fromJson_ok, hcolon, passValue_of_writes h hc hrest, bind, Except.bind, pure, Except.pure]
    cases SettingKey.ofText? q.1 with
    | none => exact .ok d
    | some key =>
      cases hhas : d.has key with
      | true => simpa [hhas] using .error _ _
      | false => simpa [hhas] using agrees_read d key h hc

/-- The members of an object are read as they are taken. -/
theorem agrees_readMembers {ms : List (Text × Json.Part)}
    (haround : ∀ q ∈ ms, WritesKey q.1 q.2.lead ∧ Blanks q.2.margin) (h : ∀ q ∈ ms, Writes q.2.value q.2.text)
    {fuel : Nat} (hfuel : ms.length < fuel) (d : SettingsDraft) {margin : Text} (hmargin : Blanks margin) :
    Agrees rest (SettingsDraft.readMembers fuel false d (margin ++ (moreText '\x7d' (ms.map (·.2)) ++ rest)))
      (d.takeMembers (ms.map fun q => (q.1, q.2.value))) := by
  -- each part is read into the draft that the parts before it leave, from their last margin on
  induction ms generalizing fuel d margin with
  | nil =>
    obtain ⟨fuel, rfl⟩ := Nat.exists_eq_add_one.2 hfuel
    rw [SettingsDraft.readMembers, skipBlanks_append hmargin]
    exact .ok d
  | cons q ms ih =>
    obtain ⟨fuel, rfl⟩ := Nat.exists_eq_add_one.2 (Nat.zero_lt_of_lt hfuel)
    obtain ⟨⟨hkey, hmargin'⟩, haround⟩ := List.forall_mem_cons.1 haround
    obtain ⟨hq, hms⟩ := List.forall_mem_cons.1 h
    have hends := ends_append hmargin' (ends_moreText (.inr rfl) (ms.map (·.2)) rest)
    obtain ⟨t, hskip, hmember⟩ := agrees_readMember hkey hq hends
    rw [SettingsDraft.readMembers, skipBlanks_append hmargin, List.map_cons, moreText, List.cons_append,
      skipBlanks_cons rfl, List.map_cons, SettingsDraft.takeMembers_cons]
    simp only [List.append_assoc, hskip]
    exact (hmember d).bind fun d' => ih haround hms (Nat.lt_of_succ_lt_succ hfuel) d' hmargin'

theorem length_lt_moreText (close : Char) (ps : List Json.Part) : ps.length < (moreText close ps).length := by
  induction ps with
  | nil => exact Nat.one_pos
  | cons p ps ih =>
    simp only [moreText, List.length_cons, List.length_append]
    omega

/-- An object is read from each of its texts as it is taken. -/
theorem agrees_readAll {ms : List (Text × Json)} {w : Text} (h : Writes (.object ms) w) {lead : Text}
    (hlead : Blanks lead) :
    Agrees rest (SettingsDraft.readAll (lead ++ (w ++ rest))) (SettingsDraft.takeMembers {} ms) := by
  cases h with
  | noMembers hb =>
    rw [SettingsDraft.readAll, skipBlanks_append hlead, List.cons_append, List.append_assoc, skipBlanks_cons rfl]
    simp only [SettingsDraft.readMembers, skipBlanks_append hb]
    exact .ok _
  | @members q ms haround h =>
    obtain ⟨⟨hkey, hmargin⟩, haround⟩ := List.forall_mem_cons.1 haround
    obtain ⟨hq, hms⟩ := List.forall_mem_cons.1 h
    have hends := ends_append hmargin (ends_moreText (.inr rfl) (ms.map (·.2)) rest)
    obtain ⟨t, hskip, hmember⟩ := agrees_readMember hkey hq hends
    have hfuel : ms.length < (q.2.written ++ (moreText '\x7d' (ms.map (·.2)) ++ rest)).length := by
      have hlength := length_lt_moreText '\x7d' (ms.map (·.2))
      simp only [List.length_map, List.length_append] at hlength ⊢
      omega
    rw [SettingsDraft.readAll, skipBlanks_append hlead, List.cons_append, List.append_assoc, skipBlanks_cons rfl,
      List.map_cons, SettingsDraft.takeMembers_cons]
    simp only [SettingsDraft.readMembers, hskip]
    exact (hmember {}).bind fun d => agrees_readMembers haround hms hfuel d hmargin

end Members

/-! ## Settings -/

/-- The texts of an object, with blanks around it. -/
inductive IsObjectText (ms : List (Text × Json)) : Text → Prop
  | mk {a w b : Text} (ha : Blanks a) (h : Writes (.object ms) w) (hb : Blanks b) : IsObjectText ms (a ++ (w ++ b))

/-- Settings are read from each text of an object as they are taken from the object. -/
theorem Settings.ofText_eq_ok_iff {ms : List (Text × Json)} {t : Text} (h : IsObjectText ms t) {s : Settings} :
    ofText t = .ok s ↔ ofJson (.object ms) = .ok s := by
  obtain @⟨a, w, b, ha, hw, hb⟩ := h
  have hblank : (skipBlanks b).isEmpty = true := by
    rw [← List.append_nil b, skipBlanks_append hb]
    rfl
  have hagrees : Agrees b (SettingsDraft.readAll (a ++ (w ++ b))) (SettingsDraft.takeMembers {} ms) :=
    agrees_readAll hw ha
  rw [ofText, ofJson]
  generalize SettingsDraft.readAll (a ++ (w ++ b)) = r at hagrees ⊢
  generalize SettingsDraft.takeMembers {} ms = x at hagrees ⊢
  cases hagrees with
  | ok d => simp [bind, Except.bind, hblank, pure, Except.pure, Except.map]
  | error fault fault' => exact iff_of_false nofun nofun

namespace Settings

/-- An object and each of its texts is decoded to the settings. -/
structure IsDecoded (s : Settings) (ms : List (Text × Json)) : Prop where
  json : ofJson (.object ms) = .ok s
  text : ∀ t, IsObjectText ms t → ofText t = .ok s

/-- No settings are decoded from an object, nor from any of its texts. -/
structure IsRefused (ms : List (Text × Json)) : Prop where
  json : ∃ fault, ofJson (.object ms) = .error fault
  text : ∀ t, IsObjectText ms t → ∃ fault, ofText t = .error fault

theorem IsDecoded.of_ofJson {s : Settings} {ms : List (Text × Json)} (h : ofJson (.object ms) = .ok s) :
    s.IsDecoded ms :=
  ⟨h, fun _ ht => (ofText_eq_ok_iff ht).2 h⟩

theorem IsRefused.of_ofJson {ms : List (Text × Json)} {fault : DecodeFault} (h : ofJson (.object ms) = .error fault) :
    IsRefused ms := by
  refine ⟨⟨fault, h⟩, fun t ht => ?_⟩
  cases htext : ofText t with
  | error fault' => exact ⟨fault', rfl⟩
  | ok s =>
    rw [(ofText_eq_ok_iff ht).1 htext] at h
    cases h

/-- The settings that are given, and the defaults of all others. -/
theorem isDecoded_only {s : Settings} {ks : List SettingKey} {ms : List (Text × Json)} (h : s.Gives ks ms)
    (hnodup : ks.Nodup) : (s.only ks).IsDecoded ms := by
  have htake : SettingsDraft.takeMembers {} ms = .ok (s.draft (ks.reverse ++ [])) :=
    SettingsDraft.takeMembers_of_gives h hnodup fun k _ => List.not_mem_nil
  have hdraft : s.draft (ks.reverse ++ []) = s.draft ks := s.draft_congr (by simp)
  refine .of_ofJson ?_
  rw [ofJson, htake, hdraft, Except.map, settle_draft]

theorem isRefused_of_twice {k : SettingKey} {n₁ n₂ : Text} (h₁ : k.Names n₁) (h₂ : k.Names n₂) (v₁ v₂ : Json)
    (a b c : List (Text × Json)) : IsRefused (a ++ (n₁, v₁) :: (b ++ (n₂, v₂) :: c)) := by
  obtain ⟨fault, hfault⟩ := SettingsDraft.takeMembers_twice h₁ h₂ v₁ v₂ a b c {}
  exact .of_ofJson (by rw [ofJson, hfault, Except.map])

/-- The members that settings are written as are strings and flags, and give all settings. -/
theorem exists_members (s : Settings) : ∃ m ms, s.json = .object (m :: ms) ∧ s.Gives SettingKey.all (m :: ms) ∧
    ∀ q ∈ m :: ms, (∃ t, q.2 = .string t) ∨ ∃ b, q.2 = .bool b := by
  have hpolicy : s.policy.IsSpelled (.ofString s.policy.name) := by
    refine ⟨s.policy.name, ?_, .inl rfl⟩
    cases s.policy <;> decide
  refine ⟨_, _, rfl, ?_, ?_⟩
  · exact .setting .name rfl <| .setting .name rfl <| .setting .name rfl <| .setting .name rfl <| .setting .name rfl <|
      .setting .name hpolicy .nil
  · simp [Json.ofString]

/-- Settings are written as texts of what they are written as. -/
theorem isObjectText_json {s : Settings} {ms : List (Text × Json)} (h : s.json = .object ms) :
    IsObjectText ms (compact s.json) ∧ IsObjectText ms (pretty s.json) := by
  obtain ⟨m, ms, hjson, -, hvalues⟩ := s.exists_members
  obtain rfl : m :: ms = _ := Json.object.inj (hjson.symm.trans h)
  have hwrites : ∀ q ∈ m :: ms, Writes q.2 (compact q.2) ∧ Writes q.2 (prettyAt 1 q.2) := by
    intro q hq
    obtain ⟨t, ht⟩ | ⟨b, hb⟩ := hvalues q hq
    · rw [ht]
      exact ⟨writes_stringText t, writes_stringText t⟩
    · rw [hb]
      exact ⟨writes_compact_bool b, writes_compact_bool b⟩
  have hcompact : Writes (.object (m :: ms)) (compact (.object (m :: ms))) :=
    writes_compact_object fun q hq => (hwrites q hq).1
  have hpretty : Writes (.object (m :: ms)) (pretty (.object (m :: ms))) :=
    writes_prettyAt_object fun q hq => (hwrites q hq).2
  rw [h]
  refine ⟨?_, ?_⟩
  · simpa using IsObjectText.mk (a := []) (b := []) rfl hcompact rfl
  · simpa using IsObjectText.mk (a := []) (b := []) rfl hpretty rfl

/-- Decoding undoes every way to write settings as an object: with either name of each setting, with every spelling of
the policy, in any order and among members that name no setting; so it does what writing them does. What is left out has
its default, and nothing that is given twice is accepted. -/
theorem decoding_undoes_writing (s : Settings) :
    (∀ ks ms, s.Gives ks ms → ks.Perm SettingKey.all → s.IsDecoded ms) ∧
    (ofJson s.json = .ok s ∧ ofText (compact s.json) = .ok s ∧ ofText (pretty s.json) = .ok s) ∧
    (∀ ks ms, s.Gives ks ms → ks.Nodup → (s.only ks).IsDecoded ms) ∧
    ∀ (k : SettingKey) (n₁ n₂ : Text), k.Names n₁ → k.Names n₂ → ∀ (v₁ v₂ : Json) (a b c : List (Text × Json)),
      IsRefused (a ++ (n₁, v₁) :: (b ++ (n₂, v₂) :: c)) := by
  have hall : ∀ ks ms, s.Gives ks ms → ks.Perm SettingKey.all → s.IsDecoded ms := by
    intro ks ms h hperm
    have hmem : ∀ k, k ∈ ks := fun k => hperm.mem_iff.2 (by cases k <;> decide)
    have hnodup : ks.Nodup := hperm.nodup_iff.2 (by decide)
    rw [← s.only_of_forall hmem]
    exact isDecoded_only h hnodup
  obtain ⟨m, ms, hjson, hgives, -⟩ := s.exists_members
  obtain ⟨hcompact, hpretty⟩ := isObjectText_json hjson
  have hown := hall _ _ hgives (.refl _)
  exact ⟨hall, ⟨hjson ▸ hown.json, hown.text _ hcompact, hown.text _ hpretty⟩, fun _ _ => isDecoded_only,
    fun _ _ _ => isRefused_of_twice⟩

/-- Names of both kinds in an order of their own, around an unknown key; a part of the settings, as a value and as a
text; and a flag that is given by both of its names. -/
theorem decoding_undoes_editorNames :
    IsDecoded { namePrefix := "card".toList, registryName := "ui".toList, policy := .afterImports }
        [("sortStyleProperties".toList, .bool false), ("preserveComments".toList, .bool true),
          ("extractionLocation".toList, .ofString "After imports"), ("theme".toList, .null),
          ("preferredStyleSheetName".toList, .ofString "ui"), ("autoImport".toList, .bool true),
          ("defaultStyleName".toList, .ofString "card")] ∧
      IsDecoded { policy := .top } [("insertionPolicy".toList, .ofMembers [("Top", .null)]), ("theme".toList, .null)] ∧
      ofText "\x7b\"insertionPolicy\":\x7b\"Top\":null\x7d,\"theme\":null\x7d".toList = .ok { policy := .top } ∧
      IsRefused [("autoImport".toList, .bool true), ("theme".toList, .null),
        ("autoImportStyleSheet".toList, .bool true)] := by
  have hother : ∀ k : SettingKey, ¬k.Names "theme".toList := SettingKey.ofText?_eq_none_iff.1 (by decide)
  have hpart : Settings.IsDecoded { policy := .top }
      [("insertionPolicy".toList, .ofMembers [("Top", .null)]), ("theme".toList, .null)] :=
    (decoding_undoes_writing { policy := .top }).2.2.1 [.policy] _
      (.setting .name ⟨"Top", by decide, .inr rfl⟩ (.other hother .nil)) (by decide)
  refine ⟨?_, hpart, hpart.text _ ?_, ?_⟩
  · exact (decoding_undoes_writing _).1
      [.sortProperties, .keepComments, .policy, .registryName, .autoImport, .namePrefix] _
      (.setting (.editorName rfl) rfl <| .setting .name rfl <|
        .setting (.editorName rfl) ⟨"After imports", by decide, .inl rfl⟩ <| .other hother <|
        .setting (.editorName rfl) rfl <| .setting .name rfl <| .setting (.editorName rfl) rfl .nil)
      (by decide)
  · have hpolicy : Writes (.ofMembers [("Top", .null)]) (compact (.ofMembers [("Top", .null)])) :=
      writes_compact_object (by simpa [compact] using .null)
    have hobject :
        Writes (.object [("insertionPolicy".toList, .ofMembers [("Top", .null)]), ("theme".toList, .null)]) _ :=
      writes_compact_object (List.forall_mem_cons.2 ⟨hpolicy, by simpa [compact] using .null⟩)
    exact .mk (a := []) (b := []) rfl hobject rfl
  · exact (decoding_undoes_writing {}).2.2.2 .autoImport _ _ .name (.editorName rfl) _ _ [] [("theme".toList, .null)] []

end Settings

end StyleHoist
