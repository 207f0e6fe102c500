import StyleHoist.Settings.Decode

/-!
# Settings as members of an object

An object gives some settings, each by one of its names and with a value that is spelled in one of the accepted ways,
in any order and among members that name no setting (`Gives`). Taking them leads from the draft of what has been given to
the draft of what has been given then (`take_draft`), so an object that gives no setting twice is taken for the settings
it gives, with defaults for the others (`takeMembers_of_gives`). A setting that is given twice is refused, whatever else
the object holds (`takeMembers_twice`).
-/

namespace StyleHoist

/-! ## Names and spellings -/

/-- A text names a setting: by its name in files, or by the name that editors have for it. -/
inductive SettingKey.Names (k : SettingKey) : Text → Prop
  | name : k.Names k.name.toList
  | editorName {n : String} (h : k.editorName? = some n) : k.Names n.toList

theorem SettingKey.isNamed_iff {k : SettingKey} {t : Text} : isNamed t k = true ↔ k.Names t := by
  simp only [isNamed, Bool.or_eq_true, beq_iff_eq, Option.any_eq_true]
  constructor
  · rintro (rfl | ⟨n, hn, rfl⟩)
    · exact .name
    · exact .editorName hn
  · rintro (_ | h)
    · exact .inl rfl
    · exact .inr ⟨_, h, rfl⟩

/-- No text names two settings. -/
theorem SettingKey.ofText?_eq_some_iff {k : SettingKey} {t : Text} : ofText? t = some k ↔ k.Names t := by
  constructor
  · intro h
    exact isNamed_iff.1 (List.find?_some h)
  · rintro (_ | @⟨n, h⟩)
    · cases k <;> decide
    · cases k <;> cases h <;> decide

theorem SettingKey.ofText?_eq_none_iff {t : Text} : ofText? t = none ↔ ∀ k : SettingKey, ¬k.Names t := by
  rw [Option.eq_none_iff_forall_ne_some]
  exact forall_congr' fun k => not_congr ofText?_eq_some_iff

/-- The values that spell a policy: one of its spellings, or an object with it as the only key and nothing behind it. -/
def InsertionPolicy.IsSpelled (p : InsertionPolicy) (v : Json) : Prop :=
  ∃ s, (s, p) ∈ spellings ∧ (v = .ofString s ∨ v = .object [(s.toList, .null)])

/-- A value gives what the settings have for a key. -/
def Settings.IsGiven (s : Settings) : SettingKey → Json → Prop
  | .namePrefix, v => v = .string s.namePrefix
  | .registryName, v => v = .string s.registryName
  | .autoImport, v => v = .bool s.autoImport
  | .sortProperties, v => v = .bool s.sortProperties
  | .keepComments, v => v = .bool s.keepComments
  | .policy, v => s.policy.IsSpelled v

/-- The members of an object give the settings for the keys, in their order, among members that name no setting. -/
inductive Settings.Gives (s : Settings) : List SettingKey → List (Text × Json) → Prop
  | nil : Gives s [] []
  | setting {k : SettingKey} {name : Text} {v : Json} {ks : List SettingKey} {ms : List (Text × Json)}
      (hname : k.Names name) (hv : s.IsGiven k v) (h : Gives s ks ms) : Gives s (k :: ks) ((name, v) :: ms)
  | other {name : Text} {v : Json} {ks : List SettingKey} {ms : List (Text × Json)}
      (hname : ∀ k : SettingKey, ¬k.Names name) (h : Gives s ks ms) : Gives s ks ((name, v) :: ms)

/-- The settings for the keys, and the defaults for all others. -/
def Settings.only (s : Settings) (ks : List SettingKey) : Settings :=
  let defaults : Settings := {}
  { namePrefix := if .namePrefix ∈ ks then s.namePrefix else defaults.namePrefix
    registryName := if .registryName ∈ ks then s.registryName else defaults.registryName
    autoImport := if .autoImport ∈ ks then s.autoImport else defaults.autoImport
    sortProperties := if .sortProperties ∈ ks then s.sortProperties else defaults.sortProperties
    keepComments := if .keepComments ∈ ks then s.keepComments else defaults.keepComments
    policy := if .policy ∈ ks then s.policy else defaults.policy }

theorem Settings.only_of_forall (s : Settings) {ks : List SettingKey} (h : ∀ k, k ∈ ks) : s.only ks = s := by
  simp [only, h]

/-! ## Drafts -/

/-- The draft of settings of which those for the keys have been given. -/
def Settings.draft (s : Settings) (ks : List SettingKey) : SettingsDraft where
  namePrefix := if .namePrefix ∈ ks then some s.namePrefix else none
  registryName := if .registryName ∈ ks then some s.registryName else none
  autoImport := if .autoImport ∈ ks then some s.autoImport else none
  sortProperties := if .sortProperties ∈ ks then some s.sortProperties else none
  keepComments := if .keepComments ∈ ks then some s.keepComments else none
  policy := if .policy ∈ ks then some s.policy else none

theorem Settings.draft_congr (s : Settings) {ks ls : List SettingKey} (h : ∀ k, k ∈ ks ↔ k ∈ ls) :
    s.draft ks = s.draft ls := by
  simp [draft, h]

theorem Settings.settle_draft (s : Settings) (ks : List SettingKey) : (s.draft ks).settle = s.only ks := by
  have hgiven : ∀ {α : Type} (k : SettingKey) (a b : α),
      (if k ∈ ks then some a else none).getD b = if k ∈ ks then a else b := by
    intro α k a b
    split <;> rfl
  exact (Settings.mk.injEq ..).mpr ⟨hgiven .namePrefix _ _, hgiven .registryName _ _, hgiven .autoImport _ _,
    hgiven .sortProperties _ _, hgiven .keepComments _ _, hgiven .policy _ _⟩

theorem SettingsDraft.has_draft (s : Settings) (ks : List SettingKey) (k : SettingKey) :
    (s.draft ks).has k = decide (k ∈ ks) := by
  cases k <;> simp only [Settings.draft, has] <;> split <;> simp [*]

theorem policyOf_of_mem {spelling : String} {p : InsertionPolicy} (h : (spelling, p) ∈ InsertionPolicy.spellings) :
    policyOf spelling.toList = .ok p := by
  have hspellings : ∀ s ∈ InsertionPolicy.spellings, InsertionPolicy.ofText? s.1.toList = some s.2 := by decide
  rw [policyOf, hspellings _ h]

theorem SettingsDraft.takePolicy_of_isSpelled {p : InsertionPolicy} {v : Json} (h : p.IsSpelled v) :
    takePolicy v = .ok p := by
  obtain ⟨s, hs, rfl | rfl⟩ := h
  · exact policyOf_of_mem hs
  · exact policyOf_of_mem hs

namespace SettingsDraft

variable {s : Settings} {d d' : SettingsDraft} {k : SettingKey} {v : Json}

/-- Giving a setting adds it to those that have been given. -/
theorem take_draft (h : s.IsGiven k v) (ks : List SettingKey) : (s.draft ks).take k v = .ok (s.draft (k :: ks)) := by
  cases k with
  | policy =>
    rw [take, takePolicy_of_isSpelled h]
    simp [Except.map, Settings.draft]
  | _ =>
    obtain rfl := h
    simp [take, takeString, takeFlag, Except.map, Settings.draft]

/-- Takes what a member gives. -/
def takeMember (d : SettingsDraft) (m : Text × Json) : Except DecodeFault SettingsDraft :=
  match SettingKey.ofText? m.1 with
  | some key => if d.has key then .error (.repeated key) else d.take key m.2
  | none => .ok d

theorem takeMembers_cons (d : SettingsDraft) (m : Text × Json) (ms : List (Text × Json)) :
    d.takeMembers (m :: ms) = d.takeMember m >>= fun d' => d'.takeMembers ms := by
  rw [takeMembers, takeMember]
  cases SettingKey.ofText? m.1 with
  | none => rfl
  | some key => cases h : d.has key <;> simp only [h] <;> rfl

/-- Members are taken one after the other. -/
theorem takeMembers_append (d : SettingsDraft) (ms ns : List (Text × Json)) :
    d.takeMembers (ms ++ ns) = d.takeMembers ms >>= fun d' => d'.takeMembers ns := by
  induction ms generalizing d with
  | nil => rfl
  | cons m ms ih =>
    rw [List.cons_append, takeMembers_cons, takeMembers_cons]
    cases d.takeMember m with
    | error fault => rfl
    | ok d' => exact ih d'

theorem takeMember_draft {name : Text} (hname : k.Names name) (h : s.IsGiven k v) {given : List SettingKey}
    (hk : k ∉ given) : (s.draft given).takeMember (name, v) = .ok (s.draft (k :: given)) := by
  rw [takeMember, SettingKey.ofText?_eq_some_iff.2 hname]
  simp only [has_draft, hk, decide_false]
  exact take_draft h given

theorem takeMembers_of_gives {ks : List SettingKey} {ms : List (Text × Json)} (h : s.Gives ks ms) (hnodup : ks.Nodup)
    {given : List SettingKey} (hgiven : ∀ k ∈ ks, k ∉ given) :
    (s.draft given).takeMembers ms = .ok (s.draft (ks.reverse ++ given)) := by
  induction h generalizing given with
  | nil => rfl
  | @setting k name v ks ms hname hv _ ih =>
    obtain ⟨hk, hks⟩ := List.nodup_cons.1 hnodup
    obtain ⟨hnot, hrest⟩ := List.forall_mem_cons.1 hgiven
    have hlater : ∀ j ∈ ks, j ∉ k :: given := by
      intro j hj hmem
      obtain rfl | hmem := List.mem_cons.1 hmem
      · exact hk hj
      · exact hrest j hj hmem
    rw [takeMembers_cons, takeMember_draft hname hv hnot, List.reverse_cons, List.append_assoc]
    exact ih hks hlater
  | other hname _ ih =>
    rw [takeMembers, SettingKey.ofText?_eq_none_iff.2 hname]
    exact ih hnodup hgiven

/-! ## Settings that are given twice -/

/-- After a setting has been taken, it and what was there before is there. -/
theorem has_of_take (h : d.take k v = .ok d') (j : SettingKey) : d'.has j = (j == k || d.has j) := by
  have hmap : ∀ {α : Type} {x : Except DecodeFault α} {f : α → SettingsDraft}, x.map f = .ok d' → ∃ a, f a = d' := by
    rintro α (_ | a) f hf
    · cases hf
    · exact ⟨a, Except.ok.inj hf⟩
  cases k <;> obtain ⟨_, rfl⟩ := hmap h <;> cases j <;> simp [has]

/-- After a member has been taken, the setting that it names and what was there before is there. -/
theorem has_of_takeMember {m : Text × Json} (h : d.takeMember m = .ok d') :
    d'.has k = true ↔ k.Names m.1 ∨ d.has k = true := by
  rw [takeMember] at h
  split at h
  · rename_i j hj
    have hname : k.Names m.1 ↔ k = j := by
      rw [← SettingKey.ofText?_eq_some_iff, hj, Option.some.injEq, eq_comm]
    split at h
    · cases h
    · rw [has_of_take h, hname]
      simp
  · rename_i hnone
    cases h
    simp [SettingKey.ofText?_eq_none_iff.1 hnone k]

theorem takeMember_of_has {name : Text} (hname : k.Names name) (hk : d.has k = true) (v : Json) :
    d.takeMember (name, v) = .error (.repeated k) := by
  rw [takeMember, SettingKey.ofText?_eq_some_iff.2 hname]
  exact if_pos hk

/-- Members of which one names a setting that is there already are refused. -/
theorem takeMembers_of_has {name : Text} (hname : k.Names name) (hk : d.has k = true) (v : Json)
    (b c : List (Text × Json)) : ∃ fault, d.takeMembers (b ++ (name, v) :: c) = .error fault := by
  induction b generalizing d with
  | nil =>
    rw [List.nil_append, takeMembers_cons, takeMember_of_has hname hk]
    exact ⟨_, rfl⟩
  | cons m b ih =>
    rw [List.cons_append, takeMembers_cons]
    cases hm : d.takeMember m with
    | error fault => exact ⟨fault, rfl⟩
    | ok d' => exact ih ((has_of_takeMember hm).2 (.inr hk))

/-- Members that give a setting twice, by the same name or by both, are refused. -/
theorem takeMembers_twice {n₁ n₂ : Text} (h₁ : k.Names n₁) (h₂ : k.Names n₂) (v₁ v₂ : Json) (a b c : List (Text × Json))
    (d : SettingsDraft) : ∃ fault, d.takeMembers (a ++ (n₁, v₁) :: (b ++ (n₂, v₂) :: c)) = .error fault := by
  rw [takeMembers_append]
  cases d.takeMembers a with
  | error fault => exact ⟨fault, rfl⟩
  | ok d₁ =>
    change ∃ fault, d₁.takeMembers ((n₁, v₁) :: (b ++ (n₂, v₂) :: c)) = .error fault
    rw [takeMembers_cons]
    cases hm : d₁.takeMember (n₁, v₁) with
    | error fault => exact ⟨fault, rfl⟩
    | ok d₂ => exact takeMembers_of_has h₂ ((has_of_takeMember hm).2 (.inl h₁)) v₂ b c

end SettingsDraft
end StyleHoist
