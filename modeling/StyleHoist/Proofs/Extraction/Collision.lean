import StyleHoist.Extraction
import StyleHoist.Proofs.Registry.Position

/-!
# Collisions within a batch

A bulk extraction applies all its edits as one batch: an import, the entries, and the places of use. The first two never
get in each other's way, and both always fit the text (`fits_entryEdit`, `inImports_of_mem_importEdits`). What remains
is a `Collision`, and a bulk extraction breaks off if and only if there is one (`extractAll_error_iff`).

A collision does occur: a literal inside a value of another literal is taken up along with it.
-/

namespace StyleHoist

open Text

variable {t : Text} {path : String} {settings : Settings} {styles : List NamedStyle}

/-! ## The edits of a batch -/

/-- The range that an extraction replaces at the place of use of a style. -/
def NamedStyle.range (s : NamedStyle) : Span :=
  s.1.target.range

/-- The offset at which new entries go: behind the last entry of the registry that takes them, or where a registry is
declared for them. -/
def entryOffset (t : Text) (settings : Settings) : Nat :=
  match destination? settings.registryName (registriesIn t) with
  | some r => r.closeBrace - size r.margin
  | none => (createRegistry t settings.registryName [] settings.policy).range.start

/-- The edit that adds the entries of styles. -/
def entryEdit (t : Text) (settings : Settings) (styles : List NamedStyle) : Edit :=
  match destination? settings.registryName (registriesIn t) with
  | some r => r.insertEntries (styles.map (·.entry settings))
  | none => createRegistry t settings.registryName (styles.map (·.entry settings)) settings.policy

/-- The registry that styles are moved to. -/
def registryOf (t : Text) (settings : Settings) : Text :=
  ((destination? settings.registryName (registriesIn t)).map (·.name)).getD settings.registryName

/-- Where a registry is declared does not depend on its entries. -/
theorem createRegistry_range (t name : Text) (entries : List Text) (policy : InsertionPolicy) :
    (createRegistry t name entries policy).range =
      ⟨(createRegistry t name [] policy).range.start, (createRegistry t name [] policy).range.start⟩ := by
  simp only [createRegistry]
  split
  · rfl
  · rfl
  · split <;> rfl

/-- Entries are added by an insertion. -/
theorem entryEdit_range (t : Text) (settings : Settings) (styles : List NamedStyle) :
    (entryEdit t settings styles).range = ⟨entryOffset t settings, entryOffset t settings⟩ := by
  simp only [entryEdit, entryOffset]
  split
  · rfl
  · exact createRegistry_range ..

theorem fits_entryEdit (t : Text) (settings : Settings) (styles : List NamedStyle) :
    (entryEdit t settings styles).range.Fits t := by
  simp only [entryEdit]
  split
  · rename_i r hr
    exact fits_insertEntries (standsIn_of_mem_registriesIn (mem_of_destination? hr)) _
  · exact fits_createRegistry ..

/-- At most one edit imports the factory. -/
theorem importEdits_cases {imports : List Edit} (h : importEdits t settings = .ok imports) :
    imports = [] ∨ ∃ e, imports = [e] ∧ importEdit t = .ok (some e) := by
  simp only [importEdits] at h
  split at h
  · cases he : importEdit t with
    | error fault => simp [he, Except.map] at h
    | ok found =>
      cases found with
      | none => exact Or.inl (by simpa [he, Except.map] using h.symm)
      | some e => exact Or.inr ⟨e, by simpa [he, Except.map] using h.symm, rfl⟩
  · exact Or.inl (by simpa using h.symm)

/-- The edit that imports the factory fits the text and stays clear of the entries. Where there is a registry, there is
no such edit. -/
theorem inImports_of_mem_importEdits {imports : List Edit} {e : Edit} (h : importEdits t settings = .ok imports)
    (he : e ∈ imports) : e.range.Fits t ∧ e.range.Apart (entryEdit t settings styles).range := by
  rcases importEdits_cases h with rfl | ⟨e', rfl, hedit⟩
  · cases he
  · rw [List.mem_singleton.1 he]
    have hin := inImports_of_importEdit hedit
    refine ⟨hin.fits, ?_⟩
    simp only [entryEdit]
    split
    · rename_i r hr
      rw [importEdit_of_mem_registriesIn (mem_of_destination? hr)] at hedit
      cases hedit
    · exact apart_createRegistry hin ..

/-! ## Collisions -/

/-- What keeps the edits of a batch from being applied together. -/
inductive Collision (t : Text) (settings : Settings) (styles : List NamedStyle) : Prop
  /-- The text cannot be given the import. -/
  | crossedImport (fault : ImportFault) (h : importEdits t settings = .error fault)
  /-- A place of use does not cover whole characters. -/
  | splitTarget (s : NamedStyle) (hs : s ∈ styles) (h : ¬s.range.Fits t)
  /-- Two places of use overlap. -/
  | targets (a b : NamedStyle) (hab : [a, b].Sublist styles) (h : ¬a.range.Apart b.range)
  /-- The entries would go inside a place of use. -/
  | entries (s : NamedStyle) (hs : s ∈ styles) (hstart : s.range.start < entryOffset t settings)
      (hstop : entryOffset t settings < s.range.stop)
  /-- The import overlaps a place of use. -/
  | imports (e : Edit) (h : importEdits t settings = .ok [e]) (s : NamedStyle) (hs : s ∈ styles)
      (hover : ¬e.range.Apart s.range)

theorem pairwise_iff_forall_sublist {α : Type} {R : α → α → Prop} {as : List α} :
    as.Pairwise R ↔ ∀ a b, [a, b].Sublist as → R a b :=
  List.pairwise_iff_forall_sublist.trans ⟨fun h _ _ hab => h hab, fun h _ _ hab => h _ _ hab⟩

/-- Adding the entries collides with nothing if and only if they go inside no place of use. -/
theorem apart_entryEdit {s : Span} : (entryEdit t settings styles).range.Apart s ↔
    ¬(s.start < entryOffset t settings ∧ entryOffset t settings < s.stop) := by
  rw [entryEdit_range]
  simp only [Span.Apart]
  omega

/-- The edits of a batch fit together if and only if there is no collision. -/
theorem fitting_iff_not_collision {imports : List Edit} (registry : Text) (himports : importEdits t settings = .ok imports) :
    ((∀ e ∈ imports ++ entryEdit t settings styles :: styles.map (·.use registry), e.range.Fits t) ∧
      (imports ++ entryEdit t settings styles :: styles.map (·.use registry)).Pairwise fun a b => a.range.Apart b.range) ↔
    ¬Collision t settings styles := by
  have huse : ∀ s : NamedStyle, (s.use registry).range = s.range := fun _ => rfl
  have himport : ∀ e ∈ imports, e.range.Fits t ∧ e.range.Apart (entryEdit t settings styles).range :=
    fun e => inImports_of_mem_importEdits himports
  constructor
  · rintro ⟨hfits, hpair⟩ hcollision
    obtain ⟨-, hentries, hacross⟩ := List.pairwise_append.1 hpair
    obtain ⟨hentry, huses⟩ := List.pairwise_cons.1 hentries
    cases hcollision with
    | crossedImport fault h =>
      rw [himports] at h
      cases h
    | splitTarget s hs h => exact h (hfits (s.use registry) (by simp [List.mem_map_of_mem hs]))
    | targets a b hab h => exact h (pairwise_iff_forall_sublist.1 (List.pairwise_map.1 huses) a b hab)
    | entries s hs hstart hstop =>
      exact apart_entryEdit.1 (hentry (s.use registry) (List.mem_map_of_mem hs)) ⟨hstart, hstop⟩
    | imports e h s hs hover =>
      have he : e ∈ imports := by
        rw [himports] at h
        cases h
        exact List.mem_singleton_self e
      exact hover (hacross e he (s.use registry) (by simp [List.mem_map_of_mem hs]))
  · intro hnone
    have hapart : styles.Pairwise fun a b => a.range.Apart b.range :=
      pairwise_iff_forall_sublist.2 fun a b hab => Classical.byContradiction fun h => hnone (.targets a b hab h)
    refine ⟨fun e he => ?_, List.pairwise_append.2 ⟨?_, List.pairwise_cons.2 ⟨fun e he => ?_, ?_⟩, fun e he f hf => ?_⟩⟩
    · rcases List.mem_append.1 he with he | he
      · exact (himport e he).1
      · rcases List.mem_cons.1 he with rfl | he
        · exact fits_entryEdit ..
        · obtain ⟨s, hs, rfl⟩ := List.mem_map.1 he
          exact Classical.byContradiction fun h => hnone (.splitTarget s hs h)
    · rcases importEdits_cases himports with rfl | ⟨e, rfl, -⟩
      · exact List.Pairwise.nil
      · exact List.pairwise_singleton _ e
    · obtain ⟨s, hs, rfl⟩ := List.mem_map.1 he
      exact apart_entryEdit.2 fun h => hnone (.entries s hs h.1 h.2)
    · exact List.pairwise_map.2 hapart
    · rcases List.mem_cons.1 hf with rfl | hf
      · exact (himport e he).2
      · obtain ⟨s, hs, rfl⟩ := List.mem_map.1 hf
        have hone : importEdits t settings = .ok [e] := by
          rcases importEdits_cases himports with rfl | ⟨e', rfl, -⟩
          · cases he
          · rw [himports, List.mem_singleton.1 he]
        exact Classical.byContradiction fun h => hnone (.imports e hone s hs h)

/-! ## Extractions -/

/-- The edits of a batch are its import, its entries and its places of use. -/
theorem synthesize_eq (t : Text) (styles : List NamedStyle) (settings : Settings) :
    synthesize t styles settings =
      (match importEdits t settings with
      | .error fault => .error (.refusedImport fault)
      | .ok imports =>
        let edits := imports ++ entryEdit t settings styles :: styles.map (·.use (registryOf t settings))
        match applyEdits t edits with
        | .error fault => .error (.refusedEdits fault)
        | .ok edited =>
          .ok ⟨edits, edited, styles.map (·.2), registryOf t settings,
            (destination? settings.registryName (registriesIn t)).isNone⟩) := by
  simp only [synthesize, entryEdit, registryOf]
  cases importEdits t settings with
  | error fault => rfl
  | ok imports =>
    -- The edits depend on whether there is a registry to take the entries.
    cases destination? settings.registryName (registriesIn t) with
    | none =>
      simp only [Except.mapError, bind, Except.bind]
      split <;> split at * <;> simp_all [pure, Except.pure]
    | some r =>
      simp only [Except.mapError, bind, Except.bind]
      split <;> split at * <;> simp_all [pure, Except.pure]

/-- An extraction of styles succeeds if and only if they do not collide. -/
theorem synthesize_ok_iff (t : Text) (styles : List NamedStyle) (settings : Settings) :
    (∃ e, synthesize t styles settings = .ok e) ↔ ¬Collision t settings styles := by
  rw [synthesize_eq]
  cases himports : importEdits t settings with
  | error fault => simpa using Collision.crossedImport fault himports
  | ok imports =>
    rw [← fitting_iff_not_collision (registryOf t settings) himports, ← applyEdits_ok_iff]
    dsimp only
    cases applyEdits t (imports ++ entryEdit t settings styles :: styles.map (·.use (registryOf t settings))) with
    | error fault => simp
    | ok edited => simp

/-- An extraction names its entries as its styles are named, and its edits are an import, its entries and its places of
use. -/
theorem parts_of_synthesize {e : Extraction} (h : synthesize t styles settings = .ok e) :
    e.names = styles.map (·.2) ∧ ∃ imports, importEdits t settings = .ok imports ∧
      e.edits = imports ++ entryEdit t settings styles :: styles.map (·.use e.registry) := by
  rw [synthesize_eq] at h
  cases himports : importEdits t settings with
  | error fault => simp [himports] at h
  | ok imports =>
    simp only [himports] at h
    split at h
    · cases h
    · cases h
      exact ⟨rfl, imports, rfl, rfl⟩

theorem map_extracted_eq_ok_iff {result : Except ExtractionFault Extraction} {e : Extraction} :
    result.map Outcome.extracted = .ok (.extracted e) ↔ result = .ok e := by
  cases result <;> simp [Except.map]

/-- An extraction of styles is no notice. -/
theorem map_extracted_ne_skipped (result : Except ExtractionFault Extraction) (notice : Notice) :
    result.map Outcome.extracted ≠ .ok (.skipped notice) := by
  cases result <;> simp [Except.map]

/-- An extraction at a cursor takes up this style: the text parses, the cursor points at the literal it is made of, and
its name, the one asked for or else the one suggested, is proper and not taken. -/
structure TakesUpAt (t : Text) (path : String) (offset : Nat) (name : Option Text) (settings : Settings)
    (style : NamedStyle) : Prop where
  found : ∃ items target, Script.itemsOfFile path t = .ok items ∧
    findAt (Sites.of items) t offset = .target target ∧ prepare target settings = .ok style.1
  named : style.2 = name.getD (suggestName t settings)
  proper : isEntryName style.2 = true
  free : style.2 ∉ takenNames (registriesIn t)

/-- An extraction at a cursor carries out the edits of the style it takes up; if it takes up none, it tells why. -/
theorem extractOne_cases (t : Text) (path : String) (offset : Nat) (name : Option Text) (settings : Settings) :
    (∃ style, TakesUpAt t path offset name settings style ∧
      extractOne t path offset name settings = (synthesize t [style] settings).map .extracted) ∨
    ∃ notice, extractOne t path offset name settings = .ok (.skipped notice) := by
  simp only [extractOne]
  split
  · exact Or.inr ⟨_, rfl⟩
  · rename_i items hitems
    split
    · exact Or.inr ⟨_, rfl⟩
    · exact Or.inr ⟨_, rfl⟩
    · rename_i target hfound
      split
      · exact Or.inr ⟨_, rfl⟩
      · split
        · exact Or.inr ⟨_, rfl⟩
        · rename_i hproper
          split
          · exact Or.inr ⟨_, rfl⟩
          · rename_i hfree
            split
            · exact Or.inr ⟨_, rfl⟩
            · rename_i style hprepare
              exact Or.inl ⟨(style, name.getD (suggestName t settings)), ⟨⟨items, target, hitems, hfound, hprepare⟩, rfl,
                by simpa using hproper, by simpa using hfree⟩, rfl⟩

/-- A bulk extraction of a text takes up these styles: the registries have names of their own, the text parses, and at
least one literal can be extracted. -/
structure TakesUp (t : Text) (path : String) (settings : Settings) (styles : List NamedStyle) : Prop where
  distinct : repeatedName? (registriesIn t) = none
  listed : ∃ items, Script.itemsOfFile path t = .ok items ∧
    styles = prepareAll settings (takenNames (registriesIn t)) (findAll (Sites.of items) t)
  nonempty : styles ≠ []

/-- A bulk extraction carries out the edits of the styles it takes up; if it takes up none, it tells why. -/
theorem extractAll_cases (t : Text) (path : String) (settings : Settings) :
    (∃ styles, TakesUp t path settings styles ∧
      extractAll t path settings = (synthesize t styles settings).map .extracted) ∨
    ((∀ styles, ¬TakesUp t path settings styles) ∧ ∃ notice, extractAll t path settings = .ok (.skipped notice)) := by
  simp only [extractAll]
  split
  · rename_i name hname
    exact Or.inr ⟨fun styles h => by simpa [hname] using h.distinct, _, rfl⟩
  · rename_i hname
    split
    · rename_i fault hfault
      refine Or.inr ⟨fun styles h => ?_, _, rfl⟩
      obtain ⟨items, hitems, -⟩ := h.listed
      rw [hfault] at hitems
      cases hitems
    · rename_i items hitems
      have hnone : ∀ {styles}, TakesUp t path settings styles →
          styles = prepareAll settings (takenNames (registriesIn t)) (findAll (Sites.of items) t) := by
        intro styles h
        obtain ⟨items', hitems', rfl⟩ := h.listed
        rw [hitems] at hitems'
        cases hitems'
        rfl
      split
      · rename_i htargets
        exact Or.inr ⟨fun styles h => h.nonempty (by rw [hnone h, htargets]; rfl), _, rfl⟩
      · split
        · rename_i hstyles
          exact Or.inr ⟨fun styles h => h.nonempty (by rw [hnone h, hstyles]), _, rfl⟩
        · rename_i hstyles
          exact Or.inl ⟨_, ⟨hname, ⟨items, hitems, rfl⟩, hstyles⟩, rfl⟩

/-- **A bulk extraction breaks off if and only if the styles that it takes up collide.** -/
theorem extractAll_error_iff (t : Text) (path : String) (settings : Settings) :
    (∃ fault, extractAll t path settings = .error fault) ↔
      ∃ styles, TakesUp t path settings styles ∧ Collision t settings styles := by
  have hunique : ∀ {styles styles'}, TakesUp t path settings styles → TakesUp t path settings styles' →
      styles = styles' := by
    intro styles styles' h h'
    obtain ⟨items, hitems, rfl⟩ := h.listed
    obtain ⟨items', hitems', rfl⟩ := h'.listed
    rw [hitems] at hitems'
    cases hitems'
    rfl
  rcases extractAll_cases t path settings with ⟨styles, htakes, heq⟩ | ⟨hnone, notice, heq⟩
  · have hsynthesize := synthesize_ok_iff t styles settings
    rw [heq]
    constructor
    · rintro ⟨fault, hfault⟩
      refine ⟨styles, htakes, Classical.byContradiction fun h => ?_⟩
      obtain ⟨e, he⟩ := hsynthesize.2 h
      rw [he] at hfault
      cases hfault
    · rintro ⟨styles', htakes', hcollision⟩
      rw [← hunique htakes htakes'] at hcollision
      cases h : synthesize t styles settings with
      | error fault => exact ⟨fault, rfl⟩
      | ok e => exact absurd hcollision (hsynthesize.1 ⟨e, h⟩)
  · rw [heq]
    constructor
    · rintro ⟨fault, hfault⟩
      cases hfault
    · rintro ⟨styles, htakes, -⟩
      exact absurd htakes (hnone styles)

/-- Two styles whose places of use are apart but do not stand in the order in which the styles are listed. -/
def Inverted (styles : List NamedStyle) : Prop :=
  ∃ a b : NamedStyle, [a, b].Sublist styles ∧ b.range.stop ≤ a.range.start ∧ b.range.start < a.range.stop

/-- A bulk extraction is orderly: it does not break off, and the places of use of the styles that it takes up follow one
another in the text. -/
structure Orderly (t : Text) (path : String) (settings : Settings) : Prop where
  completes : ∃ outcome, extractAll t path settings = .ok outcome
  ordered : ∀ styles, TakesUp t path settings styles → styles.Pairwise fun a b => a.range.stop ≤ b.range.start

/-- **A bulk extraction is orderly if and only if the styles that it takes up neither collide nor stand in another order
than they are listed.** -/
theorem orderly_iff (t : Text) (path : String) (settings : Settings) : Orderly t path settings ↔
    ∀ styles, TakesUp t path settings styles → ¬Collision t settings styles ∧ ¬Inverted styles := by
  have hcompletes : (∃ outcome, extractAll t path settings = .ok outcome) ↔
      ¬∃ fault, extractAll t path settings = .error fault := by
    cases extractAll t path settings <;> simp
  constructor
  · rintro ⟨hok, hordered⟩ styles htakes
    refine ⟨fun h => hcompletes.1 hok ((extractAll_error_iff ..).2 ⟨styles, htakes, h⟩), ?_⟩
    rintro ⟨a, b, hab, -, hlate⟩
    have := pairwise_iff_forall_sublist.1 (hordered styles htakes) a b hab
    omega
  · intro h
    refine ⟨hcompletes.2 fun hfault => ?_, fun styles htakes => pairwise_iff_forall_sublist.2 fun a b hab => ?_⟩
    · obtain ⟨styles, htakes, hcollision⟩ := (extractAll_error_iff ..).1 hfault
      exact (h styles htakes).1 hcollision
    · obtain ⟨hnone, hforward⟩ := h styles htakes
      refine Classical.byContradiction fun hlate => ?_
      have hapart : a.range.Apart b.range := Classical.byContradiction fun h => hnone (.targets a b hab h)
      exact hforward ⟨a, b, hab, hapart.resolve_left hlate, by omega⟩

/-- A literal inside a value of another literal. -/
def nestedLiterals : Text :=
  "const A = () => <View style=\x7b\x7b flex: 1, icon: <Text style=\x7b\x7b margin: 2 \x7d\x7d /> \x7d\x7d />;".toList

/-- Nested literals are taken up together, and the batch is refused. -/
theorem extractAll_nestedLiterals : (extractAll nestedLiterals "App.tsx" {}).isOk = false := by
  decide +kernel

end StyleHoist
