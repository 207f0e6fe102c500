import StyleHoist.Proofs.Extraction.Meaning
import StyleHoist.Proofs.Extraction.Written
import StyleHoist.Proofs.Style.Sorting

/-!
# What is written reads back

What stands between the braces of an entry, its comments taken out, lists the properties that move
(`exists_entryInterior`), and what stands between those of the object at the place of use lists the properties that stay
(`exists_objectInterior`). A parser that goes by the commas between properties therefore reads the same properties again
if and only if each of them but the last gets its comma (`readsBack_iff`). A method on one line that begins with a star
gets none (`not_readsBack_starTarget`).

- `outlineOf_bareLines`: the lines of properties list them, with a comma behind each that gets one.
- `prepare_allDynamic`: a body in which nothing can move is not prepared.
-/

namespace StyleHoist

open Text Listing

/-! ## Lists of properties -/

/-- The lines of a property without the white space around them, with a comma at the end if it has one. -/
def listedLines (comma : Bool) (code : Text) : List Text :=
  if comma then appendToLast [','] ((splitLines code).map trim) else (splitLines code).map trim

/-- The outline of properties one after the other, each with a comma behind it or without one. -/
def listing (codes : List Text) (commas : List Bool) : List Text :=
  ((codes.zip commas).flatMap fun p => listedLines p.2 p.1).filter fun l => !l.isEmpty

/-- A property but for the white space around its lines. -/
def Property.outline (p : Property) : List Text × PropertyClass :=
  (StyleHoist.outline p.text, p.kind)

/-- A text is read as the given properties, but for the white space around their lines. -/
def ReadsAs (t : Text) (ps : List Property) : Prop :=
  (propertiesOf t).map Property.outline = ps.map Property.outline

instance (t : Text) (ps : List Property) : Decidable (ReadsAs t ps) :=
  inferInstanceAs (Decidable (_ = _))

/-- The parser goes by the commas of a text that lists properties, whatever white space stands around its lines: with a
comma behind each but perhaps the last they are read, and with one missing between two the text is not read at all. -/
structure ReadsByCommas (t : Text) (ps : List Property) : Prop where
  read : ∀ commas, commas.length = ps.length → outline t = listing (ps.map (·.text)) commas →
    commas.dropLast.all id = true → ReadsAs t ps
  refused : ∀ commas, commas.length = ps.length → outline t = listing (ps.map (·.text)) commas →
    commas.dropLast.all id = false → propertiesOf t = []

theorem trim_concat_comma (t : Text) : trim (t ++ [',']) = trimStart t ++ [','] := by
  have hcomma : isBlankChar ',' = false := by decide
  have hstart : trimStart (t ++ [',']) = trimStart t ++ [','] := by
    rw [trimStart, List.dropWhile_append]
    split
    · rename_i hempty
      rw [trimStart, List.isEmpty_iff.1 hempty]
      simp [hcomma]
    · rfl
  rw [trim, hstart, trimEnd_concat hcomma]

section Lines

variable {indent : Text} (hindent : IsIndent indent)

include hindent

theorem trim_layout (l : Text) : trim (trimEnd (indent ++ l)) = trim l := by
  rw [trim_trimEnd, trim_blank_append hindent.blank]

/-- The lines of a property list it, with a comma if it gets one. -/
theorem map_trim_propertyLines (code : Text) :
    (propertyLines indent code).map trim = listedLines (getsComma code) code := by
  cases hcomma : getsComma code with
  | true =>
    obtain ⟨ls, last, hlines, hwritten⟩ := propertyLines_of_getsComma hindent hcomma
    have hlast : trim (trimEnd (indent ++ last) ++ [',']) = trim last ++ [','] := by
      rw [trim_concat_comma, trimStart_trimEnd, trim_blank_append hindent.blank]
    rw [hwritten, listedLines, if_pos rfl, hlines, List.map_append, List.map_append, List.map_singleton,
      List.map_singleton, appendToLast_concat, hlast, layout, List.map_map]
    congr 1
    exact List.map_congr_left fun l _ => trim_layout hindent l
  | false =>
    obtain ⟨-, hlines⟩ := propertyText_of_not_getsComma indent hcomma none
    rw [propertyLines_of_not_getsComma hindent hcomma, listedLines, if_neg (by simp), hlines, List.map_singleton,
      List.map_singleton, trim_blank_append hindent.blank, trim_trim]

/-- The lines of properties list them, with a comma behind each that gets one. -/
theorem outlineOf_bareLines (codes : List Text) :
    outlineOf (bareLines indent codes) = listing codes (codes.map getsComma) := by
  have hlines : (bareLines indent codes).map trim =
      (codes.zip (codes.map getsComma)).flatMap fun p => listedLines p.2 p.1 := by
    induction codes with
    | nil => rfl
    | cons code codes ih =>
      rw [bareLines, List.flatMap_cons, List.map_append, map_trim_propertyLines hindent, ← bareLines, ih]
      rfl
  rw [outlineOf, hlines, listing]

end Lines

/-! ## Interiors -/

/-- A text without its comments and without the white space around it. -/
def withoutComments (t : Text) : Text :=
  trim (stripComments t).cleaned

/-- Taking the comments out of what stands between braces leaves the lines that are kept of it. -/
theorem outline_withoutComments {ls kept : List Text} {comments : List Comment} (h : Yields false ls kept comments)
    (hkept : ∀ k ∈ kept, IsLine k) {margin : Text} (hmargin : IsIndent margin) :
    outline (withoutComments ('\n' :: (unlines ls ++ margin))) = outlineOf kept := by
  have hfirst : Yields false [[]] [[]] [] := yields_of_templateAfter (by decide) (by decide)
  have hlast : Yields false [margin] [margin] [] := by
    refine yields_of_templateAfter (List.forall_mem_singleton.2 hmargin.line) ?_
    have hclear := (clear_of_inert (isQuote_openQuote false) (all_isInert_of_isBlank hmargin.blank)).1
    rw [templateAfter, hclear]
    rfl
  have hall := hfirst.append (h.append hlast)
  have hsplit : splitLines ('\n' :: (unlines ls ++ margin)) = [[]] ++ (ls ++ [margin]) := by
    have hne : ls ++ [margin] ≠ [] := by simp
    have hjoin : '\n' :: joinLines (ls ++ [margin]) = joinLines ([] :: (ls ++ [margin])) :=
      (joinLines_cons (l := []) hne).symm
    rw [← joinLines_concat, hjoin]
    exact splitLines_joinLines (by simp) hall.lines
  have hcleaned : (stripComments ('\n' :: (unlines ls ++ margin))).cleaned = tidy kept := by
    rw [(stripComments_scan _).1, hsplit, hall.scan_eq.1]
    exact tidy_between kept hmargin.blank
  rw [withoutComments, outline_trim, hcleaned, outline_tidy hkept]

/-! ## Reading again -/

/-- Each of some properties but the last gets a comma. -/
def Separated (codes : List Text) : Prop :=
  (codes.map getsComma).dropLast.all id = true

instance (codes : List Text) : Decidable (Separated codes) :=
  inferInstanceAs (Decidable (_ = true))

/-- What lists properties with the commas that they get is read as those properties if and only if no comma is missing
between two. -/
theorem readsAs_iff {t : Text} {ps : List Property} (hne : ps ≠ [])
    (houtline : outline t = listing (ps.map (·.text)) ((ps.map (·.text)).map getsComma))
    (hparser : ReadsByCommas t ps) :
    ReadsAs t ps ↔ Separated (ps.map (·.text)) := by
  have hlength : ((ps.map (·.text)).map getsComma).length = ps.length := by simp
  refine ⟨fun hreads => ?_, hparser.read _ hlength houtline⟩
  by_contra hnot
  rw [Separated, Bool.not_eq_true] at hnot
  have hnone := hparser.refused _ hlength houtline hnot
  rw [ReadsAs, hnone, List.map_nil, eq_comm, List.map_eq_nil_iff] at hreads
  exact hne hreads

/-- Nothing is read from a body without properties. -/
theorem propertiesOf_of_isEmptyBody {body : Text} (h : isEmptyBody body = true) : propertiesOf body = [] := by
  rw [isEmptyBody, Bool.or_eq_true, List.isEmpty_iff, beq_iff_eq] at h
  rcases h with rfl | rfl <;> decide +kernel

/-- A body in which nothing can move is not prepared. -/
theorem prepare_allDynamic {target : StyleTarget} {ps : List Property} (settings : Settings) (hne : ps ≠ [])
    (hdynamic : ∀ p ∈ ps, p.kind = .dynamic) (hreads : ReadsAs target.bareBody ps) :
    prepare target settings = .error .allDynamic := by
  have hproperties : propertiesOf target.bareBody ≠ [] := by
    intro hnil
    rw [ReadsAs, hnil, List.map_nil, eq_comm, List.map_eq_nil_iff] at hreads
    exact hne hreads
  have hbody : isEmptyBody target.bareBody ≠ true := fun h => hproperties (propertiesOf_of_isEmptyBody h)
  have hstatic : staticTexts (propertiesOf target.bareBody) = [] := by
    rw [staticTexts, List.map_eq_nil_iff, List.filter_eq_nil_iff]
    intro p hp
    have houtline : p.outline ∈ ps.map Property.outline := hreads ▸ List.mem_map_of_mem hp
    obtain ⟨q, hq, hsame⟩ := List.mem_map.1 houtline
    have hkind : p.kind = .dynamic := (congrArg Prod.snd hsame).symm.trans (hdynamic q hq)
    simp [hkind]
  simp only [StyleTarget.bareBody] at hbody hproperties hstatic
  simp only [prepare, if_neg hbody, List.isEmpty_iff, if_neg hproperties, hstatic]
  simp [formatStatic, sortBy]

/-! ## Styles -/

/-- The properties of a target that move, in their order or sorted. -/
def StyleTarget.moved (target : StyleTarget) (settings : Settings) : List Property :=
  let moved := (propertiesOf target.bareBody).filter (·.kind = .static)
  if settings.sortProperties then sortBy (fun p q => propertyLe p.text q.text) moved else moved

/-- The properties of a target that stay. -/
def StyleTarget.staying (target : StyleTarget) : List Property :=
  (propertiesOf target.bareBody).filter (·.kind = .dynamic)

/-- A text as it is taken from a body for a property: it has neither white space around it nor a comma at its end. -/
def IsBare (t : Text) : Prop :=
  t ≠ [] ∧ trim t = t ∧ t.getLast? ≠ some ','

instance (t : Text) : Decidable (IsBare t) :=
  inferInstanceAs (Decidable (_ ∧ _ ∧ _))

theorem IsBare.trimProperty {t : Text} (h : IsBare t) : trimProperty t = t :=
  (trimProperty_eq_self_iff h.2.1).2 h.2.2

/-- What stands around the interior of an entry. -/
def entryFrame (name : Text) : Text × Text :=
  (headerLine name, "\x7d,".toList)

/-- What stands around the interior of the object at the place of use. -/
def objectFrame (target : StyleTarget) (registry name : Text) : Text × Text :=
  ((useFrame target.kind).1 ++ useOpening (referenceText registry name) target.indent,
    useClosing target.indent ++ (useFrame target.kind).2)

/-- A text has an interior between what it begins with and what it ends with. -/
def HasInterior (frame : Text × Text) (t inner : Text) : Prop :=
  t = frame.1 ++ inner ++ frame.2

theorem HasInterior.unique {frame : Text × Text} {t inner inner' : Text} (h : HasInterior frame t inner)
    (h' : HasInterior frame t inner') : inner = inner' :=
  List.append_cancel_left (List.append_cancel_right (h.symm.trans h'))

/-- The properties of a style are read again from what is written: those that move from its entry, and those that stay
from the object at the place of use, in which nothing more can move. -/
structure ReadsBack (target : StyleTarget) (settings : Settings) (registry : Text) (s : NamedStyle) : Prop where
  entry : ∃ inner, HasInterior (entryFrame s.2) (s.entry settings) inner ∧
    ReadsAs (withoutComments inner) (target.moved settings)
  object : target.staying ≠ [] → ∃ inner,
    HasInterior (objectFrame target registry s.2) (s.use registry).replacement inner ∧
    ReadsAs (withoutComments inner) target.staying ∧
      ∀ (rest : StyleTarget) (again : Settings), rest.bareBody = withoutComments inner →
        prepare rest again = .error .allDynamic

/-- The texts that an entry takes are those of the properties that move. -/
theorem map_text_moved {target : StyleTarget} (settings : Settings)
    (hbare : ∀ p ∈ propertiesOf target.bareBody, IsBare p.text) : (target.moved settings).map (·.text) =
      formatStatic settings.sortProperties (staticTexts (propertiesOf target.bareBody)) := by
  have hkept : ((staticTexts (propertiesOf target.bareBody)).map trimProperty).filter (fun p => !p.isEmpty) =
      staticTexts (propertiesOf target.bareBody) := by
    have htexts : ∀ t ∈ staticTexts (propertiesOf target.bareBody), IsBare t :=
      List.forall_mem_map.2 fun p hp => hbare p (List.mem_filter.1 hp).1
    rw [List.map_congr_left fun t ht => (htexts t ht).trimProperty, List.map_id', List.filter_eq_self]
    exact fun t ht => by simpa using (htexts t ht).1
  simp only [formatStatic, hkept, StyleTarget.moved]
  split
  · rw [staticTexts, sortBy_map]
  · rfl

section Prepared

variable {target : StyleTarget} {settings : Settings} {style : PreparedStyle} {name : Text}
  (hprepare : prepare target settings = .ok style) (hbare : ∀ p ∈ propertiesOf target.bareBody, IsBare p.text)

include hprepare

/-- The interior of the object at the place of use lists the properties that stay. -/
theorem exists_objectInterior (registry : Text) (hindent : IsIndent target.indent.base) (hne : target.staying ≠ [])
    (hstaying : ∀ p ∈ target.staying, Markerless p.text ∧ (style.comments ≠ [] → EndsInCode p.text)) :
    ∃ inner, HasInterior (objectFrame target registry name) (NamedStyle.use registry (style, name)).replacement inner ∧
      outline (withoutComments inner) =
        listing (target.staying.map (·.text)) ((target.staying.map (·.text)).map getsComma) := by
  obtain ⟨hof, -, -, hrest, -⟩ : style.Splits target settings (propertiesOf target.bareBody) :=
    splits_of_prepare hprepare
  have harray : IsIndent target.indent.array := hindent.append ⟨by decide, by decide⟩
  have hobject : IsIndent target.indent.object := hindent.append ⟨by decide, by decide⟩
  have hcodes : ∀ code ∈ target.staying.map (·.text), Markerless code ∧ (style.comments ≠ [] → EndsInCode code) :=
    List.forall_mem_map.2 hstaying
  have hyields := yields_useLines hobject (isTaken_of_prepare hprepare) [] hcodes
  change style.remaining = restoreProperties style.comments [] (target.staying.map (·.text)) at hrest
  have hremaining : style.remaining ≠ [] := by
    intro hnil
    have hkept := code?_restoreProperties style.comments [] (target.staying.map (·.text))
    rw [← hrest, hnil, List.filterMap_nil, eq_comm, List.map_eq_nil_iff] at hkept
    exact hne hkept
  rw [← hrest] at hyields
  refine ⟨'\n' :: (unlines (useLines target.indent.object style.remaining) ++ target.indent.array), ?_, ?_⟩
  · rw [HasInterior, NamedStyle.use, hof, useText_eq registry name hremaining, composedText_eq _ hremaining,
      objectFrame]
    simp
  · rw [outline_withoutComments hyields isLine_bareLines harray, outlineOf_bareLines hobject]

include hbare

theorem staticProperties_eq : style.staticProperties = (target.moved settings).map (·.text) :=
  (splits_of_prepare hprepare).moved.trans (map_text_moved settings hbare).symm

theorem moved_ne_nil : target.moved settings ≠ [] := by
  intro hnil
  have hnonempty := (splits_of_prepare hprepare).nonempty
  rw [staticProperties_eq hprepare hbare, hnil] at hnonempty
  exact hnonempty rfl

/-- The interior of an entry lists the properties that move. -/
theorem exists_entryInterior (hname : isEntryName name = true)
    (hmoved : ∀ p ∈ target.moved settings, Markerless p.text ∧ (style.comments ≠ [] → InCodeLines p.text)) :
    ∃ inner, HasInterior (entryFrame name) (NamedStyle.entry settings (style, name)) inner ∧
      outline (withoutComments inner) =
        listing ((target.moved settings).map (·.text)) (((target.moved settings).map (·.text)).map getsComma) := by
  obtain ⟨-, -, hne, -, hcarried⟩ := splits_of_prepare hprepare
  have hproperties := staticProperties_eq hprepare hbare
  have hkeep : settings.keepComments = false → style.comments = [] := by
    intro hkeep
    rw [hcarried, carriedComments, hkeep]
    rfl
  have hcodes : ∀ p ∈ style.staticProperties, Markerless p ∧ (style.comments ≠ [] → InCodeLines p) := by
    rw [hproperties]
    exact List.forall_mem_map.2 hmoved
  have hyields := yields_entryLines (isTaken_of_prepare hprepare) (fun p hp => (hcodes p hp).1) fun hcomments p hp =>
    (hcodes p hp).2 hcomments
  refine ⟨'\n' :: (unlines (entryLines style.comments style.staticProperties) ++ ['\t']), ?_, ?_⟩
  · have hclosing : closingLine = ['\t'] ++ "\x7d,".toList := rfl
    rw [HasInterior, NamedStyle.entry, entryText_eq hname hne hkeep, entryFrame, hclosing]
    simp
  · rw [outline_withoutComments hyields isLine_bareLines ⟨by decide, by decide⟩,
      outlineOf_bareLines ⟨by decide, by decide⟩, hproperties]

end Prepared

/-- The indentation of a target in a text is one. -/
theorem isIndent_make (t : Text) (range object : Span) (kind : TargetKind) :
    IsIndent (StyleTarget.make t range object kind).indent.base := by
  have hmem : ∀ c ∈ indentAt t range.start, isIndentChar c = true := fun c hc => List.mem_takeWhile_imp hc
  refine ⟨List.all_eq_true.2 fun c hc => ?_, fun hm => absurd (hmem _ hm) (by decide)⟩
  have hindent := hmem c hc
  rw [isIndentChar, Bool.or_eq_true, beq_iff_eq, beq_iff_eq] at hindent
  rcases hindent with rfl | rfl <;> decide

/-- **What is written reads back if and only if each property but the last gets a comma.** -/
theorem readsBack_iff {target : StyleTarget} {settings : Settings} {style : PreparedStyle} {registry name : Text}
    (hprepare : prepare target settings = .ok style) (hname : isEntryName name = true)
    (hindent : IsIndent target.indent.base) (hbare : ∀ p ∈ propertiesOf target.bareBody, IsBare p.text)
    (hmoved : ∀ p ∈ target.moved settings, Markerless p.text ∧ (style.comments ≠ [] → InCodeLines p.text))
    (hstaying : ∀ p ∈ target.staying, Markerless p.text ∧ (style.comments ≠ [] → EndsInCode p.text))
    (hentry : ∀ inner, HasInterior (entryFrame name) (NamedStyle.entry settings (style, name)) inner →
      ReadsByCommas (withoutComments inner) (target.moved settings))
    (hobject : ∀ inner,
      HasInterior (objectFrame target registry name) (NamedStyle.use registry (style, name)).replacement inner →
        ReadsByCommas (withoutComments inner) target.staying) :
    ReadsBack target settings registry (style, name) ↔
      Separated ((target.moved settings).map (·.text)) ∧ Separated (target.staying.map (·.text)) := by
  have hsame : (∃ inner, HasInterior (entryFrame name) (NamedStyle.entry settings (style, name)) inner ∧
      ReadsAs (withoutComments inner) (target.moved settings)) ↔ Separated ((target.moved settings).map (·.text)) := by
    obtain ⟨inner, hinner, houtline⟩ := exists_entryInterior hprepare hbare hname hmoved
    rw [← readsAs_iff (moved_ne_nil hprepare hbare) houtline (hentry inner hinner)]
    exact ⟨fun ⟨_, hother, hreads⟩ => hinner.unique hother ▸ hreads, fun hreads => ⟨inner, hinner, hreads⟩⟩
  constructor
  · rintro ⟨hreads, hobjectReads⟩
    refine ⟨hsame.1 hreads, ?_⟩
    by_cases hne : target.staying = []
    · rw [hne]
      rfl
    · obtain ⟨inner, hinner, houtline⟩ := exists_objectInterior hprepare registry hindent hne hstaying
      obtain ⟨other, hother, hreads, -⟩ := hobjectReads hne
      exact (readsAs_iff hne houtline (hobject inner hinner)).1 (hinner.unique hother ▸ hreads)
  · rintro ⟨hseparated, hseparatedObject⟩
    refine ⟨hsame.2 hseparated, fun hne => ?_⟩
    obtain ⟨inner, hinner, houtline⟩ := exists_objectInterior hprepare registry hindent hne hstaying
    have hreads := (readsAs_iff hne houtline (hobject inner hinner)).2 hseparatedObject
    have hdynamic : ∀ p ∈ target.staying, p.kind = .dynamic := fun p hp => by simpa using (List.mem_filter.1 hp).2
    exact ⟨inner, hinner, hreads, fun rest again hrest => prepare_allDynamic again hne hdynamic (hrest ▸ hreads)⟩

/-- A literal and a computed value, and behind them a method that begins with a star, with comments between them. -/
def sharedTarget : StyleTarget where
  range := ⟨0, 0⟩
  kind := .wholeAttribute
  body := "flex: 1, // grow\nwidth: w,\n/* all */\n*all() \x7b yield 1; \x7d".toList
  indent := ⟨[]⟩

/-- What is written for this target reads back. -/
theorem readsBack_sharedTarget : ∃ style, prepare sharedTarget {} = .ok style ∧
    ReadsBack sharedTarget {} "styles".toList (style, "box".toList) := by
  have hwritten : (prepare sharedTarget {}).toOption.map (fun style =>
      (NamedStyle.entry {} (style, "box".toList), (NamedStyle.use "styles".toList (style, "box".toList)).replacement)) =
        some ((entryFrame "box".toList).1 ++ "\n\t\t/* all */\n\t\tflex: 1, // grow\n\t".toList
            ++ (entryFrame "box".toList).2,
          (objectFrame sharedTarget "styles".toList "box".toList).1
            ++ "\n\t\twidth: w,\n\t\t*all() \x7b yield 1; \x7d\n\t".toList
            ++ (objectFrame sharedTarget "styles".toList "box".toList).2) := by
    decide +kernel
  have hmoved : sharedTarget.moved {} = [⟨"flex: 1".toList, .static⟩] := by decide +kernel
  have hstaying : sharedTarget.staying =
      [⟨"width: w".toList, .dynamic⟩, ⟨"*all() \x7b yield 1; \x7d".toList, .dynamic⟩] := by
    decide +kernel
  obtain ⟨style, hstyle, htexts⟩ := Option.map_eq_some_iff.1 hwritten
  obtain ⟨hentry, huse⟩ := Prod.mk.inj htexts
  have hprepare := eq_ok_of_toOption hstyle
  refine ⟨style, hprepare, (readsBack_iff hprepare (by decide) ⟨by decide, by decide⟩ ?_ ?_ ?_ ?_ ?_).2 ?_⟩
  · decide +kernel
  · rw [hmoved]
    exact List.forall_mem_singleton.2 ⟨by decide +kernel, fun _ => by decide +kernel⟩
  · have hends : ∀ p ∈ sharedTarget.staying, Markerless p.text ∧ EndsInCode p.text := by
      rw [hstaying]
      decide +kernel
    exact fun p hp => (hends p hp).imp_right fun h _ => h
  · intro inner hinner
    obtain rfl := hinner.unique hentry
    rw [hmoved]
    refine ⟨fun _ _ _ _ => by decide +kernel, fun commas hlength _ hmissing => ?_⟩
    obtain ⟨a, rfl⟩ := List.length_eq_one_iff.1 hlength
    cases hmissing
  · intro inner hinner
    obtain rfl := hinner.unique huse
    rw [hstaying]
    refine ⟨fun _ _ _ _ => by decide +kernel, fun commas hlength houtline hmissing => ?_⟩
    obtain ⟨a, b, rfl⟩ := List.length_eq_two.1 hlength
    have hcommas : ∀ a b, outline (withoutComments "\n\t\twidth: w,\n\t\t*all() \x7b yield 1; \x7d\n\t".toList) =
        listing ["width: w".toList, "*all() \x7b yield 1; \x7d".toList] [a, b] → a = true := by
      decide +kernel
    rw [hcommas a b houtline] at hmissing
    cases hmissing
  · rw [hmoved, hstaying]
    decide +kernel

/-- A method that begins with a star, before another property that stays. -/
def starTarget : StyleTarget where
  range := ⟨0, 0⟩
  kind := .wholeAttribute
  body := "flex: 1, *gen() \x7b yield 1; \x7d, b: x".toList
  indent := ⟨[]⟩

/-- The method gets no comma. A parser that goes by the commas does not read the object at the place of use. -/
theorem not_readsBack_starTarget : ∃ style inner, prepare starTarget {} = .ok style ∧
    HasInterior (objectFrame starTarget "styles".toList "myStyle1".toList)
      (NamedStyle.use "styles".toList (style, "myStyle1".toList)).replacement inner ∧
    ReadsByCommas (withoutComments inner) starTarget.staying ∧
    ¬ReadsBack starTarget {} "styles".toList (style, "myStyle1".toList) := by
  have hwritten : (prepare starTarget {}).toOption.map
      (fun style => (NamedStyle.use "styles".toList (style, "myStyle1".toList)).replacement) =
        some ((objectFrame starTarget "styles".toList "myStyle1".toList).1
          ++ "\n\t\t*gen() \x7b yield 1; \x7d\n\t\tb: x,\n\t".toList
          ++ (objectFrame starTarget "styles".toList "myStyle1".toList).2) := by
    decide +kernel
  obtain ⟨style, hstyle, huse⟩ := Option.map_eq_some_iff.1 hwritten
  have hstaying : starTarget.staying =
      [⟨"*gen() \x7b yield 1; \x7d".toList, .dynamic⟩, ⟨"b: x".toList, .dynamic⟩] := by
    decide +kernel
  have hnone : propertiesOf (withoutComments "\n\t\t*gen() \x7b yield 1; \x7d\n\t\tb: x,\n\t".toList) = [] := by
    decide +kernel
  refine ⟨style, _, eq_ok_of_toOption hstyle, huse,
    ⟨fun commas hlength houtline hseparated => ?_, fun _ _ _ _ => hnone⟩, fun h => ?_⟩
  · rw [hstaying] at hlength houtline
    obtain ⟨a, b, rfl⟩ := List.length_eq_two.1 hlength
    have hcommas : ∀ a b, outline (withoutComments "\n\t\t*gen() \x7b yield 1; \x7d\n\t\tb: x,\n\t".toList) =
        listing ["*gen() \x7b yield 1; \x7d".toList, "b: x".toList] [a, b] → a = false := by
      decide +kernel
    rw [hcommas a b houtline] at hseparated
    cases hseparated
  · obtain ⟨inner, hinner, hreads, -⟩ := h.object (by rw [hstaying]; simp)
    obtain rfl := hinner.unique huse
    rw [ReadsAs, hnone, hstaying] at hreads
    cases hreads

end StyleHoist
