import StyleHoist.Proofs.Comment.Belonging
import StyleHoist.Proofs.Extraction.Comments

/-!
# Comments within properties

A comment that stands within the text of a property need not stay with it: the lines around it tell where it belongs,
and names are all that is compared. It leaves the property exactly if the line that decides begins with the name of
another one (`goesByLines_within`), be it a key that is nested in the very value in which the comment stands
(`not_staysWithin_nestedKey`). It stays with its property if its line begins with that property, as soon as the key
stands before it there.

- `leadingKey?_beginning`: the beginning of a property has its key as soon as it is long enough.
- `beginning_of_occurrence`: the code before a comment on its line is found again in the body without comments.
-/

namespace StyleHoist

open Text Listing

/-! ## Beginnings of properties -/

theorem colon_not_mem {name gap : Text} (hword : name.all isWordChar = true) (hblank : isBlank gap = true) :
    ':' ∉ name ++ gap := fun hm => by
  rcases List.mem_append.1 hm with hm | hm
  · exact absurd (List.all_eq_true.1 hword _ hm) (by decide)
  · exact absurd (List.all_eq_true.1 hblank _ hm) (by decide)

theorem leadingKey?_eq_none {t : Text} (h : ':' ∉ t) : leadingKey? t = none := by
  refine Option.eq_none_iff_forall_ne_some.2 fun name hname => h ?_
  obtain ⟨gap, rest, rfl, -⟩ := eq_of_leadingKey? hname
  simp

theorem solid_of_word {name : Text} (h : name.all isWordChar = true) : Lexer.solid name = name := by
  refine List.filter_eq_self.2 fun c hc => ?_
  cases hblank : isBlankChar c with
  | false => rfl
  | true => exact absurd (List.all_eq_true.1 h c hc) (by simp [isWordChar_of_isBlankChar hblank])

/-- The beginning of a text with a key has the key once it holds a character more than the name. -/
theorem leadingKey?_start {t name u : Text} (h : leadingKey? t = some name) (hu : u <+: t) :
    leadingKey? u = if name.length < (Lexer.solid u).length then some name else none := by
  obtain ⟨gap, rest, rfl, hne, hword, hblank⟩ := eq_of_leadingKey? h
  have hsolid : Lexer.solid (name ++ gap) = name := by
    rw [Lexer.solid_append, solid_of_word hword, Lexer.solid_of_isBlank hblank, List.append_nil]
  have hshort : u <+: name ++ gap → leadingKey? u =
      if name.length < (Lexer.solid u).length then some name else none := by
    intro hbegin
    have hlength : (Lexer.solid u).length ≤ name.length := by
      conv => rhs; rw [← hsolid]
      exact (hbegin.filter _).length_le
    rw [if_neg (by omega), leadingKey?_eq_none fun hm => colon_not_mem hword hblank (hbegin.subset hm)]
  obtain ⟨behind, hbehind⟩ := hu
  rw [← List.append_assoc] at hbehind
  rcases List.append_eq_append_iff.1 hbehind with ⟨more, hmore, -⟩ | ⟨more, rfl, hmore⟩
  · exact hshort ⟨more, hmore.symm⟩
  · cases more with
    | nil => exact hshort (by simp)
    | cons c more =>
      obtain rfl : ':' = c := (List.cons.inj hmore).1
      have hlong : name.length < (Lexer.solid (name ++ gap ++ ':' :: more)).length := by
        have hcolon : Lexer.solid (':' :: more) = ':' :: Lexer.solid more := rfl
        rw [Lexer.solid_append, hsolid, hcolon, List.length_append, List.length_cons]
        omega
      rw [if_pos hlong]
      exact leadingKey?_iff.2 ⟨gap, more, List.append_assoc .., hne, hword, hblank⟩

/-- A line at the beginning of a text stands on its first line. -/
theorem prefix_of_isLine {u l tail : Text} (hu : IsLine u) (htail : Lexer.AtBreak tail) (h : u <+: l ++ tail) :
    u <+: l := by
  obtain ⟨behind, hbehind⟩ := h
  rcases List.append_eq_append_iff.1 hbehind with ⟨more, hmore, -⟩ | ⟨more, rfl, hmore⟩
  · exact ⟨more, hmore.symm⟩
  · cases more with
    | nil => simp
    | cons c more =>
      rcases htail with rfl | ⟨v, rfl⟩
      · cases hmore
      · obtain rfl : '\n' = c := (List.cons.inj hmore).1
        exact absurd (List.mem_append_right _ List.mem_cons_self) hu

theorem leadingKey?_append {t name : Text} (h : leadingKey? t = some name) (rest : Text) :
    leadingKey? (t ++ rest) = some name := by
  obtain ⟨gap, more, rfl, hne, hword, hblank⟩ := eq_of_leadingKey? h
  exact leadingKey?_iff.2 ⟨gap, more ++ rest, by simp, hne, hword, hblank⟩

/-- What stands on the first line of a property has its key once it is long enough. -/
theorem leadingKey?_beginning {t name u : Text} (h : leadingKey? (dedent t) = some name) (hu : IsLine u) {rest : Text}
    (hbegin : u <+: t ++ rest) : leadingKey? u = if name.length < (Lexer.solid u).length then some name else none := by
  obtain ⟨l, ls, hlines⟩ := List.exists_cons_of_ne_nil (splitLines_ne_nil t)
  have ht : t = l ++ ls.flatMap ('\n' :: ·) := by rw [← joinLines_splitLines t, hlines, joinLines_eq_flatMap]
  cases ls with
  | nil =>
    obtain rfl : t = l := by simpa using ht
    rw [dedent_of_no_newline hlines] at h
    exact leadingKey?_start (leadingKey?_append h rest) hbegin
  | cons k ls =>
    rw [ht, List.append_assoc] at hbegin
    have hfirst : u <+: l := prefix_of_isLine hu (Or.inr ⟨_, rfl⟩) hbegin
    have hdedent : dedent t = l ++ ((k :: ls).map (dropIndent (commonIndent (k :: ls)))).flatMap ('\n' :: ·) := by
      rw [← joinLines_eq_flatMap, dedent, hlines]
    exact leadingKey?_start h (hdedent ▸ hfirst.trans (List.prefix_append ..))

/-- A text with a key begins with a character of its name. -/
theorem head?_of_leadingKey? {t name : Text} (h : leadingKey? t = some name) :
    ∃ c, t.head? = some c ∧ isBlankChar c = false := by
  obtain ⟨gap, rest, rfl, hne, hword, -⟩ := eq_of_leadingKey? h
  obtain ⟨c, cs, rfl⟩ := List.exists_cons_of_ne_nil hne
  refine ⟨c, rfl, ?_⟩
  cases hblank : isBlankChar c with
  | false => rfl
  | true => simp [isWordChar_of_isBlankChar hblank] at hword

theorem head?_dedent (t : Text) : (dedent t).head? = t.head? := by
  obtain ⟨l, ls, hlines⟩ := List.exists_cons_of_ne_nil (splitLines_ne_nil t)
  have hjoin : ∀ ks : List Text, (joinLines (l :: ks)).head? = (l.head?.or (ks.head?.map fun _ => '\n')) := by
    intro ks
    rw [joinLines_eq_flatMap, List.head?_append]
    cases ks <;> rfl
  conv => rhs; rw [← joinLines_splitLines t, hlines, hjoin]
  rw [dedent, hlines, hjoin]
  cases ls <;> rfl

/-! ## Places in a body -/

namespace Lexer

theorem solid_unlines (ls : List Text) : solid (unlines ls) = solid ls.flatten := by
  by_cases hnil : ls = []
  · rw [hnil]
    rfl
  · have hnewline : solid ['\n'] = [] := by decide
    rw [unlines_eq hnil, solid_append, solid_joinLines, hnewline, List.append_nil]

/-- A line of an outline stands in the text behind what the lines before it hold. -/
theorem exists_append_of_outline {t l : Text} {before behind : List Text} (h : outline t = before ++ l :: behind) :
    ∃ a r, t = a ++ (l ++ r) ∧ solid a = solid before.flatten := by
  rw [outline, outlineOf] at h
  obtain ⟨_, _, hsplit, hbefore, hbehind⟩ := List.filter_eq_append_iff.1 h
  obtain ⟨blanks, _, rfl, hblanks, -, -⟩ := List.filter_eq_cons_iff.1 hbehind
  obtain ⟨ks, _, hlines, rfl, hrest⟩ := List.map_eq_append_iff.1 hsplit
  obtain ⟨js, _, rfl, hjs, hcons⟩ := List.map_eq_append_iff.1 hrest
  obtain ⟨k, ms, rfl, rfl, -⟩ := List.map_eq_cons_iff.1 hcons
  obtain ⟨a, b, hk, ha, -⟩ := blank_append_trim k
  have hjs : solid js.flatten = [] := by
    rw [← solid_outlineOf, outlineOf, hjs, List.filter_eq_nil_iff.2 hblanks]
    rfl
  refine ⟨unlines (ks ++ js) ++ a, b ++ ms.flatMap ('\n' :: ·), ?_, ?_⟩
  · rw [← joinLines_splitLines t, hlines, ← List.append_assoc, joinLines_append (List.cons_ne_nil k ms),
      joinLines_eq_flatMap]
    conv => lhs; rw [hk]
    simp
  · rw [solid_append, solid_of_isBlank ha, solid_unlines, List.flatten_append, solid_append, hjs, ← hbefore,
      ← outlineOf, solid_outlineOf, List.append_nil, List.append_nil]

/-- Places in a text are told apart by how many characters stand before them, white space aside. -/
theorem append_inj_of_solid {a a' r r' : Text} (h : a ++ r = a' ++ r') (hcount : (solid a).length = (solid a').length)
    (hr : ∀ c, r.head? = some c → isBlankChar c = false) (hr' : ∀ c, r'.head? = some c → isBlankChar c = false) :
    r = r' := by
  have hnil : ∀ {b s t : Text}, (solid b).length = (solid (b ++ s)).length →
      (∀ c, (s ++ t).head? = some c → isBlankChar c = false) → s = [] := by
    intro b s t hcount hhead
    cases s with
    | nil => rfl
    | cons c s =>
      have hc : isBlankChar c = false := hhead c rfl
      have hsolid : solid (c :: s) = c :: solid s := by simp [solid, hc]
      rw [solid_append, hsolid, List.length_append, List.length_cons] at hcount
      omega
  rcases List.append_eq_append_iff.1 h with ⟨s, rfl, rfl⟩ | ⟨s, rfl, rfl⟩
  · rw [hnil hcount hr, List.nil_append]
  · rw [hnil hcount.symm hr', List.nil_append]

/-- The code before a comment on its line is found again in the body without comments, where as many characters stand
before it. -/
theorem beginning_of_occurrence {body : Text} {o : Occurrence} (hmem : o ∈ occurrences body) {before rest : Text}
    (hbody : trim (stripComments body).cleaned = before ++ rest)
    (hrest : ∀ c, rest.head? = some c → isBlankChar c = false)
    (hplace : (solid before).length + (solid o.code).length = (solid o.before).length) : trim o.code <+: rest := by
  by_cases hblank : trim o.code = []
  · rw [hblank]
    exact List.nil_prefix
  obtain ⟨m, ms, hms⟩ := List.exists_cons_of_ne_nil
    (splitLines_ne_nil (List.replicate (o.seen.text.count '\n') '\n' ++ o.behind))
  have hcode : trim (o.code ++ m) ≠ [] := fun hnil =>
    hblank (List.prefix_nil.1 (hnil ▸ trim_prefix_trim_append o.code m))
  have houtline : outline (before ++ rest) =
      outlineOf (splitLines o.before).dropLast ++ trim (o.code ++ m) :: outlineOf ms := by
    rw [← hbody, outline_trim, outline_stripComments, codeLines_eq hmem,
      splitLines_append hms (splitLines_eq_concat o.before), outlineOf_append]
    exact congrArg _ (outlineOf_cons_of_ne_nil hcode ms)
  obtain ⟨a, r, heq, ha⟩ := exists_append_of_outline houtline
  have hbefore : solid o.before = solid (splitLines o.before).dropLast.flatten ++ solid o.code := by
    conv => lhs; rw [← joinLines_splitLines o.before, solid_joinLines, splitLines_eq_concat, List.flatten_append,
      solid_append]
    simp [Occurrence.code]
  have hcount : (solid before).length = (solid a).length := by
    rw [ha, solid_outlineOf]
    rw [hbefore, List.length_append] at hplace
    omega
  have hhead : ∀ c, (trim (o.code ++ m) ++ r).head? = some c → isBlankChar c = false := by
    intro c hc
    obtain ⟨d, v, htrim⟩ := List.exists_cons_of_ne_nil hcode
    have hd : d = c := by simpa [htrim] using hc
    exact ends_trim.1 (show (trim (o.code ++ m)).head? = some c by rw [htrim, ← hd]; rfl)
  rw [append_inj_of_solid heq hcount hrest hhead]
  exact (trim_prefix_trim_append o.code m).trans (List.prefix_append ..)

end Lexer

/-! ## Comments and the properties around them -/

/-- A node of a body, with its text, what stands before it and what stands behind it. A body is read behind two
brackets. -/
structure StandsIn (body : Text) (n : Script.Node) (before text behind : Text) : Prop where
  body : body = before ++ (text ++ behind)
  start : n.span.start = 2 + size before
  stop : n.span.stop = 2 + size (before ++ text)

theorem wrapped_of_read {body : Text} {b : StyleBody} (h : StyleBody.read body = .ok b) :
    b.wrapped = wrapBody body := by
  unfold StyleBody.read at h
  simp only at h
  split at h
  · cases h
  · cases h
  · split at h
    · obtain rfl := Except.ok.inj h
      rfl
    · cases h

theorem StandsIn.slice {body before text behind : Text} {n : Script.Node} (h : StandsIn body n before text behind)
    {b : StyleBody} (hread : StyleBody.read body = .ok b) : b.slice n.span = text := by
  have hopen : size "(\x7b".toList = 2 := by decide
  have hwrapped : b.wrapped = ("(\x7b".toList ++ before) ++ (text ++ (behind ++ "\x7d)".toList)) := by
    rw [wrapped_of_read hread, wrapBody, h.body]
    simp
  have hstart : n.span.start = size ("(\x7b".toList ++ before) := by rw [h.start, size_append, hopen]
  have hlength : n.span.stop - n.span.start = size text := by
    rw [h.stop, h.start, size_append]
    omega
  have hle : n.span.start ≤ n.span.stop := by
    rw [h.stop, h.start, size_append]
    omega
  rw [StyleBody.slice, Text.slice?, if_pos hle, hlength, hwrapped, hstart, splitAt?_size]
  simp [splitAt?_size]

namespace Lexer

/-- A comment stands within a text: there are characters of the text before it and behind it, white space aside. -/
structure Occurrence.IsWithin (o : Occurrence) (before text : Text) : Prop where
  start : (solid before).length < (solid o.before).length
  stop : (solid o.before).length < (solid (before ++ text)).length

/-- The line of a comment begins with what stands behind this text. -/
def Occurrence.IsOnLineBehind (o : Occurrence) (before : Text) : Prop :=
  (solid before).length + (solid o.code).length = (solid o.before).length

end Lexer

/-- What holds of each comment within a property of a target that is prepared, when comments are kept. It is about the
body, the property, what stands before the property, the comment, and the code around the comment. -/
def EachWithin (target : StyleTarget) (settings : Settings)
    (holds : StyleBody → Script.Node → Text → Comment → Lexer.Occurrence → Prop) : Prop :=
  ∀ style b, prepare target settings = .ok style → StyleBody.read target.bareBody = .ok b →
    ∀ n ∈ b.properties, ∀ before text behind, StandsIn target.bareBody n before text behind →
      List.Forall₂ (fun c o => o.IsWithin before text → holds b n before c o) style.comments
        (Lexer.occurrences target.body)

/-- A comment stays with a property or belongs to none. -/
def Comment.StaysAt (c : Comment) (b : StyleBody) (n : Script.Node) : Prop :=
  c.isOrphan = true ∨ c.property = leadingKey? (b.property n).text

/-- Where a comment goes that stands within a property. -/
structure GoesByLines (target : StyleTarget) (b : StyleBody) (n : Script.Node) (before : Text) (c : Comment)
    (o : Lexer.Occurrence) : Prop where
  /-- It stays exactly if the line that decides does not begin with the name of another property. -/
  stays : c.StaysAt b n ↔ ∀ name placement, o.Ties (splitLines target.body) name placement →
    name ∈ propertyNames (propertiesOf target.bareBody) → leadingKey? (b.property n).text = some name
  /-- It belongs to the property with whose name that line begins. -/
  attached : ∀ name, c.property = some name ↔
    name ∈ propertyNames (propertiesOf target.bareBody) ∧ o.Ties (splitLines target.body) name c.placement
  /-- On a line that begins with its property it belongs to this one, if the key stands before it. -/
  along : ∀ name, leadingKey? (b.property n).text = some name → o.IsOnLineBehind before →
    if name.length < (Lexer.solid o.code).length then c.property = some name ∧ c.placement = .sameLine
    else c.placement ≠ .sameLine

section Within

variable {target : StyleTarget} {settings : Settings} {b : StyleBody} {n : Script.Node} {before text behind : Text}
  {o : Lexer.Occurrence}

theorem Lexer.tieBy_of_key {key? : List Text → Option Text} {code name : Text} {below above : List Text} {b : Bool}
    (h : leadingKey? (trim code) = some name) : tieBy key? code below above b = (some name, .sameLine) := by
  rw [tieBy, h]

theorem Lexer.placement_tieBy {code : Text} (h : leadingKey? (trim code) = none) (key? : List Text → Option Text)
    (below above : List Text) (b : Bool) : (tieBy key? code below above b).2 ≠ .sameLine := by
  rw [tieBy, h]
  cases key? below with
  | some name => simp
  | none => cases b <;> cases key? above <;> simp

theorem eq_of_settled {names : List Text} {c : Comment} {name : Text} (h : c.property = some name)
    (hmem : name ∈ names) : c.settle names = c := by
  simp [Comment.settle, h, hmem]

/-- On a line that begins with a property, the code before a comment has the key of the property once it is long
enough. -/
theorem leadingKey?_code (hread : StyleBody.read target.bareBody = .ok b)
    (hplace : StandsIn target.bareBody n before text behind) (hmem : o ∈ Lexer.occurrences target.body) {name : Text}
    (hname : leadingKey? (b.property n).text = some name) (hline : o.IsOnLineBehind before) :
    leadingKey? (trim o.code) = if name.length < (Lexer.solid o.code).length then some name else none := by
  have hkey : leadingKey? (dedent text) = some name := hplace.slice hread ▸ hname
  obtain ⟨d, htext, hd⟩ := head?_of_leadingKey? hkey
  have hhead : ∀ c, (text ++ behind).head? = some c → isBlankChar c = false := by
    intro c hc
    rw [List.head?_append, ← head?_dedent, htext] at hc
    obtain rfl := Option.some.inj hc
    exact hd
  have hbegin : trim o.code <+: text ++ behind := Lexer.beginning_of_occurrence hmem hplace.body hhead hline
  have hcode : IsLine (trim o.code) := fun hm => isLine_lastLine o.before ((infix_trim o.code).subset hm)
  rw [leadingKey?_beginning hkey hcode hbegin, Lexer.solid_trim]

/-- A comment is settled with a name exactly if it was tied to it and the name is among those there are. -/
theorem property_settle_eq_some_iff {names : List Text} {c : Comment} {name : Text} :
    (c.settle names).property = some name ↔ name ∈ names ∧ c.property = some name := by
  constructor
  · intro h
    rcases settle_cases names c with horphan | ⟨heq, key, hkey, hproperty⟩
    · simp [Comment.isOrphan, h] at horphan
    · rw [heq] at h
      obtain rfl : key = name := Option.some.inj (hproperty.symm.trans h)
      exact ⟨hkey, h⟩
  · rintro ⟨hmem, hproperty⟩
    rw [eq_of_settled hproperty hmem, hproperty]

/-- Settling moves no comment onto the line of a property. -/
theorem placement_of_settle {names : List Text} {c : Comment} (h : (c.settle names).placement = .sameLine) :
    c.placement = .sameLine := by
  unfold Comment.settle at h
  split at h
  · split at h
    · exact h
    · simp [Comment.orphan] at h
  · exact h

theorem staysAt_iff {c : Comment} : c.StaysAt b n ↔
    ∀ name, c.property = some name → leadingKey? (b.property n).text = some name := by
  rw [Comment.StaysAt, Comment.isOrphan]
  cases c.property with
  | none => simp
  | some name => simp [eq_comm]

/-- **A comment within a property goes where the lines around it tell.** -/
theorem goesByLines_within (hkeep : settings.keepComments = true) :
    EachWithin target settings fun b n before c o => GoesByLines target b n before c o := by
  intro style b hprepare hread n hn before text behind hplace
  have hcarried : style.comments =
      carriedComments settings (propertiesOf target.bareBody) (stripComments target.body).comments :=
    (splits_of_prepare hprepare).carried
  have hmeets := List.forall₂_iff_zip.1 (meets_stripComments target.body)
  rw [hcarried, carriedComments, if_pos hkeep, List.forall₂_map_left_iff, List.forall₂_iff_zip]
  refine ⟨hmeets.1, fun {c o} hco _ => ?_⟩
  obtain ⟨-, htied⟩ := hmeets.2 hco
  have hties : ∀ name placement,
      o.Ties (splitLines target.body) name placement ↔ c.property = some name ∧ c.placement = placement := by
    intro name placement
    rw [← Lexer.tiedIn_eq_some_iff, ← htied, Lexer.tieOf, Prod.mk.injEq]
  refine ⟨?_, fun name => ?_, fun name hname hline => ?_⟩
  · simp only [staysAt_iff, property_settle_eq_some_iff, hties]
    constructor
    · exact fun h name _ htie hmem => h name ⟨hmem, htie.1⟩
    · exact fun h name hsettled => h name _ ⟨hsettled.2, rfl⟩ hsettled.1
  · rw [property_settle_eq_some_iff, hties]
    refine and_congr_right fun hmem => ⟨fun h => ⟨h, ?_⟩, And.left⟩
    rw [eq_of_settled h hmem]
  · have hkey := leadingKey?_code hread hplace (List.of_mem_zip hco).2 hname hline
    split at hkey
    · rename_i hlong
      obtain ⟨hproperty, hplacement⟩ := Prod.mk.inj (htied.trans (Lexer.tieBy_of_key hkey))
      have hnames : name ∈ propertyNames (propertiesOf target.bareBody) :=
        List.mem_filterMap.2 ⟨b.property n, by rw [propertiesOf_of_read hread]; exact List.mem_map_of_mem hn, hname⟩
      rw [if_pos hlong, eq_of_settled hproperty hnames]
      exact ⟨hproperty, hplacement⟩
    · rename_i hshort
      have hplacement : c.placement ≠ .sameLine := fun h =>
        Lexer.placement_tieBy hkey _ _ _ _ ((congrArg Prod.snd htied).symm.trans h)
      rw [if_neg hshort]
      exact fun hsettled => hplacement (placement_of_settle hsettled)

end Within

/-- A property that stays, with comments behind its key, above a nested key and behind one. -/
def ledTarget : StyleTarget where
  range := ⟨0, 0⟩
  kind := .wholeAttribute
  body := "color: 'red',\nopacity: fade(/* how */ \x7b\n\t// range\n\tinput: 1, /* half */\n\x7d)".toList
  indent := ⟨[]⟩

/-- The statement for this target. -/
theorem goesByLines_ledTarget : (prepare ledTarget {}).toOption.map (·.comments.map (·.property)) =
      some [some "opacity".toList, none, none] ∧
    EachWithin ledTarget {} fun b n before c o => GoesByLines ledTarget b n before c o :=
  ⟨by decide +kernel, goesByLines_within rfl⟩

/-- A property with a comment above a nested key that has the name of another property. -/
def nestedTarget : StyleTarget where
  range := ⟨0, 0⟩
  kind := .wholeAttribute
  body := "width: 1,\ncolor: 'red',\nopacity: f(\x7b\n// c\ncolor: 1\n\x7d)".toList
  indent := ⟨[]⟩

/-- The comment goes to the other property. -/
theorem not_staysWithin_nestedKey : ¬EachWithin nestedTarget {} fun b n _ c _ => c.StaysAt b n := by
  intro h
  have hnodes : (StyleBody.read nestedTarget.bareBody).toOption.map
      (fun b => b.properties.map fun n => (n.span, leadingKey? (b.property n).text)) =
      some [(⟨2, 10⟩, some "width".toList), (⟨12, 24⟩, some "color".toList), (⟨26, 50⟩, some "opacity".toList)] := by
    decide +kernel
  have hproperties : (prepare nestedTarget {}).toOption.map (·.comments.map (·.property)) =
      some [some "color".toList] := by
    decide +kernel
  have hcounts : (Lexer.occurrences nestedTarget.body).map (fun o => (Lexer.solid o.before).length) = [31] := by
    decide +kernel
  obtain ⟨b, hread, hnodes⟩ := Option.map_eq_some_iff.1 hnodes
  obtain ⟨style, hprepare, hproperties⟩ := Option.map_eq_some_iff.1 hproperties
  obtain ⟨n, hn, hnode⟩ := List.mem_map.1
    (hnodes ▸ List.mem_cons_of_mem _ (List.mem_cons_of_mem _ (List.mem_singleton_self _)))
  obtain ⟨hspan, hname⟩ := Prod.mk.inj hnode
  obtain ⟨c, hc, hproperty⟩ := List.map_eq_singleton_iff.1 hproperties
  obtain ⟨o, ho, hcount⟩ := List.map_eq_singleton_iff.1 hcounts
  have hall := h style b (eq_ok_of_toOption hprepare) (eq_ok_of_toOption hread) n hn "width: 1,\ncolor: 'red',\n".toList
    "opacity: f(\x7b\ncolor: 1\n\x7d)".toList [] ⟨by decide +kernel, by rw [hspan]; decide, by rw [hspan]; decide⟩
  rw [hc, ho, List.forall₂_cons] at hall
  have hstays := hall.1 ⟨by rw [hcount]; decide, by rw [hcount]; decide⟩
  have hkey := staysAt_iff.1 hstays _ hproperty
  rw [hname] at hkey
  exact absurd hkey (by decide)

end StyleHoist
