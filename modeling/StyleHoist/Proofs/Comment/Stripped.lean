import StyleHoist.Extraction
import StyleHoist.Proofs.Registry.Commented
import StyleHoist.Proofs.Registry.NewEntry
import StyleHoist.Proofs.Text.Parts

/-!
# Comments that are taken out

A comment that is taken out of a body is sound (`isTaken_of_mem_stripComments`): what stands behind the marker of a line
comment is part of a line, and a block ends at its first closing marker. What is done to comments afterwards only
changes where they belong, so the comments of a style that is prepared are sound as well (`isTaken_of_prepare`).
-/

namespace StyleHoist

open Text Listing

/-! ## Parts of lines -/

theorem suffix_of_findMarker {quote : Option Char} {t before after : Text} {kind : CommentKind}
    (h : findMarker quote t = .found before kind after) : after <:+ t := by
  have hcons : ∀ {c : Char} {m : MarkerScan} {before : Text}, m.cons c = .found before kind after →
      ∃ before, m = .found before kind after := by
    intro c m before hm
    cases m with
    | clear => cases hm
    | found b k a =>
      cases hm
      exact ⟨b, rfl⟩
  fun_induction findMarker quote t generalizing before with
  | case1 => cases h
  | case2 => cases h
  | case3 q c t ih =>
    obtain ⟨_, h⟩ := hcons h
    obtain ⟨_, h⟩ := hcons h
    exact (ih h).trans ((List.suffix_cons _ _).trans (List.suffix_cons _ _))
  | case4 q c t _ _ ih =>
    obtain ⟨_, h⟩ := hcons h
    exact (ih h).trans (List.suffix_cons _ _)
  | case5 t =>
    cases h
    exact (List.suffix_cons _ _).trans (List.suffix_cons _ _)
  | case6 t =>
    cases h
    exact (List.suffix_cons _ _).trans (List.suffix_cons _ _)
  | case7 c t _ _ ih =>
    obtain ⟨_, h⟩ := hcons h
    exact (ih h).trans (List.suffix_cons _ _)

theorem isLine_of_suffix {s t : Text} (hs : s <:+ t) (ht : IsLine t) : IsLine s :=
  fun hm => ht (hs.subset hm)

/-! ## Closing markers -/

theorem blockClose_ne_nil : blockClose ≠ [] := by decide

theorem blockClose_eq : blockClose = ['*', '/'] := by decide

/-- A closing marker does not reach across a character that is no part of it. -/
theorem not_infix_append_cons {a b : Text} {c : Char} (hstar : c ≠ '*') (hslash : c ≠ '/') (ha : ¬blockClose <:+: a)
    (hb : ¬blockClose <:+: b) : ¬blockClose <:+: a ++ c :: b := by
  rintro ⟨x, y, h⟩
  rw [blockClose_eq, List.append_assoc, List.cons_append, List.singleton_append] at h
  rcases List.append_eq_append_iff.1 h with ⟨s, rfl, hs⟩ | ⟨s, rfl, hs⟩
  · cases s with
    | nil => exact hstar (List.cons.inj hs).1.symm
    | cons d s =>
      obtain ⟨rfl, hs'⟩ := List.cons.inj hs
      cases s with
      | nil => exact hslash (List.cons.inj hs').1.symm
      | cons e s =>
        obtain ⟨rfl, -⟩ := List.cons.inj hs'
        exact ha ⟨x, s, by simp [blockClose_eq]⟩
  · cases s with
    | nil => exact hstar (List.cons.inj hs).1
    | cons d s =>
      obtain ⟨-, rfl⟩ := List.cons.inj hs
      exact hb ⟨s, y, by simp [blockClose_eq]⟩

/-- A closing marker does not span lines. -/
theorem not_infix_append_newline {a b : Text} (ha : ¬blockClose <:+: a) (hb : ¬blockClose <:+: b) :
    ¬blockClose <:+: a ++ '\n' :: b :=
  not_infix_append_cons (by decide) (by decide) ha hb

theorem not_infix_lines {a : Text} (ha : ¬blockClose <:+: a) {ls : List Text} (h : ∀ l ∈ ls, ¬blockClose <:+: l) :
    ¬blockClose <:+: a ++ ls.flatMap ('\n' :: ·) := by
  induction ls generalizing a with
  | nil => simpa using ha
  | cons l ls ih =>
    obtain ⟨hl, hls⟩ := List.forall_mem_cons.1 h
    have hrest := ih (not_infix_append_newline ha hl) hls
    rwa [List.append_assoc] at hrest

theorem not_infix_append_blankChar {a b : Text} {c : Char} (hc : isBlankChar c = true) (ha : ¬blockClose <:+: a)
    (hb : ¬blockClose <:+: b) : ¬blockClose <:+: a ++ c :: b :=
  not_infix_append_cons (ne_of_isBlankChar hc (by decide)) (ne_of_isBlankChar hc (by decide)) ha hb

theorem not_infix_nil : ¬blockClose <:+: [] := by
  simp [blockClose_eq]

/-- A closing marker does not reach into blanks. -/
theorem not_infix_blank_append {t : Text} (ht : ¬blockClose <:+: t) : ∀ {s : Text}, isBlank s = true →
    ¬blockClose <:+: s ++ t
  | [], _ => ht
  | c :: s, h => by
    obtain ⟨hc, hs⟩ := isBlank_cons.1 h
    exact not_infix_append_blankChar hc not_infix_nil (not_infix_blank_append ht hs)

/-- What the lines behind the opening of a block add to it holds no closing marker. -/
theorem text_blockRest : ∀ ls : List Text, (blockRest ls).text = [] ∨
    ∃ s, (blockRest ls).text = '\n' :: s ∧ ¬blockClose <:+: s
  | [] => Or.inl rfl
  | l :: ls => by
    refine Or.inr ?_
    simp only [blockRest]
    split
    · rename_i inner rest hsplit
      exact ⟨inner, rfl, not_infix_of_splitOn? blockClose_ne_nil hsplit⟩
    · rename_i hnone
      have hl : ¬blockClose <:+: l := fun h => by
        have hsome := isSome_splitOn? h
        rw [hnone] at hsome
        cases hsome
      refine ⟨l ++ (blockRest ls).text, rfl, ?_⟩
      rcases text_blockRest ls with hnil | ⟨s, htext, hs⟩
      · rwa [hnil, List.append_nil]
      · rw [htext]
        exact not_infix_append_newline hl hs

/-- A block ends in one of its lines. -/
theorem isLine_closing_blockRest : ∀ {ls : List Text} {closed rest : Text}, (∀ l ∈ ls, IsLine l) →
    (blockRest ls).closing = some (closed, rest) → IsLine rest
  | [], _, _, _, h => by cases h
  | l :: ls, closed, rest, hls, h => by
    simp only [blockRest] at h
    split at h
    · rename_i inner rest' hsplit
      cases h
      have hl := eq_append_of_splitOn? hsplit
      exact isLine_of_suffix ⟨_, hl.symm⟩ (hls l (by simp))
    · exact isLine_closing_blockRest (fun m hm => hls m (List.mem_cons_of_mem _ hm)) h

/-! ## Comments -/

/-- A comment as taking comments out finds it: sound, and trimmed if it is a line comment. -/
structure IsTaken (c : Comment) : Prop where
  sound : IsSound c
  trimmed : c.kind = .line → trim c.text = c.text

/-- Each comment that is found among lines is sound and trimmed. -/
theorem isTaken_of_mem_stripFrom {lines : List Text} (hlines : ∀ l ∈ lines, IsLine l) {c : Comment} :
    ∀ {fuel n : Nat} {done code rest : Text} {inTemplate : Bool}, IsLine rest →
      c ∈ (stripFrom lines fuel n done code rest inTemplate).2 → IsTaken c
  | 0, _, _, _, _, _, _, h => by cases h
  | fuel + 1, n, done, code, rest, inTemplate, hrest, h => by
    simp only [stripFrom] at h
    split at h
    · generalize hnext : lines[n + 1]? = next at h
      cases next with
      | none => cases h
      | some l => exact isTaken_of_mem_stripFrom hlines (hlines l (List.mem_of_getElem? hnext)) h
    · rename_i before after hmarker
      rcases List.mem_cons.1 h with rfl | h
      · have hafter := isLine_of_suffix (suffix_of_findMarker hmarker) hrest
        exact ⟨fun hm => hafter ((infix_trim after).subset hm), fun _ => trim_trim after⟩
      · generalize hnext : lines[n + 1]? = next at h
        cases next with
        | none => cases h
        | some l => exact isTaken_of_mem_stripFrom hlines (hlines l (List.mem_of_getElem? hnext)) h
    · rename_i before after hmarker
      have hafter := isLine_of_suffix (suffix_of_findMarker hmarker) hrest
      split at h
      · rename_i inner rest' hsplit
        rcases List.mem_cons.1 h with rfl | h
        · exact ⟨not_infix_of_splitOn? blockClose_ne_nil hsplit, fun hkind => by cases hkind⟩
        · have hsuffix : rest' <:+ after := ⟨_, (eq_append_of_splitOn? hsplit).symm⟩
          exact isTaken_of_mem_stripFrom hlines (isLine_of_suffix hsuffix hafter) h
      · rename_i hnone
        have hopen : ¬blockClose <:+: after := fun hinfix => by
          have hsome := isSome_splitOn? hinfix
          rw [hnone] at hsome
          cases hsome
        rcases List.mem_cons.1 h with rfl | h
        · refine ⟨?_, fun hkind => by cases hkind⟩
          show ¬blockClose <:+: after ++ (blockRest (lines.drop (n + 1))).text
          rcases text_blockRest (lines.drop (n + 1)) with hnil | ⟨s, htext, hs⟩
          · rwa [hnil, List.append_nil]
          · rw [htext]
            exact not_infix_append_newline hopen hs
        · split at h
          · rename_i closed rest' hclosing
            have hlast := isLine_closing_blockRest (fun l hl => hlines l (List.mem_of_mem_drop hl)) hclosing
            exact isTaken_of_mem_stripFrom hlines hlast h
          · cases h

/-- **A comment that is taken out of a body is sound, and trimmed if it is a line comment.** -/
theorem isTaken_of_mem_stripComments {body : Text} {c : Comment} (h : c ∈ (stripComments body).comments) :
    IsTaken c := by
  simp only [stripComments] at h
  refine isTaken_of_mem_stripFrom (fun l hl => isLine_of_mem_splitLines hl) ?_ h
  obtain ⟨l, ls, hls⟩ := List.exists_cons_of_ne_nil (splitLines_ne_nil body)
  rw [hls]
  exact isLine_of_mem_splitLines (t := body) (by simp [hls])

theorem isTaken_settle {names : List Text} {c : Comment} (h : IsTaken c) : IsTaken (c.settle names) := by
  unfold Comment.settle
  split
  · split
    · exact h
    · exact ⟨h.sound, h.trimmed⟩
  · exact h

/-- A style is made of the properties and the comments of the body of a target. -/
structure PreparedStyle.Splits (style : PreparedStyle) (target : StyleTarget) (settings : Settings)
    (properties : List Property) : Prop where
  of : style.target = target
  moved : style.staticProperties = formatStatic settings.sortProperties (staticTexts properties)
  nonempty : style.staticProperties ≠ []
  rest : style.remaining = restoreInline (dynamicTexts properties) style.comments
  carried : style.comments = carriedComments settings properties (stripComments target.body).comments

theorem splits_of_prepare {target : StyleTarget} {settings : Settings} {style : PreparedStyle}
    (h : prepare target settings = .ok style) :
    style.Splits target settings (propertiesOf (trim (stripComments target.body).cleaned)) := by
  simp only [prepare] at h
  split at h
  · cases h
  · generalize propertiesOf (trim (stripComments target.body).cleaned) = properties at h ⊢
    split at h
    · cases h
    · split at h
      · cases h
      · rename_i hmoved
        rw [List.isEmpty_iff] at hmoved
        obtain rfl := Except.ok.inj h
        exact ⟨rfl, rfl, hmoved, rfl, rfl⟩

/-- The comments of a style that is prepared are as they were taken out. -/
theorem isTaken_of_prepare {target : StyleTarget} {settings : Settings} {style : PreparedStyle}
    (h : prepare target settings = .ok style) : ∀ c ∈ style.comments, IsTaken c := by
  intro c hc
  rw [(splits_of_prepare h).carried, carriedComments] at hc
  split at hc
  · obtain ⟨d, hd, rfl⟩ := List.mem_map.1 hc
    exact isTaken_settle (isTaken_of_mem_stripComments hd)
  · cases hc

/-- An entry with the properties and the comments of a style that is prepared. -/
def PreparedStyle.newEntry (style : PreparedStyle) (name : Text) (settings : Settings) : NewEntry where
  name
  properties := style.staticProperties
  comments := style.comments
  keepComments := settings.keepComments

/-- The entry of a prepared style is sound if its name and its properties are. -/
theorem sound_newEntry {target : StyleTarget} {settings : Settings} {style : PreparedStyle} {name : Text}
    (h : prepare target settings = .ok style) (hname : isEntryName name = true)
    (hproperties : ∀ p ∈ style.staticProperties, Fits style.comments p) : (style.newEntry name settings).Sound :=
  ⟨hname, hproperties, fun c hc => (isTaken_of_prepare h c hc).sound⟩

end StyleHoist
