import StyleHoist.Proofs.Registry.Appending
import StyleHoist.Proofs.Registry.Commented
import StyleHoist.Proofs.Registry.Names
import StyleHoist.Registry.Entry

/-!
# New entries

An entry that is built for a registry is read as one entry with its comma (`isEntry_entryText`). Its properties are laid
out line by line, each with a comma behind its last line (`closed_propertyText`), and its comments are put around them
(`codeLines_propertyText`).
-/

namespace StyleHoist

open Text Listing

namespace Listing

/-! ## Properties -/

/-- The text of a property that can stand in an entry: all its brackets are closed, and it does not begin as a comment
does. -/
structure IsPropertyText (code : Text) : Prop where
  closed : Closed code
  notComment : isCommentLine code = false

theorem appendToLast_concat (ending : Text) : ∀ (ls : List Text) (l : Text),
    appendToLast ending (ls ++ [l]) = ls ++ [l ++ ending]
  | [], l => rfl
  | k :: ls, l => by
    obtain ⟨m, ms, hms⟩ := List.exists_cons_of_ne_nil (show ls ++ [l] ≠ [] by simp)
    have ih := appendToLast_concat ending ls l
    rw [List.cons_append, hms] at *
    rw [hms] at ih
    simp [appendToLast, ih]

/-- A property takes its lines with a comma behind the last. -/
theorem propertyText_eq {indent code : Text} (h : isCommentLine code = false) :
    propertyText indent code none = joinLines (appendToLast [','] (layout indent (splitLines code))) := by
  have hjoin := joinLines_splitLines code
  simp only [propertyText, propertyText.ending]
  split
  · rename_i line hline
    have hcode : line = code := by simpa [hline, joinLines, joinWith] using hjoin
    rw [hcode, h, hline, hcode]
    rfl
  · rfl

/-- The last line of a property leads to code, up to a slash, before its comma. -/
theorem read_lastLine {p q : Place} {indent last : Text} (hp : p.AtLine) (hbare : q.bare = p.bare)
    (hblank : isBlank indent = true) (hindent : IsLine indent) (hlast : IsLine last) (h : (p.read last).1 = start) :
    (q.read (trimEnd (indent ++ last))).1 = start ∨ (q.read (trimEnd (indent ++ last))).1 = ⟨.slash, []⟩ := by
  have hread : (q.read (indent ++ last)).1 = start := by
    refine eq_of_bare_code (show _ = (⟨.code, []⟩ : Place) from ?_)
    have hstart := (read_indent (atLine_of_bare hbare.symm hp) hblank).trans hbare
    rw [read_append_fst, read_congr hstart, h]
    rfl
  obtain ⟨margin, heq, hmargin⟩ := trimEnd_append_blank (indent ++ last)
  have hline : IsLine margin := by
    intro hm
    rcases List.mem_append.1 (heq ▸ List.mem_append_right _ hm : '\n' ∈ indent ++ last) with hm | hm
    · exact hindent hm
    · exact hlast hm
  rw [heq, read_append_fst] at hread
  rcases cases_of_read_blank hmargin hread with hp | ⟨hp, -⟩ | ⟨text, before, after, -, hnewline, -⟩
  · exact Or.inl hp
  · exact Or.inr hp
  · exact absurd (by simp [hnewline]) hline

/-- The lines of a property in an entry: those before the last, and the last with the comma. -/
theorem propertyText_lines (indent : Text) {code : Text} (h : isCommentLine code = false) : ∃ ls last,
    splitLines code = ls ++ [last] ∧ propertyText indent code none =
      unlines (layout indent ls) ++ (trimEnd (indent ++ last) ++ [',']) := by
  refine ⟨_, _, (List.dropLast_concat_getLast (splitLines_ne_nil code)).symm, ?_⟩
  rw [propertyText_eq h]
  conv => lhs; rw [← List.dropLast_concat_getLast (splitLines_ne_nil code)]
  rw [layout, List.map_append, List.map_cons, List.map_nil, appendToLast_concat, joinLines_concat]
  rfl

theorem atLine_read_unlines : ∀ (ls : List Text) {p : Place}, p.AtLine → (p.read (unlines ls)).1.AtLine
  | [], _, h => h
  | l :: ls, p, _ => by
    rw [unlines_cons, read_append_fst]
    exact atLine_read_unlines ls (atLine_read_newline p l)

/-- A property as it stands in an entry has all its brackets closed. -/
theorem closed_propertyText {indent code : Text} (hblank : isBlank indent = true) (hindent : IsLine indent)
    (h : IsPropertyText code) : Closed (propertyText indent code none) := by
  obtain ⟨ls, last, hlines, htext⟩ := propertyText_lines indent h.notComment
  have hmem : ∀ l ∈ ls ++ [last], IsLine l := fun l hl => isLine_of_mem_splitLines (hlines ▸ hl)
  have hcode : code = unlines ls ++ last := by
    rw [← joinLines_concat, ← hlines, joinLines_splitLines]
  have hclosed : ((start.read (unlines ls)).1.read last).1 = start := by
    rw [← read_append_fst, ← hcode]
    exact h.closed
  have hlayout := read_layout (p := start) hblank hindent trivial fun l hl => hmem l (List.mem_append_left _ hl)
  have hend := read_lastLine (atLine_read_unlines ls (p := start) trivial) hlayout hblank hindent
    (hmem last (by simp)) hclosed
  rw [Closed, htext, read_append_fst, read_append_fst]
  rcases hend with hend | hend <;> rw [hend] <;> rfl

theorem closed_joinLines : ∀ {ts : List Text}, (∀ t ∈ ts, Closed t) → Closed (joinLines ts)
  | [], _ => rfl
  | [t], h => h t (by simp)
  | t :: u :: ts, h => by
    rw [joinLines_cons (by simp)]
    exact (h t (by simp)).append
      (closed_newline.append (closed_joinLines fun v hv => h v (List.mem_cons_of_mem _ hv)))

/-! ## The frame of an entry -/

/-- Whether `c` in code is nothing but code to a reader. -/
def isPlain (c : Char) : Bool :=
  c != '/' && !opensQuote c && !closes c && c != ',' && (closer? c).isNone

theorem read_plain (due : List Char) : ∀ {t : Text}, t.all isPlain = true →
    Place.read ⟨.code, due⟩ t = (⟨.code, due⟩, t.map .code)
  | [], _ => rfl
  | c :: t, h => by
    obtain ⟨hc, ht⟩ : isPlain c = true ∧ t.all isPlain = true := by simpa using h
    have hstep : codeStep due c = (⟨.code, due⟩, [.code c]) := by
      simp only [isPlain, Bool.and_eq_true, bne_iff_ne, Bool.not_eq_true', Option.isNone_iff_eq_none] at hc
      simp [codeStep, hc]
    simp only [read_cons, Place.step, hstep, read_plain due ht, List.map_cons, List.singleton_append]

/-- The name of an entry has no other characters than letters, digits and underscores. -/
theorem ne_of_isEntryName {name : Text} (h : isEntryName name = true) {c : Char} (hc : c ∈ name) {d : Char}
    (hd : (d.isAlphanum || d == '_') = false) : c ≠ d := by
  rintro rfl
  rw [isAlphanum_of_isEntryName h c hc] at hd
  cases hd

theorem isPlain_of_isEntryName {name : Text} (h : isEntryName name = true) : name.all isPlain = true := by
  refine List.all_eq_true.2 fun c hc => ?_
  have hne := fun d hd => ne_of_isEntryName h hc (d := d) hd
  simp [isPlain, opensQuote, closes, closer?, hne '/' (by decide), hne '\x27' (by decide), hne '\x22' (by decide),
    hne '\x60' (by decide), hne '\x7d' (by decide), hne ')' (by decide), hne ']' (by decide), hne ',' (by decide),
    hne '\x7b' (by decide), hne '(' (by decide), hne '[' (by decide)]

/-- A name and a body between braces, with a comma behind them, are read as one entry. -/
theorem isEntry_of_closed {name body : Text} (hname : isEntryName name = true) (hbody : Closed body) :
    IsEntry ('\t' :: name ++ ": \x7b".toList ++ body ++ "\t\x7d,".toList) := by
  obtain ⟨hplace, hcomma⟩ := hbody.nested (show ['\x7d'] ≠ [] by simp)
  have hhead : start.read ('\t' :: name ++ ": ".toList) = (start, ('\t' :: name ++ ": ".toList).map .code) := by
    refine read_plain [] ?_
    rw [List.cons_append, List.all_cons, List.all_append, isPlain_of_isEntryName hname]
    decide
  have hopen : Place.read start ['\x7b'] = (⟨.code, ['\x7d']⟩, [.code '\x7b']) := by decide
  have hclose : Place.read ⟨.code, ['\x7d']⟩ "\t\x7d,".toList = (start, [.code '\t', .code '\x7d', .comma]) := by decide
  have htext : '\t' :: name ++ ": \x7b".toList ++ body ++ "\t\x7d,".toList =
      ('\t' :: name ++ ": ".toList) ++ (['\x7b'] ++ (body ++ "\t\x7d,".toList)) := by
    simp
  refine ⟨('\t' :: name ++ ": ".toList).map .code ++ .code '\x7b' :: (Place.read ⟨.code, ['\x7d']⟩ body).2
    ++ [.code '\t', .code '\x7d'], ?_, ?_, ?_⟩
  · rw [htext, read_append, hhead, read_append, hopen, read_append, hplace, hclose]
    simp
  · simpa using hcomma
  · rw [ne_eq, codeOf_eq_nil_iff, isBlank, List.all_eq_true]
    intro hblank
    exact absurd (hblank ':' (by simp [Bit.text])) (by decide)

/-! ## Entries -/

/-- Where newlines of a property stand in code, they do so in an entry. -/
theorem codeLines_propertyText {indent code : Text} (hblank : isBlank indent = true) (hindent : IsLine indent)
    (h : IsPropertyText code) (hcode : CodeLines [] (splitLines code) []) :
    CodeLines [] (splitLines (propertyText indent code none)) [] := by
  obtain ⟨ls, last, hlines, htext⟩ := propertyText_lines indent h.notComment
  have hlast : IsLine last := isLine_of_mem_splitLines (t := code) (by simp [hlines])
  have hend : IsLine (trimEnd (indent ++ last) ++ [',']) := by
    have hm : IsLine (trimEnd (indent ++ last)) := isLine_trimEnd fun hm => (List.mem_append.1 hm).elim hindent hlast
    simpa [IsLine] using hm
  rw [hlines] at hcode
  obtain ⟨mid, hbefore, -⟩ := hcode.split
  have hclosed : (Place.read ⟨.code, mid⟩ last).1 = start := by
    have hread := h.closed
    rw [Closed, ← joinLines_splitLines code, hlines, joinLines_concat, read_append_fst] at hread
    rwa [show (start.read (unlines ls)).1 = ⟨.code, mid⟩ from hbefore.read] at hread
  have hlayout := codeLines_layout hblank hindent hbefore
  have hmem : ∀ l ∈ layout indent ls ++ [trimEnd (indent ++ last) ++ [',']], IsLine l := by
    intro l hl
    rcases List.mem_append.1 hl with hl | hl
    · obtain ⟨k, hk, rfl⟩ := List.mem_map.1 hl
      have hk : IsLine k := isLine_of_mem_splitLines (t := code) (by simp [hlines, hk])
      exact isLine_trimEnd fun hm => (List.mem_append.1 hm).elim hindent hk
    · rw [List.mem_singleton.1 hl]
      exact hend
  rw [htext, ← joinLines_concat, splitLines_joinLines (by simp) hmem]
  refine hlayout.append (.cons hend ?_ (.nil _))
  rw [read_append_fst, read_append_fst]
  rcases read_lastLine (p := ⟨.code, mid⟩) (q := ⟨.code, mid⟩) trivial rfl hblank hindent hlast hclosed with h | h <;>
    rw [h] <;> rfl

theorem codeLines_joinLines : ∀ {ts : List Text}, (∀ t ∈ ts, CodeLines [] (splitLines t) []) →
    CodeLines [] (splitLines (joinLines ts)) []
  | [], _ => .cons List.not_mem_nil rfl (.nil _)
  | [t], h => h t (by simp)
  | t :: u :: ts, h => by
    rw [joinLines_cons (by simp), splitLines_append_newline]
    exact (h t (by simp)).append (codeLines_joinLines fun v hv => h v (List.mem_cons_of_mem _ hv))

/-- The line that closes an entry. -/
def closingLine : Text := "\t\x7d,".toList

/-- The first line of an entry. -/
def headerLine (name : Text) : Text := '\t' :: name ++ ": \x7b".toList

theorem restoreLines_concat (comments : List Comment) {closing : Text} (h : leadingKey? (trimStart closing) = none) :
    ∀ (seen ls : List Text), restoreLines comments seen (ls ++ [closing]) = restoreLines comments seen ls ++ [closing]
  | seen, [] => by simp [restoreLines, h]
  | seen, l :: ls => by
    simp only [List.cons_append, restoreLines]
    split
    · split
      · rw [restoreLines_concat comments h]
        rfl
      · rw [restoreLines_concat comments h]
        simp
    · rw [restoreLines_concat comments h]
      rfl

theorem isLine_of_isEntryName {name : Text} (h : isEntryName name = true) : IsLine name :=
  fun hm => ne_of_isEntryName h hm (by decide) rfl

theorem isLine_headerLine {name : Text} (h : IsLine name) : IsLine (headerLine name) := by
  simpa [headerLine, IsLine] using h

theorem splitLines_closingLine : splitLines closingLine = [closingLine] := by decide

theorem leadingKey?_closingLine : leadingKey? (trimStart closingLine) = none := by decide

/-- An entry between its first line and the line that closes it. -/
theorem bareEntryText_eq (name : Text) (properties : List Text) : bareEntryText name properties =
    headerLine name ++ '\n' :: (joinLines (properties.map fun p => propertyText entryIndent p none)
      ++ '\n' :: closingLine) := by
  simp [bareEntryText, headerLine, closingLine]

/-- The lines of an entry are its first, those of its properties, and the one that closes it. -/
theorem splitLines_bareEntry {name : Text} (hname : IsLine name) (properties : List Text) :
    splitLines (bareEntryText name properties) = headerLine name ::
      (splitLines (joinLines (properties.map fun p => propertyText entryIndent p none)) ++ [closingLine]) := by
  rw [bareEntryText_eq, splitLines_append_newline, splitLines_append_newline,
    splitLines_of_isLine (isLine_headerLine hname), splitLines_closingLine, List.singleton_append]

/-- An entry with comments, before its lines are joined. -/
theorem restoreEntry_bareEntry {name : Text} (hname : IsLine name) (properties : List Text) (comments : List Comment) :
    restoreEntry (bareEntryText name properties) comments = joinLines (headerLine name ::
      ((comments.filter (·.isOrphan)).flatMap (·.standalone orphanIndent) ++ restoreLines comments []
        (splitLines (joinLines (properties.map fun p => propertyText entryIndent p none))) ++ [closingLine])) := by
  rw [restoreEntry, splitLines_bareEntry hname]
  dsimp only
  rw [restoreLines_concat comments leadingKey?_closingLine, List.append_assoc]
  rfl

/-- A property that an entry can take, and that comments can be put around if there are any. -/
structure Fits (comments : List Comment) (code : Text) : Prop where
  property : IsPropertyText code
  breaks : comments ≠ [] → CodeLines [] (splitLines code) []

/-- **An entry that is built for a registry is read as one entry and the comma behind it.** -/
theorem isEntry_entryText {name : Text} {properties : List Text} {comments : List Comment} (keepComments : Bool)
    (hname : isEntryName name = true) (hproperties : ∀ p ∈ properties, Fits comments p)
    (hcomments : ∀ c ∈ comments, IsSound c) : IsEntry (entryText name properties comments keepComments) := by
  have hblank : isBlank entryIndent = true := by decide
  have hindent : IsLine entryIndent := by decide
  simp only [entryText]
  split
  · rename_i hkeep
    have hne : comments ≠ [] := by
      simp only [Bool.and_eq_true, Bool.not_eq_true', List.isEmpty_eq_false_iff] at hkeep
      exact hkeep.2
    have hlines : CodeLines [] (splitLines (joinLines (properties.map fun p => propertyText entryIndent p none))) [] := by
      refine codeLines_joinLines fun t ht => ?_
      obtain ⟨p, hp, rfl⟩ := List.mem_map.1 ht
      exact codeLines_propertyText hblank hindent (hproperties p hp).property ((hproperties p hp).breaks hne)
    rw [restoreEntry_bareEntry (isLine_of_isEntryName hname)]
    generalize splitLines (joinLines (properties.map fun p => propertyText entryIndent p none)) = ls at hlines
    rw [← List.cons_append, joinLines_concat, unlines_cons, unlines_append]
    have hbody : Closed (['\n'] ++ (unlines ((comments.filter (·.isOrphan)).flatMap (·.standalone orphanIndent))
        ++ unlines (restoreLines comments [] ls))) := by
      refine closed_newline.append ?_
      rw [Closed, read_append_fst, start,
        read_standalones (by decide) (by decide) fun c hc => hcomments c (List.mem_filter.1 hc).1]
      exact read_restoreLines hcomments hlines []
    have hentry := isEntry_of_closed hname hbody
    simpa [headerLine, closingLine] using hentry
  · have hbody : Closed (['\n'] ++ (joinLines (properties.map fun p => propertyText entryIndent p none) ++ ['\n'])) := by
      refine closed_newline.append (Closed.append (closed_joinLines fun t ht => ?_) closed_newline)
      obtain ⟨p, hp, rfl⟩ := List.mem_map.1 ht
      exact closed_propertyText hblank hindent (hproperties p hp).property
    have hentry := isEntry_of_closed hname hbody
    rw [bareEntryText_eq]
    simpa [headerLine, closingLine] using hentry

/-! ## The ends of an entry -/

/-- An entry begins with the line of its name. -/
theorem entryText_headerLine {name : Text} (hname : isEntryName name = true) (properties : List Text)
    (comments : List Comment) (keepComments : Bool) :
    ∃ rest, entryText name properties comments keepComments = headerLine name ++ '\n' :: rest := by
  simp only [entryText]
  split
  · rw [restoreEntry_bareEntry (isLine_of_isEntryName hname), joinLines_cons (by simp)]
    exact ⟨_, rfl⟩
  · exact ⟨_, bareEntryText_eq name properties⟩

theorem restoreEntry_append_closingLine (start : Text) (comments : List Comment) :
    ∃ before, restoreEntry (start ++ '\n' :: closingLine) comments = before ++ closingLine := by
  obtain ⟨header, lines, hlines⟩ := List.exists_cons_of_ne_nil (splitLines_ne_nil start)
  refine ⟨unlines (header :: (comments.filter (·.isOrphan)).flatMap (·.standalone orphanIndent)
    ++ restoreLines comments [] lines), ?_⟩
  rw [restoreEntry, splitLines_append_newline, hlines, splitLines_closingLine, List.cons_append]
  dsimp only
  rw [restoreLines_concat comments leadingKey?_closingLine, ← List.append_assoc, joinLines_concat]

theorem entryText_closingLine (name : Text) (properties : List Text) (comments : List Comment) (keepComments : Bool) :
    ∃ before, entryText name properties comments keepComments = before ++ closingLine := by
  have hbare := bareEntryText_eq name properties
  simp only [entryText]
  split
  · obtain ⟨before, h⟩ := restoreEntry_append_closingLine
      (headerLine name ++ '\n' :: joinLines (properties.map fun p => propertyText entryIndent p none)) comments
    refine ⟨before, ?_⟩
    rw [hbare, ← h]
    simp
  · exact ⟨headerLine name ++ '\n' :: (joinLines (properties.map fun p => propertyText entryIndent p none) ++ ['\n']),
      by rw [hbare]; simp⟩

end Listing

/-! ## Adding entries that are built -/

/-- What an entry is built from. -/
structure NewEntry where
  name : Text
  properties : List Text
  comments : List Comment
  keepComments : Bool

namespace NewEntry

/-- The text of an entry. -/
def text (e : NewEntry) : Text :=
  entryText e.name e.properties e.comments e.keepComments

/-- An entry has a proper name, its properties are closed, and its comments are as they were found. -/
structure Sound (e : NewEntry) : Prop where
  name : isEntryName e.name = true
  properties : ∀ p ∈ e.properties, Fits e.comments p
  comments : ∀ c ∈ e.comments, IsSound c

/-- The text of an entry is one entry. -/
def IsSingle (e : NewEntry) : Prop :=
  ∃ entry, entriesIn e.text = some [entry]

theorem isEntry_text {e : NewEntry} (h : e.IsSingle) : IsEntry e.text := by
  obtain ⟨before, htext⟩ := entryText_closingLine e.name e.properties e.comments e.keepComments
  have hcomma : e.text = (before ++ "\t\x7d".toList) ++ [','] := by
    rw [text, htext]
    simp [closingLine]
  obtain ⟨entry, hentry⟩ := h
  rw [hcomma] at hentry ⊢
  exact isEntry_of_entriesIn hentry

theorem isSingle_of_isEntry {e : NewEntry} (h : IsEntry e.text) : e.IsSingle := by
  obtain ⟨xs, hread, hcomma, hcode⟩ := h
  exact ⟨_, entriesIn_of_isEntry hread hcomma hcode⟩

/-- A sound entry is one entry. -/
theorem Sound.isSingle {e : NewEntry} (h : e.Sound) : e.IsSingle :=
  isSingle_of_isEntry (isEntry_entryText e.keepComments h.name h.properties h.comments)

end NewEntry

/-- **Entries that are built are added to a registry as they should if and only if each of them is one entry and the end
of the content tells whether a comma is due. Sound ones are one entry each.** -/
theorem extends_iff {t : Text} {r : Registry} {old : List Text} {entries : List NewEntry} (hr : r ∈ registriesIn t)
    (hold : entriesIn r.body = some old) (hne : entries ≠ []) :
    (r.Extends t old (entries.map (·.text)) ↔ (∀ e ∈ entries, e.IsSingle) ∧ r.TakesEntries) ∧
      ∀ e ∈ entries, e.Sound → e.IsSingle := by
  refine ⟨?_, fun e _ h => h.isSingle⟩
  have hstands := standsIn_of_mem_registriesIn hr
  have hne : entries.map (·.text) ≠ [] := by simpa using hne
  have hentries : (∀ e ∈ entries, e.IsSingle) → ∀ e ∈ entries.map (·.text), IsEntry e := by
    intro hsingle e he
    obtain ⟨d, hd, rfl⟩ := List.mem_map.1 he
    exact NewEntry.isEntry_text (hsingle d hd)
  constructor
  · intro h
    have hsingle : ∀ e ∈ entries, e.IsSingle := fun e he => h.single _ (List.mem_map_of_mem he)
    exact ⟨hsingle, (extends_iff_takesEntries hstands hold hne (hentries hsingle)).1 h⟩
  · rintro ⟨hsingle, h⟩
    exact (extends_iff_takesEntries hstands hold hne (hentries hsingle)).2 h

/-- The entry of one property. -/
def boxEntry : NewEntry := ⟨"box".toList, ["flex: 1".toList], [], true⟩

theorem sound_boxEntry : boxEntry.Sound where
  name := by decide
  properties := fun p hp => by
    rw [List.mem_singleton.1 hp]
    exact ⟨⟨rfl, by decide⟩, fun h => absurd rfl h⟩
  comments := fun _ hc => absurd hc List.not_mem_nil

/-- An entry with a comment. -/
def tallEntry : NewEntry :=
  ⟨"tall".toList, ["height: 2".toList], [⟨.line, "high".toList, 1, 1, none, some "height".toList, .before⟩], true⟩

/-- A registry with a comment behind the comma of an entry, and one behind an entry without a comma. -/
def listedRegistry : Text :=
  "const styles = StyleSheet.create(\x7b\n\trow: \x7b flex: 1 \x7d, // wide\n\tcol: \x7b flex: 2 \x7d /* below */\n\x7d);\n".toList

/-- Two entries are added to it, with commas between all of them. -/
theorem extends_listedRegistry : ∃ r ∈ registriesIn listedRegistry,
    entriesIn r.body = some ["row: \x7b flex: 1 \x7d".toList, "col: \x7b flex: 2 \x7d".toList] ∧
      r.Extends listedRegistry ["row: \x7b flex: 1 \x7d".toList, "col: \x7b flex: 2 \x7d".toList]
        [boxEntry.text, tallEntry.text] := by
  have hr : ⟨"styles".toList,
      "\n\trow: \x7b flex: 1 \x7d, // wide\n\tcol: \x7b flex: 2 \x7d /* below */\n".toList, ⟨0, 94⟩, 92⟩ ∈
        registriesIn listedRegistry := by
    decide +kernel
  have hold : entriesIn "\n\trow: \x7b flex: 1 \x7d, // wide\n\tcol: \x7b flex: 2 \x7d /* below */\n".toList =
      some ["row: \x7b flex: 1 \x7d".toList, "col: \x7b flex: 2 \x7d".toList] := by
    decide +kernel
  have hsingle : ∀ e ∈ [boxEntry, tallEntry], e.IsSingle := by
    refine List.forall_mem_cons.2 ⟨sound_boxEntry.isSingle, List.forall_mem_singleton.2 ?_⟩
    exact ⟨"tall: \x7b\n\t\t \n\t\theight: 2,\n\t\x7d".toList, by decide +kernel⟩
  refine ⟨_, hr, hold, (extends_iff hr hold (List.cons_ne_nil _ _)).1.2 ⟨hsingle, ?_⟩⟩
  constructor
  · exact fun hlisted => absurd hlisted (by decide +kernel)
  · -- Behind the block the reader is in code again.
    rintro - ⟨text, due, hplace⟩
    have hcode : (⟨.lineComment text, due⟩ : Place) ≠ start := by simp [start]
    exact hcode (hplace.symm.trans (by decide +kernel))

/-- A registry with a comment behind its last entry. -/
def notedRegistry : Text :=
  "const styles = StyleSheet.create(\x7b\n\tbox: \x7b flex: 1 \x7d // the box\n\x7d);\n".toList

/-- It does not take the entry as it should: the comma goes into the comment. -/
theorem not_extends_notedRegistry : ∃ r ∈ registriesIn notedRegistry, ∃ old, entriesIn r.body = some old ∧
    boxEntry.Sound ∧ ¬r.Extends notedRegistry old [boxEntry.text] := by
  refine ⟨⟨"styles".toList, "\n\tbox: \x7b flex: 1 \x7d // the box\n".toList, ⟨0, 66⟩, 64⟩, ?_,
    ["box: \x7b flex: 1 \x7d".toList], ?_, sound_boxEntry, fun h => ?_⟩
  · decide +kernel
  · decide +kernel
  · exact absurd h.comments (by decide +kernel)

end StyleHoist
