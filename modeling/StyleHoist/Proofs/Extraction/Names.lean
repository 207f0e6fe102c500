import StyleHoist.Proofs.Extraction.Collision
import StyleHoist.Proofs.Registry.Listing
import StyleHoist.Proofs.Registry.Names
import StyleHoist.Script.Scan

/-!
# Names that extractions add

An extraction gives its entries names of their own that no scan for keys finds in the registries (`names_fresh`). The
scan finds a first-level key that is written plainly, as a word with its colon behind it (`mem_keysOf_of_writesPlainly`).
It does not find one between quotes, one that stands for its value as well, or one with a comment before its colon.
Names therefore stay unique if and only if no added name is a key of such an entry (`namesStayUnique_iff`).
-/

namespace StyleHoist

open Text Listing

/-! ## Keys of entries -/

/-- The character with the code that hexadecimal digits give. -/
def charOfHex (digits : Text) : Char :=
  Char.ofNat (digits.foldl (fun n d => n * 16 + (Script.digitValue d).getD 0) 0)

/-- What a backslash and the characters behind it stand for, and how many of those it takes. -/
def escaped : Text → Text × Nat
  | 'x' :: a :: b :: _ => ([charOfHex [a, b]], 3)
  | 'u' :: '\x7b' :: t =>
    let digits := t.takeWhile (· != '\x7d')
    ([charOfHex digits], digits.length + 3)
  | 'u' :: a :: b :: c :: d :: _ => ([charOfHex [a, b, c, d]], 5)
  | 'n' :: _ => (['\n'], 1)
  | 't' :: _ => (['\t'], 1)
  | 'r' :: _ => (['\r'], 1)
  | '\n' :: _ => ([], 1)
  | c :: _ => ([c], 1)
  | [] => ([], 0)

/-- What stands between quotes, with its escapes resolved, after the first `skip` characters. -/
def unescapeFrom : (skip : Nat) → Text → Text
  | _, [] => []
  | skip + 1, _ :: t => unescapeFrom skip t
  | 0, c :: t => if c == '\\' then (escaped t).1 ++ unescapeFrom (escaped t).2 t else c :: unescapeFrom 0 t

/-- What stands before a quote that no backslash hides, and what follows the quote. -/
def quotedPart? (quote : Char) : Text → Option (Text × Text)
  | [] => none
  | ['\\'] => none
  | '\\' :: c :: t => (quotedPart? quote t).map fun p => ('\\' :: c :: p.1, p.2)
  | c :: t => if c == quote then some ([], t) else (quotedPart? quote t).map fun p => (c :: p.1, p.2)

/-- The key of an entry: a word or a quoted text with a colon behind it, or a word alone. -/
def entryKey? : Text → Option Text
  | [] => none
  | c :: t =>
    if c == '\x27' || c == '\x22' then
      match quotedPart? c t with
      | some (inner, rest) => if beginsWith [':'] (trimStart rest) then some (unescapeFrom 0 inner) else none
      | none => none
    else
      let scanned := Script.scanCode (c :: t)
      match scanned.token, trimStart scanned.rest with
      | .word _ name, [] | .word _ name, ':' :: _ => some name
      | _, _ => none

/-- The keys of the first-level entries of a body. -/
def entryKeys (body : Text) : List Text :=
  (pieces (start.read body).2).filterMap fun p => entryKey? (codeOf p)

/-- The keys of the first-level entries of all registries of a text. -/
def entryKeysIn (t : Text) : List Text :=
  (registriesIn t).flatMap fun r => entryKeys r.body

/-- A name is written plainly in a body: where an entry begins it stands as a word with a colon behind it, and nothing
but white space between the two. -/
def WritesPlainly (body name : Text) : Prop :=
  ∃ before after, body = before ++ after ∧ (start.read before).1 = start ∧ lastCode before = [] ∧
    leadingKey? after = some name

/-! ## Plain keys are found -/

/-- A reader at the start that has just read a character of a word has read it as code. -/
theorem step_word {p : Place} {c : Char} (hc : isWordChar c = true) (h : (p.step c).1 = start) :
    ∃ xs, (p.step c).2 = xs ++ [.code c] := by
  have hne := fun d hd => isWordChar_ne (d := d) hc hd
  have hcode : ∀ due, (codeStep due c).2 = [.code c] := by
    intro due
    simp [codeStep, opensQuote, closes, closer?, hne '/' (by decide), hne '\x27' (by decide), hne '\x22' (by decide),
      hne '\x60' (by decide), hne '\x7d' (by decide), hne ')' (by decide), hne ']' (by decide), hne ',' (by decide)]
  obtain ⟨stand, due⟩ := p
  cases stand with
  | code => exact ⟨[], hcode due⟩
  | slash => exact ⟨[.code '/'], by simp [Place.step, hcode, hne '/' (by decide), hne '*' (by decide)]⟩
  | quoted q => exact ⟨[], rfl⟩
  | escaped q => exact ⟨[], rfl⟩
  | lineComment text => simp [Place.step, start, hne '\n' (by decide)] at h
  | blockComment text => simp [Place.step, start, hne '*' (by decide)] at h
  | star text => simp [Place.step, start, hne '/' (by decide), hne '*' (by decide)] at h
  | broken => simp [Place.step, start] at h

/-- No word ends where an entry begins. -/
theorem isWordChar_of_lastCode {before : Text} {c : Char} (hstart : (start.read before).1 = start)
    (hblank : lastCode before = []) (hc : before.getLast? = some c) : isWordChar c = false := by
  refine Bool.eq_false_iff.2 fun hword => ?_
  obtain ⟨u, rfl⟩ := List.getLast?_eq_some_iff.1 hc
  rw [read_append] at hstart
  obtain ⟨xs, hxs⟩ := step_word hword (by simpa [read_cons] using hstart)
  obtain ⟨ps, p, hp⟩ := exists_pieces_eq ((start.read u).2 ++ xs)
  have hbits : (start.read (u ++ [c])).2 = ((start.read u).2 ++ xs) ++ [.code c] := by
    rw [read_append, read_cons, hxs]
    simp
  have hpieces : pieces (start.read (u ++ [c])).2 = ps ++ [p ++ [.code c]] := by
    rw [hbits, pieces_append (pieces_of_not_mem (by simp)) hp]
  rw [lastCode_eq hpieces, codeOf_eq_nil_iff] at hblank
  have hblank : isBlankChar c = true := by
    simp [isBlank, Bit.text] at hblank
    exact hblank.2
  rw [isWordChar_of_isBlankChar hblank] at hword
  cases hword

/-- A key that is written plainly is found by the scan for keys. -/
theorem mem_keysOf_of_writesPlainly {body name : Text} (h : WritesPlainly body name) : name ∈ keysOf body := by
  obtain ⟨before, after, rfl, hstart, hblank, hkey⟩ := h
  obtain ⟨gap, rest, rfl, hne, hword, hgap⟩ := eq_of_leadingKey? hkey
  exact mem_keysOf hne hword hgap fun c hc => isWordChar_of_lastCode hstart hblank hc

/-! ## Names that are added -/

/-- A text is extracted from, at a cursor with or without a name that is chosen, or in bulk. -/
inductive Extracts (t : Text) (path : String) (settings : Settings) : Extraction → Prop
  | one {e : Extraction} (offset : Nat) (name : Option Text)
      (h : extractOne t path offset name settings = .ok (.extracted e)) : Extracts t path settings e
  | all {e : Extraction} (h : extractAll t path settings = .ok (.extracted e)) : Extracts t path settings e

/-- Styles that are prepared in bulk get names of their own that are not taken. -/
theorem names_of_prepareAll (settings : Settings) : ∀ (targets : List StyleTarget) (taken : List Text),
    ((prepareAll settings taken targets).map (·.2)).Nodup ∧
      ∀ name ∈ (prepareAll settings taken targets).map (·.2), name ∉ taken
  | [], taken => by simp [prepareAll]
  | target :: targets, taken => by
    simp only [prepareAll]
    split
    · have hfresh := freshName_not_mem settings.namePrefix taken
      generalize freshName settings.namePrefix taken = name at hfresh
      obtain ⟨hnodup, hfree⟩ := names_of_prepareAll settings targets (taken ++ [name])
      simp only [List.mem_append, List.mem_singleton, not_or] at hfree
      refine ⟨?_, ?_⟩
      · rw [List.map_cons, List.nodup_cons]
        exact ⟨fun hm => (hfree name hm).2 rfl, hnodup⟩
      · intro n hn
        rcases List.mem_cons.1 hn with rfl | hn
        · exact hfresh
        · exact (hfree n hn).1
    · exact names_of_prepareAll settings targets taken

/-- The names that an extraction adds differ from each other and from all names that count as taken. -/
theorem names_fresh {t : Text} {path : String} {settings : Settings} {e : Extraction}
    (h : Extracts t path settings e) : e.names.Nodup ∧ ∀ name ∈ e.names, name ∉ takenNames (registriesIn t) := by
  cases h with
  | one offset name h =>
    rcases extractOne_cases t path offset name settings with ⟨style, htakes, heq⟩ | ⟨notice, heq⟩
    · rw [(parts_of_synthesize (map_extracted_eq_ok_iff.1 (heq.symm.trans h))).1]
      simpa using htakes.free
    · rw [heq] at h
      cases h
  | all h =>
    rcases extractAll_cases t path settings with ⟨styles, htakes, heq⟩ | ⟨-, notice, heq⟩
    · obtain ⟨items, -, rfl⟩ := htakes.listed
      rw [(parts_of_synthesize (map_extracted_eq_ok_iff.1 (heq.symm.trans h))).1]
      exact names_of_prepareAll settings _ _
    · rw [heq] at h
      cases h

/-- An extraction keeps the names of entries unique: the names that it adds differ from each other and from the keys of
all first-level entries, and if those keys differ from each other, they still do with the added names among them. -/
structure NamesStayUnique (t : Text) (e : Extraction) : Prop where
  distinct : e.names.Nodup
  fresh : ∀ name ∈ e.names, name ∉ entryKeysIn t
  unique : (entryKeysIn t).Nodup → (entryKeysIn t ++ e.names).Nodup

/-- **Extractions keep names unique if and only if they add no name that is the key of a first-level entry without
being written plainly in a registry.** -/
theorem namesStayUnique_iff (t : Text) (path : String) (settings : Settings) :
    (∀ e, Extracts t path settings e → NamesStayUnique t e) ↔
      ∀ e, Extracts t path settings e → ∀ name ∈ e.names, name ∈ entryKeysIn t →
        ∃ r ∈ registriesIn t, WritesPlainly r.body name := by
  refine forall_congr' fun e => forall_congr' fun h => ?_
  obtain ⟨hnodup, hfree⟩ := names_fresh h
  constructor
  · exact fun hunique name hname hkey => absurd hkey (hunique.fresh name hname)
  · intro hplain
    have hfresh : ∀ name ∈ e.names, name ∉ entryKeysIn t := by
      intro name hname hkey
      obtain ⟨r, hr, hwrites⟩ := hplain name hname hkey
      exact hfree name hname (mem_takenNames.2 ⟨r, hr, mem_keysOf_of_writesPlainly hwrites⟩)
    refine ⟨hnodup, hfresh, fun hkeys => List.nodup_append.2 ⟨hkeys, hnodup, ?_⟩⟩
    rintro key hkey name hname rfl
    exact hfresh key hname hkey

/-- What a bulk extraction gives, unless it is skipped or breaks off. -/
def extraction? (t : Text) (path : String) (settings : Settings) : Option Extraction :=
  match extractAll t path settings with
  | .ok (.extracted e) => some e
  | _ => none

theorem extractAll_of_extraction? {t : Text} {path : String} {settings : Settings} {e : Extraction}
    (h : extraction? t path settings = some e) : extractAll t path settings = .ok (.extracted e) := by
  simp only [extraction?] at h
  split at h
  · rename_i heq
    cases h
    exact heq
  · cases h

theorem extracts_of_extraction? {t : Text} {path : String} {settings : Settings} {e : Extraction}
    (h : extraction? t path settings = some e) : Extracts t path settings e :=
  .all (extractAll_of_extraction? h)

/-- A text with a registry whose entry has a key between quotes. -/
def quotedKeyText : Text :=
  ("const styles = StyleSheet.create(\x7b 'myStyle1': \x7b flex: 2 \x7d \x7d);\n"
    ++ "const A = <View style=\x7b\x7b flex: 1 \x7d\x7d />;\n").toList

/-- The name of a key between quotes is given a second time. -/
theorem not_namesStayUnique_quotedKeyText : ∃ e, Extracts quotedKeyText "App.tsx" {} e ∧
    ¬NamesStayUnique quotedKeyText e := by
  have hnames : (extraction? quotedKeyText "App.tsx" {}).map (·.names) = some ["myStyle1".toList] := by
    decide +kernel
  have hkeys : "myStyle1".toList ∈ entryKeysIn quotedKeyText := by decide +kernel
  obtain ⟨e, he, hname⟩ := Option.map_eq_some_iff.1 hnames
  refine ⟨e, extracts_of_extraction? he, fun hunique => hunique.fresh "myStyle1".toList ?_ hkeys⟩
  rw [hname]
  exact List.mem_singleton_self _

end StyleHoist
