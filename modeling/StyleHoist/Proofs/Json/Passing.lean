import StyleHoist.Proofs.Json.Notation

/-!
# Passing over JSON

The texts of a value (`Writes`): blanks may stand between all its parts. Whoever reads an object and does not know a key
passes over its value, and comes out behind it whatever text of the value stands there (`passValue_of_writes`).

The reader that passes over nested values keeps a stack of what is open. One lemma says what it does for each kind of
step (`passNested_scalar`, `passNested_more`), and the induction is on how the value is written; the fuel that a value
takes is bounded by its length.
-/

namespace StyleHoist
namespace Json

/-! ## Texts of a value -/

/-- Blanks of JSON. -/
def Blanks (b : Text) : Prop :=
  b.all isBlank = true

/-- A value in a list or an object as it is written, with what leads to it and the blanks behind it. -/
structure Part where
  lead : Text
  value : Json
  text : Text
  margin : Text

/-- A part with what stands around its value. -/
def Part.written (p : Part) : Text :=
  p.lead ++ (p.text ++ p.margin)

/-- Later parts, with a comma before each, and what closes the list or the object. -/
def moreText (close : Char) : List Part → Text
  | [] => [close]
  | p :: ps => ',' :: (p.written ++ moreText close ps)

/-- The ways to write a key with its colon and the blanks around it. -/
inductive WritesKey (key : Text) : Text → Prop
  | mk {a u b c : Text} (ha : Blanks a) (hu : WritesString key u) (hb : Blanks b) (hc : Blanks c) :
      WritesKey key (a ++ '\x22' :: (u ++ '\x22' :: (b ++ ':' :: c)))

/-- The ways to write a value. A number may be written by the digits of another: settings hold none. -/
inductive Writes : Json → Text → Prop
  | null : Writes .null "null".toList
  | yes : Writes (.bool true) "true".toList
  | no : Writes (.bool false) "false".toList
  | number {n : JsonNumber} {w : Text} (h : IsNumber w) : Writes (.number n) w
  | minus {n : JsonNumber} {w : Text} (h : IsNumber w) : Writes (.number n) ('-' :: w)
  | string {t u : Text} (h : WritesString t u) : Writes (.string t) ('\x22' :: (u ++ ['\x22']))
  | noItems {b : Text} (hb : Blanks b) : Writes (.array []) ('[' :: (b ++ [']']))
  | items {p : Part} {ps : List Part} (haround : ∀ q ∈ p :: ps, Blanks q.lead ∧ Blanks q.margin)
      (h : ∀ q ∈ p :: ps, Writes q.value q.text) :
      Writes (.array ((p :: ps).map (·.value))) ('[' :: (p.written ++ moreText ']' ps))
  | noMembers {b : Text} (hb : Blanks b) : Writes (.object []) ('\x7b' :: (b ++ ['\x7d']))
  | members {m : Text × Part} {ms : List (Text × Part)}
      (haround : ∀ q ∈ m :: ms, WritesKey q.1 q.2.lead ∧ Blanks q.2.margin)
      (h : ∀ q ∈ m :: ms, Writes q.2.value q.2.text) :
      Writes (.object ((m :: ms).map fun q => (q.1, q.2.value)))
        ('\x7b' :: (m.2.written ++ moreText '\x7d' (ms.map (·.2))))

/-! ## Blanks -/

theorem skipBlanks_append {b : Text} (h : Blanks b) (t : Text) : skipBlanks (b ++ t) = skipBlanks t :=
  List.dropWhile_append_of_pos (List.all_eq_true.1 h)

theorem skipBlanks_cons {c : Char} (h : isBlank c = false) (t : Text) : skipBlanks (c :: t) = c :: t :=
  List.dropWhile_cons_of_neg (by simp [h])

theorem skipBlanks_skipBlanks (t : Text) : skipBlanks (skipBlanks t) = skipBlanks t := by
  cases h : skipBlanks t with
  | nil => rfl
  | cons c s =>
    refine skipBlanks_cons ?_ s
    have hnot := List.head?_dropWhile_not isBlank t
    rw [show (t.dropWhile isBlank).head? = some c by rw [← skipBlanks, h]; rfl] at hnot
    simpa using hnot

theorem ends_append {b : Text} (h : Blanks b) {rest : Text} (hrest : Ends rest) : Ends (b ++ rest) := by
  intro c hc
  cases b with
  | nil => exact hrest c hc
  | cons d b =>
    obtain rfl : d = c := by simpa using hc
    exact .inl (List.all_eq_true.1 h d (by simp))

theorem ends_moreText {close : Char} (h : close = ']' ∨ close = '\x7d') (ps : List Part) (rest : Text) :
    Ends (moreText close ps ++ rest) := by
  intro c hc
  cases ps with
  | nil =>
    obtain rfl : close = c := by simpa [moreText] using hc
    exact .inr (.inr h)
  | cons p ps =>
    obtain rfl : ',' = c := by simpa [moreText] using hc
    exact .inr (.inl rfl)

/-- Whether a value of this kind may begin with the character. -/
def begins : Json → Char → Bool
  | .null, c => c == 'n'
  | .bool _, c => c == 't' || c == 'f'
  | .number _, c => c == '-' || c.isDigit
  | .string _, c => c == '\x22'
  | .array _, c => c == '['
  | .object _, c => c == '\x7b'

theorem exists_head_of_writes {v : Json} {w : Text} (h : Writes v w) : ∃ c t, w = c :: t ∧ begins v c = true := by
  cases h with
  | number h =>
    obtain ⟨hwhole, -, -⟩ := h
    obtain ⟨c, t, rfl, hc⟩ := hwhole.exists_head
    exact ⟨c, _, rfl, by simp [begins, hc]⟩
  | _ => exact ⟨_, _, rfl, rfl⟩

theorem ne_of_begins {v : Json} {c d : Char} (hc : begins v c = true) (hd : begins v d = false) : c ≠ d := by
  rintro rfl
  rw [hc] at hd
  cases hd

theorem isBlank_of_begins {v : Json} {c : Char} (hc : begins v c = true) : isBlank c = false := by
  cases hblank : isBlank c with
  | false => rfl
  | true =>
    simp only [isBlank, Bool.or_eq_true, beq_iff_eq] at hblank
    rcases hblank with ((rfl | rfl) | rfl) | rfl <;> cases v <;> cases hc

/-! ## Passing over -/

/-- The reader passes over a text where a value belongs, whatever is open around it, and is then behind an item. The
number of steps is bounded by the length of the text. -/
def PassesOver (w : Text) : Prop :=
  ∃ k ≤ 2 * w.length, ∀ lead, Blanks lead → ∀ rest, Ends rest → ∀ fuel nest,
    passNested (fuel + k) nest .value (lead ++ (w ++ rest)) = passNested fuel nest .afterItem rest

theorem readWord_append (w rest : Text) : readWord w (w ++ rest) = .ok rest := by
  induction w with
  | nil => cases rest <;> rfl
  | cons c w ih => simpa [readWord] using ih

/-- A value that holds no other takes one step. -/
theorem passesOver_scalar {c : Char} {t : Text} (hblank : isBlank c = false) (hlist : c ≠ '[') (hobject : c ≠ '\x7b')
    (h : ∀ rest, Ends rest → passScalar c (t ++ rest) = .ok rest) : PassesOver (c :: t) := by
  refine ⟨1, by simp only [List.length_cons]; omega, fun lead hlead rest hrest fuel nest => ?_⟩
  rw [passNested, skipBlanks_append hlead, List.cons_append, skipBlanks_cons hblank]
  simp [h rest hrest, bind, Except.bind]

theorem passesOver_number {w : Text} (h : IsNumber w) : PassesOver w := by
  obtain ⟨hwhole, hfraction, hexponent⟩ := h
  obtain ⟨c, t, rfl, hc⟩ := hwhole.exists_head
  have hne : ∀ d, d.isDigit = false → c ≠ d := by
    rintro d hd rfl
    rw [hc] at hd
    cases hd
  have hblank : isBlank c = false := by simp [isBlank, hne ' ' rfl, hne '\n' rfl, hne '\t' rfl, hne '\r' rfl]
  refine passesOver_scalar hblank (hne _ rfl) (hne _ rfl) fun rest hrest => ?_
  have hpass := passNumber_of_isNumber (.mk hwhole hfraction hexponent) hrest
  simpa [passScalar, hc, hne 'n' rfl, hne 't' rfl, hne 'f' rfl, hne '-' rfl] using hpass

/-- A key as every reader finds it behind the blanks before it. -/
theorem exists_of_writesKey {key lead : Text} (h : WritesKey key lead) : ∃ u b c, WritesString key u ∧ Blanks b ∧
    Blanks c ∧ ∀ rest, skipBlanks (lead ++ rest) = '\x22' :: (u ++ '\x22' :: (b ++ ':' :: (c ++ rest))) := by
  obtain @⟨a, u, b, c, ha, hu, hb, hc⟩ := h
  refine ⟨u, b, c, hu, hb, hc, fun rest => ?_⟩
  rw [List.append_assoc, skipBlanks_append ha, List.cons_append, skipBlanks_cons rfl]
  simp

theorem passKey_of_writes {key lead : Text} (h : WritesKey key lead) :
    ∃ c, Blanks c ∧ ∀ rest, passKey (lead ++ rest) = .ok (c ++ rest) := by
  obtain ⟨u, b, c, hu, hb, hc, hskip⟩ := exists_of_writesKey h
  refine ⟨c, hc, fun rest => ?_⟩
  rw [passKey, hskip]
  simp [passString_of_writes hu, bind, Except.bind, pure, Except.pure, skipBlanks_append hb,
    skipBlanks_cons (c := ':') rfl]

/-- The bracket that closes an object or a list. -/
def closing (isObject : Bool) : Char :=
  if isObject then '\x7d' else ']'

/-- What leads to the value of an item, or of a member if an object is open. -/
def LeadsTo (isObject : Bool) (lead : Text) : Prop :=
  ∃ c, Blanks c ∧ ∀ rest, (if isObject then passKey (lead ++ rest) else .ok (lead ++ rest)) = .ok (c ++ rest)

/-- A part of what is open, as the reader passes over it. -/
structure Passable (isObject : Bool) (p : Part) : Prop where
  leads : LeadsTo isObject p.lead
  passes : PassesOver p.text
  margin : Blanks p.margin
  opens : ∀ rest, ∃ c t, skipBlanks (p.lead ++ (p.text ++ rest)) = c :: t ∧ c ≠ closing isObject

theorem passable_item {p : Part} (hlead : Blanks p.lead) (hmargin : Blanks p.margin) (hwrites : Writes p.value p.text)
    (hpasses : PassesOver p.text) : Passable false p where
  leads := ⟨p.lead, hlead, fun _ => rfl⟩
  passes := hpasses
  margin := hmargin
  opens := fun rest => by
    obtain ⟨c, t, heq, hc⟩ := exists_head_of_writes hwrites
    have hclosing : begins p.value ']' = false := by cases p.value <;> rfl
    refine ⟨c, t ++ rest, ?_, ne_of_begins hc hclosing⟩
    rw [skipBlanks_append hlead, heq, List.cons_append, skipBlanks_cons (isBlank_of_begins hc)]

theorem passable_member {key : Text} {p : Part} (hlead : WritesKey key p.lead) (hmargin : Blanks p.margin)
    (hpasses : PassesOver p.text) : Passable true p where
  leads := by
    obtain ⟨c, hc, hpass⟩ := passKey_of_writes hlead
    exact ⟨c, hc, fun rest => by simpa using hpass rest⟩
  passes := hpasses
  margin := hmargin
  opens := fun rest => by
    obtain ⟨u, b, c, -, -, -, hskip⟩ := exists_of_writesKey hlead
    exact ⟨'\x22', _, hskip _, by decide⟩

/-- Behind an item the reader passes over all later ones and the closing bracket. -/
theorem passNested_more (isObject : Bool) {ps : List Part} (h : ∀ p ∈ ps, Passable isObject p) :
    ∃ k ≤ 2 * (moreText (closing isObject) ps).length, ∀ margin, Blanks margin → ∀ rest fuel nest,
      passNested (fuel + k) (isObject :: nest) .afterItem (margin ++ (moreText (closing isObject) ps ++ rest)) =
        passNested fuel nest .afterItem rest := by
  induction ps with
  | nil =>
    refine ⟨1, by simp [moreText], fun margin hmargin rest fuel nest => ?_⟩
    rw [passNested, skipBlanks_append hmargin]
    cases isObject <;> rfl
  | cons p ps ih =>
    obtain ⟨⟨⟨c, hc, hlead⟩, ⟨k, hk, hpass⟩, hmargin, -⟩, hps⟩ := List.forall_mem_cons.1 h
    obtain ⟨n, hn, hmore⟩ := ih hps
    refine ⟨n + k + 1, ?_, fun margin hmargin' rest fuel nest => ?_⟩
    · simp only [moreText, Part.written, List.length_cons, List.length_append]
      omega
    · have hends : Ends (p.margin ++ (moreText (closing isObject) ps ++ rest)) :=
        ends_append hmargin (ends_moreText (by cases isObject <;> simp [closing]) ps rest)
      rw [moreText, Part.written]
      simp only [List.append_assoc, List.cons_append]
      rw [show fuel + (n + k + 1) = fuel + n + k + 1 by omega, passNested, skipBlanks_append hmargin',
        skipBlanks_cons rfl]
      have hstep := hlead (p.text ++ (p.margin ++ (moreText (closing isObject) ps ++ rest)))
      rw [← hmore p.margin hmargin rest fuel nest, ← hpass c hc _ hends (fuel + n) (isObject :: nest)]
      simp only [beq_self_eq_true, if_true]
      cases isObject with
      | true =>
        rw [if_pos rfl] at hstep
        rw [if_pos rfl, hstep]
        rfl
      | false => rw [if_neg (by decide), ← Except.ok.inj hstep]; rfl

theorem passNested_skipBlanks (fuel : Nat) (nest : List Bool) (t : Text) :
    passNested fuel nest .value (skipBlanks t) = passNested fuel nest .value t := by
  cases fuel with
  | zero => rfl
  | succ fuel => rw [passNested, passNested, skipBlanks_skipBlanks]

theorem passKey_skipBlanks (t : Text) : passKey (skipBlanks t) = passKey t := by
  rw [passKey, passKey, skipBlanks_skipBlanks]

/-- What is opened and closed again is passed over. -/
theorem passesOver_parts (isObject : Bool) {p : Part} {ps : List Part} (h : ∀ q ∈ p :: ps, Passable isObject q) :
    PassesOver ((if isObject then '\x7b' else '[') :: (p.written ++ moreText (closing isObject) ps)) := by
  obtain ⟨⟨⟨c, hc, hlead⟩, ⟨k, hk, hpass⟩, hmargin, hopens⟩, hps⟩ := List.forall_mem_cons.1 h
  obtain ⟨n, hn, hmore⟩ := passNested_more isObject hps
  refine ⟨n + k + 1, ?_, fun lead hblanks rest hrest fuel nest => ?_⟩
  · simp only [Part.written, List.length_cons, List.length_append]
    omega
  · have hends : Ends (p.margin ++ (moreText (closing isObject) ps ++ rest)) :=
      ends_append hmargin (ends_moreText (by cases isObject <;> simp [closing]) ps rest)
    obtain ⟨d, t, hopen, hd⟩ := hopens (p.margin ++ (moreText (closing isObject) ps ++ rest))
    have hstep := hlead (p.text ++ (p.margin ++ (moreText (closing isObject) ps ++ rest)))
    rw [← hmore p.margin hmargin rest fuel nest, ← hpass c hc _ hends (fuel + n) (isObject :: nest),
      show fuel + (n + k + 1) = fuel + n + k + 1 by omega, passNested, skipBlanks_append hblanks, Part.written]
    simp only [List.append_assoc, List.cons_append]
    cases isObject with
    | true =>
      have hkey : passKey (d :: t) = .ok (c ++ (p.text ++ (p.margin ++ (moreText (closing true) ps ++ rest)))) := by
        rw [← hopen, passKey_skipBlanks]
        simpa using hstep
      rw [if_pos rfl, skipBlanks_cons rfl]
      simp only [hopen]
      split
      · contradiction
      · rename_i heq
        exact absurd (List.cons.inj heq).1 hd
      · rw [hkey]
        rfl
    | false =>
      have hitem := Except.ok.inj hstep
      rw [if_neg (by decide), skipBlanks_cons rfl, ← hitem, ← passNested_skipBlanks, hopen]
      simp only [hopen]
      split
      · contradiction
      · rename_i heq
        exact absurd (List.cons.inj heq).1 hd
      · rfl

theorem passesOver_nothing (isObject : Bool) {b : Text} (hb : Blanks b) :
    PassesOver ((if isObject then '\x7b' else '[') :: (b ++ [closing isObject])) := by
  refine ⟨1, by simp only [List.length_cons]; omega, fun lead hlead rest _ fuel nest => ?_⟩
  cases isObject <;>
    simp [passNested, closing, skipBlanks_append hlead, skipBlanks_append hb, skipBlanks_cons (c := '[') rfl,
      skipBlanks_cons (c := ']') rfl, skipBlanks_cons (c := '\x7b') rfl, skipBlanks_cons (c := '\x7d') rfl]

/-- A value is passed over from each of its texts. -/
theorem passesOver_of_writes {v : Json} {w : Text} (h : Writes v w) : PassesOver w := by
  induction h with
  | null => exact passesOver_scalar rfl (by decide) (by decide) fun rest _ => readWord_append _ rest
  | yes => exact passesOver_scalar rfl (by decide) (by decide) fun rest _ => readWord_append _ rest
  | no => exact passesOver_scalar rfl (by decide) (by decide) fun rest _ => readWord_append _ rest
  | number h => exact passesOver_number h
  | minus h =>
    exact passesOver_scalar rfl (by decide) (by decide) fun rest hrest => passNumber_of_isNumber h hrest
  | string h =>
    refine passesOver_scalar rfl (by decide) (by decide) fun rest _ => ?_
    rw [List.append_assoc]
    exact passString_of_writes h rest
  | noItems hb => exact passesOver_nothing false hb
  | items haround h ih =>
    exact passesOver_parts false fun q hq =>
      passable_item (haround q hq).1 (haround q hq).2 (h q hq) (ih q hq)
  | noMembers hb => exact passesOver_nothing true hb
  | @members m ms haround _ ih =>
    have hparts : ∀ q ∈ (m :: ms).map (·.2), Passable true q := by
      intro q hq
      obtain ⟨n, hn, rfl⟩ := List.mem_map.1 hq
      exact passable_member (haround n hn).1 (haround n hn).2 (ih n hn)
    exact passesOver_parts true hparts

/-- A value that stands before anything that ends it is passed over. -/
theorem passValue_of_writes {v : Json} {w : Text} (h : Writes v w) {lead rest : Text} (hlead : Blanks lead)
    (hrest : Ends rest) : passValue (lead ++ (w ++ rest)) = .ok rest := by
  obtain ⟨k, hk, hpass⟩ := passesOver_of_writes h
  have hfuel : 2 * (lead ++ (w ++ rest)).length + 2 = 2 * (lead ++ (w ++ rest)).length + 1 - k + 1 + k := by
    simp only [List.length_append]
    omega
  rw [passValue, hfuel, hpass lead hlead rest hrest]
  rfl

end Json
end StyleHoist
