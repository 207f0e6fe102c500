import StyleHoist.Proofs.Registry.Bracing

/-!
# Braces byte by byte

The bytes of a text can be read one after the other, each in a mode that those before it leave, and the braces that are
read as code added up. This module reads bytes in this way, and follows a scan of characters along them: a backslash
hides one byte, and a character of several bytes is read as one of them is.

- `ne_byte_of_mem_encode`: the bytes of a character that takes several are no bytes of ASCII characters.
- `reads_of_step?`: a character is read as its bytes are.
- `reads_of_scan?`: a scan of characters reads the bytes of its text.
-/

namespace StyleHoist
namespace Bracing

open Text Listing

/-! ## Bytes -/

/-- The bytes of the UTF-8 form. -/
def bytes (t : Text) : List UInt8 :=
  t.flatMap String.utf8EncodeChar

/-- The byte of an ASCII character. -/
def byte (c : Char) : UInt8 :=
  UInt8.ofNat c.toNat

@[simp] theorem bytes_nil : bytes [] = [] := rfl

theorem bytes_cons (c : Char) (t : Text) : bytes (c :: t) = String.utf8EncodeChar c ++ bytes t := rfl

theorem bytes_append (s t : Text) : bytes (s ++ t) = bytes s ++ bytes t :=
  List.flatMap_append

theorem length_bytes (t : Text) : (bytes t).length = size t := by
  induction t with
  | nil => rfl
  | cons c t ih => rw [bytes_cons, List.length_append, String.length_utf8EncodeChar, ih, size_cons]

/-- Whether a character takes one byte. -/
def IsAscii (c : Char) : Prop :=
  c.toNat ≤ 127

instance (c : Char) : Decidable (IsAscii c) :=
  inferInstanceAs (Decidable (_ ≤ _))

theorem encode_of_isAscii {c : Char} (h : IsAscii c) : String.utf8EncodeChar c = [byte c] := by
  unfold IsAscii at h
  unfold String.utf8EncodeChar
  exact if_pos h

theorem byte_eq_iff {c d : Char} (hc : IsAscii c) (hd : IsAscii d) : byte c = byte d ↔ c = d := by
  unfold IsAscii at hc hd
  constructor
  · intro h
    have hnat := congrArg UInt8.toNat h
    simp only [byte, UInt8.toNat_ofNat'] at hnat
    rw [Nat.mod_eq_of_lt (by omega), Nat.mod_eq_of_lt (by omega)] at hnat
    exact Char.toNat_inj.1 hnat
  · rintro rfl
    rfl

/-- The bytes of a character that takes several are no bytes of others. -/
theorem ne_byte_of_mem_encode {c d : Char} {b : UInt8} (hc : ¬IsAscii c) (hd : IsAscii d)
    (hb : b ∈ String.utf8EncodeChar c) : b ≠ byte d := by
  have hlarge : 128 ≤ b.toNat := by
    unfold String.utf8EncodeChar at hb
    rw [if_neg (show ¬c.val.toNat ≤ 127 from hc)] at hb
    split at hb
    · simp only [List.mem_cons, List.not_mem_nil, or_false] at hb
      rcases hb with rfl | rfl <;> simp only [UInt8.toNat_ofNat'] <;> omega
    · split at hb
      · simp only [List.mem_cons, List.not_mem_nil, or_false] at hb
        rcases hb with rfl | rfl | rfl <;> simp only [UInt8.toNat_ofNat'] <;> omega
      · simp only [List.mem_cons, List.not_mem_nil, or_false] at hb
        rcases hb with rfl | rfl | rfl | rfl <;> simp only [UInt8.toNat_ofNat'] <;> omega
  rintro rfl
  unfold IsAscii at hd
  simp only [byte, UInt8.toNat_ofNat'] at hlarge
  omega

/-! ## Modes -/

/-- What a byte is read inside of. -/
inductive Mode
  | code
  /-- Behind a slash in code, which may open a comment. -/
  | slash
  | quoted (quote : UInt8)
  /-- Behind a backslash between quotes. -/
  | escaped (quote : UInt8)
  | lineComment
  | blockComment
  /-- Behind a star in a block comment. -/
  | star
deriving DecidableEq, Repr

/-- The mode that a byte of code leaves. -/
def codeMode (b : UInt8) : Mode :=
  if b = byte '\x27' ∨ b = byte '\x22' ∨ b = byte '\x60' then .quoted b
  else if b = byte '/' then .slash
  else .code

/-- The mode that a byte leaves. -/
def Mode.next : Mode → UInt8 → Mode
  | .code, b => codeMode b
  | .slash, b => if b = byte '/' then .lineComment else if b = byte '*' then .blockComment else codeMode b
  | .quoted q, b => if b = byte '\\' then .escaped q else if b = q then .code else .quoted q
  | .escaped q, _ => .quoted q
  | .lineComment, b => if b = byte '\n' then .code else .lineComment
  | .blockComment, b => if b = byte '*' then .star else .blockComment
  | .star, b => if b = byte '/' then .code else if b = byte '*' then .star else .blockComment

/-- What a byte of code adds to the braces that are open. -/
def braceWeight (b : UInt8) : Int :=
  if b = byte '\x7b' then 1 else if b = byte '\x7d' then -1 else 0

/-- What a byte adds to the braces that are open: braces count in code only. -/
def Mode.weight : Mode → UInt8 → Int
  | .code, b => braceWeight b
  | .slash, b => braceWeight b
  | _, _ => 0

/-- The mode that bytes leave. -/
def Mode.after (m : Mode) (bs : List UInt8) : Mode :=
  bs.foldl Mode.next m

/-- What bytes add to the braces that are open. -/
def Mode.balance : Mode → List UInt8 → Int
  | _, [] => 0
  | m, b :: bs => m.weight b + (m.next b).balance bs

theorem after_append (m : Mode) (as bs : List UInt8) : m.after (as ++ bs) = (m.after as).after bs :=
  List.foldl_append

@[simp] theorem balance_nil (m : Mode) : m.balance [] = 0 := rfl

theorem balance_append (as bs : List UInt8) : ∀ m : Mode,
    m.balance (as ++ bs) = m.balance as + (m.after as).balance bs := by
  induction as with
  | nil =>
    intro m
    simp [Mode.after]
  | cons a as ih =>
    intro m
    have hafter : m.after (a :: as) = (m.next a).after as := rfl
    rw [List.cons_append, Mode.balance, Mode.balance, ih, hafter, Int.add_assoc]

/-! ## Scans of characters -/

/-- What a scan of characters is inside of, as a mode. -/
def Stand.mode : Stand → Mode
  | .code => .code
  | .slash => .slash
  | .quoted q => .quoted (byte q.1)
  | .escaped q => .escaped (byte q.1)
  | .lineComment => .lineComment
  | .blockComment => .blockComment
  | .star => .star

/-- Bytes lead from one place to another, and close no more braces on the way than are open. -/
structure Reads (p : Place) (bs : List UInt8) (q : Place) : Prop where
  mode : p.stand.mode.after bs = q.stand.mode
  depth : p.depth + p.stand.mode.balance bs = q.depth
  opened : ∀ as, as <+: bs → 0 ≤ p.depth + p.stand.mode.balance as

theorem Reads.nil (p : Place) : Reads p [] p where
  mode := rfl
  depth := by simp
  opened := by
    intro as has
    rw [List.prefix_nil.1 has]
    simp

theorem Reads.append {p q r : Place} {as bs : List UInt8} (h : Reads p as q) (hnext : Reads q bs r) :
    Reads p (as ++ bs) r where
  mode := by rw [after_append, h.mode, hnext.mode]
  depth := by
    rw [balance_append, h.mode, ← hnext.depth, ← h.depth]
    omega
  opened := by
    intro cs hcs
    obtain ⟨rest, hrest⟩ := hcs
    rcases List.append_eq_append_iff.1 hrest with ⟨ds, hds, -⟩ | ⟨ds, rfl, hds⟩
    · exact h.opened cs ⟨ds, hds.symm⟩
    · rw [balance_append, h.mode]
      have hopened := hnext.opened ds ⟨rest, hds.symm⟩
      have hdepth := h.depth
      omega

/-- A byte is read by its mode and by what it adds to the open braces. -/
theorem reads_singleton {p q : Place} {b : UInt8} (hmode : p.stand.mode.next b = q.stand.mode)
    (hdepth : p.depth + p.stand.mode.weight b = q.depth) : Reads p [b] q where
  mode := hmode
  depth := by simpa [Mode.balance] using hdepth
  opened := by
    intro as has
    rcases List.prefix_cons_iff.1 has with rfl | ⟨t, rfl, ht⟩
    · simp
    · rw [List.prefix_nil.1 ht]
      simp only [Mode.balance]
      omega

/-- Quotes are ASCII characters. -/
theorem isAscii_quote (q : Quote) : IsAscii q.1 := by
  have h := q.2
  simp only [opensQuote, Bool.or_eq_true, beq_iff_eq] at h
  rcases h with (h | h) | h <;> rw [h] <;> decide

theorem codeMode_byte {c : Char} (hc : IsAscii c) : codeMode (byte c) =
    if h : opensQuote c = true then (Stand.quoted ⟨c, h⟩).mode else if c = '/' then .slash else .code := by
  have hquote : (byte c = byte '\x27' ∨ byte c = byte '\x22' ∨ byte c = byte '\x60') ↔ opensQuote c = true := by
    simp only [byte_eq_iff hc (show IsAscii '\x27' by decide), byte_eq_iff hc (show IsAscii '\x22' by decide),
      byte_eq_iff hc (show IsAscii '\x60' by decide), opensQuote, Bool.or_eq_true, beq_iff_eq, or_assoc]
  simp only [codeMode, hquote, byte_eq_iff hc (show IsAscii '/' by decide)]
  split <;> rfl

theorem braceWeight_byte {c : Char} (hc : IsAscii c) :
    braceWeight (byte c) = if c = '\x7b' then 1 else if c = '\x7d' then -1 else 0 := by
  simp only [braceWeight, byte_eq_iff hc (show IsAscii '\x7b' by decide),
    byte_eq_iff hc (show IsAscii '\x7d' by decide)]

/-- A character of code is read as its byte is. -/
theorem codeStep?_byte {depth : Nat} {c : Char} {q : Place} (hc : IsAscii c) (h : codeStep? depth c = some q) :
    codeMode (byte c) = q.stand.mode ∧ depth + braceWeight (byte c) = q.depth := by
  rw [codeMode_byte hc, braceWeight_byte hc]
  simp only [codeStep?, beq_iff_eq] at h
  by_cases hclose : c = '\x7d'
  · subst hclose
    cases depth with
    | zero => cases h
    | succ depth =>
      cases h
      refine ⟨rfl, ?_⟩
      rw [if_neg (by decide), if_pos rfl]
      show ((depth + 1 : Nat) : Int) + -1 = depth
      omega
  · by_cases hopen : c = '\x7b'
    · subst hopen
      cases h
      exact ⟨rfl, rfl⟩
    · rw [if_neg hclose, if_neg hopen] at h
      simp only [hclose, hopen, if_false, Int.add_zero]
      split at h
      · rename_i hquote
        cases h
        exact ⟨dif_pos hquote, rfl⟩
      · rename_i hquote
        rw [dif_neg hquote]
        split at h <;> cases h <;> simp_all [Stand.mode]

/-- A character of one byte is read as its byte is. -/
theorem reads_of_isAscii {p q : Place} {c : Char} (hc : IsAscii c) (h : p.step? c = some q) : Reads p [byte c] q := by
  obtain ⟨stand, depth⟩ := p
  have hbyte := fun (d : Char) (hd : IsAscii d) => byte_eq_iff hc hd
  cases stand with
  | code =>
    obtain ⟨hmode, hdepth⟩ := codeStep?_byte hc h
    exact reads_singleton hmode hdepth
  | slash =>
    simp only [Place.step?, beq_iff_eq] at h
    by_cases hline : c = '/'
    · subst hline
      cases h
      exact reads_singleton rfl rfl
    · by_cases hblock : c = '*'
      · subst hblock
        cases h
        exact reads_singleton rfl rfl
      · rw [if_neg hline, if_neg hblock] at h
        obtain ⟨hmode, hdepth⟩ := codeStep?_byte hc h
        refine reads_singleton ?_ hdepth
        rw [← hmode]
        simp [Stand.mode, Mode.next, hbyte '/' (by decide), hbyte '*' (by decide), hline, hblock]
  | quoted quote =>
    cases h
    refine reads_singleton ?_ (by simp [Stand.mode, Mode.weight])
    simp only [Stand.mode, Mode.next, hbyte '\\' (by decide), hbyte quote.1 (isAscii_quote quote), beq_iff_eq]
    split
    · rfl
    · split <;> rfl
  | escaped quote =>
    cases h
    exact reads_singleton rfl (by simp [Stand.mode, Mode.weight])
  | lineComment =>
    cases h
    refine reads_singleton ?_ (by simp [Stand.mode, Mode.weight])
    simp only [Stand.mode, Mode.next, hbyte '\n' (by decide), beq_iff_eq]
    split <;> rfl
  | blockComment =>
    cases h
    refine reads_singleton ?_ (by simp [Stand.mode, Mode.weight])
    simp only [Stand.mode, Mode.next, hbyte '*' (by decide), beq_iff_eq]
    split <;> rfl
  | star =>
    cases h
    refine reads_singleton ?_ (by simp [Stand.mode, Mode.weight])
    simp only [Stand.mode, Mode.next, hbyte '/' (by decide), hbyte '*' (by decide), beq_iff_eq]
    split
    · rfl
    · split <;> rfl

/-- What a scan is inside of behind a character, or a byte, that stands for nothing but itself. -/
def Stand.plain : Stand → Stand
  | .slash => .code
  | .escaped q => .quoted q
  | .star => .blockComment
  | s => s

/-- A byte that is no byte of an ASCII character stands for nothing but itself. -/
theorem reads_plain {b : UInt8} (hb : ∀ d, IsAscii d → b ≠ byte d) (p : Place) :
    Reads p [b] ⟨p.stand.plain, p.depth⟩ := by
  obtain ⟨stand, depth⟩ := p
  have hmode : codeMode b = .code := by
    simp [codeMode, hb '\x27' (by decide), hb '\x22' (by decide), hb '\x60' (by decide), hb '/' (by decide)]
  have hweight : braceWeight b = 0 := by
    simp [braceWeight, hb '\x7b' (by decide), hb '\x7d' (by decide)]
  cases stand with
  | code => exact reads_singleton hmode (by simp [Stand.mode, Mode.weight, hweight])
  | slash =>
    refine reads_singleton ?_ (by simp [Stand.mode, Mode.weight, hweight])
    simpa [Stand.mode, Stand.plain, Mode.next, hb '/' (by decide), hb '*' (by decide)] using hmode
  | quoted quote =>
    refine reads_singleton ?_ (by simp [Stand.mode, Mode.weight])
    simp [Stand.mode, Mode.next, Stand.plain, hb '\\' (by decide), hb quote.1 (isAscii_quote quote)]
  | escaped quote => exact reads_singleton rfl (by simp [Stand.mode, Mode.weight])
  | lineComment =>
    refine reads_singleton ?_ (by simp [Stand.mode, Mode.weight])
    simp [Stand.mode, Mode.next, Stand.plain, hb '\n' (by decide)]
  | blockComment =>
    refine reads_singleton ?_ (by simp [Stand.mode, Mode.weight])
    simp [Stand.mode, Mode.next, Stand.plain, hb '*' (by decide)]
  | star =>
    refine reads_singleton ?_ (by simp [Stand.mode, Mode.weight])
    simp [Stand.mode, Mode.next, Stand.plain, hb '/' (by decide), hb '*' (by decide)]

theorem plain_plain (s : Stand) : s.plain.plain = s.plain := by
  cases s <;> rfl

theorem reads_plains {p : Place} : ∀ {bs : List UInt8}, bs ≠ [] → (∀ b ∈ bs, ∀ d, IsAscii d → b ≠ byte d) →
    Reads p bs ⟨p.stand.plain, p.depth⟩
  | [b], _, h => reads_plain (h b (by simp)) p
  | b :: b' :: bs, _, h => by
    have hnext : Reads ⟨p.stand.plain, p.depth⟩ (b' :: bs) ⟨p.stand.plain.plain, p.depth⟩ :=
      reads_plains (by simp) fun d hd => h d (List.mem_cons_of_mem _ hd)
    rw [plain_plain] at hnext
    exact (reads_plain (h b (by simp)) p).append hnext

/-- A character that is no ASCII character stands for nothing but itself. -/
theorem step?_of_not_isAscii {c : Char} (hc : ¬IsAscii c) (p : Place) : p.step? c = some ⟨p.stand.plain, p.depth⟩ := by
  have hne : ∀ d, IsAscii d → c ≠ d := by
    rintro d hd rfl
    exact hc hd
  have hquote : opensQuote c = false := by
    simp [opensQuote, hne '\x27' (by decide), hne '\x22' (by decide), hne '\x60' (by decide)]
  have hcode := fun depth =>
    codeStep?_plain depth (hne '\x7d' (by decide)) (hne '\x7b' (by decide)) hquote (hne '/' (by decide))
  obtain ⟨stand, depth⟩ := p
  cases stand <;> simp [Place.step?, Stand.plain, hcode, hne '/' (by decide), hne '*' (by decide),
    hne '\\' (by decide), hne '\n' (by decide), hne _ (isAscii_quote _)]

/-- A character is read as its bytes are. -/
theorem reads_of_step? {p q : Place} {c : Char} (h : p.step? c = some q) : Reads p (String.utf8EncodeChar c) q := by
  by_cases hc : IsAscii c
  · rw [encode_of_isAscii hc]
    exact reads_of_isAscii hc h
  · obtain rfl : (⟨p.stand.plain, p.depth⟩ : Place) = q := Option.some.inj ((step?_of_not_isAscii hc p).symm.trans h)
    have hne : String.utf8EncodeChar c ≠ [] := by
      intro hnil
      have hlength := String.length_utf8EncodeChar c
      have hpos := c.utf8Size_pos
      rw [hnil, List.length_nil] at hlength
      omega
    exact reads_plains hne fun b hb d hd => ne_byte_of_mem_encode hc hd hb

/-- **A scan of characters reads the bytes of its text.** -/
theorem reads_of_scan? : ∀ {t : Text} {p q : Place}, p.scan? t = some q → Reads p (bytes t) q
  | [], p, q, h => by
    cases h
    exact Reads.nil p
  | c :: t, p, q, h => by
    rw [scan?_cons, Option.bind_eq_some_iff] at h
    obtain ⟨r, hstep, hscan⟩ := h
    exact (reads_of_step? hstep).append (reads_of_scan? hscan)

end Bracing
end StyleHoist
