import StyleHoist.Proofs.Registry.Bytes
import StyleHoist.Proofs.Registry.Heading
import Mathlib.Order.Bounds.Basic

/-!
# Braces that balance

The brace that closes another stands at the least offset at which the braces that are read as code balance, the bytes
of the text being read from the open brace on. Nothing else is known of the scan here. A registry therefore runs from
its header through the first brace that balances the last one of the header.

- `closingBrace?_eq_some_iff`: the brace that closes another balances it for the first time.
- `closingBrace?_eq_none_iff`: a brace is closed unless nothing balances it, as where a block comment is never closed.
- `openBraces_pos`: before that brace, more braces are open than closed.
- `exists_header_of_mem_registriesFrom`: a registry is made from what stands behind its header.
- `closingBrace?_correct`: the scan for closing braces, and the registries it finds.
-/

namespace StyleHoist
namespace Bracing

open Text Listing

/-! ## The least offset at which braces balance -/

/-- The braces that are open behind the byte at `i` when a text is read from `offset` on. -/
def openBraces (t : Text) (offset i : Nat) : Int :=
  Mode.code.balance (((bytes t).drop offset).take (i + 1 - offset))

/-- The braces of a text balance from the byte at `offset` through the one at `i`. -/
structure Balanced (t : Text) (offset i : Nat) : Prop where
  ordered : offset ≤ i
  inBounds : i < size t
  balanced : openBraces t offset i = 0

/-- A block comment that begins at `i` is never closed, the text being read from `offset` on. -/
structure OpensForGood (t : Text) (offset i : Nat) : Prop where
  ordered : offset ≤ i
  mode : Mode.code.after (((bytes t).drop offset).take (i - offset)) = .code
  unclosed : ∃ bs, (bytes t).drop i = byte '/' :: byte '*' :: bs ∧ ¬[byte '*', byte '/'] <:+: bs

/-- The offset of the brace that closes the one at `offset`. -/
def closingBrace? (t : Text) (offset : Nat) : Option Nat :=
  (closeBody? .code 0 (after t (offset + 1))).map fun s => offset + 1 + size s.1

/-- A byte of an ASCII character is one of the characters of its text. -/
theorem exists_of_getElem?_bytes {d : Char} (hd : IsAscii d) : ∀ {t : Text} {offset : Nat},
    (bytes t)[offset]? = some (byte d) → ∃ a rest, t = a ++ d :: rest ∧ size a = offset
  | [], offset, h => by simp at h
  | c :: t, offset, h => by
    have hlength := String.length_utf8EncodeChar c
    rw [bytes_cons] at h
    by_cases hin : offset < (String.utf8EncodeChar c).length
    · rw [List.getElem?_append_left hin] at h
      have hmem := List.mem_of_getElem? h
      by_cases hc : IsAscii c
      · rw [encode_of_isAscii hc] at hin h hmem
        obtain rfl : d = c := (byte_eq_iff hd hc).1 (List.mem_singleton.1 hmem)
        exact ⟨[], t, rfl, by simp at hin; simp [hin]⟩
      · exact absurd rfl (ne_byte_of_mem_encode hc hd hmem)
    · rw [List.getElem?_append_right (by omega)] at h
      obtain ⟨a, rest, rfl, ha⟩ := exists_of_getElem?_bytes hd h
      refine ⟨c :: a, rest, rfl, ?_⟩
      rw [size_cons, ha]
      omega

section Brace

variable (a rest : Text)

theorem drop_bytes_brace : (bytes (a ++ '\x7b' :: rest)).drop (size a) = byte '\x7b' :: bytes rest := by
  rw [bytes_append, ← length_bytes a, List.drop_left]
  rfl

theorem size_brace : size (a ++ '\x7b' :: rest) = size a + 1 + size rest := by
  rw [size_append, size_cons, show Char.utf8Size '\x7b' = 1 from rfl, Nat.add_assoc]

theorem openBraces_brace (n : Nat) :
    openBraces (a ++ '\x7b' :: rest) (size a) (size a + n) = 1 + Mode.code.balance ((bytes rest).take n) := by
  have hcount : size a + n + 1 - size a = n + 1 := by omega
  rw [openBraces, drop_bytes_brace, hcount]
  rfl

theorem closingBrace?_brace : closingBrace? (a ++ '\x7b' :: rest) (size a) =
    (closeBody? .code 0 rest).map fun s => size a + 1 + size s.1 := by
  have hafter : after (a ++ '\x7b' :: rest) (size a + 1) = rest := by
    have hsplit := splitAt?_size (a ++ ['\x7b']) rest
    rw [List.append_assoc, size_append] at hsplit
    rw [after, show size a + 1 = size a + size ['\x7b'] from rfl]
    simp only [List.singleton_append] at hsplit
    rw [hsplit]
    rfl
  rw [closingBrace?, hafter]

end Brace

theorem exists_scan?_of_close?_eq_none : ∀ {t : Text} {p : Place}, p.close? t = none → ∃ q, p.scan? t = some q
  | [], p, _ => ⟨p, rfl⟩
  | c :: t, p, h => by
    rw [Place.close?] at h
    split at h
    · cases h
    · rename_i q hstep
      obtain ⟨r, hscan⟩ := exists_scan?_of_close?_eq_none (Option.map_eq_none_iff.1 h)
      exact ⟨r, by rw [scan?_cons, hstep]; exact hscan⟩

/-- Where no brace closes a body, more braces are open than closed all along. -/
theorem balance_of_closeBody?_eq_none {rest : Text} (h : closeBody? .code 0 rest = none) (n : Nat) :
    0 < 1 + Mode.code.balance ((bytes rest).take n) := by
  rw [closeBody?_of_goesOn (goesOn rest start) rfl] at h
  obtain ⟨q, hscan⟩ := exists_scan?_of_close?_eq_none h
  have hopened := (reads_of_scan? hscan).opened _ (List.take_prefix n _)
  simp only [Stand.mode] at hopened
  omega

/-- The braces of a body balance for the first time at the brace that closes it. -/
theorem balance_of_closeBody? {rest body behind : Text} (h : closeBody? .code 0 rest = some (body, behind)) :
    (∀ n ≤ size body, 0 < 1 + Mode.code.balance ((bytes rest).take n)) ∧
      1 + Mode.code.balance ((bytes rest).take (size body + 1)) = 0 := by
  obtain ⟨rfl, q, hscan, hclose⟩ := closeBody?_iff.1 h
  have hreads := reads_of_scan? hscan
  have hbytes : bytes (body ++ '\x7d' :: behind) = bytes body ++ byte '\x7d' :: bytes behind := bytes_append _ _
  rw [hbytes, ← length_bytes body]
  constructor
  · intro n hn
    have hopened := hreads.opened ((bytes body).take n) (List.take_prefix n _)
    rw [List.take_append_of_le_length hn]
    simp only [start, Stand.mode] at hopened
    omega
  · have hdepth := hreads.depth
    have hmode := hreads.mode
    simp only [start, Stand.mode] at hdepth hmode
    rw [List.take_length_add_append, balance_append, hmode]
    rcases eq_of_closes hclose with rfl | rfl <;> simp only [start] at hdepth ⊢ <;>
      simp only [List.take_succ_cons, List.take_zero, Mode.balance, Mode.weight,
        show braceWeight (byte '\x7d') = -1 from rfl] <;> omega

/-- No byte of a block comment that is never closed counts. -/
theorem balance_comment : ∀ bs : List UInt8,
    (¬[byte '*', byte '/'] <:+: bs → Mode.blockComment.balance bs = 0) ∧
      (¬[byte '*', byte '/'] <:+: byte '*' :: bs → Mode.star.balance bs = 0)
  | [] => ⟨fun _ => rfl, fun _ => rfl⟩
  | b :: bs => by
    obtain ⟨hblock, hstar⟩ := balance_comment bs
    have htail : ¬[byte '*', byte '/'] <:+: b :: bs → ¬[byte '*', byte '/'] <:+: bs :=
      fun h hbs => h (hbs.trans (List.suffix_cons b bs).isInfix)
    constructor
    · intro h
      by_cases hb : b = byte '*'
      · subst hb
        simpa [Mode.balance, Mode.weight, Mode.next] using hstar h
      · simpa [Mode.balance, Mode.weight, Mode.next, hb] using hblock (htail h)
    · intro h
      have hslash : b ≠ byte '/' := by
        rintro rfl
        exact h ⟨[], bs, rfl⟩
      have hrest : ¬[byte '*', byte '/'] <:+: b :: bs := fun hbs => h (hbs.trans (List.suffix_cons _ _).isInfix)
      by_cases hb : b = byte '*'
      · subst hb
        simpa [Mode.balance, Mode.weight, Mode.next, hslash] using hstar hrest
      · simpa [Mode.balance, Mode.weight, Mode.next, hslash, hb] using hblock (htail hrest)

/-- Behind a block comment that is never closed the open braces stay open. -/
theorem OpensForGood.openBraces_eq {t : Text} {offset k j : Nat} (h : OpensForGood t offset k) (hk : offset < k)
    (hj : k ≤ j) : openBraces t offset j = openBraces t offset (k - 1) := by
  obtain ⟨bs, hbs, hunclosed⟩ := h.unclosed
  have hsplit : ((bytes t).drop offset).take (j + 1 - offset) =
      ((bytes t).drop offset).take (k - offset) ++ (byte '/' :: byte '*' :: bs).take (j + 1 - k) := by
    rw [← hbs, show j + 1 - offset = k - offset + (j + 1 - k) by omega, List.take_add, List.drop_drop]
    congr 3
    omega
  have hcomment : Mode.code.balance ((byte '/' :: byte '*' :: bs).take (j + 1 - k)) = 0 := by
    obtain ⟨n, hn⟩ : ∃ n, j + 1 - k = n + 1 := ⟨j - k, by omega⟩
    rw [hn]
    cases n with
    | zero => rfl
    | succ n =>
      have hrest := (balance_comment (bs.take n)).1 fun hin => hunclosed (hin.trans (List.take_prefix n bs).isInfix)
      simpa [Mode.balance, Mode.weight, Mode.next, show codeMode (byte '/') = Mode.slash from rfl,
        show braceWeight (byte '/') = 0 from rfl, show braceWeight (byte '*') = 0 from rfl,
        show byte '*' ≠ byte '/' by decide] using hrest
  rw [openBraces, openBraces, hsplit, balance_append, h.mode, hcomment, Int.add_zero,
    show k - 1 + 1 - offset = k - offset by omega]

/-! ## What the scan finds -/

section Scan

variable {t : Text} {offset : Nat} (hbrace : (bytes t)[offset]? = some (byte '\x7b'))

include hbrace

/-- A brace is closed where braces balance for the first time. -/
theorem isLeast_of_closingBrace? {i : Nat} (h : closingBrace? t offset = some i) :
    IsLeast {j | Balanced t offset j} i := by
  obtain ⟨a, rest, rfl, rfl⟩ := exists_of_getElem?_bytes (by decide) hbrace
  rw [closingBrace?_brace, Option.map_eq_some_iff] at h
  obtain ⟨⟨body, behind⟩, hclose, rfl⟩ := h
  obtain ⟨hopen, hbalanced⟩ := balance_of_closeBody? hclose
  have hrest := congrArg size (closeBody?_eq _ _ _ hclose)
  rw [size_append, size_cons, show Char.utf8Size '\x7d' = 1 from rfl] at hrest
  constructor
  · refine ⟨by omega, ?_, ?_⟩
    · rw [size_brace]
      dsimp only
      omega
    · rw [Nat.add_assoc, openBraces_brace, Nat.add_comm 1, hbalanced]
  · rintro j ⟨hle, -, hj⟩
    obtain ⟨n, rfl⟩ : ∃ n, j = size a + n := ⟨j - size a, by omega⟩
    rw [openBraces_brace] at hj
    by_contra hlt
    dsimp only at hlt
    have hpos := hopen n (by omega)
    omega

/-- Before the brace that closes another, or all along where there is none, more braces are open than closed. -/
theorem openBraces_pos {j : Nat} (hle : offset ≤ j) (h : ∀ i, closingBrace? t offset = some i → j < i) :
    0 < openBraces t offset j := by
  obtain ⟨a, rest, rfl, rfl⟩ := exists_of_getElem?_bytes (by decide) hbrace
  obtain ⟨n, rfl⟩ : ∃ n, j = size a + n := ⟨j - size a, by omega⟩
  rw [openBraces_brace]
  rw [closingBrace?_brace] at h
  cases hclose : closeBody? .code 0 rest with
  | none => exact balance_of_closeBody?_eq_none hclose n
  | some s =>
    have hlt : size a + n < size a + 1 + size s.1 := h _ (by rw [hclose]; rfl)
    exact (balance_of_closeBody? hclose).1 n (by omega)

/-- **The brace that closes another balances it for the first time.** -/
theorem closingBrace?_eq_some_iff {i : Nat} :
    closingBrace? t offset = some i ↔ IsLeast {j | Balanced t offset j} i := by
  constructor
  · exact isLeast_of_closingBrace? hbrace
  · intro h
    cases hclose : closingBrace? t offset with
    | none =>
      have hpos := openBraces_pos hbrace h.1.ordered (by simp [hclose])
      have hzero := h.1.balanced
      omega
    | some j => rw [IsLeast.unique (isLeast_of_closingBrace? hbrace hclose) h]

/-- **A brace is closed unless nothing balances it, as where a block comment before that is never closed.** -/
theorem closingBrace?_eq_none_iff : closingBrace? t offset = none ↔
    (∀ j, ¬Balanced t offset j) ∨ ∃ k, OpensForGood t offset k ∧ ∀ j < k, ¬Balanced t offset j := by
  constructor
  · intro h
    refine Or.inl fun j hj => ?_
    have hpos := openBraces_pos hbrace hj.ordered (by simp [h])
    have hzero := hj.balanced
    omega
  · intro h
    have hnever : ∀ j, ¬Balanced t offset j := by
      rcases h with h | ⟨k, hk, h⟩
      · exact h
      · intro j hj
        -- The byte at the offset is a brace, so the comment begins behind it.
        have hlt : offset < k := by
          refine Nat.lt_of_le_of_ne hk.ordered ?_
          rintro rfl
          obtain ⟨bs, hbs, -⟩ := hk.unclosed
          rw [List.drop_eq_getElem?_toList_append, hbrace] at hbs
          exact absurd (List.cons.inj hbs).1 (by decide)
        rcases Nat.lt_or_ge j k with hjk | hjk
        · exact h j hjk hj
        · refine h (k - 1) (by omega) ⟨by omega, by have := hj.inBounds; omega, ?_⟩
          rw [← hk.openBraces_eq hlt hjk]
          exact hj.balanced
    cases hclose : closingBrace? t offset with
    | none => rfl
    | some i => exact absurd (isLeast_of_closingBrace? hbrace hclose).1 (hnever i)

end Scan

/-! ## Registries -/

/-- A registry is made from the header that stands where its range starts, and from what stands behind the header. -/
theorem exists_header_of_mem_registriesFrom : ∀ {t : Text} (skip offset : Nat), ∀ r ∈ registriesFrom skip offset t,
    ∃ front header rest, t = front ++ (header ++ '\x7b' :: rest) ∧
      headerPart? (header ++ '\x7b' :: rest) = some (r.name, rest) ∧
      Registry.at? r.name (offset + size front) (offset + size (front ++ header) + 1) rest = some r
  | [], skip, offset, r, hr => by simp [registriesFrom] at hr
  | c :: t, skip, offset, r, hr => by
    -- What is found behind the first character stands there in the whole text too.
    have hnext : ∀ skip, r ∈ registriesFrom skip (offset + c.utf8Size) t →
        ∃ front header rest, c :: t = front ++ (header ++ '\x7b' :: rest) ∧
          headerPart? (header ++ '\x7b' :: rest) = some (r.name, rest) ∧
          Registry.at? r.name (offset + size front) (offset + size (front ++ header) + 1) rest = some r := by
      intro skip hr
      obtain ⟨front, header, rest, rfl, hheader, hat⟩ := exists_header_of_mem_registriesFrom skip _ r hr
      refine ⟨c :: front, header, rest, rfl, hheader, ?_⟩
      rw [List.cons_append, size_cons, size_cons, ← Nat.add_assoc, ← Nat.add_assoc]
      exact hat
    cases skip with
    | succ skip => exact hnext skip hr
    | zero =>
      cases hheader : headerPart? (c :: t) with
      | none =>
        rw [registriesFrom] at hr
        simp only [hheader] at hr
        exact hnext 0 hr
      | some found =>
        obtain ⟨name, rest⟩ := found
        obtain ⟨lead, hsplit, -⟩ := headerPart?_eq_brace hheader
        rw [registriesFrom_header offset hsplit hheader, List.mem_append, Option.mem_toList] at hr
        rcases hr with hat | hr
        · obtain rfl : r.name = name := by
            simp only [Registry.at?, Option.bind_eq_bind, Option.bind_eq_some_iff] at hat
            obtain ⟨_, -, he⟩ := hat
            cases he
            rfl
          exact ⟨[], lead, rest, hsplit, by rw [← hsplit]; exact hheader, hat⟩
        · exact hnext _ hr

/-- The end of a declaration behind the brace of its entries: the next parenthesis, if it closes one and only white
space stands before it. -/
def IsEnding (ending after : Text) : Prop :=
  (∃ gap, isBlank gap = true ∧ ending = gap ++ [')']) ∨
    ending = [] ∧ ¬∃ gap rest, isBlank gap = true ∧ after = gap ++ ')' :: rest

theorem exists_ending (behind : Text) : ∃ ending after, behind = ending ++ after ∧
    closingSize behind = 1 + size ending ∧ IsEnding ending after := by
  have hsplit := takeWhile_append_trimStart behind
  have hblank : isBlank (behind.takeWhile isBlankChar) = true := List.all_takeWhile
  have hparenthesis : Char.utf8Size ')' = 1 := rfl
  unfold closingSize
  split
  · rename_i after htrim
    rw [htrim] at hsplit
    refine ⟨behind.takeWhile isBlankChar ++ [')'], after, ?_, ?_, Or.inl ⟨_, hblank, rfl⟩⟩
    · rw [List.append_assoc]
      exact hsplit.symm
    · have hsize := congrArg size hsplit
      simp only [size_append, size_cons, size_nil] at hsize ⊢
      omega
  · rename_i hnone
    refine ⟨[], behind, rfl, rfl, Or.inr ⟨rfl, ?_⟩⟩
    rintro ⟨gap, rest, hgap, rfl⟩
    exact hnone rest (by rw [trimStart_blank_append hgap, trimStart_cons (by decide)])

/-- A registry is read from a text: `front` stands before its header, `header` through the name and up to the brace of
its entries, and `ending` behind the brace that closes them. -/
structure ReadFrom (t : Text) (r : Registry) (front header ending after : Text) : Prop where
  text : t = front ++ (header ++ '\x7b' :: (r.body ++ '\x7d' :: ending)) ++ after
  headed : headerPart? (header ++ '\x7b' :: (r.body ++ '\x7d' :: (ending ++ after))) =
    some (r.name, r.body ++ '\x7d' :: (ending ++ after))
  closing : closingBrace? t (size (front ++ header)) = some r.closeBrace
  closeBrace : r.closeBrace = size (front ++ header ++ '\x7b' :: r.body)
  brace : (bytes t)[r.closeBrace]? = some (byte '\x7d')
  range : r.range = ⟨size front, size (front ++ (header ++ '\x7b' :: (r.body ++ '\x7d' :: ending)))⟩
  isEnding : IsEnding ending after

theorem getElem?_bytes (a rest : Text) {d : Char} (hd : IsAscii d) :
    (bytes (a ++ d :: rest))[size a]? = some (byte d) := by
  rw [bytes_append, ← length_bytes a, List.getElem?_append_right (Nat.le_refl _), Nat.sub_self, bytes_cons,
    encode_of_isAscii hd]
  rfl

/-- **A registry runs from its header through the brace that closes its entries, and through the parenthesis behind
it.** -/
theorem exists_readFrom_of_mem_registriesIn {t : Text} {r : Registry} (h : r ∈ registriesIn t) :
    ∃ front header ending after, ReadFrom t r front header ending after := by
  obtain ⟨front, header, rest, rfl, hheader, hat⟩ := exists_header_of_mem_registriesFrom 0 0 r h
  obtain ⟨name, body', range, closeBrace⟩ := r
  simp only [Registry.at?, Option.bind_eq_bind, Option.bind_eq_some_iff] at hat
  obtain ⟨⟨body, behind⟩, hclose, he⟩ := hat
  obtain rfl := closeBody?_eq _ _ _ hclose
  obtain ⟨ending, after, rfl, hsize, hending⟩ := exists_ending behind
  have hopen : Char.utf8Size '\x7b' = 1 := rfl
  have hbrace : Char.utf8Size '\x7d' = 1 := rfl
  cases he
  refine ⟨front, header, ending, after, ?_, hheader, ?_, ?_, ?_, ?_, hending⟩
  · simp only [List.append_assoc, List.cons_append]
  · rw [← List.append_assoc, closingBrace?_brace, hclose]
    simp only [Option.map_some, Nat.zero_add]
  · simp only [size_append, size_cons, hopen]
    omega
  · have hat := getElem?_bytes (front ++ header ++ '\x7b' :: body) (ending ++ after) (d := '\x7d') (by decide)
    simp only [List.append_assoc, List.cons_append, size_append, size_cons, hopen] at hat ⊢
    rw [← hat]
    congr 1
    omega
  · simp only [hsize, size_append, size_cons, hopen, hbrace, Span.mk.injEq]
    omega

theorem ReadFrom.fits {t front header ending after : Text} {r : Registry} (h : ReadFrom t r front header ending after) :
    r.range.Fits t := by
  rw [h.range]
  refine ⟨?_, ?_, ?_, ?_⟩
  · dsimp only
    rw [size_append]
    omega
  · rw [h.text, size_append _ after]
    dsimp only
    omega
  · rw [h.text, List.append_assoc]
    exact isBoundary_size_append _ _
  · rw [h.text]
    exact isBoundary_size_append _ _

/-- **The scan for a closing brace is right.** It finds the least offset at which the braces read as code balance, and
nothing where there is none or a block comment before it is never closed; until then more braces are open than closed.
So each registry that is found runs from its header through that brace, and through the parenthesis behind it if only
white space stands between, and its body is what stands between its braces. -/
theorem closingBrace?_correct (t : Text) :
    (∀ offset, (bytes t)[offset]? = some (byte '\x7b') →
      (∀ i, closingBrace? t offset = some i ↔ IsLeast {j | Balanced t offset j} i) ∧
      (closingBrace? t offset = none ↔
        (∀ j, ¬Balanced t offset j) ∨ ∃ k, OpensForGood t offset k ∧ ∀ j < k, ¬Balanced t offset j) ∧
      ∀ j, offset ≤ j → (∀ i, closingBrace? t offset = some i → j < i) → 0 < openBraces t offset j) ∧
    ∀ r ∈ registriesIn t, r.range.Fits t ∧ ∃ front header ending after, ReadFrom t r front header ending after := by
  constructor
  · intro offset hbrace
    exact ⟨fun i => closingBrace?_eq_some_iff hbrace, closingBrace?_eq_none_iff hbrace,
      fun j hle hbefore => openBraces_pos hbrace hle hbefore⟩
  · intro r hr
    obtain ⟨front, header, ending, after, hread⟩ := exists_readFrom_of_mem_registriesIn hr
    exact ⟨hread.fits, front, header, ending, after, hread⟩

/-- Entries that hold braces between quotes, behind a backslash and in a comment. -/
def hiddenBraces : Text :=
  "const s = StyleSheet.create(\x7b a: '\\'\x7dé' /* \x7b */ \x7d\n)".toList

theorem closingBrace?_correct_hiddenBraces : (bytes hiddenBraces)[28]? = some (byte '\x7b') ∧
    IsLeast {j | Balanced hiddenBraces 28 j} 49 ∧
    ∃ r ∈ registriesIn hiddenBraces, r.range = ⟨0, 52⟩ ∧
      ∃ front header ending after, ReadFrom hiddenBraces r front header ending after := by
  obtain ⟨hscan, hregistries⟩ := closingBrace?_correct hiddenBraces
  have hbrace : (bytes hiddenBraces)[28]? = some (byte '\x7b') := by decide +kernel
  have hr : ⟨"s".toList, " a: '\\'\x7dé' /* \x7b */ ".toList, ⟨0, 52⟩, 49⟩ ∈ registriesIn hiddenBraces := by
    decide +kernel
  exact ⟨hbrace, ((hscan 28 hbrace).1 49).1 (by decide +kernel), _, hr, rfl, (hregistries _ hr).2⟩

end Bracing
end StyleHoist
