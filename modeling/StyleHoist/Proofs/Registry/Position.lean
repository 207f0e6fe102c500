import StyleHoist.Proofs.Import.Position
import StyleHoist.Registry.Insertion
import StyleHoist.Registry.Scan

/-!
# Where registries stand

The body of a registry that a scan finds stands in the text just before the brace that closes it
(`Registry.StandsIn`, `standsIn_of_mem_registriesIn`). New entries therefore go between two parts of the text: the one
that ends with the entries so far, and the one that begins with the white space before the brace
(`insertEntries_range`). The edit that adds entries fits its text, as does the one that declares a registry
(`fits_insertEntries`, `fits_createRegistry`).
-/

namespace StyleHoist

open Text

/-! ## Headers -/

theorem dropSpaced?_suffix : ∀ {ws : List Text} {t rest : Text}, dropSpaced? ws t = some rest → rest <:+ t
  | [], t, rest, h => by
    simp only [dropSpaced?, Option.some.injEq] at h
    exact h ▸ List.suffix_refl _
  | w :: ws, t, rest, h => by
    simp only [dropSpaced?, Option.bind_eq_some_iff] at h
    obtain ⟨behind, hw, hrest⟩ := h
    have hbehind : behind <:+ trimStart t := ⟨w, (eq_append_of_dropPart? hw).symm⟩
    exact ((dropSpaced?_suffix hrest).trans hbehind).trans (List.dropWhile_suffix _)

/-- A header is a keyword, blanks, a name and the words before the entries. -/
theorem parts_of_headerPart? {t name rest : Text} (h : headerPart? t = some (name, rest)) :
    ∃ afterConst c cs, dropPart? "const".toList t = some afterConst ∧
      (trimStart afterConst).length ≠ afterConst.length ∧ trimStart afterConst = c :: cs ∧
        isRegistryNameStart c = true ∧ name = c :: cs.takeWhile isRegistryNameChar ∧
          dropSpaced? headerWords (cs.dropWhile isRegistryNameChar) = some rest := by
  simp only [headerPart?, Option.bind_eq_bind, Option.bind_eq_some_iff] at h
  obtain ⟨afterConst, hconst, h⟩ := h
  split at h
  · cases h
  · rename_i hblank
    split at h
    · rename_i c cs hname
      split at h
      · rename_i hstart
        obtain ⟨entries, hentries, he⟩ := Option.bind_eq_some_iff.1 h
        cases he
        exact ⟨afterConst, c, cs, hconst, hblank, hname, hstart, rfl, hentries⟩
      · cases h
    · cases h

/-- A header ends with the words that stand between the name and the entries. -/
theorem exists_words_of_headerPart? {t name rest : Text} (h : headerPart? t = some (name, rest)) :
    ∃ front words, t = "const".toList ++ front ++ words ∧ dropSpaced? headerWords words = some rest := by
  obtain ⟨afterConst, c, cs, hconst, -, hname, -, -, hentries⟩ := parts_of_headerPart? h
  have hcs : cs <:+ afterConst := by
    refine (List.suffix_cons c cs).trans ?_
    rw [← hname]
    exact List.dropWhile_suffix _
  obtain ⟨front, hfront⟩ := (List.dropWhile_suffix isRegistryNameChar).trans hcs
  refine ⟨front, _, ?_, hentries⟩
  rw [eq_append_of_dropPart? hconst, ← hfront, List.append_assoc]

/-- A header takes a part off the text that it begins. -/
theorem headerPart?_eq {t name rest : Text} (h : headerPart? t = some (name, rest)) :
    ∃ header, header ≠ [] ∧ t = header ++ rest := by
  obtain ⟨front, words, rfl, hwords⟩ := exists_words_of_headerPart? h
  obtain ⟨mid, rfl⟩ := dropSpaced?_suffix hwords
  exact ⟨"const".toList ++ front ++ mid, by simp, by simp only [List.append_assoc]⟩

/-- Words that have been passed stand in the text. -/
theorem infix_of_dropSpaced? : ∀ {ws : List Text} {t rest : Text}, dropSpaced? ws t = some rest → ∀ w ∈ ws, w <:+: t
  | [], _, _, _, w, hw => by cases hw
  | v :: ws, t, rest, h, w, hw => by
    simp only [dropSpaced?, Option.bind_eq_some_iff] at h
    obtain ⟨behind, hv, hrest⟩ := h
    have ht := eq_append_of_dropPart? hv
    have htrim : trimStart t <:+: t := (List.dropWhile_suffix _).isInfix
    refine List.IsInfix.trans ?_ htrim
    rw [ht]
    rcases List.mem_cons.1 hw with rfl | hw
    · exact (List.prefix_append _ _).isInfix
    · exact (infix_of_dropSpaced? hrest w hw).trans (List.suffix_append _ _).isInfix

/-- A header names the factory. -/
theorem infix_of_headerPart? {t name rest : Text} (h : headerPart? t = some (name, rest)) : registryFactory <:+: t := by
  obtain ⟨front, words, rfl, hwords⟩ := exists_words_of_headerPart? h
  have hfactory := infix_of_dropSpaced? hwords registryFactory (by simp [headerWords])
  exact hfactory.trans (List.suffix_append _ _).isInfix

/-! ## Bodies -/

/-- A body ends just before the brace that closes it. -/
theorem closeBody?_eq (region : Region) (depth : Nat) (t : Text) : ∀ {body behind : Text},
    closeBody? region depth t = some (body, behind) → t = body ++ '\x7d' :: behind := by
  fun_induction closeBody? region depth t with
  | case1 => simp
  | case2 t c hc => simp_all
  | case9 => simp
  | _ =>
    -- What is read first comes before what the rest of the scan gives.
    intro body behind h
    obtain ⟨⟨body', behind'⟩, hrest, he⟩ := Option.map_eq_some_iff.1 h
    obtain ⟨rfl, rfl⟩ := Prod.mk.inj he
    simp_all

/-! ## Registries -/

/-- A registry stands in a text: its body ends just before its closing brace, where a scan of the body ends too. -/
def Registry.StandsIn (t : Text) (r : Registry) : Prop :=
  ∃ a b, t = a ++ r.body ++ '\x7d' :: b ∧ size (a ++ r.body) = r.closeBrace ∧
    closeBody? .code 0 (r.body ++ '\x7d' :: b) = some (r.body, b)

theorem standsIn_of_at? {name a rest : Text} {offset : Nat} {r : Registry}
    (h : Registry.at? name offset (size a) rest = some r) : r.StandsIn (a ++ rest) := by
  simp only [Registry.at?, Option.bind_eq_bind, Option.bind_eq_some_iff] at h
  obtain ⟨⟨body, behind⟩, hclose, he⟩ := h
  have hrest := closeBody?_eq _ _ _ hclose
  cases he
  exact ⟨a, behind, by rw [hrest, List.append_assoc], by rw [size_append], by rw [← hrest]; exact hclose⟩

theorem standsIn_of_mem_registriesFrom : ∀ (t a : Text) (skip : Nat), ∀ r ∈ registriesFrom skip (size a) t,
    r.StandsIn (a ++ t)
  | [], a, skip, r, hr => by simp [registriesFrom] at hr
  | c :: t, a, skip, r, hr => by
    have hnext : ∀ skip, ∀ r ∈ registriesFrom skip (size a + c.utf8Size) t, r.StandsIn (a ++ c :: t) := by
      intro skip
      have := standsIn_of_mem_registriesFrom t (a ++ [c]) skip
      simpa only [size_append, size_cons, size_nil, Nat.add_zero, List.append_assoc, List.singleton_append] using this
    match skip with
    | skip + 1 => exact hnext skip r (by simpa [registriesFrom] using hr)
    | 0 =>
      simp only [registriesFrom] at hr
      split at hr
      · rename_i name rest hheader
        rcases List.mem_append.1 hr with hr | hr
        · obtain ⟨header, -, hsplit⟩ := headerPart?_eq hheader
          have hsize := congrArg size hsplit
          rw [size_append] at hsize
          have hentries : size a + (size (c :: t) - size rest) = size (a ++ header) := by
            rw [size_append]
            omega
          rw [hentries, Option.mem_toList] at hr
          rw [hsplit, ← List.append_assoc]
          exact standsIn_of_at? hr
        · exact hnext _ r hr
      · exact hnext 0 r hr

theorem standsIn_of_mem_registriesIn {t : Text} {r : Registry} (h : r ∈ registriesIn t) : r.StandsIn t :=
  standsIn_of_mem_registriesFrom t [] 0 r h

theorem infix_of_mem_registriesFrom : ∀ (t : Text) (skip offset : Nat), ∀ r ∈ registriesFrom skip offset t,
    registryFactory <:+: t
  | [], skip, offset, r, hr => by simp [registriesFrom] at hr
  | c :: t, skip + 1, offset, r, hr =>
    (infix_of_mem_registriesFrom t skip _ r hr).trans (List.suffix_cons c t).isInfix
  | c :: t, 0, offset, r, hr => by
    simp only [registriesFrom] at hr
    split at hr
    · rename_i name rest hheader
      exact infix_of_headerPart? hheader
    · exact (infix_of_mem_registriesFrom t 0 _ r hr).trans (List.suffix_cons c t).isInfix

/-- A text with a registry mentions the factory, so it is never given an import. -/
theorem importEdit_of_mem_registriesIn {t : Text} {r : Registry} (h : r ∈ registriesIn t) : importEdit t = .ok none :=
  importEdit_of_mentions (isSome_splitOn? (infix_of_mem_registriesFrom t 0 0 r h))

theorem mem_of_destination? {preferred : Text} {registries : List Registry} {r : Registry}
    (h : destination? preferred registries = some r) : r ∈ registries := by
  match registries, h with
  | [only], h => simp_all [destination?]
  | _ :: _ :: _, h =>
    simp only [destination?] at h
    exact List.mem_of_find?_eq_some h

/-! ## Insertions -/

/-- The body of a registry is its entries and the margin behind them. -/
theorem Registry.content_append_margin (r : Registry) : r.content ++ r.margin = r.body := by
  obtain ⟨margin, hbody, -⟩ := trimEnd_append_blank r.body
  exact List.prefix_iff_eq_append.1 ⟨margin, hbody.symm⟩

theorem Registry.isBlank_margin (r : Registry) : isBlank r.margin = true := by
  obtain ⟨margin, hbody, hblank⟩ := trimEnd_append_blank r.body
  have hmargin : r.margin = margin :=
    List.append_cancel_left (r.content_append_margin.trans hbody)
  rw [hmargin]
  exact hblank

/-- Entries are added behind the last entry, before the margin. -/
theorem insertEntries_range {t : Text} {r : Registry} (h : r.StandsIn t) (entries : List Text) :
    ∃ a b, t = a ++ r.content ++ r.margin ++ '\x7d' :: b ∧
      (r.insertEntries entries).range = ⟨size (a ++ r.content), size (a ++ r.content)⟩ := by
  obtain ⟨a, b, ht, hclose, -⟩ := h
  refine ⟨a, b, by rw [ht, ← r.content_append_margin]; simp only [List.append_assoc], ?_⟩
  have hsize := congrArg size r.content_append_margin
  simp only [size_append] at hsize hclose
  simp only [Registry.insertEntries, Edit.insertion, size_append, Span.mk.injEq]
  omega

/-- The edit that adds entries fits the text. -/
theorem fits_insertEntries {t : Text} {r : Registry} (h : r.StandsIn t) (entries : List Text) :
    (r.insertEntries entries).range.Fits t := by
  obtain ⟨a, b, ht, hrange⟩ := insertEntries_range h entries
  rw [hrange]
  refine Span.fits_point (isBoundary_iff.2 ⟨a ++ r.content, r.margin ++ '\x7d' :: b, ?_, rfl⟩)
  rw [ht, List.append_assoc (a ++ r.content)]

/-- The edit that declares a registry fits the text. -/
theorem fits_createRegistry (t name : Text) (entries : List Text) (policy : InsertionPolicy) :
    (createRegistry t name entries policy).range.Fits t := by
  have htop : isBoundary t 0 = true := isBoundary_size_append [] t
  have hend : isBoundary t (size t) = true := by simpa using isBoundary_size_append t []
  simp only [createRegistry]
  split
  · exact Span.fits_point htop
  · exact Span.fits_point hend
  · split
    · rename_i offset hoffset
      exact Span.fits_point (isBoundary_endOfImports hoffset)
    · exact Span.fits_point htop

/-- An edit of the imports and the declaration of a registry are apart. -/
theorem apart_createRegistry {t : Text} {s : Span} (h : s.InImports t) (name : Text) (entries : List Text)
    (policy : InsertionPolicy) : s.Apart (createRegistry t name entries policy).range := by
  simp only [createRegistry]
  split
  · exact Or.inr (Nat.zero_le _)
  · exact Or.inl h.fits.inBounds
  · split
    · rename_i offset hoffset
      exact h.apart offset hoffset
    · exact Or.inr (Nat.zero_le _)

end StyleHoist
