import Mathlib.Data.List.Perm.Basic
import StyleHoist.Proofs.Text.Batch
import StyleHoist.Proofs.Text.Parts

/-!
# Edits one at a time

A batch of edits has the effect of its edits one at a time, from the last to the first in order of start, end and place
in the batch (`applyEdits_atomic`). An edit that is applied leaves the text before it as it is, so the ranges of the
edits that come before it still mean the same.

- `inOrder_iff`: there is one way to put a batch in order, and sorting finds it.
- `sortBy_eq_of_reorders`: a batch may be listed in another order if edits of one range keep theirs.
- `applyBackwards_splice`: what is spliced together is what the edits give from the last to the first.
-/

namespace StyleHoist

open Text

/-! ## One edit -/

/-- Carries out one edit, if its range covers whole characters. -/
def Edit.applyTo? (e : Edit) (t : Text) : Option Text :=
  if e.range.start ≤ e.range.stop then do
    let (before, rest) ← splitAt? t e.range.start
    let (_, after) ← splitAt? rest (e.range.stop - e.range.start)
    return before ++ e.replacement ++ after
  else none

/-- An edit replaces the part of a text that its range covers. -/
theorem applyTo?_parts (before old after replacement : Text) :
    Edit.applyTo? ⟨⟨size before, size before + size old⟩, replacement⟩ (before ++ old ++ after) =
      some (before ++ replacement ++ after) := by
  simp [Edit.applyTo?, List.append_assoc, splitAt?_size]

/-- Carries out edits one at a time, the last of the list first. -/
def applyBackwards : List Edit → Text → Option Text
  | [], t => some t
  | e :: es, t => (applyBackwards es t).bind e.applyTo?

/-! ## The order of a batch -/

/-- An edit of a batch with its place comes before another: by start, then by end, then by place. -/
def Edit.ComesBefore (a b : Edit × Nat) : Prop :=
  a.1.range.start < b.1.range.start ∨ a.1.range.start = b.1.range.start ∧
    (a.1.range.stop < b.1.range.stop ∨ a.1.range.stop = b.1.range.stop ∧ a.2 < b.2)

/-- A list has the edits of a batch in order of start, end and place in the batch. -/
def InOrder (edits ordered : List Edit) : Prop :=
  ∃ placed : List (Edit × Nat), placed.Perm edits.zipIdx ∧ placed.Pairwise Edit.ComesBefore ∧
    placed.map (·.1) = ordered

/-- The order in which edits with their places are sorted: places do not enter into it. -/
def Edit.placedLe (a b : Edit × Nat) : Bool :=
  Edit.le a.1 b.1

theorem comesBefore_of_le {a b : Edit × Nat} (hle : Edit.placedLe a b = true) (hplace : a.2 < b.2) :
    Edit.ComesBefore a b := by
  rw [Edit.placedLe, Edit.le_iff] at hle
  unfold Edit.ComesBefore
  omega

theorem comesBefore_of_not_le {a b : Edit × Nat} (h : ¬Edit.placedLe a b = true) : Edit.ComesBefore b a := by
  rw [Edit.placedLe, Edit.le_iff] at h
  unfold Edit.ComesBefore
  omega

theorem Edit.ComesBefore.trans {a b c : Edit × Nat} (hab : Edit.ComesBefore a b) (hbc : Edit.ComesBefore b c) :
    Edit.ComesBefore a c := by
  unfold Edit.ComesBefore at *
  omega

theorem pairwise_comesBefore_sortBy (edits : List Edit) :
    (sortBy Edit.placedLe edits.zipIdx).Pairwise Edit.ComesBefore := by
  have hplaces : edits.zipIdx.Pairwise fun a b => a.2 < b.2 :=
    List.pairwise_map.1 (by rw [List.zipIdx_map_snd]; exact List.pairwise_lt_range')
  exact pairwise_sortBy_of_pairwise (R := Edit.ComesBefore) (S := fun a b => a.2 < b.2)
    (fun _ _ _ => Edit.ComesBefore.trans) (fun _ _ hplace hle => comesBefore_of_le hle hplace)
    (fun _ _ _ => comesBefore_of_not_le) hplaces

/-- Sorting puts a batch in order. -/
theorem inOrder_sortBy (edits : List Edit) : InOrder edits (sortBy Edit.le edits) := by
  refine ⟨sortBy Edit.placedLe edits.zipIdx, sortBy_perm _ _, pairwise_comesBefore_sortBy edits, ?_⟩
  have hmap := sortBy_map Prod.fst Edit.le edits.zipIdx
  rw [List.zipIdx_map_fst] at hmap
  exact hmap

/-- **There is one way to put a batch in order.** -/
theorem inOrder_iff {edits ordered : List Edit} : InOrder edits ordered ↔ ordered = sortBy Edit.le edits := by
  constructor
  · rintro ⟨placed, hperm, hpair, rfl⟩
    obtain ⟨placed', hperm', hpair', hmap⟩ := inOrder_sortBy edits
    have hsame : placed = placed' := by
      refine List.Perm.eq_of_pairwise (fun a b _ _ hab hba => ?_) hpair hpair' (hperm.trans hperm'.symm)
      unfold Edit.ComesBefore at hab hba
      omega
    rw [hsame, hmap]
  · rintro rfl
    exact inOrder_sortBy edits

/-! ## Listing a batch in another order -/

/-- Edits neither of which comes after the other have one range. -/
theorem range_eq_of_le {a b : Edit} (hab : Edit.le a b = true) (hba : Edit.le b a = true) : a.range = b.range := by
  rw [Edit.le_iff] at hab hba
  have hstart : a.range.start = b.range.start := by omega
  have hstop : a.range.stop = b.range.stop := by omega
  cases ha : a.range
  cases hb : b.range
  simp_all

/-- A batch is listed in another order, in which edits of one range keep theirs. -/
structure Reorders (edits edits' : List Edit) : Prop where
  perm : edits'.Perm edits
  stable : ∀ range : Span, edits'.filter (·.range = range) = edits.filter (·.range = range)

/-- Sorting keeps the order of edits of one range. -/
theorem filter_insertBy (range : Span) (e : Edit) : ∀ {es : List Edit}, es.Pairwise (fun a b => Edit.le a b = true) →
    (insertBy Edit.le e es).filter (·.range = range) = (e :: es).filter (·.range = range)
  | [], _ => rfl
  | d :: es, h => by
    obtain ⟨-, hes⟩ := List.pairwise_cons.1 h
    simp only [insertBy]
    split
    · rfl
    · rename_i hle
      have hne : e.range ≠ d.range := by
        intro heq
        rw [Edit.le_iff, heq] at hle
        omega
      have ih := filter_insertBy range e hes
      by_cases he : e.range = range
      · have hd : d.range ≠ range := fun hd => hne (he.trans hd.symm)
        simpa [List.filter_cons, he, hd] using ih
      · simp only [List.filter_cons, he, decide_false, Bool.false_eq_true, if_false] at ih ⊢
        rw [ih]

theorem filter_sortBy (range : Span) (edits : List Edit) :
    (sortBy Edit.le edits).filter (·.range = range) = edits.filter (·.range = range) := by
  induction edits with
  | nil => rfl
  | cons e es ih =>
    rw [sortBy, filter_insertBy range e (pairwise_sortBy Edit.le_trans Edit.le_total es), List.filter_cons,
      List.filter_cons, ih]

/-- Ordered lists that agree range by range are equal. -/
theorem eq_of_filter_eq : ∀ {as bs : List Edit}, as.Pairwise (fun a b => Edit.le a b = true) →
    bs.Pairwise (fun a b => Edit.le a b = true) →
    (∀ range : Span, as.filter (·.range = range) = bs.filter (·.range = range)) → as = bs
  | [], [], _, _, _ => rfl
  | [], b :: bs, _, _, h => by simpa using h b.range
  | a :: as, [], _, _, h => by simpa using h a.range
  | a :: as, b :: bs, ha, hb, h => by
    have hmem : ∀ e : Edit, e ∈ a :: as ↔ e ∈ b :: bs := fun e => by
      have he := congrArg (e ∈ ·) (h e.range)
      simpa only [List.mem_filter, decide_true, and_true, eq_iff_iff] using he
    obtain ⟨hfirst, has⟩ := List.pairwise_cons.1 ha
    obtain ⟨hfirst', hbs⟩ := List.pairwise_cons.1 hb
    -- Each of the two heads is an element of the other list, so neither comes after the other.
    have hrange : a.range = b.range := by
      rcases List.mem_cons.1 ((hmem a).1 (by simp)) with hab | hab
      · rw [hab]
      · rcases List.mem_cons.1 ((hmem b).2 (by simp)) with hba | hba
        · rw [hba]
        · exact range_eq_of_le (hfirst b hba) (hfirst' a hab)
    have hsame := h a.range
    simp only [List.filter_cons, decide_true, if_true, hrange] at hsame
    obtain ⟨rfl, -⟩ := List.cons.inj hsame
    have hrest : as = bs := eq_of_filter_eq has hbs fun range => by
      have hsame := h range
      simp only [List.filter_cons] at hsame
      split at hsame
      · exact (List.cons.inj hsame).2
      · exact hsame
    rw [hrest]

/-- **A batch may be listed in another order if edits of one range keep theirs.** -/
theorem sortBy_eq_of_reorders {edits edits' : List Edit} (h : Reorders edits edits') :
    sortBy Edit.le edits' = sortBy Edit.le edits :=
  eq_of_filter_eq (pairwise_sortBy Edit.le_trans Edit.le_total _) (pairwise_sortBy Edit.le_trans Edit.le_total _)
    fun range => by rw [filter_sortBy, filter_sortBy, h.stable]

/-! ## From the last edit to the first -/

/-- Of two first parts of a text the one of smaller size is a first part of the other. -/
theorem exists_append_of_size_le {a b c d : Text} (h : a ++ b = c ++ d) (hsize : size a ≤ size c) :
    ∃ m, c = a ++ m ∧ b = m ++ d := by
  rcases List.append_eq_append_iff.1 h with ⟨m, hc, hb⟩ | ⟨m, ha, hd⟩
  · exact ⟨m, hc, hb⟩
  · cases m with
    | nil => exact ⟨[], by simpa using ha.symm, by simpa using hd.symm⟩
    | cons e m =>
      have hpos := e.utf8Size_pos
      rw [ha, size_append, size_cons] at hsize
      omega

/-- A range that fits a text and begins behind a part of it covers a part of the rest. -/
theorem exists_parts_of_fits {t : Text} {s : Span} {before rest : Text} (ht : t = before ++ rest) (h : s.Fits t)
    (hstart : size before ≤ s.start) : ∃ kept old after, rest = kept ++ (old ++ after) ∧
      s.start = size before + size kept ∧ s.stop = s.start + size old := by
  obtain ⟨a, b, hab, ha⟩ := isBoundary_iff.1 h.startWhole
  obtain ⟨c, after, hcd, hc⟩ := isBoundary_iff.1 h.stopWhole
  obtain ⟨kept, rfl, rfl⟩ := exists_append_of_size_le (ht.symm.trans hab) (by omega)
  obtain ⟨old, rfl, rfl⟩ := exists_append_of_size_le (hab.symm.trans hcd) (by have := h.ordered; omega)
  simp only [size_append] at ha hc
  exact ⟨kept, old, after, rfl, by omega, by omega⟩

/-- What is spliced together is what the edits give from the last to the first: the text up to where the splicing
begins stays as it is. -/
theorem applyBackwards_splice {t : Text} : ∀ {edits : List Edit} (before rest : Text), t = before ++ rest →
    (∀ e ∈ edits, e.range.Fits t) → (∀ e ∈ edits, size before ≤ e.range.start) →
    (edits.Pairwise fun a b => a.range.stop ≤ b.range.start) →
      applyBackwards edits t = some (before ++ spliceEdits rest (size before) edits)
  | [], before, rest, ht, _, _, _ => by simp [applyBackwards, spliceEdits, ht]
  | e :: es, before, rest, ht, hfits, hstart, hpair => by
    obtain ⟨hafter, hpair⟩ := List.pairwise_cons.1 hpair
    obtain ⟨kept, old, after, rfl, hkept, hold⟩ :=
      exists_parts_of_fits ht (hfits e (by simp)) (hstart e (by simp))
    have hstop : size (before ++ kept ++ old) = e.range.stop := by
      rw [size_append, size_append, hold, hkept]
    have hrest := applyBackwards_splice (before ++ kept ++ old) after (by simpa using ht)
      (fun d hd => hfits d (by simp [hd])) (fun d hd => hstop ▸ hafter d hd) hpair
    have hrange : e.range = ⟨size (before ++ kept), size (before ++ kept) + size old⟩ := by
      cases hr : e.range
      simp_all
    have hsplit : (kept ++ (old ++ after)) = (kept ++ old) ++ after := by simp
    have hcut : Text.before (kept ++ (old ++ after)) (e.range.start - size before) = kept := by
      rw [hkept, Nat.add_sub_cancel_left, before_size_append]
    have hleft : Text.after (kept ++ (old ++ after)) (e.range.stop - size before) = after := by
      have hsize : e.range.stop - size before = size (kept ++ old) := by
        rw [hold, hkept, size_append]
        omega
      rw [hsplit, hsize, after_size_append]
    rw [applyBackwards, hrest, Option.bind_some, spliceEdits, hcut, hleft, hstop]
    have happly := applyTo?_parts (before ++ kept) old (spliceEdits after e.range.stop es) e.replacement
    rw [← hrange] at happly
    simpa using happly

/-! ## Insertions at one offset -/

/-- The edits of a batch that insert at an offset. -/
def insertionsAt (offset : Nat) (edits : List Edit) : List Edit :=
  edits.filter (·.range = ⟨offset, offset⟩)

/-- Splicing goes on behind the edits that have been spliced in. -/
theorem exists_spliceEdits_append (es : List Edit) : ∀ (ds : List Edit) (t : Text) (done : Nat),
    ∃ before t' done', spliceEdits t done (ds ++ es) = before ++ spliceEdits t' done' es
  | [], t, done => ⟨[], t, done, rfl⟩
  | d :: ds, t, done => by
    obtain ⟨before, t', done', h⟩ := exists_spliceEdits_append es ds (Text.after t (d.range.stop - done)) d.range.stop
    refine ⟨Text.before t (d.range.start - done) ++ d.replacement ++ before, t', done', ?_⟩
    rw [List.cons_append, spliceEdits, h]
    simp only [List.append_assoc]

/-- Texts that are inserted at one offset stand one behind the other. -/
theorem spliceEdits_insertions {offset : Nat} (es : List Edit) : ∀ {ds : List Edit} (t : Text),
    (∀ d ∈ ds, d.range = ⟨offset, offset⟩) →
      spliceEdits t offset (ds ++ es) = ds.flatMap (·.replacement) ++ spliceEdits t offset es
  | [], _, _ => rfl
  | d :: ds, t, h => by
    have hd := h d (by simp)
    have hbefore : Text.before t 0 = [] := by simp [Text.before, splitAt?_zero]
    have hafter : Text.after t 0 = t := by simp [Text.after, splitAt?_zero]
    rw [List.cons_append, spliceEdits, hd, Nat.sub_self, hbefore, hafter,
      spliceEdits_insertions es t fun e he => h e (by simp [he])]
    simp

/-- In an ordered batch the edits of one range stand together. -/
theorem exists_eq_append_filter (range : Span) : ∀ {es : List Edit}, es.Pairwise (fun a b => Edit.le a b = true) →
    ∃ xs ys, es = xs ++ es.filter (·.range = range) ++ ys ∧ ∀ x ∈ xs, x.range ≠ range
  | [], _ => ⟨[], [], rfl, by simp⟩
  | e :: es, h => by
    obtain ⟨hfirst, hes⟩ := List.pairwise_cons.1 h
    obtain ⟨xs, ys, heq, hxs⟩ := exists_eq_append_filter range hes
    by_cases he : e.range = range
    · by_cases hnone : es.filter (·.range = range) = []
      · exact ⟨[], es, by simp [he, hnone], by simp⟩
      · -- An edit between two of one range is of that range.
        have hxs : xs = [] := by
          refine List.eq_nil_iff_forall_not_mem.2 fun x hx => hxs x hx ?_
          obtain ⟨f, hf⟩ := List.exists_mem_of_ne_nil _ hnone
          have hxf : Edit.le x f = true := by
            rw [heq, List.append_assoc] at hes
            exact (List.pairwise_append.1 hes).2.2 x hx f (by simp [hf])
          have hfe : f.range = e.range := by simpa [he] using (List.mem_filter.1 hf).2
          have hex : Edit.le e x = true := hfirst x (heq ▸ by simp [hx])
          have hxe : Edit.le x e = true := by rwa [Edit.le_iff, hfe, ← Edit.le_iff] at hxf
          rw [← he, range_eq_of_le hex hxe]
        refine ⟨[], ys, ?_, by simp⟩
        rw [hxs] at heq
        simpa [he] using heq
    · refine ⟨e :: xs, ys, ?_, ?_⟩
      · simpa [he] using heq
      · simpa [he] using hxs

/-! ## Batches -/

/-- A batch that is applied gives what is spliced together from its edits in order. -/
theorem applyEdits_eq_ok_iff {t u : Text} {edits : List Edit} : applyEdits t edits = .ok u ↔
    findEditError t 0 (sortBy Edit.le edits) = none ∧ u = spliceEdits t 0 (sortBy Edit.le edits) := by
  simp only [applyEdits]
  split
  · rename_i fault hfault
    simp [hfault]
  · rename_i hnone
    simp [hnone, eq_comm]

/-- Texts that a batch inserts at one offset stand in the result in the order in which they are listed. -/
theorem infix_insertions {t u : Text} {edits : List Edit} (h : applyEdits t edits = .ok u) (offset : Nat) :
    (insertionsAt offset edits).flatMap (·.replacement) <:+: u := by
  obtain ⟨-, rfl⟩ := applyEdits_eq_ok_iff.1 h
  obtain ⟨xs, ys, heq, -⟩ :=
    exists_eq_append_filter ⟨offset, offset⟩ (pairwise_sortBy Edit.le_trans Edit.le_total edits)
  rw [filter_sortBy] at heq
  rw [heq, List.append_assoc]
  obtain ⟨before, t', done', hsplice⟩ := exists_spliceEdits_append (insertionsAt offset edits ++ ys) xs t 0
  rw [insertionsAt] at hsplice ⊢
  rw [hsplice]
  cases hins : edits.filter (·.range = ⟨offset, offset⟩) with
  | nil => exact List.nil_infix
  | cons d ds =>
    have hall : ∀ e ∈ d :: ds, e.range = ⟨offset, offset⟩ := fun e he => by
      rw [← hins] at he
      simpa using (List.mem_filter.1 he).2
    rw [List.cons_append, spliceEdits, hall d (by simp),
      spliceEdits_insertions ys _ fun e he => hall e (by simp [he])]
    refine ⟨before ++ Text.before t' (offset - done'), spliceEdits (Text.after t' (offset - done')) offset ys, ?_⟩
    simp

/-- **A batch of edits is applied as a whole or not at all.** It is applied if and only if its edits cover whole
characters and any two of them are apart. What it gives is what its edits give one at a time from the last to the first,
in the one order of start, end and place in the batch. The order in which edits of different ranges are listed does not
matter, and texts inserted at one offset stand in the order in which they are listed. -/
theorem applyEdits_atomic (t : Text) (edits : List Edit) :
    ((∃ u, applyEdits t edits = .ok u) ↔
      (∀ e ∈ edits, e.range.Fits t) ∧ edits.Pairwise fun a b => a.range.Apart b.range) ∧
    (∃ ordered, InOrder edits ordered) ∧
    ∀ u, applyEdits t edits = .ok u →
      (∀ ordered, InOrder edits ordered → applyBackwards ordered t = some u) ∧
      (∀ edits', Reorders edits edits' → applyEdits t edits' = .ok u) ∧
      ∀ offset, (insertionsAt offset edits).flatMap (·.replacement) <:+: u := by
  refine ⟨applyEdits_ok_iff t edits, ⟨_, inOrder_sortBy edits⟩, fun u hu => ⟨?_, ?_, infix_insertions hu⟩⟩
  · rintro ordered hordered
    obtain ⟨hnone, rfl⟩ := applyEdits_eq_ok_iff.1 hu
    obtain ⟨hfits, -, hpair⟩ := (findEditError_eq_none_iff t _ 0).1 hnone
    rw [inOrder_iff.1 hordered]
    exact applyBackwards_splice [] t rfl hfits (fun e _ => Nat.zero_le _) hpair
  · intro edits' hreorders
    rw [applyEdits_eq_ok_iff] at hu ⊢
    rwa [sortBy_eq_of_reorders hreorders]

end StyleHoist
