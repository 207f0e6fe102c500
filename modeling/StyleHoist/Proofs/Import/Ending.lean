import StyleHoist.Import.Patch
import StyleHoist.Proofs.Import.Scanning
import StyleHoist.Registry.Insertion
import StyleHoist.Script.File

/-!
# The end of the imports

The end of the imports is where the last statement of the scan ends (`endOfImports?_eq_some_iff`): the lines before it
can be read up to its beginning, statements being passed over as a whole (`ReadsUpTo`), and no line behind it reads as a
statement.

Registries and statements are inserted there. Whether that is behind the last import declaration of the file
(`InsertsBehind`) depends on how this declaration is written, and on lines of comments and literals that read as
imports (`insertsBehind_iff`).
-/

namespace StyleHoist

open Text ImportPiece

/-! ## Lines and statements -/

/-- Lines are read up to `rest`, which stands behind them: each of them does not read as a statement, or it begins with
one, which is passed over with what stands behind it on the line where it ends. -/
inductive ReadsUpTo (rest : Text) : Text → Prop
  | nil : ReadsUpTo rest []
  | line {l u : Text} (hline : '\n' ∉ l) (hreads : ¬ReadsImport (l ++ '\n' :: (u ++ rest))) (h : ReadsUpTo rest u) :
      ReadsUpTo rest (l ++ '\n' :: u)
  | statement {w : WrittenImport} {l u : Text} (hline : '\n' ∉ l) (hends : w.EndsBefore (l ++ '\n' :: (u ++ rest)))
      (h : ReadsUpTo rest u) : ReadsUpTo rest (w.text ++ (l ++ '\n' :: u))

/-- What a scan takes apart before a statement is read line by line. Behind a statement the line goes on. -/
theorem readsUpTo_of_isScan {w : WrittenImport} {back : List ImportPiece} : ∀ {front : List ImportPiece}
    {lineStart : Bool}, IsScan lineStart (front ++ .statement w :: back) →
      (lineStart = true → ReadsUpTo (w.text ++ textOf back) (textOf front)) ∧
        (lineStart = false → ∃ l u, textOf front = l ++ '\n' :: u ∧ '\n' ∉ l ∧ ReadsUpTo (w.text ++ textOf back) u)
  | [], lineStart, h => ⟨fun _ => .nil, fun hmid => absurd h.1 (by simp [hmid])⟩
  | .plain c :: front, lineStart, h => by
    obtain ⟨hstart, hmid⟩ := readsUpTo_of_isScan h.2
    have hlines : ∃ l u, textOf (.plain c :: front) = l ++ '\n' :: u ∧ '\n' ∉ l ∧
        ReadsUpTo (w.text ++ textOf back) u := by
      by_cases hc : c = '\n'
      · exact ⟨[], textOf front, by rw [hc]; rfl, by simp, hstart (by simp [hc])⟩
      · obtain ⟨l, u, heq, hl, hu⟩ := hmid (by simp [hc])
        exact ⟨c :: l, u, by rw [textOf_plain, heq]; rfl, by simp [hl, Ne.symm hc], hu⟩
    refine ⟨fun htrue => ?_, fun _ => hlines⟩
    obtain ⟨l, u, heq, hl, hu⟩ := hlines
    have hreads := h.1 htrue
    have htext : c :: textOf (front ++ .statement w :: back) = l ++ '\n' :: (u ++ (w.text ++ textOf back)) := by
      rw [← textOf_plain, ← List.cons_append, textOf_append, heq, textOf_statement, List.append_assoc]
      rfl
    rw [heq]
    exact .line hl (htext ▸ hreads) hu
  | .statement w' :: front, lineStart, h => by
    refine ⟨fun _ => ?_, fun hmid => absurd h.1 (by simp [hmid])⟩
    obtain ⟨l, u, heq, hl, hu⟩ := (readsUpTo_of_isScan h.2.2).2 rfl
    have hends : w'.EndsBefore (textOf (front ++ .statement w :: back)) := h.2.1
    rw [textOf_append, heq, textOf_statement, List.append_assoc, List.cons_append] at hends
    rw [textOf_statement, heq]
    exact .statement hl hends hu

theorem textOf_map_plain (l : Text) : textOf (l.map .plain) = l := by
  induction l with
  | nil => rfl
  | cons c l ih => rw [List.map_cons, textOf_plain, ih]

/-- The characters of a line are pieces of a scan. -/
theorem isScan_line {l : Text} {ps : List ImportPiece} (hl : '\n' ∉ l) (h : IsScan true ps) : ∀ {lineStart : Bool},
    (lineStart = true → ¬ReadsImport (l ++ '\n' :: textOf ps)) →
      IsScan lineStart (l.map .plain ++ .plain '\n' :: ps) := by
  induction l with
  | nil => exact fun hreads => ⟨hreads, h⟩
  | cons c l ih =>
    intro lineStart hreads
    rw [List.mem_cons, not_or] at hl
    have hc : (c == '\n') = false := by simpa using Ne.symm hl.1
    have htext : textOf (l.map .plain ++ .plain '\n' :: ps) = l ++ '\n' :: textOf ps := by
      rw [textOf_append, textOf_map_plain, textOf_plain]
    refine ⟨fun hstart => ?_, ih hl.2 fun hnewline => absurd hnewline (by simp [hc])⟩
    have hline : ¬ReadsImport (c :: (l ++ '\n' :: textOf ps)) := hreads hstart
    rwa [← htext] at hline

/-- Lines that are read up to a place are taken apart so that a scan takes up a line there. -/
theorem exists_isScan_of_readsUpTo {ps : List ImportPiece} (hps : IsScan true ps) {u : Text}
    (h : ReadsUpTo (textOf ps) u) : ∃ front, textOf front = u ∧ IsScan true (front ++ ps) := by
  induction h with
  | nil => exact ⟨[], rfl, hps⟩
  | @line l u hl hreads _ ih =>
    obtain ⟨front, rfl, hfront⟩ := ih
    refine ⟨l.map .plain ++ .plain '\n' :: front, by rw [textOf_append, textOf_map_plain, textOf_plain], ?_⟩
    rw [List.append_assoc]
    exact isScan_line hl hfront fun _ => by rwa [textOf_append]
  | @statement w l u hl hends _ ih =>
    obtain ⟨front, rfl, hfront⟩ := ih
    have hbehind : IsScan false (l.map .plain ++ .plain '\n' :: (front ++ ps)) := isScan_line hl hfront (by simp)
    refine ⟨.statement w :: (l.map .plain ++ .plain '\n' :: front), ?_, ?_⟩
    · rw [textOf_statement, textOf_append, textOf_map_plain, textOf_plain]
    · rw [List.cons_append, List.append_assoc]
      refine ⟨rfl, ?_, hbehind⟩
      rwa [textOf_append, textOf_map_plain, List.cons_append, textOf_plain, textOf_append]

/-- Pieces without a statement are those of a text of which no line reads as one. -/
theorem statementsOf_eq_nil_iff {offset : Nat} : ∀ {ps : List ImportPiece} {lineStart : Bool}, IsScan lineStart ps →
    (statementsOf offset ps = [] ↔ (lineStart = true → ¬ReadsImport (textOf ps)) ∧
      ∀ x y, textOf ps = x ++ '\n' :: y → ¬ReadsImport y)
  | [], lineStart, _ => by
    refine iff_of_true rfl ⟨fun _ => ?_, fun x y h => by simp at h⟩
    rintro ⟨w, rest, hline, -⟩
    exact w.text_ne_nil (List.append_eq_nil_iff.1 hline.symm).1
  | .plain c :: ps, lineStart, h => by
    have ih := @statementsOf_eq_nil_iff (offset + c.utf8Size) ps (c == '\n') h.2
    simp only [statementsOf, ih, textOf_plain]
    constructor
    · rintro ⟨hfirst, hlines⟩
      refine ⟨h.1, fun x y hxy => ?_⟩
      cases x with
      | nil =>
        obtain ⟨rfl, rfl⟩ := List.cons.inj hxy
        exact hfirst rfl
      | cons d x => exact hlines x y (List.cons.inj hxy).2
    · rintro ⟨-, hlines⟩
      refine ⟨fun hc => ?_, fun x y hxy => hlines (c :: x) y (by rw [hxy]; rfl)⟩
      obtain rfl := beq_iff_eq.1 hc
      exact hlines [] _ rfl
  | .statement w :: ps, lineStart, h => by
    exact iff_of_false (by simp [statementsOf]) fun hnone => hnone.1 h.1 ⟨w, textOf ps, rfl, h.2.1⟩

/-! ## The last statement -/

/-- The last statement of a text ends at an offset: lines can be read up to the beginning of one that ends there, and no
line behind it reads as one. -/
def EndsLastImport (t : Text) (offset : Nat) : Prop :=
  ∃ (u v : Text) (w : WrittenImport), t = u ++ (w.text ++ v) ∧ size (u ++ w.text) = offset ∧
    ReadsUpTo (w.text ++ v) u ∧ w.EndsBefore v ∧ ∀ x y, v = x ++ '\n' :: y → ¬ReadsImport y

theorem endsLastImport_of_endOfImports? {t : Text} {offset : Nat} (h : endOfImports? t = some offset) :
    EndsLastImport t offset := by
  obtain ⟨s, hs, rfl⟩ := Option.map_eq_some_iff.1 h
  obtain ⟨before, hbefore⟩ := List.getLast?_eq_some_iff.1 hs
  obtain ⟨front, w, back, rfl, hscan, rfl, rfl, hback⟩ := exists_isScan_of_importsIn_eq hbefore
  obtain ⟨lineStart, -, hends, hrest⟩ := hscan.behind
  exact ⟨textOf front, textOf back, w, by simp, by simp [WrittenImport.statement], (readsUpTo_of_isScan hscan).1 rfl,
    hends, ((statementsOf_eq_nil_iff hrest).1 hback.symm).2⟩

/-- The imports of a text end at a statement behind which no line reads as one. -/
theorem endOfImports?_textOf {front back : List ImportPiece} {w : WrittenImport}
    (h : IsScan true (front ++ .statement w :: back)) (hlines : ∀ x y, textOf back = x ++ '\n' :: y → ¬ReadsImport y) :
    endOfImports? (textOf (front ++ .statement w :: back)) = some (size (textOf front) + size w.text) := by
  obtain ⟨lineStart, hback⟩ := h.behind
  have hnone : statementsOf (size (textOf front) + size w.text) back = [] :=
    (statementsOf_eq_nil_iff hback.2.2).2 ⟨by simp, hlines⟩
  rw [endOfImports?, importsIn_textOf h, statementsOf_append, statementsOf, Nat.zero_add, hnone]
  simp [WrittenImport.statement]

theorem endOfImports?_of_endsLastImport {t : Text} {offset : Nat} (h : EndsLastImport t offset) :
    endOfImports? t = some offset := by
  obtain ⟨u, v, w, rfl, rfl, hreads, hends, hlines⟩ := h
  obtain ⟨back, rfl, hback⟩ := exists_isScan false v
  have hscan : IsScan true (.statement w :: back) := ⟨rfl, hends, hback⟩
  obtain ⟨front, rfl, hfront⟩ := exists_isScan_of_readsUpTo hscan hreads
  have hend := endOfImports?_textOf hfront hlines
  rwa [textOf_append, textOf_statement, ← size_append] at hend

/-- **The end of the imports is where the last statement ends.** -/
theorem endOfImports?_eq_some_iff {t : Text} {offset : Nat} : endOfImports? t = some offset ↔ EndsLastImport t offset :=
  ⟨endsLastImport_of_endOfImports?, endOfImports?_of_endsLastImport⟩

/-! ## Import declarations -/

/-- The first tokens of a text. -/
def tokensFrom : (count : Nat) → (offset : Nat) → Text → List Script.Token
  | 0, _, _ => []
  | count + 1, offset, t =>
    let l := Script.Scanner.code.lexeme offset t
    l.token :: tokensFrom count l.span.stop l.rest

/-- Whether an item of a file, which covers the given text, is an import declaration: it has the keyword for it, and it
does not give another name to something. -/
def declaresImport (kind : Script.Kind) (covered : Text) : Bool :=
  kind == .form &&
    match tokensFrom 4 0 covered with
    | .word .kwImport _ :: ts => !ts.contains (.punct .assign)
    | _ => false

/-- An item of a file. -/
structure FileItem where
  /-- The range that it covers, counted from the beginning of the file. -/
  range : Span
  isImport : Bool
deriving DecidableEq, Repr

/-- The item that a node stands for; the offsets of nodes count from the end of a byte-order mark. -/
def FileItem.ofNode (t : Text) (n : Script.Node) : FileItem where
  range := ⟨n.span.start + (size t - size (Script.dropMark t)), n.span.stop + (size t - size (Script.dropMark t))⟩
  isImport := (slice? (Script.dropMark t) n.span.start n.span.stop).any (declaresImport n.kind)

/-- The items of a file, none if it cannot be read. -/
def fileItems (path : String) (t : Text) : List FileItem :=
  match Script.itemsOfFile path t with
  | .ok items => items.map (FileItem.ofNode t)
  | .error _ => []

/-- The last import declaration of a file. -/
def lastImport? (path : String) (t : Text) : Option FileItem :=
  ((fileItems path t).filter (·.isImport)).getLast?

/-- Registries and statements that go behind the imports are inserted at an offset, and no item is parted there. -/
structure InsertsBehind (path : String) (t : Text) (offset : Nat) : Prop where
  imports : endOfImports? t = some offset
  registry : ∀ name entries, createRegistry t name entries .afterImports =
    .insertion offset ("\n\n".toList ++ declarationText name entries)
  statement : mentions registryFactory t = false → joinableClause? (importsIn t) = none →
    importEdit t = .ok (some (.insertion offset ('\n' :: importText)))
  between : ∀ item ∈ fileItems path t, item.range.stop ≤ offset ∨ offset ≤ item.range.start

theorem range_ordered_of_isImport {path : String} {t : Text} {item : FileItem} (h : item ∈ fileItems path t)
    (himport : item.isImport = true) : item.range.start ≤ item.range.stop := by
  simp only [fileItems] at h
  split at h
  · obtain ⟨n, -, rfl⟩ := List.mem_map.1 h
    obtain ⟨covered, hcovered, -⟩ := (Option.any_eq_true ..).1 himport
    simp only [slice?] at hcovered
    split at hcovered
    · simp only [FileItem.ofNode]
      omega
    · cases hcovered
  · cases h

/-- Where the items of a file follow one another, none of them is parted at the end of another. -/
theorem stop_le_or_le_start {items : List FileItem} (horder : items.Pairwise fun a b => a.range.stop ≤ b.range.start)
    {item item' : FileItem} (hitem : item ∈ items) (hordered : item.range.start ≤ item.range.stop)
    (hitem' : item' ∈ items) :
    item'.range.stop ≤ item.range.stop ∨ item.range.stop ≤ item'.range.start := by
  obtain ⟨before, after, rfl⟩ := List.append_of_mem hitem
  obtain ⟨-, hafter, hacross⟩ := List.pairwise_append.1 horder
  rcases List.mem_append.1 hitem' with hin | hin
  · have := hacross item' hin item (by simp)
    omega
  · rcases List.mem_cons.1 hin with rfl | hin
    · exact Or.inl (Nat.le_refl _)
    · exact Or.inr ((List.pairwise_cons.1 hafter).1 item' hin)

/-- **What goes behind the imports is inserted behind the last import declaration if and only if the last statement of the
text ends there.** -/
theorem insertsBehind_iff {path : String} {t : Text} {last : FileItem}
    (horder : (fileItems path t).Pairwise fun a b => a.range.stop ≤ b.range.start) (hlast : lastImport? path t = some last) :
    InsertsBehind path t last.range.stop ↔ EndsLastImport t last.range.stop := by
  refine ⟨fun h => endOfImports?_eq_some_iff.1 h.imports, fun h => ?_⟩
  have himports := endOfImports?_eq_some_iff.2 h
  obtain ⟨hmem, himport⟩ := List.mem_filter.1 (List.mem_of_getLast? hlast)
  refine ⟨himports, fun name entries => ?_, fun hmentions hjoinable => ?_, fun item hitem => ?_⟩
  · simp only [createRegistry, himports]
  · simp only [importEdit, hmentions, hjoinable, himports]
    rfl
  · exact stop_le_or_le_start horder hmem (range_ordered_of_isImport hmem himport) hitem

/-- A comment behind one declaration, and a list over several lines in the next. -/
theorem insertsBehind_listOverLines :
    InsertsBehind "App.tsx" "import a from 'a'; // a\nimport \x7b\n\tb,\n\x7d from 'b';\nb;\n".toList 48 :=
  (@insertsBehind_iff "App.tsx" _ ⟨⟨24, 48⟩, true⟩ (by decide +kernel) (by decide +kernel)).2
    (endOfImports?_eq_some_iff.1 (by decide +kernel))

/-- A line of a template that reads as an import is taken for the last one. -/
theorem not_insertsBehind_template :
    lastImport? "App.tsx" "import a from 'a';\nconst t = \x60\nimport b from 'b';\n\x60;\n".toList = some ⟨⟨0, 18⟩, true⟩ ∧
      ¬InsertsBehind "App.tsx" "import a from 'a';\nconst t = \x60\nimport b from 'b';\n\x60;\n".toList 18 :=
  ⟨by decide +kernel, fun h => absurd h.imports (by decide +kernel)⟩

end StyleHoist
